import SchemaLang.Proofs.Arena.Growth

/-!
# The trees below a script

While a script is read, its nodes are trees: the one below the script itself, and those whose top
waits for an owner. Every node of the script is in one of them, at one place, and its parent is the
node that owns it; and what a node owns lies below it, so that no way down comes back.

* `Arena.Forest`: the invariant, with the list of the nodes that wait.
* `Forest.change`, `Forest.alloc`, `Forest.enterType`: the three kinds of steps that reading takes.
  Each of them keeps the invariant and changes nothing but what is below the script.
* `Arena.Fit`: what a node is made of, once it is complete.
-/

namespace SchemaLang.Arena

variable {a b : Arena} {n m p s : Nat} {served : NodeId → Prop} {loose : List NodeId}

/-! ## What a node is made of -/

/-- The values of an enum have their names and lie in the range of its storage. The first one is the
default. -/
structure EnumFit (a : Arena) (decl : Enumeration) : Prop where
  default_eq : decl.default = decl.values.nodes.head?
  values : ∀ entry ∈ decl.values.entries.toList, a.name entry.2 = entry.1 ∧
    ∃ value, a.kind entry.2 = .enumValue value ∧ decl.base.contains value.toInt = true

theorem EnumFit.default_mem {decl : Enumeration} (h : EnumFit a decl) (hn : decl.default = some n) :
    n ∈ decl.values.nodes :=
  List.mem_of_mem_head? (h.default_eq ▸ hn)

/-- The fields of a table have different names, and their places are their ids. -/
structure TableFit (a : Arena) (decl : Table) : Prop where
  count : decl.fields.size ≤ 65535
  fields : ∀ (i : Nat) (h : i < decl.fields.size), ∃ type,
    a.kind decl.fields[i] = .field ⟨UInt16.ofNat i, type⟩
  distinct : (decl.fields.toList.map a.name).Nodup

/-- The methods of a contract have their names, and their places are their ids. None is inherited
yet. -/
structure ContractFit (a : Arena) (decl : Contract) : Prop where
  flattened : decl.flattened = false
  bases : ∀ r ∈ decl.bases.toList, (a.kind r).level = 0
  methods : ∀ (i : Nat) (entry : String × NodeId), decl.methods.entries.toList[i]? = some entry →
    a.name entry.2 = entry.1 ∧ ∃ method, a.kind entry.2 = .method method ∧ method.id = UInt16.ofNat i

/-- A literal, a reference or a union of such. -/
def Operand (a : Arena) (node : NodeId) : Prop :=
  node < a.size ∧ (a.kind node).level ≤ 1

/-- A kind as reading leaves it: it is made of nodes of the right kinds, references are not bound,
contracts have methods of their own only and are not flattened, and an import stands for a package
that the host has served. -/
def Fit (served : NodeId → Prop) (a : Arena) : NodeKind → Prop
  | .package _ | .script _ => False
  | .packageRef package => (a.kind package).level = 8 ∧ served package
  | .typeRef reference => reference.target = none
  | .enum decl => EnumFit a decl
  | .table decl => TableFit a decl
  | .field decl | .param decl => (a.kind decl.type).isType = true
  | .contract decl => ContractFit a decl
  | .method decl => ∀ slot ∈ decl.params.toList ++ decl.results.toList, (a.kind slot).level = 4
  | .attr decl => (a.kind decl.type).level = 0 ∧ ∀ args, decl.args = some args →
      (a.kind args).level = 2
  | .args items => ∀ x ∈ items.toList, a.Operand x
  | .namedArgs items => ∀ x ∈ items.nodes, a.Operand x
  | .array length element => 1 ≤ length.toNat ∧ (a.kind element).isType = true ∧
      (a.kind element).isSequence = false
  | .list element => (a.kind element).isType = true ∧ (a.kind element).isSequence = false
  | .map key value => (a.kind key).level = 0 ∧ (a.kind value).level = 0
  | .union left right => a.Operand left ∧ a.Operand right
  | .enumValue _ | .string _ | .int _ | .float _ | .bool _ => True

theorem Fit.level_lt {kind : NodeKind} (h : Fit served a kind) : kind.level < 7 := by
  cases kind <;> first | exact h.elim | simp [NodeKind.level]

theorem TableFit.kind_field {decl : Table} (hf : TableFit a decl) (hn : n ∈ decl.fields.toList) :
    ∃ field, a.kind n = .field field := by
  obtain ⟨i, hi, rfl⟩ := List.getElem_of_mem hn
  obtain ⟨type, hk⟩ := hf.fields i (by simpa using hi)
  exact ⟨_, by rw [Array.getElem_toList, hk]⟩

theorem TableFit.lt_size {decl : Table} (hf : TableFit a decl) (hn : n ∈ decl.fields.toList) :
    n < a.size := by
  obtain ⟨field, hk⟩ := hf.kind_field hn
  exact lt_size_of_kind (by rw [hk]; exact (by decide : (5 : Nat) ≠ 1))

theorem ContractFit.isMethod {decl : Contract} (hf : ContractFit a decl)
    (hn : n ∈ decl.methods.nodes) : (a.method? n).isSome := by
  obtain ⟨entry, he, rfl⟩ := List.mem_map.1 hn
  obtain ⟨i, hi, hget⟩ := List.getElem_of_mem he
  obtain ⟨-, method, hk, -⟩ := hf.methods i entry (List.getElem?_eq_some_iff.2 ⟨hi, hget⟩)
  rw [method?_eq_some.2 hk]
  rfl

section

variable (h : Stays a b)

include h

theorem Stays.level_eq {k : Nat} (hk : k ≠ 1) (hn : (a.kind n).level = k) :
    (b.kind n).level = k :=
  (h.level (lt_size_of_kind (hn ▸ hk))).trans hn

theorem Stays.steady {kind : NodeKind} (hs : kind.isSteady = true) (hl : kind.level ≠ 1)
    (hn : a.kind n = kind) : b.kind n = kind :=
  ((h.grown n (lt_size_of_kind (by rwa [hn]))).steady (by rwa [hn])).trans hn

theorem Stays.isType (hn : (a.kind n).isType = true) : (b.kind n).isType = true := by
  have hlt : n < a.size := lt_size_of_kind fun hl => by
    revert hn hl
    cases a.kind n <;> simp [NodeKind.isType, NodeKind.level]
  rw [NodeKind.isType_congr (h.shape hlt), hn]

theorem Stays.element (hn : (a.kind n).isType = true ∧ (a.kind n).isSequence = false) :
    (b.kind n).isType = true ∧ (b.kind n).isSequence = false := by
  have hlt : n < a.size := lt_size_of_kind fun hl => by
    revert hn hl
    cases a.kind n <;> simp [NodeKind.isType, NodeKind.level]
  exact ⟨h.isType hn.1, by rw [NodeKind.isSequence_congr (h.shape hlt), hn.2]⟩

theorem Stays.operand (hsize : a.size ≤ b.size) (hn : a.Operand n) : b.Operand n :=
  ⟨Nat.lt_of_lt_of_le hn.1 hsize, (h.level hn.1).symm ▸ hn.2⟩

theorem EnumFit.congr {decl : Enumeration} (hf : EnumFit a decl) : EnumFit b decl where
  default_eq := hf.default_eq
  values entry he := by
    obtain ⟨hname, value, hk, hv⟩ := hf.values entry he
    have hlt : entry.2 < a.size := lt_size_of_kind (by rw [hk]; exact (by decide : (5 : Nat) ≠ 1))
    exact ⟨(h.name_eq _ hlt).trans hname, value,
      h.steady rfl (by exact (by decide : (5 : Nat) ≠ 1)) hk, hv⟩

theorem TableFit.congr {decl : Table} (hf : TableFit a decl) : TableFit b decl where
  count := hf.count
  fields i hi := by
    obtain ⟨type, hk⟩ := hf.fields i hi
    exact ⟨type, h.steady rfl (by exact (by decide : (5 : Nat) ≠ 1)) hk⟩
  distinct := by
    have hnames : decl.fields.toList.map b.name = decl.fields.toList.map a.name := by
      exact List.map_congr_left fun x hx => h.name_eq _ (hf.lt_size hx)
    rw [hnames]
    exact hf.distinct

theorem ContractFit.congr {decl : Contract} (hf : ContractFit a decl) : ContractFit b decl where
  flattened := hf.flattened
  bases r hr := h.level_eq (by decide) (hf.bases r hr)
  methods i entry he := by
    obtain ⟨hname, method, hk, hid⟩ := hf.methods i entry he
    have hlt : entry.2 < a.size := lt_size_of_kind (by rw [hk]; exact (by decide : (5 : Nat) ≠ 1))
    have hgrown := h.grown entry.2 hlt
    rw [hk] at hgrown
    obtain ⟨method', hk'⟩ := NodeKind.method_of_ctorIdx hgrown.shape
    exact ⟨(h.name_eq _ hlt).trans hname, method', hk', (hgrown.number method method' rfl hk').trans hid⟩

theorem Fit.congr {kind : NodeKind} (hsize : a.size ≤ b.size) (hf : Fit served a kind) :
    Fit served b kind := by
  cases kind with
  | packageRef package => exact ⟨h.level_eq (by decide) hf.1, hf.2⟩
  | enum decl => exact EnumFit.congr h hf
  | table decl => exact TableFit.congr h hf
  | field decl => exact h.isType hf
  | param decl => exact h.isType hf
  | contract decl => exact ContractFit.congr h hf
  | method decl => exact fun slot hs => h.level_eq (by decide) (hf slot hs)
  | attr decl =>
    exact ⟨h.level_eq (by decide) hf.1, fun args ha => h.level_eq (by decide) (hf.2 args ha)⟩
  | args items => exact fun x hx => h.operand hsize (hf x hx)
  | namedArgs items => exact fun x hx => h.operand hsize (hf x hx)
  | array length element => exact ⟨hf.1, h.element hf.2⟩
  | list element => exact h.element hf
  | map key value => exact ⟨h.level_eq (by decide) hf.1, h.level_eq (by decide) hf.2⟩
  | union left right => exact ⟨h.operand hsize hf.1, h.operand hsize hf.2⟩
  | _ => exact hf

end

/-! ## The invariant -/

/-- A script of the package: its types are types of the package, and its aliases are imports. -/
structure ScriptFit (package : NodeId) (a : Arena) (decl : Script) : Prop where
  package_eq : decl.package = package
  types : ∀ t ∈ decl.types.toList, t ∈ a.typesOf package
  imports : ∀ r ∈ decl.imports.nodes, (a.packageRef? r).isSome

/-- The types that a script lists. -/
def scriptTypes (a : Arena) (script : NodeId) : List NodeId :=
  match a.script? script with
  | some decl => decl.types.toList
  | none => []

theorem scriptTypes_eq {decl : Script} (h : a.kind s = .script decl) :
    a.scriptTypes s = decl.types.toList := by
  unfold scriptTypes
  rw [script?_eq_some.2 h]

theorem scriptTypes_congr (h : b.node s = a.node s) : b.scriptTypes s = a.scriptTypes s := by
  unfold scriptTypes script? kind
  rw [h]

/-- The nodes of a script while it is read. The nodes of `loose` wait for an owner. -/
structure Forest (package script : NodeId) (served : NodeId → Prop) (a : Arena)
    (loose : List NodeId) : Prop where
  isPackage : ∃ decl, a.kind package = .package decl
  isScript : ∃ decl, a.kind script = .script decl ∧ ScriptFit package a decl
  child : ∀ m n : Nat, a.Owner script m → n ∈ a.children m → a.Own script n ∧ a.Under m n
  tied : ∀ m n : Nat, a.Owner script m → n ∈ a.children m → (a.node n).parent = some m
  single : ∀ m : Nat, a.Owner script m → (a.children m).Nodup
  covered : ∀ n : Nat, a.Own script n → n ∈ loose ∨ ∃ m, a.Owner script m ∧ n ∈ a.children m
  fit : ∀ n : Nat, a.Own script n → Fit served a (a.kind n)
  dressed : ∀ m c : Nat, a.Owner script m → c ∈ (a.node m).attrs →
    (a.attr? c).isSome ∧ (a.kind m).carries = true
  listed : ∀ t ∈ a.typesOf package, t < a.size
  registered : ∀ t ∈ a.typesOf package, a.Own script t →
    (a.kind t).level = 6 ∧ (t ∈ loose ∨ t ∈ a.scriptTypes script)
  held : ∀ n ∈ loose, a.Own script n
  apart : ∀ n ∈ loose, ∀ m : Nat, a.Owner script m → n ∉ a.children m
  distinct : loose.Nodup

theorem Under.ne (h : a.Under m n) : n ≠ m := by
  rintro rfl
  rcases h with h | ⟨-, -, h⟩ <;> exact Nat.lt_irrefl _ h

theorem attr?_isSome_congr (h : (b.kind n).ctorIdx = (a.kind n).ctorIdx)
    (ha : (a.attr? n).isSome) : (b.attr? n).isSome := by
  obtain ⟨decl, hd⟩ := Option.isSome_iff_exists.1 ha
  rw [attr?_eq_some] at hd
  rw [hd] at h
  obtain ⟨decl', hd'⟩ := NodeKind.attr_of_ctorIdx h
  rw [attr?_eq_some.2 hd']
  rfl

theorem lt_size_of_attr (h : (a.attr? n).isSome) : n < a.size := by
  refine lt_size_of_kind fun hl => ?_
  revert h hl
  unfold attr?
  cases a.kind n <;> simp [NodeKind.level]

namespace Forest

theorem level_lt (h : Forest p s served a loose) (hn : a.Own s n) : (a.kind n).level < 7 :=
  (h.fit n hn).level_lt

theorem owner_lt_size (h : Forest p s served a loose) (hm : a.Owner s m) : m < a.size := by
  rcases hm with rfl | hm
  · obtain ⟨decl, hd, -⟩ := h.isScript
    exact lt_size_of_kind (by rw [hd]; simp [NodeKind.level])
  · exact hm.lt_size

theorem package_ne (h : Forest p s served a loose) (hm : a.Owner s m) : m ≠ p := by
  rintro rfl
  obtain ⟨decl, hd⟩ := h.isPackage
  rcases hm with rfl | hm
  · obtain ⟨decl', hd', -⟩ := h.isScript
    rw [hd] at hd'
    cases hd'
  · have hl := h.level_lt hm
    rw [hd] at hl
    simp [NodeKind.level] at hl

theorem script_ne (h : Forest p s served a loose) (hm : a.Own s m) : m ≠ s := by
  rintro rfl
  obtain ⟨decl, hd, -⟩ := h.isScript
  have hl := h.level_lt hm
  rw [hd] at hl
  simp [NodeKind.level] at hl

/-- When nothing waits, the parent of a node is the script or one of its nodes. -/
theorem parent (h : Forest p s served a []) (n m : Nat) (hn : a.Own s n)
    (hm : (a.node n).parent = some m) : a.Owner s m := by
  rcases h.covered n hn with hw | ⟨o, ho, hc⟩
  · cases hw
  · rw [h.tied o n ho hc] at hm
    cases hm
    exact ho

/-- The order in which nodes wait does not matter. -/
theorem perm (h : Forest p s served a loose) {loose' : List NodeId} (hl : loose.Perm loose') :
    Forest p s served a loose' where
  isPackage := h.isPackage
  isScript := h.isScript
  child := h.child
  tied := h.tied
  single := h.single
  covered n hn := (h.covered n hn).imp hl.mem_iff.1 id
  fit := h.fit
  dressed := h.dressed
  listed := h.listed
  registered t ht ho := (h.registered t ht ho).imp id (Or.imp hl.mem_iff.1 id)
  held n hn := h.held n (hl.mem_iff.2 hn)
  apart n hn := h.apart n (hl.mem_iff.2 hn)
  distinct := hl.nodup_iff.1 h.distinct

theorem swap (h : Forest p s served a (n :: m :: loose)) : Forest p s served a (m :: n :: loose) :=
  h.perm (.swap ..)

/-- What matters about the packages that are served is that the imports of the script stand for such. -/
theorem reserve {served' : NodeId → Prop} (h : Forest p s served a loose)
    (hs : ∀ n q : Nat, a.Own s n → a.kind n = .packageRef q → served' q) :
    Forest p s served' a loose where
  isPackage := h.isPackage
  isScript := h.isScript
  child := h.child
  tied := h.tied
  single := h.single
  covered := h.covered
  fit n hn := by
    have hf := h.fit n hn
    have hq := fun q => hs n q hn
    generalize a.kind n = kind at hf hq ⊢
    cases kind <;> first | exact hf | exact ⟨hf.1, hq _ rfl⟩
  dressed := h.dressed
  listed := h.listed
  registered := h.registered
  held := h.held
  apart := h.apart
  distinct := h.distinct

theorem mono {served' : NodeId → Prop} (h : Forest p s served a loose)
    (hs : ∀ q, served q → served' q) : Forest p s served' a loose :=
  h.reserve fun n q hn hk => hs q (by
    have hf := h.fit n hn
    rw [hk] at hf
    exact hf.2)

end Forest

/-! ## Changing a node -/

theorem typesOf_congr (h : b.node p = a.node p) : b.typesOf p = a.typesOf p := by
  unfold typesOf package? kind
  rw [h]

theorem typeEntries_congr (h : b.node p = a.node p) : b.typeEntries p = a.typeEntries p := by
  unfold typeEntries package? kind
  rw [h]

theorem packageRef?_isSome_congr (h : (b.kind n).ctorIdx = (a.kind n).ctorIdx)
    (hr : (a.packageRef? n).isSome) : (b.packageRef? n).isSome := by
  obtain ⟨target, ht⟩ := Option.isSome_iff_exists.1 hr
  rw [packageRef?_eq_some] at ht
  rw [ht] at h
  obtain ⟨target', ht'⟩ := NodeKind.packageRef_of_ctorIdx h
  rw [packageRef?_eq_some.2 ht']
  rfl

theorem ScriptFit.congr {decl : Script} (h : ScriptFit p a decl)
    (ht : ∀ t ∈ a.typesOf p, t ∈ b.typesOf p) (hk : Stays a b) : ScriptFit p b decl where
  package_eq := h.package_eq
  types t hm := ht t (h.types t hm)
  imports r hr := by
    have hi := h.imports r hr
    obtain ⟨target, hk'⟩ := Option.isSome_iff_exists.1 hi
    have hlt : r < a.size := lt_size_of_kind (by
      rw [packageRef?_eq_some.1 hk']
      simp [NodeKind.level])
    exact packageRef?_isSome_congr (hk.shape hlt) hi

/-- How a node below a script may change: it stays what it is, and the nodes of `added`, which have
waited, join those that it owns. Its parent may change while it waits itself. -/
structure Tended (package script : NodeId) (served : NodeId → Prop) (a : Arena)
    (added loose : List NodeId) (m : NodeId) (x : Node) : Prop where
  name_eq : x.name = (a.node m).name
  script_eq : x.script = (a.node m).script
  grown : (a.kind m).Grown x.kind
  parent : x.parent = (a.node m).parent ∨ m ∈ loose
  children : x.children.Perm (added ++ a.children m)
  under : ∀ c ∈ added, a.Under m c ∧ (a.node c).parent = some m
  dressed : ∀ c ∈ x.attrs, c ∈ (a.node m).attrs ∨ (a.attr? c).isSome ∧ (a.kind m).carries = true
  scriptFit : ∀ decl, m = script → x.kind = .script decl → ScriptFit package a decl ∧
    (∀ t ∈ a.scriptTypes script, t ∈ decl.types.toList) ∧
      ∀ t ∈ added, (a.kind t).level = 6 → t ∈ decl.types.toList
  fit : a.Own script m → Fit served a x.kind

theorem Forest.builds_change {x : Node} {added : List NodeId}
    (h : Forest p s served a (added ++ loose)) (hc : Changed a b m x) (hm : a.Owner s m)
    (ht : Tended p s served a added loose m x) : Builds p s a b := by
  have hne := h.package_ne hm
  have hnode : b.node p = a.node p := hc.node_ne fun e => hne e.symm
  have hscript : ∀ d, a.kind m = .script d → ∃ d', x.kind = .script d' ∧ d'.package = d.package := by
    intro d hd
    rcases hm with rfl | hm
    · have hshape := ht.grown.shape
      rw [hd] at hshape
      obtain ⟨d', hd'⟩ := NodeKind.script_of_ctorIdx hshape
      obtain ⟨d₀, hd₀, hf₀⟩ := h.isScript
      rw [hd] at hd₀
      cases hd₀
      exact ⟨d', hd', (ht.scriptFit d' rfl hd').1.package_eq.trans hf₀.package_eq.symm⟩
    · have hl := h.level_lt hm
      rw [hd] at hl
      simp [NodeKind.level] at hl
  have hnew : ∀ n, a.size ≤ n → ¬ n < b.size := fun n hn => by
    rw [hc.size_eq]
    exact Nat.not_lt.2 hn
  refine ⟨⟨⟨⟨?_, fun n _ => hc.name_eq ht.name_eq n⟩, Nat.le_of_eq hc.size_eq.symm, ?_, ?_, ?_, ?_,
    ?_, ?_, ⟨by rw [hnode], by rw [hnode], ?_⟩, fun n hn hn' => absurd hn' (hnew n hn)⟩,
    fun n hn hn' => absurd hn' (hnew n hn)⟩, fun n hn hn' => absurd hn' (hnew n hn)⟩
  · intro n _
    by_cases hn : n = m
    · unfold kind
      rw [hn, hc.node_self]
      exact ht.grown
    · unfold kind
      rw [hc.node_ne hn]
      exact .refl _
  · intro n _ _ ho
    exact hc.node_ne fun e => ho (e ▸ hm)
  · exact fun n _ => hc.script_eq ht.script_eq n
  · exact fun n _ => hc.homes ht.script_eq ht.grown.shape hscript n
  · unfold package? kind
    rw [hnode]
  · intro t hmem
    rw [typesOf_congr hnode]
    exact hmem
  · intro entry hmem
    rw [typeEntries_congr hnode] at hmem
    exact Or.inl hmem
  · by_cases hs : s = m
    · subst hs
      rw [hc.node_self]
      exact ht.parent.resolve_right fun hl =>
        h.script_ne (h.held s (List.mem_append_right _ hl)) rfl
    · rw [hc.node_ne hs]

/-- Changing a node below the script. -/
theorem Forest.change {x : Node} (added : List NodeId)
    (h : Forest p s served a (added ++ loose)) (hc : Changed a b m x) (hm : a.Owner s m)
    (ht : Tended p s served a added loose m x) : Builds p s a b ∧ Forest p s served b loose := by
  have hb := h.builds_change hc hm ht
  have hsize := hb.size_le
  have hnode : b.node p = a.node p := hc.node_ne fun e => h.package_ne hm e.symm
  have hown : ∀ n, b.Own s n ↔ a.Own s n := fun n => by
    unfold Own
    rw [hc.script_eq ht.script_eq]
  have howner : ∀ n, b.Owner s n ↔ a.Owner s n := fun n => by
    unfold Owner
    rw [hown]
  have hlevel := hc.level ht.grown.shape
  have hchildren : ∀ n, n ≠ m → b.children n = a.children n := fun n hn => by
    unfold children
    rw [hc.node_ne hn]
  have hself : b.children m = x.children := by
    unfold children
    rw [hc.node_self]
  have hmem : ∀ o c : Nat, a.Owner s o →
      (c ∈ b.children o ↔ c ∈ a.children o ∨ o = m ∧ c ∈ added) := by
    intro o c ho
    by_cases he : o = m
    · subst he
      rw [hself, ht.children.mem_iff, List.mem_append]
      exact ⟨fun e => e.symm.imp id fun e => ⟨rfl, e⟩, fun e => e.symm.imp (fun e => e.2) id⟩
    · rw [hchildren o he]
      exact ⟨Or.inl, fun e => e.elim id fun e => absurd e.1 he⟩
  have hadded : ∀ c ∈ added, a.Own s c := fun c hc => h.held c (List.mem_append_left _ hc)
  have hwaits : ∀ c ∈ loose, c ∈ added ++ loose := fun c hc => List.mem_append_right _ hc
  have hdistinct := List.nodup_append.1 h.distinct
  refine ⟨hb, ?_, ?_, ?_, ?_, ?_, ?_, ?_, ?_, ?_, ?_, ?_, ?_, ?_⟩
  · unfold kind
    rw [hnode]
    exact h.isPackage
  · obtain ⟨decl, hd, hf⟩ := h.isScript
    by_cases hs : s = m
    · subst hs
      have hshape := ht.grown.shape
      rw [hd] at hshape
      obtain ⟨decl', hd'⟩ := NodeKind.script_of_ctorIdx hshape
      exact ⟨decl', by unfold kind; rw [hc.node_self, hd'],
        (ht.scriptFit decl' rfl hd').1.congr hb.types hb.toStays⟩
    · exact ⟨decl, by unfold kind at *; rw [hc.node_ne hs, hd], hf.congr hb.types hb.toStays⟩
  · intro o n ho hn
    rw [howner] at ho
    rw [hown]
    unfold Under
    rw [hlevel, hlevel]
    rcases (hmem o n ho).1 hn with hn | ⟨rfl, hn⟩
    · exact h.child o n ho hn
    · exact ⟨hadded n hn, (ht.under n hn).1⟩
  · intro o n ho hn
    rw [howner] at ho
    have hunder : a.Under o n ∧ (a.node n).parent = some o := by
      rcases (hmem o n ho).1 hn with hn | ⟨rfl, hn⟩
      · exact ⟨(h.child o n ho hn).2, h.tied o n ho hn⟩
      · exact ht.under n hn
    by_cases he : n = m
    · subst he
      have hold := ((hmem o n ho).1 hn).resolve_right fun e => hunder.1.ne e.1.symm
      rw [hc.node_self, ht.parent.resolve_right fun hl => h.apart n (hwaits n hl) o ho hold]
      exact hunder.2
    · rw [hc.node_ne he]
      exact hunder.2
  · intro o ho
    rw [howner] at ho
    by_cases he : o = m
    · subst he
      rw [hself, ht.children.nodup_iff, List.nodup_append]
      refine ⟨hdistinct.1, h.single o ho, fun c hc d hd e => ?_⟩
      exact h.apart c (List.mem_append_left _ hc) o ho (e ▸ hd)
    · rw [hchildren o he]
      exact h.single o ho
  · intro n hn
    rw [hown] at hn
    rcases h.covered n hn with hw | ⟨o, ho, hno⟩
    · refine (List.mem_append.1 hw).symm.imp id fun hw => ⟨m, (howner m).2 hm, ?_⟩
      exact (hmem m n hm).2 (Or.inr ⟨rfl, hw⟩)
    · exact Or.inr ⟨o, (howner o).2 ho, (hmem o n ho).2 (Or.inl hno)⟩
  · intro n hn
    rw [hown] at hn
    refine Fit.congr hb.toStays hsize ?_
    by_cases he : n = m
    · subst he
      unfold kind
      rw [hc.node_self]
      exact ht.fit hn
    · unfold kind
      rw [hc.node_ne he]
      exact h.fit n hn
  · intro o c ho hco
    rw [howner] at ho
    have hdressed : (a.attr? c).isSome ∧ (a.kind o).carries = true := by
      by_cases he : o = m
      · subst he
        rw [hc.node_self] at hco
        exact (ht.dressed c hco).elim (h.dressed o c ho) id
      · rw [hc.node_ne he] at hco
        exact h.dressed o c ho hco
    refine ⟨attr?_isSome_congr (hb.shape (lt_size_of_attr hdressed.1)) hdressed.1, ?_⟩
    rw [NodeKind.carries_congr (hb.shape (h.owner_lt_size ho))]
    exact hdressed.2
  · intro t hmemt
    rw [typesOf_congr hnode] at hmemt
    exact Nat.lt_of_lt_of_le (h.listed t hmemt) hsize
  · intro t hmemt ho
    rw [typesOf_congr hnode] at hmemt
    rw [hown] at ho
    rw [hlevel]
    obtain ⟨hl, hreg⟩ := h.registered t hmemt ho
    refine ⟨hl, ?_⟩
    by_cases hs : s = m
    · subst hs
      obtain ⟨decl, hd, -⟩ := h.isScript
      have hshape := ht.grown.shape
      rw [hd] at hshape
      obtain ⟨decl', hd'⟩ := NodeKind.script_of_ctorIdx hshape
      obtain ⟨-, hkeeps, hgains⟩ := ht.scriptFit decl' rfl hd'
      rw [scriptTypes_eq (a := b) (by unfold kind; rw [hc.node_self, hd'])]
      rcases hreg with hw | hreg
      · exact (List.mem_append.1 hw).symm.imp id fun hw => hgains t hw hl
      · exact Or.inr (hkeeps t hreg)
    · rw [scriptTypes_congr (hc.node_ne hs)]
      refine hreg.imp (fun hw => (List.mem_append.1 hw).resolve_left fun hw => ?_) id
      -- no node of the script owns a declaration
      have hown' := hm.resolve_left fun e => hs e.symm
      have hlm := h.level_lt hown'
      rcases (ht.under t hw).1 with hlt | ⟨hle, hlt, -⟩ <;> omega
  · intro n hn
    rw [hown]
    exact h.held n (hwaits n hn)
  · intro n hn o ho hno
    rw [howner] at ho
    rcases (hmem o n ho).1 hno with hno | ⟨-, hno⟩
    · exact h.apart n (hwaits n hn) o ho hno
    · exact hdistinct.2.2 n hno n hn rfl
  · exact hdistinct.2.1

/-! ## Adding a node -/

theorem script?_alloc {name : String} {link : Option NodeId} {position : Position}
    {kind : NodeKind} (hk : kind.level < 7) (n : Nat) :
    (a.alloc name link position kind).2.script? n = a.script? n := by
  by_cases hn : n = a.size
  · have hnone : ∀ decl, (a.alloc name link position kind).2.script? n ≠ some decl := by
      intro decl hd
      rw [script?_eq_some] at hd
      unfold Arena.kind at hd
      rw [node_alloc, if_pos hn] at hd
      change kind = _ at hd
      rw [hd] at hk
      simp [NodeKind.level] at hk
    have hnone' : ∀ decl, a.script? n ≠ some decl := by
      intro decl hd
      rw [script?_eq_some] at hd
      unfold Arena.kind at hd
      rw [node_of_size_le (Nat.le_of_eq hn.symm)] at hd
      cases hd
    rw [Option.eq_none_iff_forall_ne_some.2 hnone, Option.eq_none_iff_forall_ne_some.2 hnone']
  · unfold script? Arena.kind
    rw [node_alloc, if_neg hn]

theorem home_congr (hn : b.node n = a.node n)
    (hs : ∀ script, (b.script? script).map (·.package) = (a.script? script).map (·.package)) :
    b.home n = a.home n := by
  unfold home kind
  rw [hn]
  simp only [hs]

theorem Forest.makes_alloc (name : String) (position : Position) {kind : NodeKind}
    (h : Forest p s served a loose) (hk : kind.level < 7) :
    Makes p s a (a.alloc name (some s) position kind).2 := by
  have hnode : ∀ n, n < a.size → (a.alloc name (some s) position kind).2.node n = a.node n :=
    fun n hn => by rw [node_alloc, if_neg (Nat.ne_of_lt hn)]
  have hpackage := hnode p (by
    obtain ⟨decl, hd⟩ := h.isPackage
    exact lt_size_of_kind (by rw [hd]; simp [NodeKind.level]))
  have hown : ∀ n, a.size ≤ n → n < (a.alloc name (some s) position kind).2.size →
      (a.alloc name (some s) position kind).2.Own s n ∧
        ((a.alloc name (some s) position kind).2.kind n).level < 7 := by
    intro n hn hn'
    rw [size_alloc] at hn'
    have he : n = a.size := by omega
    unfold Own Arena.kind
    rw [node_alloc, if_pos he]
    exact ⟨rfl, hk⟩
  refine ⟨⟨⟨fun n hn => .of_eq (by unfold Arena.kind; rw [hnode n hn]),
    fun n hn => by unfold Arena.name; rw [hnode n hn]⟩, by rw [size_alloc]; omega, ?_, ?_, ?_, ?_, ?_, ?_,
    ⟨by rw [hpackage], by rw [hpackage], ?_⟩, fun n hn hn' => Or.inl (hown n hn hn')⟩, hown⟩
  · exact fun n hn _ _ => hnode n hn
  · exact fun n hn => by rw [hnode n hn]
  · exact fun n hn => home_congr (hnode n hn) fun script => by rw [script?_alloc hk]
  · unfold package? Arena.kind
    rw [hpackage]
  · intro t ht
    rw [typesOf_congr hpackage]
    exact ht
  · intro entry he
    rw [typeEntries_congr hpackage] at he
    exact Or.inl he
  · rw [hnode s (h.owner_lt_size (Or.inl rfl))]

/-- What is made of a node below the level of declarations is built. -/
theorem Makes.builds_alloc {name : String} {link : Option NodeId} {position : Position}
    {kind : NodeKind} (h : Makes p s a (a.alloc name link position kind).2) (hk : kind.level < 6) :
    Builds p s a (a.alloc name link position kind).2 where
  toMakes := h
  low_new n hn hn' := by
    rw [size_alloc] at hn'
    unfold Arena.kind
    rw [node_alloc, if_pos (Nat.le_antisymm (Nat.le_of_lt_succ hn') hn)]
    exact hk

/-- Adding a node of the script. It waits, and owns nodes that have waited for it. They are not above
its level. -/
theorem Forest.alloc {kind : NodeKind} (h : Forest p s served a (kind.parts ++ loose))
    (name : String) (position : Position) (hfit : Fit served a kind)
    (hk : kind.parts = [] ∨ kind.level < 6)
    (hparts : ∀ c ∈ kind.parts, (a.node c).parent = some a.size ∧
      (a.kind c).level ≤ kind.level) :
    Makes p s a (a.alloc name (some s) position kind).2 ∧
      Forest p s served (a.alloc name (some s) position kind).2 (a.size :: loose) := by
  have hb := h.makes_alloc name position hfit.level_lt
  generalize hg : (a.alloc name (some s) position kind).2 = g at hb ⊢
  have hnode : ∀ n, n < a.size → g.node n = a.node n := fun n hn => by
    rw [← hg, node_alloc, if_neg (Nat.ne_of_lt hn)]
  have hnew : g.node a.size = .detached name (some s) position kind := by
    rw [← hg, node_alloc, if_pos rfl]
  have hsize : g.size = a.size + 1 := by
    rw [← hg, size_alloc]
  have hcases : ∀ n : Nat, g.Own s n → n = a.size ∨ n < a.size ∧ a.Own s n := by
    intro n hn
    have hlt := hn.lt_size
    rcases Nat.lt_or_ge n a.size with hn' | hn'
    · exact Or.inr ⟨hn', (hb.toGrows.own_iff hn').1 hn⟩
    · exact Or.inl (by omega)
  have howners : ∀ m : Nat, g.Owner s m → m = a.size ∨ m < a.size ∧ a.Owner s m := by
    rintro m (rfl | hm)
    · exact Or.inr ⟨h.owner_lt_size (Or.inl rfl), Or.inl rfl⟩
    · exact (hcases m hm).imp id fun e => ⟨e.1, Or.inr e.2⟩
  have hlevel := fun n (hn : n < a.size) => hb.toStays.level hn
  have hchildren : ∀ n, n < a.size → g.children n = a.children n := fun n hn => by
    unfold children
    rw [hnode n hn]
  have hself : g.children a.size = kind.parts := by
    unfold children
    rw [hnew]
    simp [Node.children, Node.detached]
  have hheld : ∀ c ∈ kind.parts, a.Own s c := fun c hc => h.held c (List.mem_append_left _ hc)
  have hwaits : ∀ c ∈ loose, c ∈ kind.parts ++ loose := fun c hc => List.mem_append_right _ hc
  have hplt : p < a.size := by
    obtain ⟨decl, hd⟩ := h.isPackage
    exact lt_size_of_kind (by rw [hd]; simp [NodeKind.level])
  have hslt := h.owner_lt_size (Or.inl rfl)
  have hdistinct := List.nodup_append.1 h.distinct
  refine ⟨hb, ?_, ?_, ?_, ?_, ?_, ?_, ?_, ?_, ?_, ?_, ?_, ?_, ?_⟩
  · obtain ⟨decl, hd⟩ := h.isPackage
    exact ⟨decl, by unfold Arena.kind at *; rw [hnode p hplt, hd]⟩
  · obtain ⟨decl, hd, hf⟩ := h.isScript
    exact ⟨decl, by unfold Arena.kind at *; rw [hnode s hslt, hd], hf.congr hb.types hb.toStays⟩
  · intro m n hm hn
    rcases howners m hm with rfl | ⟨hlt, hm'⟩
    · rw [hself] at hn
      have ho := hheld n hn
      have hl := (hparts n hn).2
      have hlt := ho.lt_size
      have hlow : kind.level < 6 := hk.resolve_left fun e => by
        rw [e] at hn
        cases hn
      refine ⟨hb.toGrows.own ho, ?_⟩
      have hkind : (g.kind a.size).level = kind.level := by
        unfold Arena.kind
        rw [hnew]
        rfl
      unfold Under
      rw [hlevel n hlt, hkind]
      omega
    · rw [hchildren m hlt] at hn
      obtain ⟨ho, hu⟩ := h.child m n hm' hn
      refine ⟨hb.toGrows.own ho, ?_⟩
      unfold Under
      rw [hlevel n ho.lt_size, hlevel m hlt]
      exact hu
  · intro m n hm hn
    rcases howners m hm with rfl | ⟨hlt, hm'⟩
    · rw [hself] at hn
      rw [hnode n (hheld n hn).lt_size, (hparts n hn).1]
    · rw [hchildren m hlt] at hn
      rw [hnode n (h.child m n hm' hn).1.lt_size]
      exact h.tied m n hm' hn
  · intro m hm
    rcases howners m hm with rfl | ⟨hlt, hm'⟩
    · rw [hself]
      exact hdistinct.1
    · rw [hchildren m hlt]
      exact h.single m hm'
  · intro n hn
    rcases hcases n hn with rfl | ⟨hlt, hn⟩
    · exact Or.inl (List.mem_cons_self ..)
    · rcases h.covered n hn with hw | ⟨m, hm, hc⟩
      · rcases List.mem_append.1 hw with hw | hw
        · refine Or.inr ⟨a.size, Or.inr ?_, hself ▸ hw⟩
          unfold Own
          rw [hnew]
          rfl
        · exact Or.inl (List.mem_cons_of_mem _ hw)
      · exact Or.inr ⟨m, hb.toGrows.owner hm, (hchildren m (h.owner_lt_size hm)).symm ▸ hc⟩
  · intro n hn
    refine Fit.congr hb.toStays hb.size_le ?_
    rcases hcases n hn with rfl | ⟨hlt, hn⟩
    · unfold Arena.kind
      rw [hnew]
      exact hfit
    · unfold Arena.kind
      rw [hnode n hlt]
      exact h.fit n hn
  · intro m c hm hc
    rcases howners m hm with rfl | ⟨hlt, hm'⟩
    · rw [hnew] at hc
      simp [Node.detached] at hc
    · rw [hnode m hlt] at hc
      obtain ⟨hattr, hcarries⟩ := h.dressed m c hm' hc
      refine ⟨attr?_isSome_congr (hb.shape (lt_size_of_attr hattr)) hattr, ?_⟩
      rw [NodeKind.carries_congr (hb.shape hlt)]
      exact hcarries
  · intro t ht
    rw [typesOf_congr (hnode p hplt)] at ht
    exact Nat.lt_of_lt_of_le (h.listed t ht) hb.size_le
  · intro t ht ho
    rw [typesOf_congr (hnode p hplt)] at ht
    rw [scriptTypes_congr (hnode s hslt)]
    have hlt := h.listed t ht
    obtain ⟨hl, hreg⟩ := h.registered t ht ((hb.toGrows.own_iff hlt).1 ho)
    rw [hlevel t hlt]
    refine ⟨hl, hreg.imp (fun hw => ?_) id⟩
    rcases List.mem_append.1 hw with hw | hw
    · have hle := (hparts t hw).2
      have hlow : kind.level < 6 := hk.resolve_left fun e => by
        rw [e] at hw
        cases hw
      omega
    · exact List.mem_cons_of_mem _ hw
  · intro n hn
    rcases List.mem_cons.1 hn with rfl | hn
    · unfold Own
      rw [hnew]
      rfl
    · exact hb.toGrows.own (h.held n (hwaits n hn))
  · intro n hn m hm hnm
    rcases List.mem_cons.1 hn with rfl | hn
    · rcases howners m hm with rfl | ⟨hlt, hm'⟩
      · rw [hself] at hnm
        exact Nat.lt_irrefl _ (hheld _ hnm).lt_size
      · rw [hchildren m hlt] at hnm
        exact Nat.lt_irrefl _ (h.child m _ hm' hnm).1.lt_size
    · rcases howners m hm with rfl | ⟨hlt, hm'⟩
      · rw [hself] at hnm
        exact hdistinct.2.2 n hnm n hn rfl
      · rw [hchildren m hlt] at hnm
        exact h.apart n (hwaits n hn) m hm' hnm
  · refine List.nodup_cons.2 ⟨fun hn => ?_, hdistinct.2.1⟩
    exact Nat.lt_irrefl _ (h.held _ (hwaits _ hn)).lt_size

/-! ## Leaving the script alone -/

/-- The invariant holds on where the nodes of the script stay as they are and no node is added to
them. A type of the script that the package gains waits for the script. -/
theorem Forest.kept (h : Forest p s served a loose) (hp : ∃ decl, b.kind p = .package decl)
    (hnode : ∀ m : Nat, a.Owner s m → b.node m = a.node m)
    (hown : ∀ n : Nat, b.Own s n → a.Own s n) (hstays : Stays a b) (hsize : a.size ≤ b.size)
    (ht : ∀ t ∈ a.typesOf p, t ∈ b.typesOf p) (hlisted : ∀ t ∈ b.typesOf p, t < b.size)
    (hreg : ∀ t ∈ b.typesOf p, a.Own s t →
      t ∈ a.typesOf p ∨ (a.kind t).level = 6 ∧ t ∈ loose) : Forest p s served b loose := by
  have hown' : ∀ n : Nat, a.Own s n → b.Own s n := fun n hn => by
    unfold Own
    rw [hnode n (Or.inr hn), hn]
  have howner : ∀ n : Nat, b.Owner s n → a.Owner s n := fun n hn => hn.imp id (hown n)
  have hchildren : ∀ m, a.Owner s m → b.children m = a.children m := fun m hm => by
    unfold children
    rw [hnode m hm]
  have hlevel : ∀ n : Nat, n < a.size → (b.kind n).level = (a.kind n).level := fun n hn =>
    hstays.level hn
  refine ⟨hp, ?_, ?_, ?_, ?_, ?_, ?_, ?_, hlisted, ?_, fun n hn => hown' n (h.held n hn), ?_,
    h.distinct⟩
  · obtain ⟨decl, hd, hf⟩ := h.isScript
    exact ⟨decl, by unfold kind at *; rw [hnode s (Or.inl rfl), hd], hf.congr ht hstays⟩
  · intro m n hm hn
    have hm' := howner m hm
    rw [hchildren m hm'] at hn
    obtain ⟨ho, hu⟩ := h.child m n hm' hn
    refine ⟨hown' n ho, ?_⟩
    unfold Under
    rw [hlevel n ho.lt_size, hlevel m (h.owner_lt_size hm')]
    exact hu
  · intro m n hm hn
    have hm' := howner m hm
    rw [hchildren m hm'] at hn
    rw [hnode n (Or.inr (h.child m n hm' hn).1)]
    exact h.tied m n hm' hn
  · intro m hm
    rw [hchildren m (howner m hm)]
    exact h.single m (howner m hm)
  · intro n hn
    rcases h.covered n (hown n hn) with hw | ⟨m, hm, hc⟩
    · exact Or.inl hw
    · exact Or.inr ⟨m, hm.imp id (hown' m), hchildren m hm ▸ hc⟩
  · intro n hn
    have hn' := hown n hn
    unfold kind
    rw [hnode n (Or.inr hn')]
    exact (h.fit n hn').congr hstays hsize
  · intro m c hm hc
    have hm' := howner m hm
    rw [hnode m hm'] at hc
    obtain ⟨hattr, hcarries⟩ := h.dressed m c hm' hc
    refine ⟨attr?_isSome_congr (hstays.shape (lt_size_of_attr hattr)) hattr, ?_⟩
    unfold kind
    rw [hnode m hm']
    exact hcarries
  · intro t hmem ho
    rw [scriptTypes_congr (hnode s (Or.inl rfl)), hlevel t (hown t ho).lt_size]
    rcases hreg t hmem (hown t ho) with hold | ⟨hl, hw⟩
    · exact h.registered t hold (hown t ho)
    · exact ⟨hl, Or.inl hw⟩
  · intro n hn m hm
    rw [hchildren m (howner m hm)]
    exact h.apart n hn m (howner m hm)

/-! ## Entering a type into the package -/

theorem typesOf_eq {decl : Package} (h : a.kind p = .package decl) :
    a.typesOf p = decl.types.nodes := by
  unfold typesOf
  rw [package?_eq_some.2 h]

theorem typeEntries_eq {decl : Package} (h : a.kind p = .package decl) :
    a.typeEntries p = decl.types.entries.toList := by
  unfold typeEntries
  rw [package?_eq_some.2 h]

/-- Entering a declaration of the script that waits, under its name, which is free, into the
package. -/
theorem Forest.enterType {decl : Package} {types : Registry} (h : Forest p s served a loose)
    (hp : a.kind p = .package decl) (hn : n ∈ loose) (hl : (a.kind n).level = 6)
    (ht : types.entries.toList = decl.types.entries.toList ++ [(a.name n, n)])
    (hc : Changed a b p { a.node p with kind := .package ⟨decl.scripts, types⟩ }) :
    Builds p s a b ∧ Forest p s served b loose ∧ n ∈ b.typesOf p := by
  have hnode : ∀ m, a.Owner s m → b.node m = a.node m := fun m hm =>
    hc.node_ne (h.package_ne hm)
  have hkind : b.kind p = .package ⟨decl.scripts, types⟩ := by
    unfold kind
    rw [hc.node_self]
  have hscript : ∀ d, a.kind p = .script d →
      ∃ d', NodeKind.package ⟨decl.scripts, types⟩ = .script d' ∧ d'.package = d.package := by
    intro d hd
    rw [hp] at hd
    cases hd
  have hgrown : ∀ m, (a.kind m).Grown (b.kind m) := by
    intro m
    by_cases hm : m = p
    · subst hm
      rw [hp, hkind]
      exact .of_shape rfl rfl nofun nofun
    · refine .of_eq ?_
      unfold kind
      rw [hc.node_ne hm]
  have hentries : b.typeEntries p = a.typeEntries p ++ [(a.name n, n)] := by
    rw [typeEntries_eq hp, typeEntries_eq hkind, ht]
  have htypes : b.typesOf p = a.typesOf p ++ [n] := by
    rw [typesOf_eq_map, typesOf_eq_map, hentries, List.map_append]
    rfl
  have hown : ∀ m, b.Own s m ↔ a.Own s m := fun m => by
    unfold Own
    rw [hc.script_eq rfl]
  have hheld := h.held n hn
  have hnew : ∀ m, a.size ≤ m → ¬ m < b.size := fun m hm => by
    rw [hc.size_eq]
    exact Nat.not_lt.2 hm
  have hb : Builds p s a b := by
    refine ⟨⟨⟨⟨fun m _ => hgrown m, fun m _ => hc.name_eq rfl m⟩, Nat.le_of_eq hc.size_eq.symm,
      fun m _ hne _ => hc.node_ne hne, fun m _ => hc.script_eq rfl m,
      fun m _ => hc.homes rfl (by rw [hp]; rfl) hscript m, ?_, ?_, ?_,
      ⟨by rw [hc.node_self], by rw [hc.node_self], by rw [hnode s (Or.inl rfl)]⟩,
      fun m hm hm' => absurd hm' (hnew m hm)⟩, fun m hm hm' => absurd hm' (hnew m hm)⟩,
      fun m hm hm' => absurd hm' (hnew m hm)⟩
    · rw [package?_eq_some.2 hp, package?_eq_some.2 hkind]
      rfl
    · intro t hm
      rw [htypes]
      exact List.mem_append_left _ hm
    · intro entry hm
      rw [hentries] at hm
      refine (List.mem_append.1 hm).imp id fun hm => ?_
      rw [List.mem_singleton] at hm
      subst hm
      exact ⟨(hown n).2 hheld, hc.name_eq rfl n⟩
  have hmem : ∀ t ∈ b.typesOf p, t ∈ a.typesOf p ∨ t = n := by
    intro t hm
    rw [htypes] at hm
    exact (List.mem_append.1 hm).imp id List.mem_singleton.1
  refine ⟨hb, h.kept ⟨_, hkind⟩ hnode (fun m => (hown m).1) hb.toStays hb.size_le hb.types ?_ ?_,
    ?_⟩
  · intro t hm
    rcases hmem t hm with hm | rfl
    · exact Nat.lt_of_lt_of_le (h.listed t hm) hb.size_le
    · exact Nat.lt_of_lt_of_le hheld.lt_size hb.size_le
  · intro t hm _
    rcases hmem t hm with hm | rfl
    · exact Or.inl hm
    · exact Or.inr ⟨hl, hn⟩
  · rw [htypes]
    exact List.mem_append_right _ (List.mem_singleton.2 rfl)

/-! ## Answering an import -/

/-- What the answer to an import may do beside a package that is being read: it keeps every node, and
the nodes it adds do not belong to the package. -/
structure Answers (package : NodeId) (a b : Arena) : Prop where
  keeps : a.Extends b
  anchored : Anchored b
  foreign : ∀ n : Nat, a.size ≤ n → n < b.size → b.home n ≠ some package

/-- A node that the answer adds was not read from a script of the package. -/
theorem Answers.not_own {decl : Script} (h : Answers p a b) (hd : a.kind s = .script decl)
    (hp : decl.package = p) (hn : a.size ≤ n) : ¬ b.Own s n := by
  intro ho
  have hs : b.kind s = .script decl := by
    have hlt : s < a.size := lt_size_of_home (home_of_script hd)
    unfold kind at *
    rw [h.keeps.node_eq s hlt, hd]
  refine h.foreign n hn ho.lt_size ?_
  rw [home_of_own ((h.anchored n).level_lt s ho) ho hs, hp]

/-- The nodes of a script after an import is answered. -/
theorem Forest.answers (h : Forest p s served a loose) (ha : Anchored a) (hb : Answers p a b) :
    Grows p s a b ∧ Forest p s served b loose := by
  obtain ⟨decl, hd, hf⟩ := h.isScript
  obtain ⟨d, hkp⟩ := h.isPackage
  have hs := h.owner_lt_size (Or.inl rfl)
  have hp : p < a.size := lt_size_of_home (home_of_package hkp)
  have hnode := hb.keeps.node_eq
  have hown := fun n hn => hb.not_own hd hf.package_eq (n := n) hn
  have hg : Grows p s a b := by
    refine ⟨⟨fun n hn => .of_eq (by unfold kind; rw [hnode n hn]),
      fun n hn => by unfold name; rw [hnode n hn]⟩, hb.keeps.size_le, fun n hn _ _ => hnode n hn,
      fun n hn => by rw [hnode n hn], fun n hn => ha.home_eq hb.keeps hn, ?_, ?_, ?_,
      ⟨by rw [hnode p hp], by rw [hnode p hp], by rw [hnode s hs]⟩,
      fun n hn hn' => Or.inr ⟨hown n hn, hb.foreign n hn hn'⟩⟩
    · unfold package? kind
      rw [hnode p hp]
    · intro t ht
      rw [typesOf_congr (hnode p hp)]
      exact ht
    · intro entry he
      rw [typeEntries_congr (hnode p hp)] at he
      exact Or.inl he
  refine ⟨hg, h.kept ⟨d, ?_⟩ (fun m hm => hnode m (h.owner_lt_size hm)) (fun n hn => ?_)
    hg.toStays hg.size_le hg.types (fun t ht => ?_) fun t ht _ => ?_⟩
  · unfold kind at *
    rw [hnode p hp, hkp]
  · rcases Nat.lt_or_ge n a.size with hlt | hge
    · exact (hg.own_iff hlt).1 hn
    · exact absurd hn (hown n hge)
  · rw [typesOf_congr (hnode p hp)] at ht
    exact Nat.lt_of_lt_of_le (h.listed t ht) hg.size_le
  · rw [typesOf_congr (hnode p hp)] at ht
    exact Or.inl ht

end SchemaLang.Arena
