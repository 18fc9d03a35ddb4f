import Mathlib.Order.Defs.Unbundled
import SchemaLang.Proofs.Arena.Home

/-!
# Building below one script

While a script of a package is read, nodes are added and tied together below the script, and nothing
else changes: not the nodes of other scripts, not those of other packages.

* `Arena.Own`, `Arena.Owner`: the nodes read from a script, and the nodes that may own them.
* `Arena.Grows`: what reading a script may do to an arena, the answers to imports included.
* `Arena.Makes`: the same when no import is answered, so that every new node is the script's own.
* `Arena.Builds`: the same when no declaration is made either.
* `Arena.Within`: what the package that is being read or linked may do to an arena, seen from the
  other packages.
* `Arena.Changed`: one node reads otherwise. Every operation is made of such changes and of new
  nodes.
-/

namespace SchemaLang

namespace NodeKind

variable {kind : NodeKind}

theorem package_of_ctorIdx {decl : Package} (h : kind.ctorIdx = (package decl).ctorIdx) :
    ∃ decl', kind = package decl' := by
  cases kind <;> first | exact ⟨_, rfl⟩ | cases h

theorem script_of_ctorIdx {decl : Script} (h : kind.ctorIdx = (script decl).ctorIdx) :
    ∃ decl', kind = script decl' := by
  cases kind <;> first | exact ⟨_, rfl⟩ | cases h

theorem packageRef_of_ctorIdx {target : NodeId} (h : kind.ctorIdx = (packageRef target).ctorIdx) :
    ∃ target', kind = packageRef target' := by
  cases kind <;> first | exact ⟨_, rfl⟩ | cases h

theorem enum_of_ctorIdx {decl : Enumeration} (h : kind.ctorIdx = (enum decl).ctorIdx) :
    ∃ decl', kind = enum decl' := by
  cases kind <;> first | exact ⟨_, rfl⟩ | cases h

theorem table_of_ctorIdx {decl : Table} (h : kind.ctorIdx = (table decl).ctorIdx) :
    ∃ decl', kind = table decl' := by
  cases kind <;> first | exact ⟨_, rfl⟩ | cases h

theorem contract_of_ctorIdx {decl : Contract} (h : kind.ctorIdx = (contract decl).ctorIdx) :
    ∃ decl', kind = contract decl' := by
  cases kind <;> first | exact ⟨_, rfl⟩ | cases h

theorem method_of_ctorIdx {decl : Method} (h : kind.ctorIdx = (method decl).ctorIdx) :
    ∃ decl', kind = method decl' := by
  cases kind <;> first | exact ⟨_, rfl⟩ | cases h

theorem attr_of_ctorIdx {decl : Attribute} (h : kind.ctorIdx = (attr decl).ctorIdx) :
    ∃ decl', kind = attr decl' := by
  cases kind <;> first | exact ⟨_, rfl⟩ | cases h

theorem args_of_ctorIdx {items : Array NodeId} (h : kind.ctorIdx = (args items).ctorIdx) :
    ∃ items', kind = args items' := by
  cases kind <;> first | exact ⟨_, rfl⟩ | cases h

theorem namedArgs_of_ctorIdx {items : Registry} (h : kind.ctorIdx = (namedArgs items).ctorIdx) :
    ∃ items', kind = namedArgs items' := by
  cases kind <;> first | exact ⟨_, rfl⟩ | cases h

/-! ## What nodes are for -/

/-- Types as they are written: references, arrays, lists and maps. -/
def isType : NodeKind → Bool
  | typeRef _ | array .. | list _ | map .. => true
  | _ => false

/-- Nodes on which attributes may stand. -/
def carries : NodeKind → Bool
  | script _ | enum _ | enumValue _ | table _ | field _ | contract _ | method _ | param _ => true
  | _ => false

/-- Nodes that are complete once they are made. The others grow while their script is read. -/
def isSteady : NodeKind → Bool
  | package _ | script _ | enum _ | table _ | contract _ | method _ | attr _ | args _
  | namedArgs _ => false
  | _ => true

theorem isType_congr {x y : NodeKind} (h : x.ctorIdx = y.ctorIdx) : x.isType = y.isType := by
  cases x <;> cases y <;> first | rfl | cases h

theorem isSequence_congr {x y : NodeKind} (h : x.ctorIdx = y.ctorIdx) :
    x.isSequence = y.isSequence := by
  cases x <;> cases y <;> first | rfl | cases h

theorem carries_congr {x y : NodeKind} (h : x.ctorIdx = y.ctorIdx) : x.carries = y.carries := by
  cases x <;> cases y <;> first | rfl | cases h

theorem level_of_isType (h : kind.isType = true) : kind.level ≤ 3 := by
  cases kind <;> simp_all [isType, level]

theorem isType_of_level (h : kind.level = 0) : kind.isType = true := by
  cases kind <;> simp_all [isType, level]

theorem level_of_not_composite (h : kind.isType = true) (hc : kind.isComposite = false) :
    kind.level = 0 := by
  cases kind <;> simp_all [isType, level, isComposite]

theorem carries_of_level (h : kind.level = 6) : kind.carries = true := by
  cases kind <;> simp_all [carries, level]

theorem level_of_carries (h : kind.carries = true) : 3 < kind.level := by
  cases kind <;> simp_all [carries, level]

/-- What reading may make of a node: it stays what it is, as it is unless it grows, an enum keeps its
storage and its default, and a method its id. -/
structure Grown (old new : NodeKind) : Prop where
  shape : new.ctorIdx = old.ctorIdx
  steady : old.isSteady = true → new = old
  base : ∀ decl decl', old = enum decl → new = enum decl' → decl'.base = decl.base
  default : ∀ decl decl', old = enum decl → new = enum decl' → decl.default.isSome →
    decl'.default = decl.default
  number : ∀ decl decl', old = method decl → new = method decl' → decl'.id = decl.id

theorem Grown.refl (kind : NodeKind) : kind.Grown kind :=
  ⟨rfl, fun _ => rfl, fun _ _ h h' => by cases h.symm.trans h'; rfl,
    fun _ _ h h' _ => by cases h.symm.trans h'; rfl, fun _ _ h h' => by cases h.symm.trans h'; rfl⟩

theorem Grown.of_eq {old new : NodeKind} (h : new = old) : old.Grown new :=
  h ▸ .refl old

theorem Grown.of_shape {old new : NodeKind} (h : new.ctorIdx = old.ctorIdx)
    (hs : old.isSteady = false) (he : ∀ decl, old ≠ enum decl) (hm : ∀ decl, old ≠ method decl) :
    old.Grown new where
  shape := h
  steady e := by rw [hs] at e; cases e
  base decl _ e _ := absurd e (he decl)
  default decl _ e _ := absurd e (he decl)
  number decl _ e _ := absurd e (hm decl)

theorem Grown.trans {x y z : NodeKind} (h : x.Grown y) (h' : y.Grown z) : x.Grown z where
  shape := h'.shape.trans h.shape
  steady hx := by
    have hy := h.steady hx
    exact (h'.steady (hy ▸ hx)).trans hy
  base decl decl' hx hz := by
    have hshape := h.shape
    rw [hx] at hshape
    obtain ⟨mid, hy⟩ := enum_of_ctorIdx hshape
    exact (h'.base mid decl' hy hz).trans (h.base decl mid hx hy)
  default decl decl' hx hz hd := by
    have hshape := h.shape
    rw [hx] at hshape
    obtain ⟨mid, hy⟩ := enum_of_ctorIdx hshape
    have hmid := h.default decl mid hx hy hd
    exact (h'.default mid decl' hy hz (hmid ▸ hd)).trans hmid
  number decl decl' hx hz := by
    have hshape := h.shape
    rw [hx] at hshape
    obtain ⟨mid, hy⟩ := method_of_ctorIdx hshape
    exact (h'.number mid decl' hy hz).trans (h.number decl mid hx hy)

end NodeKind

namespace Arena

variable {a b c : Arena} {n m p s : Nat}

/-! ## What reading a script may do -/

/-- The node was read from the script. -/
def Own (a : Arena) (script node : NodeId) : Prop :=
  (a.node node).script = some script

/-- The script, or a node that was read from it. -/
def Owner (a : Arena) (script node : NodeId) : Prop :=
  node = script ∨ a.Own script node

/-- The types of a package. -/
def typesOf (a : Arena) (package : NodeId) : List NodeId :=
  match a.package? package with
  | some decl => decl.types.nodes
  | none => []

/-- The types of a package with their names. -/
def typeEntries (a : Arena) (package : NodeId) : List (String × NodeId) :=
  match a.package? package with
  | some decl => decl.types.entries.toList
  | none => []

theorem typesOf_eq_map (a : Arena) (package : NodeId) :
    a.typesOf package = (a.typeEntries package).map (·.2) := by
  unfold typesOf typeEntries
  split <;> rfl

theorem mem_typesOf {t : NodeId} : t ∈ a.typesOf p ↔ ∃ entry ∈ a.typeEntries p, entry.2 = t := by
  rw [typesOf_eq_map, List.mem_map]

theorem Own.lt_size (h : a.Own s n) : n < a.size :=
  lt_size_of_script h

/-- No node becomes something else, or gets another name. -/
structure Stays (a b : Arena) : Prop where
  grown : ∀ n : Nat, n < a.size → (a.kind n).Grown (b.kind n)
  name_eq : ∀ n : Nat, n < a.size → b.name n = a.name n

theorem Stays.shape (h : Stays a b) (hn : n < a.size) : (b.kind n).ctorIdx = (a.kind n).ctorIdx :=
  (h.grown n hn).shape

theorem Stays.level (h : Stays a b) (hn : n < a.size) : (b.kind n).level = (a.kind n).level :=
  NodeKind.level_congr (h.shape hn)

/-- Reading the script of a package goes from one arena to another. -/
structure Grows (package script : NodeId) (a b : Arena) : Prop extends Stays a b where
  size_le : a.size ≤ b.size
  frame : ∀ n : Nat, n < a.size → n ≠ package → ¬ a.Owner script n → b.node n = a.node n
  script_eq : ∀ n : Nat, n < a.size → (b.node n).script = (a.node n).script
  homes : ∀ n : Nat, n < a.size → b.home n = a.home n
  scripts : (b.package? package).map (·.scripts) = (a.package? package).map (·.scripts)
  types : ∀ t ∈ a.typesOf package, t ∈ b.typesOf package
  declared : ∀ entry ∈ b.typeEntries package, entry ∈ a.typeEntries package ∨
    b.Own script entry.2 ∧ b.name entry.2 = entry.1
  top : (b.node package).attrs = (a.node package).attrs ∧
    (b.node package).parent = (a.node package).parent ∧
    (b.node script).parent = (a.node script).parent
  fresh : ∀ n : Nat, a.size ≤ n → n < b.size → b.Own script n ∧ (b.kind n).level < 7 ∨
    ¬ b.Own script n ∧ b.home n ≠ some package

theorem Grows.refl (p s : Nat) (a : Arena) : Grows p s a a where
  grown _ _ := .refl _
  name_eq _ _ := rfl
  size_le := Nat.le_refl _
  frame _ _ _ _ := rfl
  script_eq _ _ := rfl
  homes _ _ := rfl
  scripts := rfl
  types _ h := h
  declared _ h := Or.inl h
  top := ⟨rfl, rfl, rfl⟩
  fresh n hn hn' := by omega

theorem Grows.own (h : Grows p s a b) (hn : a.Own s n) : b.Own s n := by
  unfold Own at *
  rw [h.script_eq n (lt_size_of_script hn), hn]

theorem Grows.own_iff (h : Grows p s a b) (hn : n < a.size) : b.Own s n ↔ a.Own s n := by
  unfold Own
  rw [h.script_eq n hn]

theorem Grows.owner (h : Grows p s a b) (hn : a.Owner s n) : b.Owner s n :=
  hn.imp id h.own

theorem Grows.trans (h : Grows p s a b) (h' : Grows p s b c) : Grows p s a c where
  grown n hn := (h.grown n hn).trans (h'.grown n (Nat.lt_of_lt_of_le hn h.size_le))
  size_le := Nat.le_trans h.size_le h'.size_le
  frame n hn hp ho := by
    have hb := Nat.lt_of_lt_of_le hn h.size_le
    have ho' : ¬ b.Owner s n := fun e => ho (e.imp id (h.own_iff hn).1)
    rw [h'.frame n hb hp ho', h.frame n hn hp ho]
  name_eq n hn := by
    rw [h'.name_eq n (Nat.lt_of_lt_of_le hn h.size_le), h.name_eq n hn]
  script_eq n hn := by
    rw [h'.script_eq n (Nat.lt_of_lt_of_le hn h.size_le), h.script_eq n hn]
  homes n hn := by
    rw [h'.homes n (Nat.lt_of_lt_of_le hn h.size_le), h.homes n hn]
  scripts := h'.scripts.trans h.scripts
  types t ht := h'.types t (h.types t ht)
  declared entry he := by
    rcases h'.declared entry he with he | he
    · refine (h.declared entry he).imp id fun ⟨ho, hname⟩ => ⟨h'.own ho, ?_⟩
      rw [h'.name_eq _ ho.lt_size, hname]
    · exact Or.inr he
  top := by
    obtain ⟨h₁, h₂, h₃⟩ := h.top
    obtain ⟨h₄, h₅, h₆⟩ := h'.top
    exact ⟨h₄.trans h₁, h₅.trans h₂, h₆.trans h₃⟩
  fresh n hn hn' := by
    rcases Nat.lt_or_ge n b.size with hb | hb
    · rw [h'.own_iff hb, h'.level hb, h'.homes n hb]
      exact h.fresh n hn hb
    · exact h'.fresh n hb hn'

/-- A node that was read from the script, and what the given kind may grow to. -/
structure Tagged (a : Arena) (script : NodeId) (kind : NodeKind) (node : NodeId) : Prop where
  own : a.Own script node
  grown : kind.Grown (a.kind node)

theorem Tagged.shape {kind : NodeKind} (h : Tagged a s kind n) :
    (a.kind n).ctorIdx = kind.ctorIdx :=
  h.grown.shape

theorem Tagged.grows {kind : NodeKind} (h : Tagged a s kind n) (hg : Grows p s a b) :
    Tagged b s kind n :=
  ⟨hg.own h.own, h.grown.trans (hg.grown n h.own.lt_size)⟩

theorem Tagged.level {kind : NodeKind} (h : Tagged a s kind n) : (a.kind n).level = kind.level :=
  NodeKind.level_congr h.shape

/-- Reading goes from one arena to another without an import. -/
structure Makes (package script : NodeId) (a b : Arena) : Prop extends Grows package script a b where
  own_new : ∀ n : Nat, a.size ≤ n → n < b.size → b.Own script n ∧ (b.kind n).level < 7

/-- Reading goes from one arena to another without an import or a declaration. -/
structure Builds (package script : NodeId) (a b : Arena) : Prop extends Makes package script a b where
  low_new : ∀ n : Nat, a.size ≤ n → n < b.size → (b.kind n).level < 6

theorem Builds.refl (p s : Nat) (a : Arena) : Builds p s a a where
  toGrows := .refl p s a
  own_new n hn hn' := by omega
  low_new n hn hn' := by omega

theorem Builds.trans (h : Builds p s a b) (h' : Builds p s b c) : Builds p s a c where
  toGrows := h.toGrows.trans h'.toGrows
  own_new n hn hn' := by
    rcases Nat.lt_or_ge n b.size with hb | hb
    · rw [h'.toGrows.own_iff hb, h'.toGrows.level hb]
      exact h.own_new n hn hb
    · exact h'.own_new n hb hn'
  low_new n hn hn' := by
    rcases Nat.lt_or_ge n b.size with hb | hb
    · rw [h'.toGrows.level hb]
      exact h.low_new n hn hb
    · exact h'.low_new n hb hn'

/-! ## Enums with values -/

/-- The enums that were read from the script have a first value, but for those of `begun`. -/
def Filled (a : Arena) (script : NodeId) (begun : List NodeId) : Prop :=
  ∀ (n : Nat) (decl : Enumeration), a.Own script n → a.kind n = .enum decl → n ∉ begun →
    decl.default.isSome

/-- Reading makes no enum without values but by a declaration. -/
theorem Grows.filled {begun : List NodeId} (h : Grows p s a b)
    (hlow : ∀ n : Nat, a.size ≤ n → b.Own s n → n ∉ begun → (b.kind n).level < 6)
    (hf : a.Filled s begun) : b.Filled s begun := by
  intro n decl ho hk hn
  rcases Nat.lt_or_ge n a.size with hlt | hge
  · have hshape := h.shape hlt
    rw [hk] at hshape
    obtain ⟨old, hold⟩ := NodeKind.enum_of_ctorIdx hshape.symm
    have hsome := hf n old ((h.own_iff hlt).1 ho) hold hn
    rw [(h.grown n hlt).default old decl hold hk hsome]
    exact hsome
  · have hl := hlow n hge ho hn
    rw [hk] at hl
    exact absurd hl (by decide : ¬ 6 < 6)

theorem Filled.of_kept {begun : List NodeId} (h : a.Filled s begun)
    (ho : ∀ n : Nat, b.Own s n → a.Own s n) (hnode : ∀ n : Nat, a.Own s n → b.node n = a.node n) :
    b.Filled s begun := by
  intro n decl hn hk hb
  unfold kind at hk
  rw [hnode n (ho n hn)] at hk
  exact h n decl (ho n hn) hk hb

/-! ## Staying within a package -/

/-- A step stays within a package: it changes only nodes that belong to the package, and the nodes
it adds belong to the package, or are methods that belong to packages that were served. -/
structure Within (package : NodeId) (served : NodeId → Prop) (a b : Arena) : Prop where
  size_le : a.size ≤ b.size
  frame : ∀ n : Nat, n < a.size → a.home n ≠ some package → b.node n = a.node n
  name_eq : ∀ n : Nat, n < a.size → b.name n = a.name n
  script_eq : ∀ n : Nat, n < a.size → (b.node n).script = (a.node n).script
  shape : ∀ n : Nat, n < a.size → (b.kind n).ctorIdx = (a.kind n).ctorIdx
  homes : ∀ n : Nat, n < a.size → b.home n = a.home n
  fresh : ∀ n : Nat, a.size ≤ n → n < b.size → b.AnchoredAt n ∧ (b.home n = some package ∨
    (b.method? n).isSome ∧ ∃ q, b.home n = some q ∧ served q)

variable {served : NodeId → Prop}

theorem lt_size_of_method (h : (a.method? n).isSome) : n < a.size := by
  obtain ⟨decl, hd⟩ := Option.isSome_iff_exists.1 h
  exact lt_size_of_kind (by rw [method?_eq_some.1 hd]; simp [NodeKind.level])

theorem method?_isSome_congr (h : (b.kind n).ctorIdx = (a.kind n).ctorIdx) :
    (b.method? n).isSome = (a.method? n).isSome := by
  unfold method?
  revert h
  cases b.kind n <;> cases a.kind n <;> first | exact fun _ => rfl | exact fun h => by cases h

/-- Anchored nodes stay anchored. -/
theorem AnchoredAt.kept (h : a.AnchoredAt n) (hsize : a.size ≤ b.size)
    (hs : (b.node n).script = (a.node n).script) (hk : (b.kind n).ctorIdx = (a.kind n).ctorIdx)
    (hh : b.home n = a.home n) : b.AnchoredAt n where
  script_lt s e := Nat.lt_of_lt_of_le (h.script_lt s (hs ▸ e)) hsize
  level_lt s e := by
    rw [NodeKind.level_congr hk]
    exact h.level_lt s (hs ▸ e)
  home_lt p e := Nat.lt_of_lt_of_le (h.home_lt p (hh ▸ e)) hsize

theorem Within.anchored (h : Within p served a b) (ha : Anchored a) : Anchored b := by
  intro n
  rcases Nat.lt_or_ge n a.size with hn | hn
  · exact (ha n).kept h.size_le (h.script_eq n hn) (h.shape n hn) (h.homes n hn)
  · rcases Nat.lt_or_ge n b.size with hb | hb
    · exact (h.fresh n hn hb).1
    · exact anchored_of_size_le hb

theorem Within.trans (h : Within p served a b) (h' : Within p served b c) :
    Within p served a c where
  size_le := Nat.le_trans h.size_le h'.size_le
  frame n hn hp := by
    have hb := Nat.lt_of_lt_of_le hn h.size_le
    rw [h'.frame n hb (by rw [h.homes n hn]; exact hp), h.frame n hn hp]
  name_eq n hn := by
    rw [h'.name_eq n (Nat.lt_of_lt_of_le hn h.size_le), h.name_eq n hn]
  script_eq n hn := by
    rw [h'.script_eq n (Nat.lt_of_lt_of_le hn h.size_le), h.script_eq n hn]
  shape n hn := by
    rw [h'.shape n (Nat.lt_of_lt_of_le hn h.size_le), h.shape n hn]
  homes n hn := by
    rw [h'.homes n (Nat.lt_of_lt_of_le hn h.size_le), h.homes n hn]
  fresh n hn hn' := by
    rcases Nat.lt_or_ge n b.size with hb | hb
    · obtain ⟨ha, hf⟩ := h.fresh n hn hb
      have hk := h'.shape n hb
      refine ⟨ha.kept h'.size_le (h'.script_eq n hb) hk (h'.homes n hb), ?_⟩
      rw [h'.homes n hb, method?_isSome_congr hk]
      exact hf
    · exact h'.fresh n hb hn'

instance : IsPreorder Arena (Within p served) where
  refl _ := ⟨Nat.le_refl _, fun _ _ _ => rfl, fun _ _ => rfl, fun _ _ => rfl, fun _ _ => rfl,
    fun _ _ => rfl, fun n hn hn' => by omega⟩
  trans _ _ _ h h' := h.trans h'

/-- Building below a script of the package stays within the package. -/
theorem Makes.within {decl : Script} (h : Makes p s a b) (ha : Anchored a)
    (hp : a.home p = some p) (hd : a.kind s = .script decl) (he : decl.package = p) :
    Within p served a b where
  size_le := h.size_le
  frame n hn hne := by
    refine h.frame n hn (fun e => hne (e ▸ hp)) fun ho => hne ?_
    rcases ho with rfl | ho
    · rw [home_of_script hd, he]
    · rw [home_of_own ((ha n).level_lt s ho) ho hd, he]
  name_eq := h.name_eq
  script_eq := h.script_eq
  shape n hn := h.shape hn
  homes := h.homes
  fresh n hn hn' := by
    obtain ⟨ho, hl⟩ := h.own_new n hn hn'
    have hs : s < a.size := lt_size_of_home (home_of_script hd)
    have hhome : b.home n = some p := by
      have hb := h.homes s hs
      rw [home_of_script hd, he] at hb
      have hshape := h.shape hs
      rw [hd] at hshape
      obtain ⟨decl', hd'⟩ := NodeKind.script_of_ctorIdx hshape
      rw [home_of_script hd'] at hb
      rw [home_of_own hl ho hd', hb]
    refine ⟨⟨fun t e => ?_, fun _ _ => hl, fun q e => ?_⟩, Or.inl hhome⟩
    · rw [ho] at e
      cases e
      exact Nat.lt_of_lt_of_le hs h.size_le
    · rw [hhome] at e
      cases e
      exact Nat.lt_of_lt_of_le (lt_size_of_home hp) h.size_le

/-! ## One node -/

/-- One node reads otherwise. -/
structure Changed (a b : Arena) (node : NodeId) (value : Node) : Prop where
  size_eq : b.size = a.size
  node_eq : ∀ n : Nat, b.node n = if n = node then value else a.node n

theorem changed_update (h : m < a.size) (f : Node → Node) :
    Changed a (a.update m f) m (f (a.node m)) where
  size_eq := size_update ..
  node_eq n := by
    rw [node_update]
    by_cases hn : n = m
    · rw [if_pos ⟨hn, hn ▸ h⟩, if_pos hn, hn]
    · rw [if_neg fun e => hn e.1, if_neg hn]

theorem changed_updateKind (h : m < a.size) (f : NodeKind → NodeKind) :
    Changed a (a.updateKind m f) m { a.node m with kind := f (a.kind m) } :=
  changed_update h _

/-- The kind of a node is edited, where it is known what the edit makes of it. -/
theorem changed_kind {f : NodeKind → NodeKind} {kind kind' : NodeKind} (h : m < a.size)
    (hk : a.kind m = kind) (hf : f kind = kind') :
    Changed a (a.updateKind m f) m { a.node m with kind := kind' } := by
  rw [← hf, ← hk]
  exact changed_updateKind h f

theorem changed_adopt (h : n < a.size) :
    Changed a (a.adopt m n) n { a.node n with parent := some m } :=
  changed_update h _

namespace Changed

variable {x : Node}

theorem node_self (h : Changed a b m x) : b.node m = x := by
  rw [h.node_eq, if_pos rfl]

theorem node_ne (h : Changed a b m x) (hn : n ≠ m) : b.node n = a.node n := by
  rw [h.node_eq, if_neg hn]

theorem name_eq (h : Changed a b m x) (hx : x.name = (a.node m).name) (n : Nat) :
    b.name n = a.name n := by
  unfold name
  by_cases hn : n = m
  · rw [hn, h.node_self, hx]
  · rw [h.node_ne hn]

theorem script_eq (h : Changed a b m x) (hs : x.script = (a.node m).script) (n : Nat) :
    (b.node n).script = (a.node n).script := by
  by_cases hn : n = m
  · rw [hn, h.node_self, hs]
  · rw [h.node_ne hn]

theorem shape (h : Changed a b m x) (hk : x.kind.ctorIdx = (a.kind m).ctorIdx) (n : Nat) :
    (b.kind n).ctorIdx = (a.kind n).ctorIdx := by
  unfold kind at *
  by_cases hn : n = m
  · rw [hn, h.node_self, hk]
  · rw [h.node_ne hn]

theorem level (h : Changed a b m x) (hk : x.kind.ctorIdx = (a.kind m).ctorIdx) (n : Nat) :
    (b.kind n).level = (a.kind n).level :=
  NodeKind.level_congr (h.shape hk n)

/-- The package that a script names stays the same. -/
theorem scriptPackage (h : Changed a b m x)
    (hk : x.kind.ctorIdx = (a.kind m).ctorIdx)
    (hp : ∀ d, a.kind m = .script d → ∃ d', x.kind = .script d' ∧ d'.package = d.package) (n : Nat) :
    (b.script? n).map (·.package) = (a.script? n).map (·.package) := by
  by_cases hn : n = m
  · subst hn
    cases ha : a.script? n with
    | some d =>
      obtain ⟨d', hx, hd'⟩ := hp d (script?_eq_some.1 ha)
      have hb : b.script? n = some d' := script?_eq_some.2 (by unfold kind; rw [h.node_self, hx])
      rw [hb, Option.map_some, Option.map_some, hd']
    | none =>
      cases hb : b.script? n with
      | none => rfl
      | some d =>
        have hx := h.shape hk n
        rw [script?_eq_some.1 hb] at hx
        obtain ⟨d', hd'⟩ := NodeKind.script_of_ctorIdx hx.symm
        rw [script?_eq_some.2 hd'] at ha
        cases ha
  · unfold script? kind
    rw [h.node_ne hn]

theorem homes (h : Changed a b m x) (hs : x.script = (a.node m).script)
    (hk : x.kind.ctorIdx = (a.kind m).ctorIdx)
    (hp : ∀ d, a.kind m = .script d → ∃ d', x.kind = .script d' ∧ d'.package = d.package) (n : Nat) :
    b.home n = a.home n := by
  have hsame := h.shape hk n
  cases hn : a.kind n with
  | package d =>
    rw [hn] at hsame
    obtain ⟨d', hd'⟩ := NodeKind.package_of_ctorIdx hsame
    rw [home_of_package hn, home_of_package hd']
  | script d =>
    have hmap := h.scriptPackage hk hp n
    rw [script?_eq_some.2 hn] at hmap
    obtain ⟨d', hd', hpackage⟩ := Option.map_eq_some_iff.1 hmap
    rw [home_of_script hn, home_of_script (script?_eq_some.1 hd'), hpackage]
  | _ =>
    have hlevel : (a.kind n).level < 7 := by
      rw [hn]
      simp [NodeKind.level]
    rw [home_of_level hlevel, home_of_level (by rw [h.level hk]; exact hlevel), h.script_eq hs]
    congr 1
    funext script
    exact h.scriptPackage hk hp script

end Changed

end Arena

end SchemaLang
