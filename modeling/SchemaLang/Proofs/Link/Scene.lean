import SchemaLang.Proofs.Link.Settled
import SchemaLang.Proofs.Step

/-!
# What linking may change

After its references are bound, a package is linked by two passes that move attributes and copy
methods. They change nodes of the package only, and add copies of methods to its contracts.

* `Scene`: what is fixed while a package is linked.
* `Scene.Rearranges`: what a step of the two passes does, whether it fails or not.
* `Scene.Holds`: what holds between two steps. All links from the package lead to it, to linked
  packages or to copies that were made.
* `Scene.Holds.edit`, `Scene.Holds.push`: the two kinds of steps.
-/

namespace SchemaLang

/-! ## What linking keeps of a kind -/

/-- Only tags, ids and methods change: a kind stays what it is beside them, and a contract that is
flattened stays so. -/
def NodeKind.Kept : NodeKind → NodeKind → Prop
  | .enum decl, kind => ∃ isError, kind = .enum { decl with isError := isError }
  | .table decl, kind => ∃ isStruct, kind = .table { decl with isStruct := isStruct }
  | .contract decl, kind => ∃ decl', kind = .contract decl' ∧ decl'.bases = decl.bases ∧
    (decl.flattened = true → decl'.flattened = true)
  | .method decl, kind => ∃ id, kind = .method { decl with id := id }
  | old, kind => kind = old

/-- Kinds in which nothing changes. -/
def NodeKind.isConstant : NodeKind → Bool
  | .enum _ | .table _ | .contract _ | .method _ => false
  | _ => true

namespace NodeKind.Kept

theorem refl (kind : NodeKind) : Kept kind kind := by
  cases kind with
  | enum decl => exact ⟨decl.isError, rfl⟩
  | table decl => exact ⟨decl.isStruct, rfl⟩
  | contract decl => exact ⟨decl, rfl, rfl, id⟩
  | method decl => exact ⟨decl.id, rfl⟩
  | _ => rfl

theorem trans {x y z : NodeKind} (h : Kept x y) (h' : Kept y z) : Kept x z := by
  cases x with
  | enum decl =>
    obtain ⟨isError, rfl⟩ := h
    obtain ⟨isError', rfl⟩ := h'
    exact ⟨isError', rfl⟩
  | table decl =>
    obtain ⟨isStruct, rfl⟩ := h
    obtain ⟨isStruct', rfl⟩ := h'
    exact ⟨isStruct', rfl⟩
  | contract decl =>
    obtain ⟨decl', rfl, hb, hf⟩ := h
    obtain ⟨decl'', rfl, hb', hf'⟩ := h'
    exact ⟨decl'', rfl, hb'.trans hb, fun e => hf' (hf e)⟩
  | method decl =>
    obtain ⟨number, rfl⟩ := h
    obtain ⟨number', rfl⟩ := h'
    exact ⟨number', rfl⟩
  | _ =>
    cases h
    exact h'

theorem shape {x y : NodeKind} (h : Kept x y) : y.ctorIdx = x.ctorIdx := by
  cases x with
  | enum decl =>
    obtain ⟨isError, rfl⟩ := h
    rfl
  | table decl =>
    obtain ⟨isStruct, rfl⟩ := h
    rfl
  | contract decl =>
    obtain ⟨decl', rfl, -⟩ := h
    rfl
  | method decl =>
    obtain ⟨number, rfl⟩ := h
    rfl
  | _ =>
    cases h
    rfl

theorem steady {x y : NodeKind} (h : Kept x y) (hs : x.isSteady = true) : y = x := by
  cases x <;> first | exact h | cases hs

theorem isConstant_eq {x y : NodeKind} (h : Kept x y) : y.isConstant = x.isConstant := by
  have hs := h.shape
  cases x <;> cases y <;> first | rfl | cases hs

theorem constant {x y : NodeKind} (h : Kept x y) (hx : x.isConstant = true) : y = x := by
  cases x <;> first | exact h | cases hx

end NodeKind.Kept

namespace Arena

/-- A kind stays formed. -/
theorem Formed.kept {a : Arena} {x y : NodeKind} (h : a.Formed x) (hk : x.Kept y)
    (hc : ∀ decl, y = .contract decl → decl.flattened = true → a.Resolves decl.bases.toList) :
    a.Formed y := by
  cases x with
  | enum decl =>
    obtain ⟨isError, rfl⟩ := hk
    exact ⟨⟨h.1.default_eq, h.1.values⟩, h.2⟩
  | table decl =>
    obtain ⟨isStruct, rfl⟩ := hk
    exact ⟨h.count, h.fields, h.distinct⟩
  | contract decl =>
    obtain ⟨decl', rfl, -⟩ := hk
    exact hc decl' rfl
  | method decl =>
    obtain ⟨number, rfl⟩ := hk
    trivial
  | _ =>
    cases hk
    exact h

variable {a b c : Arena} {n m : Nat}

/-- Where scopes and references are kept, references mean what they meant. -/
theorem Means.kept {t : NodeId} (hs : ∀ n : Nat, n < a.size → (b.node n).script = (a.node n).script)
    (hk : ∀ n : Nat, n < a.size → (a.kind n).Kept (b.kind n)) (h : a.Means n t) : b.Means n t := by
  have hlow : ∀ n : Nat, (a.kind n).level ≠ 1 → (a.kind n).Kept (b.kind n) := fun n hn =>
    hk n (lt_size_of_kind hn)
  have hpackage : ∀ n decl, a.kind n = .package decl → b.kind n = .package decl := by
    intro n decl hd
    have h := hlow n (by rw [hd]; simp [NodeKind.level])
    rwa [hd] at h
  have himports : ∀ script name other, a.Imports script name other →
      b.Imports script name other := by
    rintro script name other ⟨node, q, hf, hq, ho⟩
    have h := hlow node (by rw [hq]; simp [NodeKind.level])
    rw [hq] at h
    exact ⟨node, q, hf, h, hpackage q other ho⟩
  have henum : ∀ (n : Nat) (decl : Enumeration), a.kind n = .enum decl →
      ∃ decl', b.kind n = .enum decl' ∧ decl'.values = decl.values := by
    intro n decl hd
    have h := hlow n (by rw [hd]; simp [NodeKind.level])
    rw [hd] at h
    obtain ⟨isError, h⟩ := h
    exact ⟨_, h, rfl⟩
  obtain ⟨s, script, package, decl, hscript, hks, hp, hr, hd⟩ := h
  have hs' := hlow s (by rw [hks]; simp [NodeKind.level])
  have hr' := hlow n (by rw [hr]; simp [NodeKind.level])
  rw [hks] at hs'
  rw [hr] at hr'
  refine ⟨s, script, package, decl, by rw [hs n (lt_size_of_script hscript), hscript], hs',
    hpackage _ _ hp, hr', ?_⟩
  generalize decl.path = path at hd ⊢
  cases hd with
  | type hn ht => exact .type hn ht
  | imported hi ht => exact .imported (himports _ _ _ hi) ht
  | value hn he hke ht =>
    obtain ⟨decl', hke', hv⟩ := henum _ _ hke
    exact .value hn he hke' (hv ▸ ht)
  | importedValue hi he hke ht =>
    obtain ⟨decl', hke', hv⟩ := henum _ _ hke
    exact .importedValue (himports _ _ _ hi) he hke' (hv ▸ ht)

theorem Bound.kept (hs : ∀ n : Nat, n < a.size → (b.node n).script = (a.node n).script)
    (hk : ∀ n : Nat, n < a.size → (a.kind n).Kept (b.kind n)) (h : a.Bound n) : b.Bound n := by
  obtain ⟨path, t, hr, hm⟩ := h
  have hr' := hk n (lt_size_of_kind (by rw [hr]; simp [NodeKind.level]))
  rw [hr] at hr'
  exact ⟨path, t, hr', hm.kept hs hk⟩

end Arena

open Arena

/-! ## Scenes -/

/-- What is fixed while a package is linked: the package, the packages that are linked with the nodes
that can be reached from them, and the arena when the passes start. -/
structure Scene where
  package : NodeId
  cached : NodeId → Prop
  settled : NodeId → Prop
  start : Arena

namespace Scene

variable {scene : Scene} {a b c : Arena} {n m : Nat}

/-- The nodes that can be reached once the package is linked: those that can be reached now, those
of the package, and the copies. -/
def Covers (scene : Scene) (a : Arena) (n : Nat) : Prop :=
  scene.settled n ∨ a.home n = some scene.package ∨ scene.start.size ≤ n ∧ n < a.size

/-- The nodes that the passes may change. -/
def Loose (scene : Scene) (n : Nat) : Prop :=
  n < scene.start.size → scene.start.home n = some scene.package

/-- What a step of the passes does. -/
structure Rearranges (scene : Scene) (a b : Arena) : Prop where
  size_le : a.size ≤ b.size
  frame : ∀ n : Nat, ¬ scene.Loose n → b.node n = a.node n
  name_eq : ∀ n : Nat, n < a.size → b.name n = a.name n
  script_eq : ∀ n : Nat, n < a.size → (b.node n).script = (a.node n).script
  shape : ∀ n : Nat, n < a.size → (b.kind n).ctorIdx = (a.kind n).ctorIdx
  homes : ∀ n : Nat, n < a.size → b.home n = a.home n
  kinds : ∀ n : Nat, n < a.size → (a.kind n).Kept (b.kind n)
  fresh : ∀ n : Nat, a.size ≤ n → n < b.size → b.AnchoredAt n ∧ (b.method? n).isSome ∧
    ∃ q, b.home n = some q ∧ (q = scene.package ∨ scene.cached q)

theorem Rearranges.trans (h : Rearranges scene a b) (h' : Rearranges scene b c) :
    Rearranges scene a c where
  size_le := Nat.le_trans h.size_le h'.size_le
  frame n hn := by rw [h'.frame n hn, h.frame n hn]
  name_eq n hn := by
    rw [h'.name_eq n (Nat.lt_of_lt_of_le hn h.size_le), h.name_eq n hn]
  script_eq n hn := by
    rw [h'.script_eq n (Nat.lt_of_lt_of_le hn h.size_le), h.script_eq n hn]
  shape n hn := by
    rw [h'.shape n (Nat.lt_of_lt_of_le hn h.size_le), h.shape n hn]
  homes n hn := by
    rw [h'.homes n (Nat.lt_of_lt_of_le hn h.size_le), h.homes n hn]
  kinds n hn := (h.kinds n hn).trans (h'.kinds n (Nat.lt_of_lt_of_le hn h.size_le))
  fresh n hn hn' := by
    rcases Nat.lt_or_ge n b.size with hb | hb
    · obtain ⟨ha, hm, hq⟩ := h.fresh n hn hb
      have hk := h'.shape n hb
      refine ⟨ha.kept h'.size_le (h'.script_eq n hb) hk (h'.homes n hb), ?_, ?_⟩
      · rw [method?_isSome_congr hk]
        exact hm
      · rw [h'.homes n hb]
        exact hq
    · exact h'.fresh n hb hn'

theorem Rearranges.resembles (h : Rearranges scene a b) (hn : n < a.size) : Resembles a b n where
  name_eq := h.name_eq n hn
  shape := h.shape n hn
  steady hs _ := (h.kinds n hn).steady hs

/-- References that are bound to contracts stay so. -/
theorem Rearranges.resolves {bases : List NodeId} (h : Rearranges scene a b)
    (hr : a.Resolves bases) : b.Resolves bases := by
  intro base hbase
  obtain ⟨path, t, hk, ht⟩ := hr base hbase
  have hkept := h.kinds base (lt_size_of_kind (by rw [hk]; exact (by decide : 0 ≠ 1)))
  rw [hk] at hkept
  obtain ⟨decl, hd⟩ := Option.isSome_iff_exists.1 ht
  rw [contract?_eq_some] at hd
  have hkept' := h.kinds t (lt_size_of_kind (by rw [hd]; exact (by decide : 6 ≠ 1)))
  rw [hd] at hkept'
  obtain ⟨decl', hd', -⟩ := hkept'
  exact ⟨path, t, hkept, by rw [contract?_eq_some.2 hd']; rfl⟩

instance : IsPreorder Arena (Rearranges scene) where
  refl a := ⟨Nat.le_refl _, fun _ _ => rfl, fun _ _ => rfl, fun _ _ => rfl, fun _ _ => rfl,
    fun _ _ => rfl, fun n _ => .refl (a.kind n), fun n hn hn' => by omega⟩
  trans _ _ _ h h' := h.trans h'

/-- The passes stay within the package. -/
theorem Rearranges.within (h : Rearranges scene scene.start b) :
    Within scene.package scene.cached scene.start b where
  size_le := h.size_le
  frame n hn hne := h.frame n fun e => hne (e hn)
  name_eq := h.name_eq
  script_eq := h.script_eq
  shape := h.shape
  homes := h.homes
  fresh n hn hn' := by
    obtain ⟨ha, hm, q, hq, he⟩ := h.fresh n hn hn'
    refine ⟨ha, ?_⟩
    rcases he with rfl | hc
    · exact Or.inl hq
    · exact Or.inr ⟨hm, q, hq, hc⟩

/-- What holds between two steps. -/
structure Holds (scene : Scene) (a : Arena) : Prop where
  size_le : scene.start.size ≤ a.size
  anchored : Anchored a
  homes : ∀ n : Nat, n < scene.start.size → a.home n = scene.start.home n
  isPackage : ∃ decl, a.kind scene.package = .package decl
  home : ∀ n : Nat, scene.Covers a n → ∃ q, a.home n = some q ∧ (q = scene.package ∨ scene.cached q)
  closed : a.ClosedUnder (scene.Covers a)
  bound : ∀ (n : Nat) (decl : Reference), scene.Covers a n → a.kind n = .typeRef decl → a.Bound n
  plain : ∀ n c : Nat, scene.Covers a n → (a.kind n).level = 6 → c ∈ a.children n →
    (a.kind c).level < 6
  methods : ∀ (n m : Nat) (decl : Contract), scene.Covers a n → a.kind n = .contract decl →
    m ∈ decl.methods.nodes → (a.method? m).isSome ∧ (a.home n = some scene.package → scene.Loose m)
  declared : ∀ t ∈ a.typesOf scene.package, t < scene.start.size ∧ a.home t = some scene.package
  flat : ∀ (q t : Nat) (decl : Contract), scene.cached q → t ∈ a.typesOf q →
    a.kind t = .contract decl → decl.flattened = true
  formed : ∀ n : Nat, scene.Covers a n → a.Formed (a.kind n)

theorem Holds.covers_lt (h : Holds scene a) (hn : scene.Covers a n) : n < a.size := by
  obtain ⟨q, hq, -⟩ := h.home n hn
  exact lt_size_of_home hq

theorem Holds.covers_package (h : Holds scene a) : scene.Covers a scene.package := by
  obtain ⟨decl, hd⟩ := h.isPackage
  exact Or.inr (Or.inl (home_of_package hd))

theorem Holds.loose_of_home (h : Holds scene a) (hn : a.home n = some scene.package) :
    scene.Loose n := fun hlt => by
  rw [← h.homes n hlt, hn]

/-! ## Changing a node -/

/-- How a node may change. -/
structure Edits (scene : Scene) (a : Arena) (m : Nat) (x : Node) : Prop where
  loose : scene.Loose m
  covers : scene.Covers a m
  name_eq : x.name = (a.node m).name
  script_eq : x.script = (a.node m).script
  shape : x.kind.ctorIdx = (a.kind m).ctorIdx
  kept : (a.kind m).Kept x.kind
  links : ∀ l ∈ x.links, scene.Covers a l
  plain : (a.kind m).level = 6 → ∀ c ∈ x.children, (a.kind c).level < 6
  methods : ∀ decl, x.kind = .contract decl → ∀ k ∈ decl.methods.nodes,
    (a.method? k).isSome ∧ (a.home m = some scene.package → scene.Loose k)
  resolved : ∀ decl, x.kind = .contract decl → decl.flattened = true →
    a.Resolves decl.bases.toList

theorem Holds.rearranges_edit {x : Node} (hc : Changed a b m x) (he : Edits scene a m x) :
    Rearranges scene a b := by
  have hscript : ∀ d, a.kind m = .script d → ∃ d', x.kind = .script d' ∧ d'.package = d.package := by
    intro d hd
    have hk := he.kept
    rw [hd] at hk
    exact ⟨d, hk, rfl⟩
  refine ⟨Nat.le_of_eq hc.size_eq.symm, fun n hn => hc.node_ne fun e => hn (e ▸ he.loose),
    fun n _ => hc.name_eq he.name_eq n, fun n _ => hc.script_eq he.script_eq n,
    fun n _ => hc.shape he.shape n, fun n _ => hc.homes he.script_eq he.shape hscript n,
    fun n _ => ?_, fun n hn hn' => ?_⟩
  · by_cases h : n = m
    · subst h
      have hk : b.kind n = x.kind := by
        unfold kind
        rw [hc.node_self]
      rw [hk]
      exact he.kept
    · have hk : b.kind n = a.kind n := by
        unfold kind
        rw [hc.node_ne h]
      rw [hk]
      exact .refl _
  · rw [hc.size_eq] at hn'
    omega

theorem Holds.edit {x : Node} (h : Holds scene a) (hc : Changed a b m x)
    (he : Edits scene a m x) : Rearranges scene a b ∧ Holds scene b := by
  have hr := Holds.rearranges_edit hc he
  have hlt := h.covers_lt he.covers
  have hhome : ∀ n, b.home n = a.home n := by
    intro n
    rcases Nat.lt_or_ge n a.size with hn | hn
    · exact hr.homes n hn
    · unfold Arena.home kind
      rw [hc.node_ne (Nat.ne_of_gt (Nat.lt_of_lt_of_le hlt hn)), node_of_size_le hn]
      rfl
  have hcovers : ∀ n, scene.Covers b n ↔ scene.Covers a n := by
    intro n
    unfold Covers
    rw [hhome, hc.size_eq]
  have hlevel := hc.level he.shape
  have hnode : b.node m = x := hc.node_self
  have hkind : ∀ n, n ≠ m → b.kind n = a.kind n := fun n hn => by
    unfold kind
    rw [hc.node_ne hn]
  have hkindm : b.kind m = x.kind := by
    unfold kind
    rw [hnode]
  have htypes : ∀ q, b.typesOf q = a.typesOf q := by
    intro q
    by_cases hq : q = m
    · subst hq
      have hk := he.kept
      unfold typesOf package?
      rw [hkindm]
      cases hd : a.kind q with
      | package decl =>
        rw [hd] at hk
        rw [hk]
      | _ =>
        have hs := he.shape
        rw [hd] at hs
        cases hx : x.kind <;> first | rfl | (rw [hx] at hs; cases hs)
    · exact typesOf_congr (hc.node_ne hq)
  have hmethod : ∀ n, (b.method? n).isSome = (a.method? n).isSome := fun n =>
    method?_isSome_congr (hc.shape he.shape n)
  have hlinks : ∀ n l : Nat, scene.Covers a n → l ∈ (b.node n).links → scene.Covers a l := by
    intro n l hn hl
    by_cases hnm : n = m
    · subst hnm
      rw [hnode] at hl
      exact he.links l hl
    · rw [hc.node_ne hnm] at hl
      exact h.closed n l hn hl
  refine ⟨hr, ?_⟩
  refine ⟨by rw [hc.size_eq]; exact h.size_le, fun n => ?_, fun n hn => by rw [hhome, h.homes n hn],
    ?_, ?_, ?_, ?_, ?_, ?_, ?_, ?_, ?_⟩
  · exact (h.anchored n).kept hr.size_le (hc.script_eq he.script_eq n) (hc.shape he.shape n) (hhome n)
  · obtain ⟨decl, hd⟩ := h.isPackage
    have hs := hc.shape he.shape scene.package
    rw [hd] at hs
    exact NodeKind.package_of_ctorIdx hs
  · intro n hn
    rw [hhome]
    exact h.home n ((hcovers n).1 hn)
  · intro n l hn hl
    rw [hcovers] at hn ⊢
    exact hlinks n l hn hl
  · intro n decl hn hk
    rw [hcovers] at hn
    have hs := hc.shape he.shape n
    rw [hk] at hs
    cases hd : a.kind n with
    | typeRef decl' => exact (h.bound n decl' hn hd).kept hr.script_eq hr.kinds
    | _ =>
      rw [hd] at hs
      cases hs
  · intro n k hn hl hk
    rw [hcovers] at hn
    rw [hlevel] at hl ⊢
    unfold children at hk
    by_cases hnm : n = m
    · subst hnm
      rw [hnode] at hk
      exact he.plain hl k hk
    · rw [hc.node_ne hnm] at hk
      exact h.plain n k hn hl hk
  · intro n k decl hn hk hmem
    rw [hcovers] at hn
    rw [hmethod, hhome]
    by_cases hnm : n = m
    · subst hnm
      rw [hkindm] at hk
      exact he.methods decl hk k hmem
    · rw [hkind n hnm] at hk
      exact h.methods n k decl hn hk hmem
  · intro t ht
    rw [htypes] at ht
    rw [hhome]
    exact h.declared t ht
  · intro q t decl hq ht hk
    rw [htypes] at ht
    have hs := hc.shape he.shape t
    rw [hk] at hs
    cases hd : a.kind t with
    | contract decl' =>
      have hkept := hr.kinds t (lt_size_of_kind (by rw [hd]; simp [NodeKind.level]))
      rw [hd, hk] at hkept
      obtain ⟨decl'', he', -, hf⟩ := hkept
      cases he'
      exact hf (h.flat q t decl' hq ht hd)
    | _ =>
      rw [hd] at hs
      cases hs
  · intro n hn
    rw [hcovers] at hn
    have hresolved : ∀ decl, b.kind n = .contract decl → decl.flattened = true →
        a.Resolves decl.bases.toList := by
      intro decl hk hf
      by_cases hnm : n = m
      · subst hnm
        rw [hkindm] at hk
        exact he.resolved decl hk hf
      · rw [hkind n hnm] at hk
        have hformed := h.formed n hn
        rw [hk] at hformed
        exact hformed hf
    refine ((h.formed n hn).kept (hr.kinds n (h.covers_lt hn)) hresolved).resembling
      (fun c hmem => hr.resembles (h.covers_lt (hlinks n c hn ?_)))
      fun decl hk hf => hr.resolves (hresolved decl hk hf)
    exact Node.mem_links.2 (Or.inr (Or.inr (Or.inl (List.mem_append_right _ hmem))))

/-! ## Adding a copy -/

/-- A copy of a method belongs where the method does. -/
theorem home_push {x : Node} {decl : Method} (h : Anchored a) (hm : (a.method? m).isSome)
    (hk : x.kind = .method decl) (hs : x.script = (a.node m).script) :
    (a.push x).2.home a.size = a.home m := by
  obtain ⟨old, ho⟩ := Option.isSome_iff_exists.1 hm
  have hnode : (a.push x).2.node a.size = x := by
    rw [node_push, if_pos rfl]
  have hlevel : ((a.push x).2.kind a.size).level < 7 := by
    unfold kind
    rw [hnode, hk]
    exact (by decide : 5 < 7)
  have hlevel' : (a.kind m).level < 7 := by
    rw [method?_eq_some.1 ho]
    exact (by decide : 5 < 7)
  rw [home_of_level hlevel, home_of_level hlevel', hnode, hs]
  cases hlink : (a.node m).script with
  | none => rfl
  | some s =>
    have hlt := (h m).script_lt s hlink
    simp only [Option.bind_some, script?_congr ((Extends.push a x).node_eq s hlt)]

theorem Holds.push {x : Node} {decl : Method} (h : Holds scene a) (hm : scene.Covers a m)
    (hmethod : (a.method? m).isSome) (hk : x.kind = .method decl)
    (hs : x.script = (a.node m).script) (hl : ∀ l ∈ x.links, scene.Covers a l) :
    Rearranges scene a (a.push x).2 ∧ Holds scene (a.push x).2 ∧
      scene.Covers (a.push x).2 a.size := by
  have hnew := home_push h.anchored hmethod hk hs
  have hext := Extends.push a x
  have hsize : (a.push x).2.size = a.size + 1 := size_push a x
  have hnode : (a.push x).2.node a.size = x := by
    rw [node_push, if_pos rfl]
  generalize (a.push x).2 = b at *
  have hkind : b.kind a.size = .method decl := by
    unfold kind
    rw [hnode, hk]
  have hold : ∀ n, n < a.size → b.kind n = a.kind n := fun n hn => by
    unfold kind
    rw [hext.node_eq n hn]
  have hhome : ∀ n, n < a.size → b.home n = a.home n := fun n hn => h.anchored.home_eq hext hn
  obtain ⟨q, hq, hqc⟩ := h.home m hm
  have hcovers : ∀ n : Nat, scene.Covers a n → scene.Covers b n := by
    intro n hn
    have hlt := h.covers_lt hn
    rcases hn with hn | hn | ⟨hn, -⟩
    · exact Or.inl hn
    · exact Or.inr (Or.inl (by rw [hhome n hlt, hn]))
    · exact Or.inr (Or.inr ⟨hn, by omega⟩)
  have hcases : ∀ n : Nat, scene.Covers b n → n = a.size ∨ n < a.size ∧ scene.Covers a n := by
    intro n hn
    have hlt : n < b.size ∨ scene.settled n := by
      rcases hn with hn | hn | hn
      · exact Or.inr hn
      · exact Or.inl (lt_size_of_home hn)
      · exact Or.inl hn.2
    have hlt' : n = a.size ∨ n < a.size := by
      rcases hlt with hlt | hlt
      · omega
      · exact Or.inr (h.covers_lt (Or.inl hlt))
    refine hlt'.imp id fun hlt => ⟨hlt, ?_⟩
    rcases hn with hn | hn | ⟨hn, -⟩
    · exact Or.inl hn
    · exact Or.inr (Or.inl (by rw [← hhome n hlt, hn]))
    · exact Or.inr (Or.inr ⟨hn, hlt⟩)
  have hanchored : b.AnchoredAt a.size := by
    refine ⟨fun s e => ?_, fun s e => ?_, fun p e => ?_⟩
    · rw [hnode, hs] at e
      exact Nat.lt_of_lt_of_le ((h.anchored m).script_lt s e) hext.size_le
    · rw [hkind]
      exact (by decide : 5 < 7)
    · rw [hnew] at e
      exact Nat.lt_of_lt_of_le ((h.anchored m).home_lt p e) hext.size_le
  have hr : Rearranges scene a b := by
    refine ⟨hext.size_le, fun n hn => ?_, fun n hn => by unfold name; rw [hext.node_eq n hn],
      fun n hn => by rw [hext.node_eq n hn], fun n hn => by rw [hold n hn], hhome,
      fun n hn => by rw [hold n hn]; exact .refl _,
      fun n hn hn' => ?_⟩
    · refine hext.node_eq n (Nat.lt_of_lt_of_le ?_ h.size_le)
      exact Nat.lt_of_not_le fun hge => hn fun hlt => absurd hlt (Nat.not_lt.2 hge)
    · have he : n = a.size := by omega
      subst he
      refine ⟨hanchored, by rw [method?_eq_some.2 hkind]; rfl, q, by rw [hnew, hq], hqc⟩
  refine ⟨hr, ?_, Or.inr (Or.inr ⟨h.size_le, by omega⟩)⟩
  have htypes : ∀ q, q < a.size → b.typesOf q = a.typesOf q := fun q hq =>
    typesOf_congr (hext.node_eq q hq)
  refine ⟨Nat.le_trans h.size_le hext.size_le, fun n => ?_, fun n hn => ?_, ?_, ?_, ?_, ?_, ?_, ?_,
    ?_, ?_, ?_⟩
  · rcases Nat.lt_or_ge n a.size with hn | hn
    · exact (h.anchored n).kept hext.size_le (by rw [hext.node_eq n hn]) (by rw [hold n hn])
        (hhome n hn)
    · rcases Nat.lt_or_ge n b.size with hb | hb
      · have he : n = a.size := by omega
        exact he ▸ hanchored
      · exact anchored_of_size_le hb
  · rw [hhome n (Nat.lt_of_lt_of_le hn h.size_le), h.homes n hn]
  · obtain ⟨d, hd⟩ := h.isPackage
    exact ⟨d, by rw [hold _ (h.covers_lt h.covers_package), hd]⟩
  · intro n hn
    rcases hcases n hn with rfl | ⟨hlt, hn⟩
    · exact ⟨q, by rw [hnew, hq], hqc⟩
    · rw [hhome n hlt]
      exact h.home n hn
  · intro n l hn hmem
    rcases hcases n hn with rfl | ⟨hlt, hn⟩
    · rw [hnode] at hmem
      exact hcovers l (hl l hmem)
    · rw [hext.node_eq n hlt] at hmem
      exact hcovers l (h.closed n l hn hmem)
  · intro n d hn hd
    rcases hcases n hn with rfl | ⟨hlt, hn⟩
    · rw [hkind] at hd
      cases hd
    · rw [hold n hlt] at hd
      exact (h.bound n d hn hd).kept hr.script_eq hr.kinds
  · intro n k hn hlevel hmem
    rcases hcases n hn with rfl | ⟨hlt, hn⟩
    · rw [hkind] at hlevel
      exact absurd hlevel (by decide : ¬ 5 = 6)
    · unfold children at hmem
      rw [hext.node_eq n hlt] at hmem
      rw [hold n hlt] at hlevel
      rw [hold k (h.covers_lt (h.closed.child hn hmem))]
      exact h.plain n k hn hlevel hmem
  · intro n k d hn hd hmem
    rcases hcases n hn with rfl | ⟨hlt, hn⟩
    · rw [hkind] at hd
      cases hd
    · rw [hold n hlt] at hd
      obtain ⟨hmk, hloose⟩ := h.methods n k d hn hd hmem
      refine ⟨?_, fun e => hloose (by rw [← hhome n hlt, e])⟩
      rw [method?_isSome_congr (hr.shape k (lt_size_of_method hmk))]
      exact hmk
  · intro t ht
    rw [htypes _ (h.covers_lt h.covers_package)] at ht
    obtain ⟨hlt, hh⟩ := h.declared t ht
    exact ⟨hlt, by rw [hhome t (Nat.lt_of_lt_of_le hlt h.size_le), hh]⟩
  · intro q t d hqc ht hd
    have hlt : ∀ n : Nat, b.kind n ≠ .method decl → (b.kind n).level ≠ 1 → n < a.size := by
      intro n hne hlevel
      have hlt := lt_size_of_kind hlevel
      have he : n ≠ a.size := fun e => hne (e ▸ hkind)
      omega
    have hq : q < a.size := by
      obtain ⟨package, hp, -⟩ := package_of_typesOf ht
      exact hlt q (by rw [hp]; exact fun e => by cases e) (by rw [hp]; simp [NodeKind.level])
    rw [htypes q hq] at ht
    rw [hold t (hlt t (by rw [hd]; exact fun e => by cases e)
      (by rw [hd]; simp [NodeKind.level]))] at hd
    exact h.flat q t d hqc ht hd
  · intro n hn
    rcases hcases n hn with rfl | ⟨hlt, hn⟩
    · rw [hkind]
      trivial
    · rw [hold n hlt]
      refine (h.formed n hn).resembling (fun c hmem => hr.resembles (h.covers_lt ?_))
        fun d hd hf => hr.resolves ?_
      · exact h.closed.part hn hmem
      · have hformed := h.formed n hn
        rw [hd] at hformed
        exact hformed hf

end Scene

end SchemaLang
