import SchemaLang.Proofs.Grammar.Ownership
import SchemaLang.Proofs.Link.Denotation

/-!
# Binding the references of a package

The first pass of linking looks at the nodes that a walk visits. In a package whose scripts are read
these are all nodes of the package (`Gathered.mem_walk_iff`), so the pass succeeds exactly where every
reference of the package means something, and then binds each to what it means
(`bindReferences_outcome`).
-/

namespace SchemaLang

namespace Arena

open Relation

variable {a b : Arena} {n m p s t : Nat} {served : NodeId → Prop}

/-! ## One reference -/

/-- The reference is bound to what it means. -/
def Bound (a : Arena) (n : NodeId) : Prop :=
  ∃ path t, a.kind n = .typeRef ⟨path, some t⟩ ∧ a.Means n t

theorem Binds.bound (h : Binds a b) (hn : a.Bound n) : b.Bound n := by
  obtain ⟨path, t, hk, hm⟩ := hn
  refine ⟨path, t, ?_, h.means_iff.2 hm⟩
  rcases h.node_eq n with hn | ⟨path', t', ha, -⟩
  · unfold kind at *
    rw [hn, hk]
  · rw [hk] at ha
    cases ha

theorem resolve_of_unbound {path : List String} (h : a.kind n = .typeRef ⟨path, none⟩) :
    Changed a (a.resolve n t).2 n { a.node n with kind := .typeRef ⟨path, some t⟩ } := by
  have hlt : n < a.size := lt_size_of_kind (by rw [h]; exact (by decide : (0 : Nat) ≠ 1))
  unfold resolve
  rw [reference?_eq_some.2 h]
  exact changed_kind hlt h rfl

theorem resolve_of_bound {path : List String} {t' : NodeId}
    (h : a.kind n = .typeRef ⟨path, some t'⟩) : (a.resolve n t).2 = a := by
  unfold resolve
  rw [reference?_eq_some.2 h]

/-- A reference that is not bound, or bound to what it means. -/
def Bindable (a : Arena) (n : NodeId) : Prop :=
  a.Scoped n ∧ ((∃ path, a.kind n = .typeRef ⟨path, none⟩) ∨ a.Bound n)

theorem Bindable.resolve (h : a.Bindable n) (hm : a.Means n t) :
    Binds a (a.resolve n t).2 ∧ (a.resolve n t).2.Bound n ∧
      ∀ m, m ≠ n → (a.resolve n t).2.node m = a.node m := by
  rcases h.2 with ⟨path, hk⟩ | hb
  · have hc := resolve_of_unbound (t := t) hk
    have hbinds : Binds a (a.resolve n t).2 := by
      refine ⟨hc.size_eq, fun m => ?_⟩
      by_cases he : m = n
      · subst he
        exact Or.inr ⟨path, t, hk, hc.node_self⟩
      · exact Or.inl (hc.node_ne he)
    refine ⟨hbinds, ⟨path, t, ?_, hbinds.means_iff.2 hm⟩, fun m hne => hc.node_ne hne⟩
    unfold kind
    rw [hc.node_self]
  · obtain ⟨path, t', hk, hm'⟩ := hb
    rw [resolve_of_bound hk]
    exact ⟨.refl a, ⟨path, t', hk, hm'⟩, fun _ _ => rfl⟩

theorem Bindable.kept (hn : a.Bindable n) (h : Binds a b)
    (hb : b.node n = a.node n ∨ b.Bound n) : b.Bindable n := by
  refine ⟨h.scoped hn.1, ?_⟩
  rcases hb with hb | hb
  · refine hn.2.imp (fun hk => ?_) h.bound
    unfold kind at *
    rw [hb]
    exact hk
  · exact Or.inr hb

/-! ## All references of a list -/

/-- The end of binding the references of a list: either each of them is bound to what it means, or
one of them means nothing. Nothing else changes. -/
structure BindsAll (xs : List NodeId) (a b : Arena) (result : EStateM.Result Diagnostic Arena PUnit) :
    Prop where
  binds : Binds a b
  frame : ∀ n : Nat, n ∉ xs → b.node n = a.node n
  outcome : result = .ok ⟨⟩ b ∧ (∀ x ∈ xs, b.Bound x) ∨
    (∃ failure, result = .error failure b) ∧ ∃ x ∈ xs, ∀ t, ¬ a.Means x t

theorem forM_bindReference : ∀ (xs : List NodeId) (a : Arena), (∀ x ∈ xs, a.Bindable x) →
    ∃ b, BindsAll xs a b (xs.forM Link.bindReference a)
  | [], a, _ => ⟨a, .refl a, fun _ _ => rfl, Or.inl ⟨rfl, fun x hx => by cases hx⟩⟩
  | x :: rest, a, h => by
    have hx := h x (List.mem_cons_self ..)
    cases hlookup : a.lookup x with
    | error failure =>
      have hstep : Link.bindReference x a = .error failure a := by
        unfold Link.bindReference
        rw [hlookup]
      refine ⟨a, .refl a, fun _ _ => rfl, Or.inr ⟨⟨failure, forM_cons_error rest hstep⟩, x,
        List.mem_cons_self .., fun t ht => ?_⟩⟩
      rw [(lookup_ok_iff hx.1).2 ht] at hlookup
      cases hlookup
    | ok t =>
      have hstep : Link.bindReference x a = .ok ⟨⟩ (a.resolve x t).2 := by
        unfold Link.bindReference
        rw [hlookup]
      obtain ⟨hbinds, hbound, hsame⟩ := hx.resolve ((lookup_ok_iff hx.1).1 hlookup)
      have hrest : ∀ y ∈ rest, (a.resolve x t).2.Bindable y := by
        intro y hy
        refine (h y (List.mem_cons_of_mem _ hy)).kept hbinds ?_
        by_cases he : y = x
        · exact Or.inr (he ▸ hbound)
        · exact Or.inl (hsame y he)
      obtain ⟨b, hb, hframe, hout⟩ := forM_bindReference rest _ hrest
      refine ⟨b, hbinds.trans hb, fun n hn => ?_, ?_⟩
      · rw [List.mem_cons, not_or] at hn
        rw [hframe n hn.2, hsame n hn.1]
      · rw [forM_cons_ok rest hstep]
        rcases hout with ⟨hok, hall⟩ | ⟨herror, y, hy, hm⟩
        · refine Or.inl ⟨hok, fun y hy => ?_⟩
          rcases List.mem_cons.1 hy with rfl | hy
          · exact hb.bound hbound
          · exact hall y hy
        · exact Or.inr ⟨herror, y, List.mem_cons_of_mem _ hy,
            fun t ht => hm t (hbinds.means_iff.2 ht)⟩

/-! ## The walk over a package -/

/-- The package, its scripts, and what was read from them. -/
def Inside (a : Arena) (package node : NodeId) : Prop :=
  node = package ∨ ∃ s ∈ a.scriptsOf package, a.Owner s node

theorem Gathered.children_package (h : Gathered p served a) : a.children p = a.scriptsOf p := by
  obtain ⟨decl, hd⟩ := h.isPackage
  rw [scriptsOf_eq hd]
  unfold children Node.children
  unfold kind at hd
  rw [h.bare.1, hd]
  rfl

theorem Gathered.descends (h : Gathered p served a) : a.Descends a.rank (a.Inside p) where
  lt_size n hn := by
    rcases hn with rfl | ⟨s, hs, ho⟩
    · obtain ⟨decl, hd⟩ := h.isPackage
      exact lt_size_of_home (home_of_package hd)
    · exact (h.forest s hs).owner_lt_size ho
  down n c hn hc := by
    unfold Child at hc
    rcases hn with rfl | ⟨s, hs, ho⟩
    · rw [h.children_package] at hc
      have hf := h.forest c hc
      refine ⟨Or.inr ⟨c, hc, Or.inl rfl⟩, Under.rank_lt (Or.inl ?_) (hf.owner_lt_size (Or.inl rfl))⟩
      obtain ⟨decl, hd⟩ := h.isPackage
      obtain ⟨decl', hd', -⟩ := hf.isScript
      rw [hd, hd']
      exact Nat.lt_succ_self 7
    · obtain ⟨hin, hlt⟩ := (h.forest s hs).descends.down n c ho hc
      exact ⟨Or.inr ⟨s, hs, hin⟩, hlt⟩

/-- A walk over a package visits the package, its scripts and what was read from them. -/
theorem Gathered.mem_walk_iff (h : Gathered p served a) : n ∈ a.walk p ↔ a.Inside p n := by
  constructor
  · exact fun hn => h.descends.inside_of_reaches (Or.inl rfl) (reaches_of_mem_walk hn)
  · intro hn
    refine h.descends.mem_walk_of_reaches (Or.inl rfl) ?_
    rcases hn with rfl | ⟨s, hs, ho⟩
    · exact .refl
    · have hs' : a.Child p s := by
        unfold Child
        rw [h.children_package]
        exact hs
      refine ReflTransGen.head hs' ?_
      rcases ho with rfl | ho
      · exact .refl
      · exact (h.forest s hs).reaches ho

/-- What is in the package belongs to it. -/
theorem Gathered.inside_iff (h : Gathered p cached a) (ha : Anchored a) :
    a.Inside p n ↔ a.home n = some p := by
  constructor
  · rintro (rfl | ⟨s, hs, rfl | ho⟩)
    · obtain ⟨decl, hd⟩ := h.isPackage
      exact home_of_package hd
    · exact (h.forest n hs).script_home
    · exact (h.forest s hs).home_of_own ha ho
  · exact h.whole n

/-! ## The references of a package -/

/-- The reference was read from one of the scripts of the package. -/
def RefersIn (a : Arena) (package node : NodeId) : Prop :=
  (∃ s ∈ a.scriptsOf package, a.Own s node) ∧ ∃ decl, a.kind node = .typeRef decl

theorem isUnbound_iff : a.isUnbound n = true ↔ ∃ path, a.kind n = .typeRef ⟨path, none⟩ := by
  unfold isUnbound
  split
  · rename_i path hk
    exact ⟨fun _ => ⟨path, hk⟩, fun _ => rfl⟩
  · rename_i hk
    exact ⟨nofun, fun ⟨path, h⟩ => absurd h (hk path)⟩

theorem Forest.unbound {decl : Reference} (h : Forest p s served a []) (hn : a.Own s n)
    (hk : a.kind n = .typeRef decl) : ∃ path, a.kind n = .typeRef ⟨path, none⟩ := by
  have hfit := h.fit n hn
  rw [hk] at hfit
  obtain ⟨path, target⟩ := decl
  have ht : target = none := hfit
  exact ⟨path, by rw [hk, ht]⟩

/-- The aliases of a script that is read lead to packages. -/
theorem Forest.importsResolve {script : Script} (h : Forest p s served a [])
    (hk : a.kind s = .script script) : a.ImportsResolve script := by
  intro name node hf
  have hnode := Registry.mem_nodes_of_find? hf
  obtain ⟨script', hk', hfit⟩ := h.isScript
  rw [hk] at hk'
  cases hk'
  obtain ⟨q, hq⟩ := Option.isSome_iff_exists.1 (hfit.imports node hnode)
  have hkind := packageRef?_eq_some.1 hq
  have hchild : node ∈ a.children s := by
    unfold children Node.children
    unfold kind at hk
    rw [hk]
    exact List.mem_append_right _ (List.mem_append_left _ hnode)
  have hnodefit := h.fit node (h.child s node (Or.inl rfl) hchild).1
  rw [hkind] at hnodefit
  have hlevel := hnodefit.1
  cases hpackage : a.kind q with
  | package other => exact ⟨q, other, hkind, hpackage⟩
  | _ =>
    rw [hpackage] at hlevel
    exact absurd hlevel (by simp [NodeKind.level])

theorem Gathered.bindable (h : Gathered p served a) (hn : a.RefersIn p n) : a.Bindable n := by
  obtain ⟨⟨s, hs, ho⟩, decl, hk⟩ := hn
  have hf := h.forest s hs
  obtain ⟨script, hd, hfit⟩ := hf.isScript
  obtain ⟨package, hp⟩ := hf.isPackage
  exact ⟨⟨s, script, package, decl, ho, hd, by rw [hfit.package_eq, hp], hk,
    hf.importsResolve hd⟩, Or.inl (hf.unbound ho hk)⟩

/-- The pass looks at the references of the package, and at nothing else. -/
theorem Gathered.mem_unbound_iff (h : Gathered p served a) :
    n ∈ (a.walk p).filter a.isUnbound ↔ a.RefersIn p n := by
  rw [List.mem_filter, h.mem_walk_iff, isUnbound_iff]
  constructor
  · rintro ⟨hn, path, hk⟩
    refine ⟨?_, _, hk⟩
    rcases hn with rfl | ⟨s, hs, rfl | ho⟩
    · obtain ⟨decl, hd⟩ := h.isPackage
      rw [hd] at hk
      cases hk
    · obtain ⟨decl, hd, -⟩ := (h.forest n hs).isScript
      rw [hd] at hk
      cases hk
    · exact ⟨s, hs, ho⟩
  · rintro ⟨⟨s, hs, ho⟩, decl, hk⟩
    exact ⟨Or.inr ⟨s, hs, Or.inr ho⟩, (h.forest s hs).unbound ho hk⟩

/-- The first pass binds every reference of the package to what it means, or fails where one means
nothing. -/
theorem Gathered.bindReferences (h : Gathered p served a) :
    ∃ b, Binds a b ∧ (∀ n, ¬ a.RefersIn p n → b.node n = a.node n) ∧
      (Link.bindReferences p a = .ok () b ∧ (∀ n, a.RefersIn p n → b.Bound n) ∨
        (∃ failure, Link.bindReferences p a = .error failure b) ∧
          ∃ n, a.RefersIn p n ∧ ∀ t, ¬ a.Means n t) := by
  obtain ⟨b, hb⟩ := forM_bindReference ((a.walk p).filter a.isUnbound) a fun x hx =>
    h.bindable (h.mem_unbound_iff.1 hx)
  refine ⟨b, hb.binds, fun n hn => hb.frame n fun e => hn (h.mem_unbound_iff.1 e), ?_⟩
  rcases hb.outcome with ⟨hok, hall⟩ | ⟨herror, x, hx, hm⟩
  · exact Or.inl ⟨hok, fun n hn => hall n (h.mem_unbound_iff.2 hn)⟩
  · exact Or.inr ⟨herror, x, h.mem_unbound_iff.1 hx, hm⟩

/-- Where the first pass succeeds, all references of the package are bound. -/
theorem Gathered.binds_of_ok (h : Gathered p served a) (hrun : Link.bindReferences p a = .ok () b) :
    Binds a b ∧ (∀ n, ¬ a.RefersIn p n → b.node n = a.node n) ∧ ∀ n, a.RefersIn p n → b.Bound n := by
  obtain ⟨b', hb, hframe, ⟨hok, hbound⟩ | ⟨⟨failure, herror⟩, -⟩⟩ := h.bindReferences
  · cases hok.symm.trans hrun
    exact ⟨hb, hframe, hbound⟩
  · cases herror.symm.trans hrun

end Arena

end SchemaLang
