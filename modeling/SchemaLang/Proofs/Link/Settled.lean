import SchemaLang.Proofs.Link.Formed

/-!
# Linked packages

What holds of the packages that are linked, at any time. The nodes that can be reached from them, by
whatever link, are a set of their own (`Settled`): no link leads out of it, so none is left dangling
when other nodes are dropped, and every reference in it is bound to what it means.

The set is not simply the set of nodes that belong to linked packages. A package that fails while its
contracts are flattened may leave copies of methods behind that were read from a script of a linked
package. Such copies belong to the linked package, but nothing leads to them.
-/

namespace SchemaLang.Arena

variable {a b : Arena} {n m p : Nat} {cached settled : NodeId → Prop}

/-! ## Closed sets of nodes -/

/-- No link leads out of the set. -/
def ClosedUnder (a : Arena) (settled : NodeId → Prop) : Prop :=
  ∀ n m : Nat, settled n → m ∈ (a.node n).links → settled m

section

variable (hc : a.ClosedUnder settled) (hs : settled n)

include hc hs

theorem ClosedUnder.script (h : (a.node n).script = some m) : settled m :=
  hc n m hs (Node.mem_links.2 (Or.inr (Or.inl h)))

theorem ClosedUnder.child (h : m ∈ a.children n) : settled m :=
  hc n m hs (Node.mem_links.2 (Or.inr (Or.inr (Or.inl h))))

theorem ClosedUnder.reference (h : m ∈ (a.kind n).references) : settled m :=
  hc n m hs (Node.mem_links.2 (Or.inr (Or.inr (Or.inr h))))

theorem ClosedUnder.part (h : m ∈ (a.kind n).parts) : settled m :=
  hc.child hs (List.mem_append_right _ h)

theorem ClosedUnder.imports {script : Script} {name : String} {package : Package}
    (hk : a.kind n = .script script) (hi : a.Imports script name package) :
    ∃ node q, settled node ∧ settled q ∧ script.imports.find? name = some node ∧
      a.kind node = .packageRef q ∧ a.kind q = .package package := by
  obtain ⟨node, q, hf, hq, hp⟩ := hi
  have hnode : settled node := hc.part hs (by
    rw [hk]
    exact List.mem_append_left _ (Registry.mem_nodes_of_find? hf))
  exact ⟨node, q, hnode, hc.reference hnode (by rw [hq]; exact List.mem_singleton.2 rfl), hf, hq, hp⟩

theorem ClosedUnder.type {package : Package} {name : String} (hk : a.kind n = .package package)
    (ht : package.types.find? name = some m) : settled m :=
  hc.reference hs (by
    rw [hk]
    exact Registry.mem_nodes_of_find? ht)

end

/-- What a node of a closed set means is decided within the set. -/
theorem ClosedUnder.means (hc : a.ClosedUnder settled)
    (hb : ∀ n : Nat, settled n → b.node n = a.node n) (hs : settled n) {t : NodeId}
    (hm : a.Means n t) : b.Means n t := by
  have hkind : ∀ n : Nat, settled n → b.kind n = a.kind n := fun n hn => by
    unfold kind
    rw [hb n hn]
  obtain ⟨s, script, package, decl, hscript, hk, hp, hr, hd⟩ := hm
  have hss := hc.script hs hscript
  have hsp : settled script.package := hc.reference hss (by
    rw [hk]
    exact List.mem_singleton.2 rfl)
  refine ⟨s, script, package, decl, by rw [hb n hs, hscript], by rw [hkind s hss, hk],
    by rw [hkind _ hsp, hp], by rw [hkind n hs, hr], ?_⟩
  have himports : ∀ name other, a.Imports script name other → b.Imports script name other := by
    intro name other hi
    obtain ⟨node, q, hnode, hq, hf, hkn, hkq⟩ := hc.imports hss hk hi
    exact ⟨node, q, hf, by rw [hkind node hnode, hkn], by rw [hkind q hq, hkq]⟩
  generalize decl.path = path at hd ⊢
  cases hd with
  | type hn ht => exact .type hn ht
  | imported hi ht => exact .imported (himports _ _ hi) ht
  | value hn he hke ht => exact .value hn he (by rw [hkind _ (hc.type hsp hp he), hke]) ht
  | importedValue hi he hke ht =>
    obtain ⟨node, q, -, hq, -, -, hkq⟩ := hc.imports hss hk hi
    exact .importedValue (himports _ _ hi) he (by rw [hkind _ (hc.type hq hkq he), hke]) ht

/-! ## Linked packages -/

/-- The linked packages are those that `cached` holds of, and `settled` holds of the nodes that can
be reached from them. -/
structure Settled (cached settled : NodeId → Prop) (a : Arena) : Prop where
  package : ∀ q : Nat, cached q → settled q ∧ ∃ decl, a.kind q = .package decl
  home : ∀ n : Nat, settled n → ∃ q, a.home n = some q ∧ cached q
  closed : a.ClosedUnder settled
  whole : ∀ n q : Nat, a.home n = some q → cached q → settled n ∨ (a.method? n).isSome
  bound : ∀ (n : Nat) (decl : Reference), settled n → a.kind n = .typeRef decl → a.Bound n
  flat : ∀ (q t : Nat) (decl : Contract), cached q → t ∈ a.typesOf q → a.kind t = .contract decl →
    decl.flattened = true
  plain : ∀ n c : Nat, settled n → (a.kind n).level = 6 → c ∈ a.children n → (a.kind c).level < 6
  methods : ∀ (n m : Nat) (decl : Contract), settled n → a.kind n = .contract decl →
    m ∈ decl.methods.nodes → (a.method? m).isSome
  formed : ∀ n : Nat, settled n → a.Formed (a.kind n)
  listed : ∀ q : Nat, cached q → a.Listed q

theorem package_of_typesOf (h : m ∈ a.typesOf p) :
    ∃ decl, a.kind p = .package decl ∧ m ∈ decl.types.nodes := by
  unfold typesOf at h
  split at h
  · rename_i decl hd
    exact ⟨decl, package?_eq_some.1 hd, h⟩
  · cases h

theorem mem_references_of_typesOf (h : m ∈ a.typesOf p) : m ∈ (a.kind p).references := by
  obtain ⟨decl, hd, hm⟩ := package_of_typesOf h
  rw [hd]
  exact hm

/-- Linked packages taken together. -/
theorem Settled.iUnion {ι : Type} {linked held : ι → NodeId → Prop}
    (h : ∀ i, Settled (linked i) (held i) a) :
    Settled (fun q => ∃ i, linked i q) (fun n => ∃ i, held i n) a where
  package q := fun ⟨i, hq⟩ => ⟨⟨i, ((h i).package q hq).1⟩, ((h i).package q hq).2⟩
  home n := fun ⟨i, hn⟩ => by
    obtain ⟨q, hq, hl⟩ := (h i).home n hn
    exact ⟨q, hq, i, hl⟩
  closed n m := fun ⟨i, hn⟩ hm => ⟨i, (h i).closed n m hn hm⟩
  whole n q hn := fun ⟨i, hq⟩ => ((h i).whole n q hn hq).imp (fun hn => ⟨i, hn⟩) id
  bound n decl := fun ⟨i, hn⟩ => (h i).bound n decl hn
  flat q t decl := fun ⟨i, hq⟩ => (h i).flat q t decl hq
  plain n c := fun ⟨i, hn⟩ => (h i).plain n c hn
  methods n m decl := fun ⟨i, hn⟩ => (h i).methods n m decl hn
  formed n := fun ⟨i, hn⟩ => (h i).formed n hn
  listed q := fun ⟨i, hq⟩ => (h i).listed q hq

/-- The packages that are linked by two accounts. -/
theorem Settled.inter {linked held : NodeId → Prop} (h : Settled linked held a)
    (h' : Settled cached settled a) :
    Settled (fun q => linked q ∧ cached q) (fun n => held n ∧ settled n) a where
  package q hq := ⟨⟨(h.package q hq.1).1, (h'.package q hq.2).1⟩, (h.package q hq.1).2⟩
  home n hn := by
    obtain ⟨q, hq, hl⟩ := h.home n hn.1
    obtain ⟨r, hr, hc⟩ := h'.home n hn.2
    cases hq.symm.trans hr
    exact ⟨q, hq, hl, hc⟩
  closed n m hn hm := ⟨h.closed n m hn.1 hm, h'.closed n m hn.2 hm⟩
  whole n q hn hq := by
    rcases h.whole n q hn hq.1, h'.whole n q hn hq.2 with ⟨hl | hm, hc | hm'⟩
    · exact Or.inl ⟨hl, hc⟩
    · exact Or.inr hm'
    · exact Or.inr hm
    · exact Or.inr hm
  bound n decl hn := h.bound n decl hn.1
  flat q t decl hq := h.flat q t decl hq.1
  plain n c hn := h.plain n c hn.1
  methods n m decl hn := h.methods n m decl hn.1
  formed n hn := h.formed n hn.1
  listed q hq := h.listed q hq.1

/-- Linked packages stay as they are where their nodes do. -/
theorem Settled.kept (h : Settled cached settled a)
    (hb : ∀ n : Nat, settled n → b.node n = a.node n)
    (hw : ∀ n q : Nat, b.home n = some q → cached q → settled n ∨ (b.method? n).isSome) :
    Settled cached settled b := by
  have hkind : ∀ n : Nat, settled n → b.kind n = a.kind n := fun n hn => by
    unfold kind
    rw [hb n hn]
  refine ⟨?_, ?_, ?_, hw, ?_, ?_, ?_, ?_, ?_, ?_⟩
  · intro q hq
    obtain ⟨hs, decl, hd⟩ := h.package q hq
    exact ⟨hs, decl, by rw [hkind q hs, hd]⟩
  · intro n hn
    rw [home_of_nodes (hb n hn) fun s hs => hb s (h.closed.script hn hs)]
    exact h.home n hn
  · intro n m hn hm
    rw [hb n hn] at hm
    exact h.closed n m hn hm
  · intro n decl hn hk
    rw [hkind n hn] at hk
    obtain ⟨path, t, hk', hm⟩ := h.bound n decl hn hk
    exact ⟨path, t, by rw [hkind n hn, hk'], h.closed.means hb hn hm⟩
  · intro q t decl hq ht hk
    have hs := (h.package q hq).1
    rw [typesOf_congr (hb q hs)] at ht
    have hst := h.closed.reference hs (mem_references_of_typesOf ht)
    rw [hkind t hst] at hk
    exact h.flat q t decl hq ht hk
  · intro n c hn hl hc
    rw [hkind n hn] at hl
    unfold children at hc
    rw [hb n hn] at hc
    rw [hkind c (h.closed.child hn hc)]
    exact h.plain n c hn hl hc
  · intro n m decl hn hk hm
    rw [hkind n hn] at hk
    have hsm : settled m := h.closed.part hn (by
      rw [hk]
      exact List.mem_append_right _ hm)
    unfold method?
    rw [hkind m hsm]
    exact h.methods n m decl hn hk hm
  · intro n hn
    rw [hkind n hn]
    refine (h.formed n hn).resembling (fun m hm => .of_node (hb m (h.closed.part hn hm)))
      fun decl hk hf base hbase => ?_
    have hformed := h.formed n hn
    rw [hk] at hformed
    obtain ⟨path, t, hkb, ht⟩ := hformed hf base hbase
    have hsb : settled base := h.closed.part hn (by
      rw [hk]
      exact List.mem_append_left _ hbase)
    have hst : settled t := h.closed.reference hsb (by
      rw [hkb]
      exact List.mem_singleton.2 rfl)
    refine ⟨path, t, by rw [hkind base hsb, hkb], ?_⟩
    unfold contract?
    rw [hkind t hst]
    exact ht
  · intro q hq
    obtain ⟨hs, decl, hd⟩ := h.package q hq
    refine (h.listed q hq).congr (by unfold package?; rw [hkind q hs]) (fun s hsc => ?_)
      (fun t ht => .of_node (hb t (h.closed.reference hs (mem_references_of_typesOf ht))))
      fun n hn hl => ?_
    · unfold script?
      rw [hkind s (h.closed.part hs ?_)]
      rw [hd]
      rwa [scriptsOf_eq hd] at hsc
    · have hsn : settled n := by
        refine (hw n q hn hq).resolve_right fun hm => ?_
        obtain ⟨method, hm⟩ := Option.isSome_iff_exists.1 hm
        rw [method?_eq_some.1 hm] at hl
        cases hl
      rw [home_of_nodes (hb n hsn) fun s hs => hb s (h.closed.script hsn hs)] at hn
      rw [hkind n hsn] at hl
      exact ⟨hn, hl⟩

/-- A step within a package that is not linked leaves the nodes of linked ones alone. -/
theorem Settled.node_eq {served : NodeId → Prop} (h : Settled cached settled a)
    (hw : Within p served a b) (hp : ¬ cached p) (hn : settled n) : b.node n = a.node n := by
  obtain ⟨q, hq, hcached⟩ := h.home n hn
  refine hw.frame n (lt_size_of_home hq) fun e => hp ?_
  rw [hq] at e
  exact Option.some.inj e ▸ hcached

/-- A package that is not linked does not disturb those that are. -/
theorem Settled.within {served : NodeId → Prop} (h : Settled cached settled a)
    (hw : Within p served a b) (hp : ¬ cached p) : Settled cached settled b := by
  refine h.kept (fun n hn => h.node_eq hw hp hn) fun n q hq hcached => ?_
  rcases Nat.lt_or_ge n a.size with hlt | hge
  · rw [hw.homes n hlt] at hq
    rw [method?_isSome_congr (hw.shape n hlt)]
    exact h.whole n q hq hcached
  · rcases (hw.fresh n hge (lt_size_of_home hq)).2 with he | ⟨hm, -⟩
    · rw [hq] at he
      exact absurd (Option.some.inj he ▸ hcached) hp
    · exact Or.inr hm

end SchemaLang.Arena
