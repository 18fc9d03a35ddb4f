import SchemaLang.Link
import SchemaLang.Proofs.Link.Copying
import SchemaLang.Proofs.Link.Placing

/-!
# Linking a package

A package whose scripts are read, with imports of linked packages only, is linked without a change to
any other package; when linking succeeds, the package is a linked package itself
(`leads_linkPackage`).
-/

namespace SchemaLang

namespace Arena

variable {a b : Arena} {l n p t : Nat} {cached settled : NodeId → Prop}

/-! ## The links of a package that is read -/

theorem Gathered.child_home (h : Gathered p cached a) (ha : Anchored a) (hn : a.home n = some p)
    (hl : l ∈ a.children n) : a.home l = some p :=
  (h.inside_iff ha).1 (h.descends.down n l ((h.inside_iff ha).2 hn) hl).1

theorem Gathered.type_home (h : Gathered p cached a) (ha : Anchored a) (ht : t ∈ a.typesOf p) :
    a.home t = some p := by
  obtain ⟨s, hs, ho⟩ := h.types t ht
  exact (h.forest s hs).home_of_own ha ho

theorem Gathered.parent_home (h : Gathered p cached a) (ha : Anchored a)
    (hn : a.home n = some p) (hl : (a.node n).parent = some l) : a.home l = some p := by
  rcases h.whole n hn with rfl | ⟨s, hs, rfl | ho⟩
  · rw [h.bare.2] at hl
    cases hl
  · rw [h.parent n hs] at hl
    cases hl
    exact (h.inside_iff ha).1 (Or.inl rfl)
  · exact (h.inside_iff ha).1 (Or.inr ⟨s, hs, (h.forest s hs).parent n l ho hl⟩)

theorem Gathered.reference_home (h : Gathered p cached a) (ha : Anchored a)
    (hn : a.home n = some p) (hl : l ∈ (a.kind n).references) :
    a.home l = some p ∨ cached l := by
  rcases h.whole n hn with rfl | ⟨s, hs, rfl | ho⟩
  · obtain ⟨decl, hd⟩ := h.isPackage
    rw [hd] at hl
    exact Or.inl (h.type_home ha (by rw [typesOf_eq hd]; exact hl))
  · obtain ⟨decl, hd, hfit⟩ := (h.forest n hs).isScript
    rw [hd] at hl
    have he : l = p := (List.mem_singleton.1 hl).trans hfit.package_eq
    exact Or.inl ((h.inside_iff ha).1 (Or.inl he))
  · have hfit := (h.forest s hs).fit n ho
    cases hk : a.kind n with
    | packageRef target =>
      rw [hk] at hfit hl
      rw [List.mem_singleton.1 hl]
      exact Or.inr hfit.2
    | typeRef reference =>
      rw [hk] at hfit hl
      have ht : reference.target = none := hfit
      simp [NodeKind.references, ht] at hl
    | enum decl =>
      rw [hk] at hfit hl
      have hmem := EnumFit.default_mem hfit (n := l) (by simpa [NodeKind.references] using hl)
      refine Or.inl (h.child_home ha hn (List.mem_append_right _ ?_))
      unfold kind at hk
      rw [hk]
      exact hmem
    | package decl =>
      rw [hk] at hfit
      exact hfit.elim
    | script decl =>
      rw [hk] at hfit
      exact hfit.elim
    | _ =>
      rw [hk] at hl
      cases hl

/-- What a reference of the package means is in the package or in a linked one. -/
theorem Gathered.means_home (h : Gathered p cached a) (ha : Anchored a)
    (hs : Settled cached settled a) (hn : a.RefersIn p n) (hm : a.Means n t) :
    a.home t = some p ∨ settled t := by
  obtain ⟨⟨s, hmem, ho⟩, -⟩ := hn
  obtain ⟨s', script, package, decl, hs', hks, hp, -, hd⟩ := hm
  have he : s' = s := by
    unfold Own at ho
    rw [ho] at hs'
    exact (Option.some.inj hs').symm
  subst he
  have hf := h.forest s' hmem
  obtain ⟨script', hks', hfit⟩ := hf.isScript
  rw [hks] at hks'
  cases hks'
  rw [hfit.package_eq] at hp
  have htype : ∀ (name : String) (x : Nat), package.types.find? name = some x →
      a.home x = some p := fun name x hx => h.type_home ha (by
    rw [typesOf_eq hp]
    exact Registry.mem_nodes_of_find? hx)
  have himports : ∀ name other, a.Imports script name other →
      ∃ q, settled q ∧ a.kind q = .package other := by
    rintro name other ⟨node, q, hfind, hkn, hkq⟩
    have hchild : node ∈ a.children s' := by
      unfold kind at hks
      refine List.mem_append_right _ ?_
      rw [hks]
      exact List.mem_append_left _ (Registry.mem_nodes_of_find? hfind)
    have hnode := hf.fit node (hf.child s' node (Or.inl rfl) hchild).1
    rw [hkn] at hnode
    exact ⟨q, (hs.package q hnode.2).1, hkq⟩
  have hvalue : ∀ (enum : Nat) (e : Enumeration) (name : String), a.kind enum = .enum e →
      e.values.find? name = some t → t ∈ a.children enum := by
    intro enum e name hke hv
    unfold kind at hke
    refine List.mem_append_right _ ?_
    rw [hke]
    exact Registry.mem_nodes_of_find? hv
  generalize decl.path = path at hd
  cases hd with
  | type _ ht => exact Or.inl (htype _ _ ht)
  | imported hi ht =>
    obtain ⟨q, hq, hkq⟩ := himports _ _ hi
    exact Or.inr (hs.closed.type hq hkq ht)
  | value _ he hke ht => exact Or.inl (h.child_home ha (htype _ _ he) (hvalue _ _ _ hke ht))
  | importedValue hi he hke ht =>
    obtain ⟨q, hq, hkq⟩ := himports _ _ hi
    exact Or.inr (hs.closed.child (hs.closed.type hq hkq he) (hvalue _ _ _ hke ht))

/-! ## After the references are bound -/

theorem Binds.shape (h : Binds a b) (n : Nat) : (b.kind n).ctorIdx = (a.kind n).ctorIdx := by
  rcases h.node_eq n with hn | ⟨path, t, hk, hn⟩
  · unfold kind
    rw [hn]
  · rw [hk]
    unfold kind
    rw [hn]
    rfl

theorem Binds.children_eq (h : Binds a b) (n : Nat) : b.children n = a.children n := by
  rcases h.node_eq n with hn | ⟨path, t, hk, hn⟩
  · unfold children
    rw [hn]
  · unfold kind at hk
    unfold children Node.children
    rw [hn, hk]
    rfl

theorem Binds.script?_eq (h : Binds a b) (s : Nat) : b.script? s = a.script? s := by
  cases hs : a.script? s with
  | some decl => rw [script?_eq_some, h.script_iff, ← script?_eq_some, hs]
  | none =>
    refine Option.eq_none_iff_forall_ne_some.2 fun decl hd => ?_
    rw [script?_eq_some, h.script_iff, ← script?_eq_some, hs] at hd
    cases hd

theorem Binds.home_eq (h : Binds a b) (n : Nat) : b.home n = a.home n := by
  rcases h.node_eq n with hn | ⟨path, t, hk, hn⟩
  · exact home_congr hn fun s => by rw [h.script?_eq]
  · have hka : (a.kind n).level < 7 := by
      rw [hk]
      exact (by decide : 0 < 7)
    have hkb : (b.kind n).level < 7 := by
      rw [NodeKind.level_congr (h.shape n)]
      exact hka
    rw [home_of_level hka, home_of_level hkb, h.script_eq]
    simp only [h.script?_eq]

theorem Binds.kind_or (h : Binds a b) (n : Nat) :
    b.kind n = a.kind n ∨ ∃ path t, a.kind n = .typeRef ⟨path, none⟩ ∧
      b.kind n = .typeRef ⟨path, some t⟩ := by
  refine (h.node_eq n).imp (fun hn => ?_) fun ⟨path, t, hk, hn⟩ => ⟨path, t, hk, ?_⟩
  · unfold kind
    rw [hn]
  · unfold kind
    rw [hn]

theorem Binds.resembles (h : Binds a b) (n : Nat) : Resembles a b n where
  name_eq := h.name_eq n
  shape := h.shape n
  steady _ hl := (h.kind_or n).resolve_right fun ⟨path, t, hk, _⟩ => hl (by rw [hk]; rfl)

theorem Binds.resolves {bases : List NodeId} (h : Binds a b) (hr : a.Resolves bases) :
    b.Resolves bases := by
  intro base hbase
  obtain ⟨path, t, hk, ht⟩ := hr base hbase
  refine ⟨path, t, ?_, ?_⟩
  · rcases h.kind_or base with he | ⟨path', t', hk', -⟩
    · rw [he, hk]
    · rw [hk] at hk'
      cases hk'
  · obtain ⟨decl, hd⟩ := Option.isSome_iff_exists.1 ht
    rw [contract?_eq_some] at hd
    rw [contract?_eq_some.2 ((h.kind_iff (by exact Nat.succ_ne_zero 5)).2 hd)]
    rfl

/-- What is formed stays so while references are bound. -/
theorem Binds.formed (h : Binds a b) (hn : a.Formed (a.kind n)) : b.Formed (b.kind n) := by
  rcases h.kind_or n with he | ⟨path, t, -, hk⟩
  · rw [he]
    refine hn.resembling (fun m _ => h.resembles m) fun decl hd hf => h.resolves ?_
    rw [hd] at hn
    exact hn hf
  · rw [hk]
    trivial

/-- The types of a package stay listed while references are bound. -/
theorem Binds.listed (h : Binds a b) (hp : a.Listed p) : b.Listed p := by
  have hpackage : b.package? p = a.package? p := Option.ext fun decl => by
    rw [package?_eq_some, package?_eq_some, h.package_iff]
  refine hp.congr hpackage (fun s _ => h.script?_eq s) (fun t _ => h.resembles t) fun n hn hl => ?_
  rw [h.home_eq] at hn
  rw [NodeKind.level_congr (h.shape n)] at hl
  exact ⟨hn, hl⟩

/-- Binding references of a package stays within the package. -/
theorem Gathered.within_binds (h : Gathered p cached a) (ha : Anchored a) (hb : Binds a b)
    (hframe : ∀ n, ¬ a.RefersIn p n → b.node n = a.node n) : Within p cached a b := by
  refine ⟨Nat.le_of_eq hb.size_eq.symm, fun n _ hne => hframe n fun hr => hne ?_,
    fun n _ => hb.name_eq n, fun n _ => hb.script_eq n, fun n _ => hb.shape n,
    fun n _ => hb.home_eq n, fun n hn hn' => ?_⟩
  · obtain ⟨⟨s, hs, ho⟩, -⟩ := hr
    exact (h.forest s hs).home_of_own ha ho
  · rw [hb.size_eq] at hn'
    omega

theorem Gathered.refersIn {decl : Reference} (h : Gathered p cached a) (hn : a.home n = some p)
    (hk : a.kind n = .typeRef decl) : a.RefersIn p n := by
  refine ⟨h.own_of_level hn ?_, decl, hk⟩
  rw [hk]
  exact (by decide : 0 < 7)

theorem Gathered.plain {c : Nat} (h : Gathered p cached a) (hn : a.home n = some p)
    (hl : (a.kind n).level = 6) (hc : c ∈ a.children n) : (a.kind c).level < 6 := by
  rcases h.whole n hn with rfl | ⟨s, hmem, ho⟩
  · obtain ⟨decl, hd⟩ := h.isPackage
    rw [hd] at hl
    exact absurd hl (by decide : ¬ 8 = 6)
  · rcases ((h.forest s hmem).child n c ho hc).2 with hlt | ⟨he, hlt, -⟩
    · exact hl ▸ hlt
    · exact he ▸ hlt

theorem Gathered.methods {decl : Contract} {m : Nat} (h : Gathered p cached a)
    (hn : a.home n = some p) (hk : a.kind n = .contract decl) (hm : m ∈ decl.methods.nodes) :
    (a.method? m).isSome := by
  obtain ⟨s, hmem, ho⟩ := h.own_of_level hn (by rw [hk]; exact (by decide : 6 < 7))
  have hfit := (h.forest s hmem).fit n ho
  rw [hk] at hfit
  exact hfit.isMethod hm

/-- A link of the bound package leads to the package or to a linked one. -/
theorem Gathered.links_home (h : Gathered p cached a) (ha : Anchored a)
    (hs : Settled cached settled a) (hb : Binds a b)
    (hbound : ∀ n, a.RefersIn p n → b.Bound n) (hn : a.home n = some p)
    (hl : l ∈ (b.node n).links) : a.home l = some p ∨ settled l := by
  have hold : l ∈ (a.node n).links → a.home l = some p ∨ settled l := by
    intro hl
    rcases Node.mem_links.1 hl with hl | hl | hl | hl
    · exact Or.inl (h.parent_home ha hn hl)
    · exact Or.inl (ha.script_home hn hl).2
    · exact Or.inl (h.child_home ha hn hl)
    · exact (h.reference_home ha hn hl).imp id fun hc => (hs.package l hc).1
  rcases hb.node_eq n with hsame | ⟨path, t, hk, hnode⟩
  · rw [hsame] at hl
    exact hold hl
  · have hr := h.refersIn hn hk
    have hkb : b.kind n = .typeRef ⟨path, some t⟩ := by
      unfold kind
      rw [hnode]
    obtain ⟨path', t', hk', hm⟩ := hbound n hr
    rw [hkb] at hk'
    cases hk'
    rcases Node.mem_links.1 hl with hl' | hl' | hl' | hl'
    · rw [hnode] at hl'
      exact hold (Node.mem_links.2 (Or.inl hl'))
    · rw [hnode] at hl'
      exact hold (Node.mem_links.2 (Or.inr (Or.inl hl')))
    · exact Or.inl (h.child_home ha hn (hb.children_eq n ▸ hl'))
    · have he : l = t := by
        rw [hnode] at hl'
        simpa [NodeKind.references] using hl'
      exact he ▸ h.means_home ha hs hr (hb.means_iff.1 hm)

/-- The second pass may start once all references of the package are bound. -/
theorem Gathered.placing (h : Gathered p cached a) (ha : Anchored a)
    (hs : Settled cached settled a) (hp : ¬ cached p) (hb : Binds a b)
    (hframe : ∀ n, ¬ a.RefersIn p n → b.node n = a.node n)
    (hbound : ∀ n, a.RefersIn p n → b.Bound n) :
    Scene.Placing ⟨p, cached, settled, b⟩ b := by
  have hw := h.within_binds ha hb hframe
  have hsb := hs.within hw hp
  let scene : Scene := ⟨p, cached, settled, b⟩
  have hcases : ∀ n : Nat, scene.Covers b n → settled n ∨ a.home n = some p := by
    intro n hn
    rcases hn with hn | hn | ⟨hn, hn'⟩
    · exact Or.inl hn
    · exact Or.inr (by rw [← hb.home_eq, hn])
    · exact absurd hn' (Nat.not_lt.2 hn)
  have hcovers : ∀ n : Nat, a.home n = some p ∨ settled n → scene.Covers b n := by
    intro n hn
    rcases hn with hn | hn
    · exact Or.inr (Or.inl (by rw [hb.home_eq, hn]))
    · exact Or.inl hn
  have hchild : ∀ n c : Nat, b.home n = some p → c ∈ b.children n → b.home c = some p := by
    intro n c hn hc
    rw [hb.home_eq] at hn ⊢
    rw [hb.children_eq] at hc
    exact h.child_home ha hn hc
  obtain ⟨decl, hd⟩ := h.isPackage
  have hdb := hb.package_iff.2 hd
  refine ⟨⟨Nat.le_refl _, hw.anchored ha, fun _ _ => rfl, ⟨decl, hdb⟩, ?_, ?_, ?_, ?_, ?_, ?_,
    hsb.flat, fun n hn => ?_⟩, hchild⟩
  · intro n hn
    rcases hcases n hn with hn | hn
    · obtain ⟨q, hq, hc⟩ := hsb.home n hn
      exact ⟨q, hq, Or.inr hc⟩
    · exact ⟨p, by rw [hb.home_eq, hn], Or.inl rfl⟩
  · intro n l hn hl
    rcases hcases n hn with hn | hn
    · exact Or.inl (hsb.closed n l hn hl)
    · exact hcovers l (h.links_home ha hs hb hbound hn hl)
  · intro n decl hn hk
    rcases hcases n hn with hn | hn
    · exact hsb.bound n decl hn hk
    · obtain ⟨target, hka⟩ := hb.path_iff.1 ⟨decl.target, hk⟩
      exact hbound n (h.refersIn hn hka)
  · intro n c hn hl hc
    rcases hcases n hn with hn | hn
    · exact hsb.plain n c hn hl hc
    · rw [NodeKind.level_congr (hb.shape n)] at hl
      rw [hb.children_eq] at hc
      rw [NodeKind.level_congr (hb.shape c)]
      exact h.plain hn hl hc
  · intro n m decl hn hk hm
    rcases hcases n hn with hn | hn
    · refine ⟨hsb.methods n m decl hn hk hm, fun e => absurd ?_ hp⟩
      obtain ⟨q, hq, hc⟩ := hsb.home n hn
      rw [hq] at e
      have he : q = p := Option.some.inj e
      exact he ▸ hc
    · have hka := (hb.kind_iff (by exact Nat.succ_ne_zero 5)).1 hk
      have hmethod := h.methods hn hka hm
      rw [method?_isSome_congr (hb.shape m)]
      refine ⟨hmethod, fun _ _ => hchild n m (by rw [hb.home_eq, hn]) (List.mem_append_right _ ?_)⟩
      unfold kind at hk
      rw [hk]
      exact List.mem_append_right _ hm
  · intro t ht
    have hta : t ∈ a.typesOf p := by
      rw [typesOf_eq hd, ← typesOf_eq hdb]
      exact ht
    have hhome := h.type_home ha hta
    exact ⟨hb.size_eq ▸ lt_size_of_home hhome, by rw [hb.home_eq, hhome]⟩
  · exact (hcases n hn).elim (hsb.formed n) fun hn => hb.formed (h.formed hn)

/-- What linking a package does, whether it fails or not: it stays within the package, and
every import stands for the package that it stood for. -/
structure Links (package : NodeId) (cached : NodeId → Prop) (a b : Arena) : Prop
    extends Within package cached a b where
  imports : ∀ n q : Nat, b.kind n = .packageRef q ↔ a.kind n = .packageRef q

instance : IsPreorder Arena (Links p cached) where
  refl a := ⟨refl a, fun _ _ => Iff.rfl⟩
  trans _ _ _ h h' := ⟨h.toWithin.trans h'.toWithin, fun n q =>
    (h'.imports n q).trans (h.imports n q)⟩

end Arena

open Arena

variable {a : Arena} {p : Nat} {cached settled : NodeId → Prop}

/-- The passes keep what the imports stand for, the packages and the scripts. -/
theorem Scene.Rearranges.kind_iff {scene : Scene} {b c : Arena} {n : Nat} {kind : NodeKind}
    (h : scene.Rearranges b c) (hk : kind.isConstant = true) (hl : kind.level ≠ 1) :
    c.kind n = kind ↔ b.kind n = kind := by
  have hlt : ∀ {d : Arena}, d.kind n = kind → n < d.size := fun he =>
    lt_size_of_kind (he ▸ hl)
  refine ⟨fun he => ?_, fun he => ?_⟩
  · rcases Nat.lt_or_ge n b.size with hn | hn
    · rw [← (h.kinds n hn).constant ((h.kinds n hn).isConstant_eq ▸ he ▸ hk), he]
    · -- what the passes add are methods
      obtain ⟨-, hm, -⟩ := h.fresh n hn (hlt he)
      obtain ⟨decl, hd⟩ := Option.isSome_iff_exists.1 hm
      rw [← he, method?_eq_some.1 hd] at hk
      cases hk
  · have hkept := h.kinds n (hlt he)
    rw [he] at hkept
    cases kind <;> first | exact hkept | cases hk

/-- The passes keep the scripts and the types of a package, and add no declarations. -/
theorem Scene.Rearranges.listed {scene : Scene} {b c : Arena} {p : Nat}
    (h : scene.Rearranges b c) (hp : b.Listed p) : c.Listed p := by
  have hscript : ∀ s : Nat, c.script? s = b.script? s := fun s => Option.ext fun decl => by
    rw [script?_eq_some, script?_eq_some]
    exact h.kind_iff rfl (by exact (by decide : 7 ≠ 1))
  have hpackage : c.package? p = b.package? p := Option.ext fun decl => by
    rw [package?_eq_some, package?_eq_some]
    exact h.kind_iff rfl (by exact (by decide : 8 ≠ 1))
  refine hp.congr hpackage (fun s _ => hscript s) (fun t ht => ?_) fun n hn hl => ?_
  · refine h.resembles (lt_size_of_kind ?_)
    rw [hp.declared t ht]
    exact (by decide : 6 ≠ 1)
  · rcases Nat.lt_or_ge n b.size with hlt | hge
    · rw [h.homes n hlt] at hn
      rw [NodeKind.level_congr (h.shape n hlt)] at hl
      exact ⟨hn, hl⟩
    · obtain ⟨-, hm, -⟩ := h.fresh n hge (lt_size_of_home hn)
      obtain ⟨decl, hd⟩ := Option.isSome_iff_exists.1 hm
      rw [method?_eq_some.1 hd] at hl
      cases hl

/-- A package that holds at the end of the passes is linked. -/
theorem Scene.Holds.linked {scene : Scene} {b : Arena} (h : scene.Holds b)
    (hs : Settled scene.cached scene.settled b) (hlisted : b.Listed scene.package)
    (hdone : ∀ t ∈ b.typesOf scene.package, Scene.Done b t) :
    Settled (fun q => q = scene.package ∨ scene.cached q) (scene.Covers b) b where
  package q hq := by
    rcases hq with rfl | hq
    · exact ⟨h.covers_package, h.isPackage⟩
    · obtain ⟨hq', hd⟩ := hs.package q hq
      exact ⟨Or.inl hq', hd⟩
  home := h.home
  closed := h.closed
  whole n q hn hq := by
    rcases hq with rfl | hq
    · exact Or.inl (Or.inr (Or.inl hn))
    · exact (hs.whole n q hn hq).imp Or.inl id
  bound := h.bound
  flat q t decl hq ht hk := by
    rcases hq with rfl | hq
    · exact hdone t ht decl hk
    · exact h.flat q t decl hq ht hk
  plain := h.plain
  methods n m decl hn hk hm := (h.methods n m decl hn hk hm).1
  formed := h.formed
  listed q hq := by
    rcases hq with rfl | hq
    · exact hlisted
    · exact hs.listed q hq

/-- Linking a package whose scripts are read. -/
theorem leads_linkPackage (h : Gathered p cached a) (ha : Anchored a)
    (hs : Settled cached settled a) (hp : ¬ cached p) (builtin : Option NodeId) :
    Leads (Links p cached) (Link.package p builtin) a fun _ b =>
      ∃ settled', Settled (fun q => q = p ∨ cached q) settled' b := by
  obtain ⟨b, hb, hframe, hrun⟩ := h.bindReferences
  have hw := h.within_binds ha hb hframe
  have himports : ∀ n q : Nat, b.kind n = .packageRef q ↔ a.kind n = .packageRef q := fun _ _ =>
    hb.packageRef_iff
  rcases hrun with ⟨hok, hbound⟩ | ⟨⟨failure, herror⟩, -⟩
  · let scene : Scene := ⟨p, cached, settled, b⟩
    have hplacing : scene.Placing b := h.placing ha hs hp hb hframe hbound
    have hsb := hs.within hw hp
    refine .follow (bind_ok hok) ⟨hw, himports⟩ ?_
    have hlead : Leads scene.Rearranges (do
        Link.placeAttributes p (builtin.getD p)
        Link.flattenContracts p) b fun _ c =>
          ∃ settled', Settled (fun q => q = p ∨ cached q) settled' c := by
      refine (Scene.leads_placeAttributes hplacing (builtin.getD p)).bind fun _ c hr hc => ?_
      refine ((Scene.leads_flattenContracts hc.toHolds).weaken fun _ hr => hr.toRearranges).mono
        fun _ d hr' hd => ?_
      have hall : scene.Rearranges b d := hr.trans hr'
      have hlisted : d.Listed p := hall.listed (hb.listed h.listed)
      exact ⟨_, hd.1.linked (hsb.within hall.within hp) hlisted hd.2⟩
    exact hlead.weaken fun c hc => ⟨hc.within, fun n q =>
      hc.kind_iff rfl (by exact (by decide : 5 ≠ 1))⟩
  · exact .of_error (bind_error herror) ⟨hw, himports⟩

end SchemaLang
