import SchemaLang.Proofs.Link.Linking

/-!
# The sites of a package

A package that is read is laid out as a tree (`Gathered.laid`), and binding its references does not
change that (`Laid.binds`). So its sites are listed as they should be: every node on which attributes
may stand has one entry, with the site that it is (`Laid.mem_sites_iff`), and a script comes before
everything below it (`Laid.pairwise_sites`).
-/

namespace SchemaLang.Arena

variable {a b : Arena} {n m p : Nat} {site site' : Site} {served : NodeId → Prop}

/-! ## The site of a node -/

/-- The site of a node. A slot of a method is a parameter or a result by the list it is in. -/
inductive SiteOf (a : Arena) : NodeId → Site → Prop
  | script {n : NodeId} {decl : Script} : a.kind n = .script decl → SiteOf a n .script
  | enum {n : NodeId} {decl : Enumeration} : a.kind n = .enum decl → SiteOf a n .enum
  | enumValue {n : NodeId} {value : Int64} : a.kind n = .enumValue value → SiteOf a n .enumValue
  | table {n : NodeId} {decl : Table} : a.kind n = .table decl → SiteOf a n .table
  | field {n : NodeId} {decl : Member} : a.kind n = .field decl → SiteOf a n .field
  | contract {n : NodeId} {decl : Contract} : a.kind n = .contract decl → SiteOf a n .contract
  | method {n : NodeId} {decl : Method} : a.kind n = .method decl → SiteOf a n .method
  | param {n m : NodeId} {slot : Member} {decl : Method} : a.kind n = .param slot →
    (a.node n).parent = some m → a.kind m = .method decl → n ∈ decl.params.toList →
    SiteOf a n .param
  | result {n m : NodeId} {slot : Member} {decl : Method} : a.kind n = .param slot →
    (a.node n).parent = some m → a.kind m = .method decl → n ∈ decl.results.toList →
    SiteOf a n .result

theorem SiteOf.carries (h : a.SiteOf n site) : (a.kind n).carries = true := by
  cases h with
  | script hk | enum hk | enumValue hk | table hk | field hk | contract hk | method hk | param hk
  | result hk =>
    rw [hk]
    rfl

/-! ## Packages laid out as trees -/

/-- A package laid out as reading leaves it: it is a tree in which parents own, attributes stand where
they may, and everything but the package itself is below its script. -/
structure Laid (package : NodeId) (a : Arena) : Prop where
  isPackage : ∃ decl, a.kind package = .package decl
  descends : a.Descends a.rank fun n => a.home n = some package
  single : a.Single fun n => a.home n = some package
  tied : ∀ m n : Nat, a.home m = some package → a.Child m n → (a.node n).parent = some m
  dressed : ∀ m x : Nat, a.home m = some package → x ∈ (a.node m).attrs →
    (a.kind m).carries = true
  slots : ∀ (m : Nat) (decl : Method), a.home m = some package → a.kind m = .method decl →
    ∀ slot ∈ decl.params.toList ++ decl.results.toList, ∃ member, a.kind slot = .param member
  slotted : ∀ (n : Nat) (slot : Member), a.home n = some package → a.kind n = .param slot →
    ∃ m decl, a.home m = some package ∧ a.kind m = .method decl ∧
      n ∈ decl.params.toList ++ decl.results.toList
  below : ∀ n : Nat, a.home n = some package → n = package ∨ ∃ s, a.scriptOf n = some s ∧
    (∃ decl, a.kind s = .script decl) ∧ a.Child package s ∧ a.Reaches s n

/-- The slots of a method are its children. -/
theorem child_slot {decl : Method} (hk : a.kind m = .method decl) {slot : NodeId}
    (hs : slot ∈ decl.params.toList ++ decl.results.toList) : a.Child m slot := by
  unfold kind at hk
  refine List.mem_append_right _ ?_
  rw [hk]
  exact hs

/-- What was read from a script is below it. -/
theorem Gathered.below (h : Gathered p served a) (hn : a.Inside p n) : n = p ∨
    ∃ s, a.scriptOf n = some s ∧ (∃ decl, a.kind s = .script decl) ∧ a.Child p s ∧
      a.Reaches s n := by
  refine hn.imp id fun ⟨s, hs, ho⟩ => ⟨s, ?_⟩
  have hf := h.forest s hs
  obtain ⟨decl, hd, -⟩ := hf.isScript
  have hchild : a.Child p s := by
    unfold Child
    rw [h.children_package]
    exact hs
  rcases ho with rfl | ho
  · exact ⟨scriptOf_eq_self hd, ⟨decl, hd⟩, hchild, .refl⟩
  · exact ⟨(scriptOf_of_level (Nat.ne_of_lt (hf.level_lt ho))).trans ho, ⟨decl, hd⟩, hchild,
      hf.reaches ho⟩

theorem Gathered.isSingle (h : Gathered p served a) : a.Single (a.Inside p) where
  once m hm := by
    rcases hm with rfl | ⟨s, hs, ho⟩
    · rw [h.children_package]
      exact h.distinct
    · exact (h.forest s hs).single m ho
  owner_eq m m' n hm hm' hn hn' := by
    -- a script is on no way down from a script
    have hscript : ∀ s ∈ a.scriptsOf p, ∀ o : Nat, a.Owner s o → a.Child o n →
        n ∉ a.scriptsOf p := by
      intro s hs o ho hc hmem
      obtain ⟨decl, hd, -⟩ := (h.forest n hmem).isScript
      have hl := (h.forest s hs).level_lt ((h.forest s hs).child o n ho hc).1
      rw [hd] at hl
      exact absurd hl (Nat.lt_irrefl 7)
    rcases hm with rfl | ⟨s, hs, ho⟩ <;> rcases hm' with rfl | ⟨s', hs', ho'⟩
    · rfl
    · refine absurd ?_ (hscript s' hs' m' ho' hn')
      rw [← h.children_package]
      exact hn
    · refine absurd ?_ (hscript s hs m ho hn)
      rw [← h.children_package]
      exact hn'
    · have hown := ((h.forest s hs).child m n ho hn).1
      have hown' := ((h.forest s' hs').child m' n ho' hn').1
      have he : s = s' := Option.some.inj (hown.symm.trans hown')
      subst he
      exact (h.forest s hs).owner_eq ho ho' hn hn'

/-- A package that is read is laid out as a tree. -/
theorem Gathered.laid (h : Gathered p served a) (ha : Anchored a) : Laid p a := by
  have hinside : (fun n : NodeId => a.home n = some p) = a.Inside p :=
    funext fun n => propext (h.inside_iff ha).symm
  have hcases : ∀ n : Nat, a.home n = some p → n = p ∨ ∃ s ∈ a.scriptsOf p, a.Owner s n :=
    fun n hn => (h.inside_iff ha).2 hn
  obtain ⟨decl, hd⟩ := h.isPackage
  refine ⟨⟨decl, hd⟩, ?_, ?_, ?_, ?_, ?_, ?_, fun n hn => h.below ((h.inside_iff ha).2 hn)⟩
  · rw [hinside]
    exact h.descends
  · rw [hinside]
    exact h.isSingle
  · intro m n hm hn
    rcases hcases m hm with rfl | ⟨s, hs, ho⟩
    · exact h.parent n (h.children_package ▸ hn)
    · exact (h.forest s hs).tied m n ho hn
  · intro m x hm hx
    rcases hcases m hm with rfl | ⟨s, hs, ho⟩
    · rw [h.bare.1] at hx
      simp at hx
    · exact ((h.forest s hs).dressed m x ho hx).2
  · intro m method hm hk slot hslot
    rcases hcases m hm with rfl | ⟨s, hs, rfl | ho⟩
    · rw [hd] at hk
      cases hk
    · obtain ⟨decl', hd', -⟩ := (h.forest m hs).isScript
      rw [hd'] at hk
      cases hk
    · have hfit := (h.forest s hs).fit m ho
      rw [hk] at hfit
      have hlevel := hfit slot hslot
      cases hks : a.kind slot with
      | param member => exact ⟨member, rfl⟩
      | _ =>
        rw [hks] at hlevel
        cases hlevel
  · intro n slot hn hk
    rcases hcases n hn with rfl | ⟨s, hs, rfl | ho⟩
    · rw [hd] at hk
      cases hk
    · obtain ⟨decl', hd', -⟩ := (h.forest n hs).isScript
      rw [hd'] at hk
      cases hk
    · obtain ⟨m, method, hm, hkm, hslot⟩ := (h.forest s hs).method_of_slot ho (by rw [hk]; rfl)
      exact ⟨m, method, (h.inside_iff ha).1 (Or.inr ⟨s, hs, hm⟩), hkm, hslot⟩

/-! ## Binding keeps the layout -/

theorem Binds.attrs_eq (h : Binds a b) (n : Nat) : (b.node n).attrs = (a.node n).attrs := by
  rcases h.node_eq n with hn | ⟨path, t, -, hn⟩ <;> rw [hn]

theorem Binds.parent_eq (h : Binds a b) (n : Nat) : (b.node n).parent = (a.node n).parent := by
  rcases h.node_eq n with hn | ⟨path, t, -, hn⟩ <;> rw [hn]

theorem Binds.scriptOf_eq (h : Binds a b) (n : Nat) : b.scriptOf n = a.scriptOf n := by
  by_cases hl : (a.kind n).level = 7
  · cases hk : a.kind n with
    | script decl => rw [scriptOf_eq_self hk, scriptOf_eq_self (h.script_iff.2 hk)]
    | _ =>
      rw [hk] at hl
      cases hl
  · rw [scriptOf_of_level hl, ← h.script_eq, scriptOf_of_level]
    rwa [NodeKind.level_congr (h.shape n)]

theorem Binds.rank_eq (h : Binds a b) : b.rank = a.rank := by
  funext n
  unfold rank
  rw [NodeKind.level_congr (h.shape n), h.size_eq]

theorem Binds.child_eq (h : Binds a b) : b.Child = a.Child := by
  funext m n
  unfold Child
  rw [h.children_eq]

theorem Laid.binds (h : Laid p a) (hb : Binds a b) : Laid p b := by
  have hreaches : b.Reaches = a.Reaches := by
    unfold Reaches
    rw [hb.child_eq]
  obtain ⟨decl, hd⟩ := h.isPackage
  refine ⟨⟨decl, hb.package_iff.2 hd⟩, ⟨fun n hn => ?_, fun n c hn hc => ?_⟩,
    ⟨fun n hn => ?_, fun m m' n hm hm' hn hn' => ?_⟩, ?_, ?_, ?_, ?_, ?_⟩
  · rw [hb.home_eq] at hn
    rw [hb.size_eq]
    exact h.descends.lt_size n hn
  · rw [hb.home_eq] at hn
    rw [hb.child_eq] at hc
    rw [hb.home_eq, hb.rank_eq]
    exact h.descends.down n c hn hc
  · rw [hb.home_eq] at hn
    rw [hb.children_eq]
    exact h.single.once n hn
  · rw [hb.home_eq] at hm hm'
    rw [hb.child_eq] at hn hn'
    exact h.single.owner_eq m m' n hm hm' hn hn'
  · intro m n hm hn
    rw [hb.home_eq] at hm
    rw [hb.child_eq] at hn
    rw [hb.parent_eq]
    exact h.tied m n hm hn
  · intro m x hm hx
    rw [hb.home_eq] at hm
    rw [hb.attrs_eq] at hx
    rw [NodeKind.carries_congr (hb.shape m)]
    exact h.dressed m x hm hx
  · intro m method hm hk slot hslot
    rw [hb.home_eq] at hm
    obtain ⟨member, hs⟩ := h.slots m method hm
      ((hb.kind_iff (by exact (by decide : (5 : Nat) ≠ 0))).1 hk) slot hslot
    exact ⟨member, (hb.kind_iff (by exact (by decide : (4 : Nat) ≠ 0))).2 hs⟩
  · intro n slot hn hk
    rw [hb.home_eq] at hn
    obtain ⟨m, method, hm, hkm, hslot⟩ := h.slotted n slot hn
      ((hb.kind_iff (by exact (by decide : (4 : Nat) ≠ 0))).1 hk)
    exact ⟨m, method, (hb.home_eq m).trans hm,
      (hb.kind_iff (by exact (by decide : (5 : Nat) ≠ 0))).2 hkm, hslot⟩
  · intro n hn
    rw [hb.home_eq] at hn
    rw [hb.scriptOf_eq, hb.child_eq, hreaches]
    refine (h.below n hn).imp id fun ⟨s, hs, ⟨script, hk⟩, hc, hr⟩ =>
      ⟨s, hs, ⟨script, hb.script_iff.2 hk⟩, hc, hr⟩

/-- Once its references are bound, a package that was read is laid out as a tree still. -/
theorem Gathered.laid_of_bound (h : Gathered p served a) (ha : Anchored a)
    (hb : Link.bindReferences p a = .ok () b) : Laid p b :=
  (h.laid ha).binds (h.binds_of_ok hb).1

/-! ## The list of sites -/

namespace Laid

variable (h : Laid p a)

include h

theorem home_package : a.home p = some p := by
  obtain ⟨decl, hd⟩ := h.isPackage
  exact home_of_package hd

theorem mem_walk_iff : n ∈ a.walk p ↔ a.home n = some p := by
  constructor
  · exact fun hn => h.descends.inside_of_reaches h.home_package (reaches_of_mem_walk hn)
  · intro hn
    refine h.descends.mem_walk_of_reaches h.home_package ?_
    rcases h.below n hn with rfl | ⟨s, -, -, hc, hr⟩
    · exact .refl
    · exact .head hc hr

/-- The entries of the list are the nodes of the package with their sites. -/
theorem mem_sites_iff : (n, site) ∈ a.sites p ↔ a.home n = some p ∧ a.SiteOf n site := by
  unfold sites
  rw [List.mem_flatMap]
  constructor
  · rintro ⟨m, hm, hn⟩
    rw [h.mem_walk_iff] at hm
    unfold sitesAt at hn
    split at hn
    case h_7 decl hk =>
      have hslot : ∀ slot ∈ decl.params.toList ++ decl.results.toList,
          a.home slot = some p ∧ (a.node slot).parent = some m ∧
            ∃ member, a.kind slot = .param member := fun slot hs => by
        have hc := child_slot hk hs
        exact ⟨(h.descends.down m slot hm hc).1, h.tied m slot hm hc, h.slots m decl hm hk slot hs⟩
      rcases List.mem_append.1 hn with hn | hn
      · rcases List.mem_cons.1 hn with he | hn
        · cases he
          exact ⟨hm, .method hk⟩
        · obtain ⟨slot, hs, he⟩ := List.mem_map.1 hn
          cases he
          obtain ⟨hhome, hparent, member, hks⟩ := hslot n (List.mem_append_left _ hs)
          exact ⟨hhome, .param hks hparent hk hs⟩
      · obtain ⟨slot, hs, he⟩ := List.mem_map.1 hn
        cases he
        obtain ⟨hhome, hparent, member, hks⟩ := hslot n (List.mem_append_right _ hs)
        exact ⟨hhome, .result hks hparent hk hs⟩
    case h_8 => cases hn
    all_goals
      rename_i hk
      cases List.mem_singleton.1 hn
      refine ⟨hm, ?_⟩
      first
        | exact .script hk
        | exact .enum hk
        | exact .enumValue hk
        | exact .table hk
        | exact .field hk
        | exact .contract hk
  · rintro ⟨hn, hs⟩
    -- a slot is listed with the method that owns it
    have howner : ∀ m decl slot, (a.node n).parent = some m → a.kind m = .method decl →
        a.kind n = .param slot → m ∈ a.walk p := by
      intro m decl slot hm hk hks
      rcases h.below n hn with rfl | ⟨s, -, ⟨script, hscript⟩, hc, hr⟩
      · obtain ⟨package, hd⟩ := h.isPackage
        rw [hd] at hks
        cases hks
      · cases hr with
        | refl =>
          rw [hscript] at hks
          cases hks
        | @tail o _ ho hc' =>
          have hhome : a.home o = some p := h.descends.inside_of_reaches
            (h.descends.down p s h.home_package hc).1 ho
          have he := (h.tied o n hhome hc').symm.trans hm
          cases he
          exact h.mem_walk_iff.2 hhome
    cases hs with
    | param hks hm hk hmem =>
      refine ⟨_, howner _ _ _ hm hk hks, ?_⟩
      simp only [sitesAt, hk]
      exact List.mem_append_left _ (List.mem_cons_of_mem _ (List.mem_map_of_mem hmem))
    | result hks hm hk hmem =>
      refine ⟨_, howner _ _ _ hm hk hks, ?_⟩
      simp only [sitesAt, hk]
      exact List.mem_append_right _ (List.mem_map_of_mem hmem)
    | method hk =>
      refine ⟨n, h.mem_walk_iff.2 hn, ?_⟩
      simp only [sitesAt, hk]
      exact List.mem_append_left _ (List.mem_cons_self ..)
    | script hk | enum hk | enumValue hk | table hk | field hk | contract hk =>
      refine ⟨n, h.mem_walk_iff.2 hn, ?_⟩
      simp only [sitesAt, hk]
      exact List.mem_singleton_self _

/-- A node on which attributes may stand has a site. -/
theorem exists_site (hn : a.home n = some p) (hc : (a.kind n).carries = true) :
    ∃ site, a.SiteOf n site := by
  cases hk : a.kind n with
  | script decl => exact ⟨_, .script hk⟩
  | enum decl => exact ⟨_, .enum hk⟩
  | enumValue value => exact ⟨_, .enumValue hk⟩
  | table decl => exact ⟨_, .table hk⟩
  | field decl => exact ⟨_, .field hk⟩
  | contract decl => exact ⟨_, .contract hk⟩
  | method decl => exact ⟨_, .method hk⟩
  | param slot =>
    obtain ⟨m, decl, hm, hkm, hslot⟩ := h.slotted n slot hn hk
    have hparent := h.tied m n hm (child_slot hkm hslot)
    rcases List.mem_append.1 hslot with hp | hr
    · exact ⟨_, .param hk hparent hkm hp⟩
    · exact ⟨_, .result hk hparent hkm hr⟩
  | _ =>
    rw [hk] at hc
    cases hc

/-- The slots of a method are different, and no parameter is a result. -/
theorem nodup_slots {decl : Method} (hm : a.home m = some p) (hk : a.kind m = .method decl) :
    (decl.params.toList ++ decl.results.toList).Nodup := by
  have hnodup := h.single.once m hm
  unfold children Node.children at hnodup
  unfold kind at hk
  rw [hk] at hnodup
  exact (List.nodup_append.1 hnodup).2.1

/-- What is above a child is the child, or above its owner. -/
theorem reaches_owner {c x : Nat} (hn : a.home n = some p) (hc : a.Child n c)
    (hx : a.home x = some p) (hr : a.Reaches x c) : x = c ∨ a.Reaches x n := by
  cases hr with
  | refl => exact Or.inl rfl
  | @tail o _ ho hc' =>
    have he := h.single.owner_eq o n c (h.descends.inside_of_reaches hx ho) hn hc' hc
    exact Or.inr (he ▸ ho)

theorem pairwise_sitesAt (hn : a.home n = some p) :
    (a.sitesAt n).Pairwise fun e e' => ¬ a.Reaches e'.1 e.1 := by
  unfold sitesAt
  split
  case h_7 decl hk =>
    have hslots : ((n, Site.method) :: (decl.params.toList.map fun slot => (slot, Site.param)) ++
        decl.results.toList.map fun slot => (slot, Site.result)).map (·.1) =
          n :: (decl.params.toList ++ decl.results.toList) := by
      simp [Function.comp_def]
    have hpairwise : (n :: (decl.params.toList ++ decl.results.toList)).Pairwise
        fun x y => ¬ a.Reaches y x := by
      refine List.pairwise_cons.2 ⟨fun slot hs hr => ?_, ?_⟩
      · obtain ⟨hin, hlt⟩ := h.descends.down n slot hn (child_slot hk hs)
        exact absurd (h.descends.rank_le hin hr) (Nat.not_le.2 hlt)
      · refine (h.nodup_slots hn hk).imp_of_mem fun {x y} hx hy hne => ?_
        exact h.descends.not_reaches_sibling h.single hn (child_slot hk hy) (child_slot hk hx)
          hne.symm
    rw [← hslots] at hpairwise
    exact List.pairwise_map.1 hpairwise
  case h_8 => exact .nil
  all_goals exact List.pairwise_singleton _ _

/-- The sites at a node are its own and those of its slots, which have none at themselves. -/
theorem mem_sitesAt (hn : a.home n = some p) {e : NodeId × Site} (he : e ∈ a.sitesAt n) :
    e.1 = n ∨ a.Child n e.1 ∧ a.sitesAt e.1 = [] := by
  unfold sitesAt at he
  split at he
  case h_7 decl hk =>
    have hslot : ∀ slot ∈ decl.params.toList ++ decl.results.toList,
        a.Child n slot ∧ a.sitesAt slot = [] := fun slot hs => by
      obtain ⟨member, hks⟩ := h.slots n decl hn hk slot hs
      exact ⟨child_slot hk hs, by simp only [sitesAt, hks]⟩
    rcases List.mem_append.1 he with he | he
    · refine (List.mem_cons.1 he).imp (fun he => by rw [he]) fun he => ?_
      obtain ⟨slot, hs, rfl⟩ := List.mem_map.1 he
      exact hslot slot (List.mem_append_left _ hs)
    · obtain ⟨slot, hs, rfl⟩ := List.mem_map.1 he
      exact Or.inr (hslot slot (List.mem_append_right _ hs))
  case h_8 => cases he
  all_goals exact Or.inl (by rw [List.mem_singleton.1 he])

/-- In the list of sites no node comes before one that it is below. -/
theorem pairwise_sites : (a.sites p).Pairwise fun e e' => ¬ a.Reaches e'.1 e.1 := by
  refine List.pairwise_flatMap.2 ⟨fun n hn => h.pairwise_sitesAt (h.mem_walk_iff.1 hn), ?_⟩
  refine (h.descends.pairwise_walk h.single h.home_package).imp_of_mem fun {x y} hx hy hnot => ?_
  intro e he e' he' hr
  rw [h.mem_walk_iff] at hx hy
  have hye : a.Reaches y e.1 := by
    rcases h.mem_sitesAt hy he' with heq | ⟨hc, -⟩
    · exact heq ▸ hr
    · exact .head hc hr
  rcases h.mem_sitesAt hx he with heq | ⟨hc, hnone⟩
  · exact hnot (heq ▸ hye)
  · rcases h.reaches_owner hx hc hy hye with heq | hyx
    · rw [← heq] at hnone
      rw [hnone] at he'
      cases he'
    · exact hnot hyx

theorem nodup_sites : ((a.sites p).map (·.1)).Nodup := by
  refine List.pairwise_map.2 (h.pairwise_sites.imp fun {e e'} hnot he => ?_)
  rw [he] at hnot
  exact hnot .refl

/-- A node has one site. -/
theorem site_unique (hn : a.home n = some p) (hs : a.SiteOf n site) (hs' : a.SiteOf n site') :
    site = site' :=
  (Prod.mk.inj (List.inj_on_of_nodup_map h.nodup_sites (h.mem_sites_iff.2 ⟨hn, hs⟩)
    (h.mem_sites_iff.2 ⟨hn, hs'⟩) rfl)).2

/-- An attribute is on one node. -/
theorem attrs_unique {m' x : Nat} (hm : a.home m = some p) (hm' : a.home m' = some p)
    (hx : x ∈ (a.node m).attrs) (hx' : x ∈ (a.node m').attrs) : m = m' :=
  h.single.owner_eq m m' x hm hm' (List.mem_append_left _ (Array.mem_toList_iff.2 hx))
    (List.mem_append_left _ (Array.mem_toList_iff.2 hx'))

theorem nodup_attrs (hm : a.home m = some p) : (a.node m).attrs.toList.Nodup :=
  (List.nodup_append.1 (h.single.once m hm)).1

end Laid

end SchemaLang.Arena
