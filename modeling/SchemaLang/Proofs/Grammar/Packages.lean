import SchemaLang.Proofs.Grammar.Scripts
import SchemaLang.Session

/-!
# Reading the scripts of a package

The scripts of a package are read one after the other, and reading one leaves the others alone. So
once all of them are read, everything that belongs to the package lies below it.

* `Arena.Gathered`: the invariant between two scripts.
* `leads_readFile`: reading one more script keeps it.
-/

namespace SchemaLang

namespace Arena

variable {a b : Arena} {n m p s t : Nat} {served served' : NodeId → Prop}

/-- The scripts of a package. -/
def scriptsOf (a : Arena) (package : NodeId) : List NodeId :=
  match (a.package? package).map (·.scripts) with
  | some scripts => scripts.values
  | none => []

theorem scriptsOf_eq {decl : Package} (h : a.kind p = .package decl) :
    a.scriptsOf p = decl.scripts.values := by
  unfold scriptsOf
  rw [package?_eq_some.2 h]
  rfl

theorem scriptsOf_congr (h : (b.package? p).map (·.scripts) = (a.package? p).map (·.scripts)) :
    b.scriptsOf p = a.scriptsOf p := by
  unfold scriptsOf
  rw [h]

/-- The names of the scripts of a package. -/
def scriptNames (a : Arena) (package : NodeId) : List String :=
  match (a.package? package).map (·.scripts) with
  | some scripts => scripts.keys
  | none => []

theorem scriptNames_eq {decl : Package} (h : a.kind p = .package decl) :
    a.scriptNames p = decl.scripts.keys := by
  unfold scriptNames
  rw [package?_eq_some.2 h]
  rfl

theorem scriptNames_congr (h : (b.package? p).map (·.scripts) = (a.package? p).map (·.scripts)) :
    b.scriptNames p = a.scriptNames p := by
  unfold scriptNames
  rw [h]

/-- A package whose scripts are read: they and what was read from them are all that belongs to it. -/
structure Gathered (package : NodeId) (served : NodeId → Prop) (a : Arena) : Prop where
  isPackage : ∃ decl, a.kind package = .package decl
  bare : (a.node package).attrs = #[] ∧ (a.node package).parent = none
  distinct : (a.scriptsOf package).Nodup
  forest : ∀ s ∈ a.scriptsOf package, Forest package s served a []
  parent : ∀ s ∈ a.scriptsOf package, (a.node s).parent = some package
  whole : ∀ n : Nat, a.home n = some package → n = package ∨ ∃ s ∈ a.scriptsOf package, a.Owner s n
  types : ∀ t ∈ a.typesOf package, ∃ s ∈ a.scriptsOf package, a.Own s t
  keyed : ∀ entry ∈ a.typeEntries package, a.name entry.2 = entry.1
  filled : ∀ s ∈ a.scriptsOf package, a.Filled s []

/-- What belongs to the package and is neither the package nor a script was read from a script. -/
theorem Gathered.own_of_level (h : Gathered p served a) (hn : a.home n = some p)
    (hl : (a.kind n).level < 7) : ∃ s ∈ a.scriptsOf p, a.Own s n := by
  rcases h.whole n hn with rfl | ⟨s, hs, rfl | ho⟩
  · obtain ⟨decl, hk⟩ := h.isPackage
    rw [hk] at hl
    exact absurd hl (by decide : ¬ 8 < 7)
  · obtain ⟨decl, hk, -⟩ := (h.forest n hs).isScript
    rw [hk] at hl
    exact absurd hl (by decide : ¬ 7 < 7)
  · exact ⟨s, hs, ho⟩

theorem Forest.script_home (h : Forest p s served a []) : a.home s = some p := by
  obtain ⟨decl, hd, hf⟩ := h.isScript
  rw [home_of_script hd, hf.package_eq]

theorem Forest.home_of_own (h : Forest p s served a []) (ha : Anchored a) (hn : a.Own s n) :
    a.home n = some p := by
  obtain ⟨decl, hd, hf⟩ := h.isScript
  rw [Arena.home_of_own ((ha n).level_lt s hn) hn hd, hf.package_eq]

theorem Forest.not_own (h : Forest p s served a []) (ha : Anchored a) (t : Nat) : ¬ a.Own t s := by
  intro ho
  obtain ⟨decl, hd, -⟩ := h.isScript
  have hl := (ha s).level_lt t ho
  rw [hd] at hl
  exact absurd hl (by decide : ¬ 7 < 7)

/-! ## A new package -/

theorem gathered_newPackage (ha : Anchored a) (name : String) :
    Within a.size served a (a.newPackage name).2 ∧
      Gathered a.size served (a.newPackage name).2 := by
  have hext : a.Extends (a.newPackage name).2 := .push a _
  generalize hb : (a.newPackage name).2 = b at hext ⊢
  have hnode : b.node a.size = .detached name none .unknown (.package ⟨∅, .empty⟩) := by
    rw [← hb]
    unfold newPackage
    rw [node_alloc, if_pos rfl]
  have hsize : b.size = a.size + 1 := by
    rw [← hb]
    unfold newPackage
    exact size_alloc ..
  have hkind : b.kind a.size = .package ⟨∅, .empty⟩ := by
    unfold kind
    rw [hnode]
    rfl
  have hhome : b.home a.size = some a.size := home_of_package hkind
  have hscripts : b.scriptsOf a.size = [] := by
    rw [scriptsOf_eq hkind]
    rfl
  refine ⟨⟨hext.size_le, fun n hn _ => hext.node_eq n hn,
    fun n hn => by unfold Arena.name; rw [hext.node_eq n hn], fun n hn => by rw [hext.node_eq n hn],
    fun n hn => by unfold kind; rw [hext.node_eq n hn], fun n hn => ha.home_eq hext hn, ?_⟩,
    ⟨⟨_, hkind⟩, ⟨by rw [hnode]; rfl, by rw [hnode]; rfl⟩, ?_, ?_, ?_, ?_, ?_, ?_, ?_⟩⟩
  · intro n hn hn'
    have he : n = a.size := by omega
    subst he
    refine ⟨⟨fun t e => ?_, fun t e => ?_, fun q e => ?_⟩, Or.inl hhome⟩
    · rw [hnode] at e
      cases e
    · rw [hnode] at e
      cases e
    · rw [hhome] at e
      cases e
      omega
  · rw [hscripts]
    exact List.nodup_nil
  · intro s hs
    rw [hscripts] at hs
    cases hs
  · intro s hs
    rw [hscripts] at hs
    cases hs
  · intro n hn
    rcases Nat.lt_or_ge n a.size with hlt | hge
    · rw [ha.home_eq hext hlt] at hn
      exact absurd ((ha n).home_lt _ hn) (Nat.lt_irrefl _)
    · have hlt := lt_size_of_home hn
      exact Or.inl (by omega)
  · intro t ht
    rw [typesOf_eq hkind] at ht
    cases ht
  · intro entry he
    rw [typeEntries_eq hkind] at he
    cases he
  · intro s hs
    rw [hscripts] at hs
    cases hs

theorem scriptNames_newPackage (a : Arena) (name : String) :
    (a.newPackage name).2.scriptNames a.size = [] := by
  have hkind : (a.newPackage name).2.kind a.size = .package ⟨∅, .empty⟩ := by
    unfold newPackage kind
    rw [node_alloc, if_pos rfl]
    rfl
  rw [scriptNames_eq hkind]
  rfl

/-! ## A new script -/

/-- A script is entered into a package under a name that is free. -/
structure Opened (package script : Nat) (a b : Arena) : Prop where
  size_eq : script = a.size ∧ b.size = a.size + 1
  frame : ∀ n : Nat, n < a.size → n ≠ package → b.node n = a.node n
  top : ∃ scripts, ∀ decl, a.kind package = .package decl →
    b.node package = { a.node package with kind := .package ⟨scripts, decl.types⟩ } ∧
      scripts.values.Perm (script :: decl.scripts.values)
  script_eq : ∃ name path position, b.node script =
    ⟨name, some package, none, position, [], #[], ∅, .script ⟨package, path, .empty, #[]⟩⟩

theorem opened_newScript {decl : Package} (hp : a.kind p = .package decl) (name : String)
    (path : Option Path) : Tries a (a.newScript p name path) fun s b => Opened p s a b := by
  have hlt : p < a.size := lt_size_of_home (home_of_package hp)
  unfold newScript Tries
  rw [package?_eq_some.2 hp, Option.bind_some]
  cases hfree : decl.scripts[name]? with
  | some existing => rfl
  | none =>
    have hpn : p ≠ a.size := Nat.ne_of_lt hlt
    dsimp only [fst_alloc]
    refine ⟨⟨rfl, by rw [size_updateKind, size_adopt, size_alloc]⟩, ?_, ?_, ?_⟩
    · intro n hn hne
      rw [node_updateKind, if_neg fun e => hne e.1, node_adopt,
        if_neg fun e => Nat.ne_of_lt hn e.1, node_alloc, if_neg (Nat.ne_of_lt hn)]
    · refine ⟨decl.scripts.insert name a.size, fun decl' hd => ?_⟩
      rw [hp] at hd
      cases hd
      refine ⟨?_, values_insert_perm hfree⟩
      rw [node_updateKind, if_pos ⟨rfl, by rw [size_adopt, size_alloc]; omega⟩, node_adopt,
        if_neg fun e => hpn e.1, node_alloc, if_neg hpn]
      unfold kind at hp
      rw [Node.mapKind_eq, hp]
    · refine ⟨name, path, ⟨name, 1, 1⟩, ?_⟩
      rw [node_updateKind, if_neg fun e => hpn e.1.symm, node_adopt,
        if_pos ⟨rfl, by rw [size_alloc]; omega⟩, node_alloc, if_pos rfl]
      rfl

theorem mem_scriptNames_of_taken {name : String} {path : Option Path} {existing : NodeId}
    (h : a.newScript p name path = (.error existing, b)) : name ∈ a.scriptNames p := by
  unfold newScript at h
  split at h
  · rename_i hfound
    obtain ⟨decl, hp, hscript⟩ := Option.bind_eq_some_iff.1 hfound
    rw [scriptNames_eq (package?_eq_some.1 hp), Std.TreeMap.mem_keys,
      Std.TreeMap.mem_iff_isSome_getElem?, hscript]
    rfl
  · cases h

/-- A new script adds its name to the names of the scripts. -/
theorem scriptNames_newScript {decl : Package} (hp : a.kind p = .package decl) (name : String)
    (path : Option Path) : ∀ other ∈ (a.newScript p name path).2.scriptNames p,
      other = name ∨ other ∈ a.scriptNames p := by
  have hlt : p < a.size := lt_size_of_home (home_of_package hp)
  intro other hother
  unfold newScript at hother
  rw [package?_eq_some.2 hp, Option.bind_some] at hother
  cases hfree : decl.scripts[name]? with
  | some existing =>
    rw [hfree] at hother
    exact Or.inr hother
  | none =>
    have hpn : p ≠ a.size := Nat.ne_of_lt hlt
    rw [hfree] at hother
    dsimp only [fst_alloc] at hother
    generalize hb : Arena.updateKind _ p _ = b at hother
    have hkind : b.kind p = .package ⟨decl.scripts.insert name a.size, decl.types⟩ := by
      rw [← hb]
      unfold kind at hp ⊢
      rw [node_updateKind, if_pos ⟨rfl, by rw [size_adopt, size_alloc]; omega⟩, node_adopt,
        if_neg fun e => hpn e.1, node_alloc, if_neg hpn, Node.mapKind_eq, hp]
    rw [scriptNames_eq hkind, Std.TreeMap.mem_keys, Std.TreeMap.mem_insert,
      Std.LawfulEqCmp.compare_eq_iff_eq] at hother
    rw [scriptNames_eq hp]
    exact hother.imp Eq.symm Std.TreeMap.mem_keys.2

section

variable (h : Opened p s a b) {decl : Package} (hp : a.kind p = .package decl)

include h

theorem Opened.kind_script : ∃ path, b.kind s = .script ⟨p, path, .empty, #[]⟩ := by
  obtain ⟨name, path, position, hs⟩ := h.script_eq
  exact ⟨path, by unfold kind; rw [hs]⟩

include hp

theorem Opened.kind_package : ∃ scripts, b.kind p = .package ⟨scripts, decl.types⟩ ∧
    scripts.values.Perm (s :: decl.scripts.values) := by
  obtain ⟨scripts, htop⟩ := h.top
  obtain ⟨hnode, hperm⟩ := htop decl hp
  exact ⟨scripts, by unfold kind; rw [hnode], hperm⟩

theorem Opened.shape (hn : n < a.size) : (b.kind n).ctorIdx = (a.kind n).ctorIdx := by
  by_cases he : n = p
  · subst he
    obtain ⟨scripts, hk, -⟩ := h.kind_package hp
    rw [hk, hp]
    rfl
  · unfold kind
    rw [h.frame n hn he]

theorem Opened.link_eq (hn : n < a.size) : (b.node n).script = (a.node n).script := by
  by_cases he : n = p
  · subst he
    obtain ⟨scripts, htop⟩ := h.top
    rw [(htop decl hp).1]
  · rw [h.frame n hn he]

theorem Opened.name_eq (hn : n < a.size) : b.name n = a.name n := by
  unfold name
  by_cases he : n = p
  · subst he
    obtain ⟨scripts, htop⟩ := h.top
    rw [(htop decl hp).1]
  · rw [h.frame n hn he]

theorem Opened.stays : Stays a b where
  grown n hn := by
    by_cases he : n = p
    · subst he
      obtain ⟨scripts, hk, -⟩ := h.kind_package hp
      rw [hk, hp]
      exact .of_shape rfl rfl nofun nofun
    · refine .of_eq ?_
      unfold kind
      rw [h.frame n hn he]
  name_eq n hn := h.name_eq hp hn

theorem Opened.typeEntries_eq : b.typeEntries p = a.typeEntries p := by
  obtain ⟨scripts, hk, -⟩ := h.kind_package hp
  rw [Arena.typeEntries_eq hk, Arena.typeEntries_eq hp]

theorem Opened.typesOf_eq : b.typesOf p = a.typesOf p := by
  rw [typesOf_eq_map, typesOf_eq_map, h.typeEntries_eq hp]

theorem Opened.scriptPackage (ht : t < a.size) : b.script? t = a.script? t := by
  by_cases he : t = p
  · subst he
    obtain ⟨scripts, hk, -⟩ := h.kind_package hp
    unfold script?
    rw [hk, hp]
  · exact script?_congr (h.frame t ht he)

theorem Opened.home_eq (ha : Anchored a) (hn : n < a.size) : b.home n = a.home n := by
  by_cases he : n = p
  · subst he
    obtain ⟨scripts, hk, -⟩ := h.kind_package hp
    rw [home_of_package hk, home_of_package hp]
  · unfold home kind
    rw [h.frame n hn he]
    cases hs : (a.node n).script with
    | none => rfl
    | some t => simp only [Option.bind_some, h.scriptPackage hp ((ha n).script_lt t hs)]

theorem Opened.within (ha : Anchored a) : Within p served a b where
  size_le := by
    have := h.size_eq.2
    omega
  frame n hn hne := h.frame n hn fun e => hne (by rw [e, home_of_package hp])
  name_eq n hn := h.name_eq hp hn
  script_eq n hn := h.link_eq hp hn
  shape n hn := h.shape hp hn
  homes n hn := h.home_eq hp ha hn
  fresh n hn hn' := by
    obtain ⟨hs, hsize⟩ := h.size_eq
    have he : n = s := by omega
    subst he
    obtain ⟨path, hk⟩ := h.kind_script
    obtain ⟨name, path', position, hnode⟩ := h.script_eq
    have hlt : p < a.size := lt_size_of_home (home_of_package hp)
    refine ⟨⟨fun t e => ?_, fun t e => ?_, fun q e => ?_⟩, Or.inl (home_of_script hk)⟩
    · rw [hnode] at e
      cases e
    · rw [hnode] at e
      cases e
    · rw [home_of_script hk] at e
      have hq : p = q := Option.some.inj e
      omega

/-- No node was read from a script that was just entered. -/
theorem Opened.not_own (ha : Anchored a) (n : Nat) : ¬ b.Own s n := by
  intro ho
  obtain ⟨hs, hsize⟩ := h.size_eq
  have hlt := ho.lt_size
  rcases Nat.lt_or_ge n a.size with hn | hn
  · unfold Own at ho
    rw [h.link_eq hp hn] at ho
    exact absurd ((ha n).script_lt s ho) (by omega)
  · have he : n = s := by omega
    obtain ⟨name, path, position, hnode⟩ := h.script_eq
    unfold Own at ho
    rw [he, hnode] at ho
    cases ho

/-- A script that was just entered is empty. -/
theorem Opened.forest (ha : Anchored a) (hlisted : ∀ t ∈ a.typesOf p, t < a.size) :
    Forest p s served b [] := by
  obtain ⟨hs, hsize⟩ := h.size_eq
  obtain ⟨path, hk⟩ := h.kind_script
  obtain ⟨name, path', position, hnode⟩ := h.script_eq
  have hown := h.not_own hp ha
  have howner : ∀ n : Nat, b.Owner s n → b.children n = [] := by
    intro n ho
    rcases ho with rfl | ho
    · unfold children
      rw [hnode]
      rfl
    · exact absurd ho (hown n)
  obtain ⟨scripts, hkp, -⟩ := h.kind_package hp
  have hattrs : ∀ m c : Nat, b.Owner s m → c ∉ (b.node m).attrs := by
    intro m c ho hc
    have hin : c ∈ b.children m := List.mem_append_left _ (Array.mem_toList_iff.2 hc)
    rw [howner m ho] at hin
    cases hin
  refine ⟨⟨_, hkp⟩, ⟨_, hk, rfl, fun t ht => ?_, fun r hr => ?_⟩, ?_, ?_, ?_, ?_, ?_, ?_, ?_, ?_,
    ?_, ?_, List.nodup_nil⟩
  · cases ht
  · cases hr
  · intro m n hm hn
    rw [howner m hm] at hn
    cases hn
  · intro m n hm hn
    rw [howner m hm] at hn
    cases hn
  · intro m hm
    rw [howner m hm]
    exact List.nodup_nil
  · exact fun n hn => absurd hn (hown n)
  · exact fun n hn => absurd hn (hown n)
  · exact fun m c hm hc => absurd hc (hattrs m c hm)
  · intro t ht
    rw [h.typesOf_eq hp] at ht
    exact Nat.lt_of_lt_of_le (hlisted t ht) (by omega)
  · exact fun t _ ho => absurd ho (hown t)
  · intro n hn
    cases hn
  · intro n hn
    cases hn

/-- The package after a script was entered. -/
theorem Opened.gathered (hg : Gathered p served a) (ha : Anchored a) :
    Gathered p served b ∧ s ∈ b.scriptsOf p := by
  obtain ⟨hs, hsize⟩ := h.size_eq
  obtain ⟨scripts, hkp, hperm⟩ := h.kind_package hp
  rw [← scriptsOf_eq hkp, ← scriptsOf_eq hp] at hperm
  have hscripts : ∀ t, t ∈ b.scriptsOf p ↔ t ∈ a.scriptsOf p ∨ t = s := by
    intro t
    rw [hperm.mem_iff, List.mem_cons, or_comm]
  have htypes : b.typesOf p = a.typesOf p := h.typesOf_eq hp
  have hlisted : ∀ t ∈ a.typesOf p, t < a.size := fun t ht => by
    obtain ⟨_, _, ho⟩ := hg.types t ht
    exact ho.lt_size
  have hforest : Forest p s served b [] := h.forest hp ha hlisted
  have hnode : ∀ t ∈ a.scriptsOf p, ∀ m, a.Owner t m → b.node m = a.node m := fun t ht m hm =>
    h.frame m ((hg.forest t ht).owner_lt_size hm) ((hg.forest t ht).package_ne hm)
  have hown : ∀ t n : Nat, b.Own t n → a.Own t n := by
    intro t n hn
    rcases Nat.lt_or_ge n a.size with hlt | hge
    · unfold Own
      rw [← h.link_eq hp hlt, hn]
    · have hn' := hn.lt_size
      have he : n = s := by omega
      have hw : Within p served a b := h.within hp ha
      exact absurd hn (he ▸ hforest.not_own (hw.anchored ha) t)
  have hkept : ∀ t ∈ a.scriptsOf p, Forest p t served b [] := fun t ht =>
    (hg.forest t ht).kept ⟨_, hkp⟩ (hnode t ht) (hown t) (h.stays hp) (by omega)
      (fun x hx => by rw [htypes]; exact hx) hforest.listed
      fun x hx _ => Or.inl (by rwa [htypes] at hx)
  have howner : ∀ t ∈ a.scriptsOf p, ∀ n, a.Owner t n → b.Owner t n := by
    intro t ht n hn
    refine hn.imp id fun ho => ?_
    unfold Own
    rw [h.link_eq hp ho.lt_size, ho]
  refine ⟨⟨⟨_, hkp⟩, ?_, ?_, ?_, ?_, ?_, ?_, ?_, ?_⟩, (hscripts s).2 (Or.inr rfl)⟩
  · obtain ⟨scripts', htop⟩ := h.top
    rw [(htop decl hp).1]
    exact hg.bare
  · rw [hperm.nodup_iff, List.nodup_cons]
    exact ⟨fun hold => Nat.lt_irrefl _ (hs ▸ (hg.forest s hold).owner_lt_size (Or.inl rfl)),
      hg.distinct⟩
  · intro t ht
    rcases (hscripts t).1 ht with ht | rfl
    · exact hkept t ht
    · exact hforest
  · intro t ht
    rcases (hscripts t).1 ht with ht | rfl
    · rw [hnode t ht t (Or.inl rfl)]
      exact hg.parent t ht
    · obtain ⟨name, path, position, hn⟩ := h.script_eq
      rw [hn]
  · intro n hn
    rcases Nat.lt_or_ge n a.size with hlt | hge
    · rw [h.home_eq hp ha hlt] at hn
      rcases hg.whole n hn with he | ⟨t, ht, ho⟩
      · exact Or.inl he
      · exact Or.inr ⟨t, (hscripts t).2 (Or.inl ht), howner t ht n ho⟩
    · have hn' := lt_size_of_home hn
      have he : n = s := by omega
      exact Or.inr ⟨s, (hscripts s).2 (Or.inr rfl), Or.inl he⟩
  · intro x hx
    rw [htypes] at hx
    obtain ⟨t, ht, ho⟩ := hg.types x hx
    refine ⟨t, (hscripts t).2 (Or.inl ht), ?_⟩
    unfold Own
    rw [h.link_eq hp ho.lt_size, ho]
  · intro entry he
    rw [h.typeEntries_eq hp] at he
    rw [h.name_eq hp (hlisted _ (mem_typesOf.2 ⟨entry, he, rfl⟩)), hg.keyed entry he]
  · intro t ht
    rcases (hscripts t).1 ht with ht | rfl
    · exact (hg.filled t ht).of_kept (hown t) fun n hn => hnode t ht n (Or.inr hn)
    · exact fun n _ hn => absurd hn (h.not_own hp ha n)

end

/-! ## Reading a script -/

/-- The package after one of its scripts was read. -/
theorem Gathered.grows (hg : Gathered p served a) (ha : Anchored a) (hs : s ∈ a.scriptsOf p)
    (h : Grows p s a b) (hb : Anchored b) (hf : Forest p s served' b []) (hfilled : b.Filled s [])
    (hserved : ∀ q, served q → served' q) : Gathered p served' b := by
  have hscripts : b.scriptsOf p = a.scriptsOf p := scriptsOf_congr h.scripts
  have hfs := hg.forest s hs
  -- the nodes of another script are neither the package nor below this script
  have hnode : ∀ t ∈ a.scriptsOf p, t ≠ s → ∀ m, a.Owner t m → b.node m = a.node m := by
    intro t ht hne m hm
    have hft := hg.forest t ht
    refine h.frame m (hft.owner_lt_size hm) (hft.package_ne hm) fun ho => ?_
    rcases hm with rfl | hm
    · rcases ho with he | ho
      · exact hne he
      · exact hft.not_own ha s ho
    · rcases ho with rfl | ho
      · exact hfs.not_own ha t hm
      · unfold Own at hm ho
        rw [hm] at ho
        exact hne (Option.some.inj ho)
  have hown : ∀ t ∈ a.scriptsOf p, t ≠ s → ∀ n : Nat, b.Own t n → a.Own t n := by
    intro t ht hne n hn
    have hft := hg.forest t ht
    rcases Nat.lt_or_ge n a.size with hlt | hge
    · unfold Own
      rw [← h.script_eq n hlt, hn]
    · exfalso
      have hhome : b.home t = some p := by
        rw [h.homes t (hft.owner_lt_size (Or.inl rfl)), hft.script_home]
      rcases h.fresh n hge hn.lt_size with ⟨ho, -⟩ | ⟨-, ho⟩
      · unfold Own at hn ho
        rw [hn] at ho
        exact hne (Option.some.inj ho)
      · refine ho ?_
        obtain ⟨dt, hdt, -⟩ := hft.isScript
        have hst := h.shape (hft.owner_lt_size (Or.inl rfl))
        rw [hdt] at hst
        obtain ⟨dt', hdt'⟩ := NodeKind.script_of_ctorIdx hst
        rw [home_of_own ((hb n).level_lt t hn) hn hdt', ← hhome, home_of_script hdt']
  have hkept : ∀ t ∈ a.scriptsOf p, t ≠ s → Forest p t served b [] := by
    intro t ht hne
    have hft := hg.forest t ht
    obtain ⟨decl, hd⟩ := hft.isPackage
    have hshape := h.shape (lt_size_of_home (home_of_package hd))
    rw [hd] at hshape
    have hreg : ∀ x ∈ b.typesOf p, a.Own t x → x ∈ a.typesOf p := by
      intro x hx ho
      obtain ⟨entry, he, rfl⟩ := mem_typesOf.1 hx
      rcases h.declared entry he with he | ⟨ho', -⟩
      · exact mem_typesOf.2 ⟨entry, he, rfl⟩
      · rw [h.own_iff ho.lt_size] at ho'
        unfold Own at ho ho'
        rw [ho] at ho'
        exact absurd (Option.some.inj ho') hne
    exact hft.kept (NodeKind.package_of_ctorIdx hshape) (hnode t ht hne) (hown t ht hne) h.toStays
      h.size_le h.types hf.listed fun x hx ho => Or.inl (hreg x hx ho)
  obtain ⟨hattrs, hparent, htop⟩ := h.top
  refine ⟨?_, ?_, ?_, ?_, ?_, ?_, ?_, ?_, ?_⟩
  · exact hf.isPackage
  · rw [hattrs, hparent]
    exact hg.bare
  · rw [hscripts]
    exact hg.distinct
  · intro t ht
    rw [hscripts] at ht
    by_cases he : t = s
    · exact he ▸ hf
    · exact (hkept t ht he).mono hserved
  · intro t ht
    rw [hscripts] at ht
    by_cases he : t = s
    · rw [he, htop]
      exact hg.parent s hs
    · rw [hnode t ht he t (Or.inl rfl)]
      exact hg.parent t ht
  · intro n hn
    rw [hscripts]
    rcases Nat.lt_or_ge n a.size with hlt | hge
    · rw [h.homes n hlt] at hn
      refine (hg.whole n hn).imp id ?_
      rintro ⟨t, ht, ho⟩
      refine ⟨t, ht, ho.imp id fun ho => ?_⟩
      unfold Own
      rw [h.script_eq n hlt, ho]
    · rcases h.fresh n hge (lt_size_of_home hn) with ⟨ho, -⟩ | ⟨-, ho⟩
      · exact Or.inr ⟨s, hs, Or.inr ho⟩
      · exact absurd hn ho
  · intro x hx
    rw [hscripts]
    obtain ⟨entry, he, rfl⟩ := mem_typesOf.1 hx
    rcases h.declared entry he with he | ⟨ho, -⟩
    · obtain ⟨t, ht, ho⟩ := hg.types entry.2 (mem_typesOf.2 ⟨entry, he, rfl⟩)
      refine ⟨t, ht, ?_⟩
      unfold Own
      rw [h.script_eq _ ho.lt_size, ho]
    · exact ⟨s, hs, ho⟩
  · intro entry he
    rcases h.declared entry he with he | ⟨-, hname⟩
    · obtain ⟨t, ht, ho⟩ := hg.types entry.2 (mem_typesOf.2 ⟨entry, he, rfl⟩)
      rw [h.name_eq _ ho.lt_size, hg.keyed entry he]
    · exact hname
  · intro t ht
    rw [hscripts] at ht
    by_cases he : t = s
    · exact he ▸ hfilled
    · exact (hg.filled t ht).of_kept (hown t ht he) fun n hn => hnode t ht he n (Or.inr hn)

end Arena

open Arena

variable {σ : Type} {importer : Importer σ} {p : Nat}

/-- What reading scripts of a package does to its host, whether it fails or not. -/
structure Hosting.Keeps (hosting : Hosting importer p) (x y : Arena × σ) : Prop where
  inv : hosting.Inv x.1 x.2 → hosting.Inv y.1 y.2
  served : ∀ q, hosting.served x.2 q → hosting.served y.2 q

instance (hosting : Hosting importer p) : IsPreorder (Arena × σ) hosting.Keeps where
  refl _ := ⟨id, fun _ => id⟩
  trans _ _ _ h h' := ⟨fun hi => h'.inv (h.inv hi), fun q hq => h'.served q (h.served q hq)⟩

/-- The state between two scripts of a package. -/
def Hosting.Rests (hosting : Hosting importer p) (x : Arena × σ) : Prop :=
  hosting.Inv x.1 x.2 ∧ Gathered p (hosting.served x.2) x.1

/-- A script of a package is read as a new node, unless there is one of its name. -/
theorem Hosting.Rests.opens {hosting : Hosting importer p} {x : Arena × σ} (h : hosting.Rests x)
    (name : String) (path : Option Path) (source : Text.Source) :
    Compile.readFile importer p name path source x =
        .error ⟨.duplicateScript name, .unknown⟩ x ∨
      ∃ s b, (x.1.newScript p name path).2 = b ∧ hosting.Inv b x.2 ∧
        Gathered p (hosting.served x.2) b ∧ s ∈ b.scriptsOf p ∧
        Compile.readFile importer p name path source x = readScript importer s source (b, x.2) := by
  obtain ⟨a, host⟩ := x
  obtain ⟨hi, hg⟩ := h
  have ha := hosting.anchored hi
  obtain ⟨decl, hp⟩ := hg.isPackage
  have htries := opened_newScript hp name path
  unfold Tries at htries
  unfold Compile.readFile
  cases hnew : a.newScript p name path with
  | mk result b =>
    rw [hnew] at htries
    cases result with
    | error existing =>
      have hb : b = a := htries
      subst hb
      exact Or.inl (by simp only [hnew])
    | ok s =>
      have hopened : Opened p s a b := htries
      obtain ⟨hgb, hs⟩ := hopened.gathered hp hg ha
      exact Or.inr ⟨s, b, rfl, hosting.built hi (hopened.within hp ha), hgb, hs,
        by simp only [hnew]⟩

/-- Reading one more script of a package. -/
theorem leads_readFile (hosting : Hosting importer p) {x : Arena × σ} (h : hosting.Rests x)
    (name : String) (path : Option Path) (source : Text.Source) :
    Leads hosting.Keeps (Compile.readFile importer p name path source) x
      fun _ y => hosting.Rests y := by
  rcases h.opens name path source with hrun | ⟨s, b, -, hb, hg, hs, hrun⟩
  · exact .of_error hrun (refl _)
  · have hread := leads_readScript hosting source hb (hg.forest s hs)
    cases hscript : readScript importer s source (b, x.2) with
    | ok u y =>
      obtain ⟨hy, hf, hfilled⟩ := hread.ok hscript
      exact .of_ok (hrun.trans hscript) ⟨fun _ => hy.inv, hy.served⟩
        ⟨hy.inv, hg.grows (hosting.anchored hb) hs hy.grows (hosting.anchored hy.inv) hf
          (hfilled (hg.filled s hs)) hy.served⟩
    | error e y =>
      have hy := hread.error hscript
      exact .of_error (hrun.trans hscript) ⟨fun _ => hy.inv, hy.served⟩

/-- Reading one more script adds its name to the names of the scripts. -/
theorem scriptNames_readFile {hosting : Hosting importer p} {x y : Arena × σ} (h : hosting.Rests x)
    {name : String} {path : Option Path} {source : Text.Source}
    (hrun : Compile.readFile importer p name path source x = .ok () y) :
    ∀ other ∈ y.1.scriptNames p, other = name ∨ other ∈ x.1.scriptNames p := by
  rcases h.opens name path source with htaken | ⟨s, b, hb, hinv, hg, hs, hread⟩
  · cases hrun.symm.trans htaken
  obtain ⟨decl, hp⟩ := h.2.isPackage
  have hgrows := ((leads_readScript hosting source hinv (hg.forest s hs)).ok (hread.symm.trans hrun)).1.grows
  rw [scriptNames_congr hgrows.scripts, ← hb]
  exact scriptNames_newScript hp name path

end SchemaLang
