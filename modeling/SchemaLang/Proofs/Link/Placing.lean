import SchemaLang.Link.Placement
import SchemaLang.Proofs.Link.Scene

/-!
# Placing attributes moves them within the package

The second pass of linking moves an attribute from its node to the script or the package of the
node. Before contracts are flattened everything below a package belongs to it, so the pass only
touches nodes of the package (`leads_placeAttributes`).
-/

namespace SchemaLang

open Arena

/-- An attribute leaves a node for another one. -/
def Arena.moveAttr (arena : Arena) (node destination attr : NodeId) : Arena :=
  (arena.removeAttr node attr).2.addAttr destination attr

/-- What checking an attribute does. -/
theorem Link.placeAttr_cases (vocabulary : Vocabulary) (node : NodeId) (site : Site) (attr : NodeId)
    (a : Arena) : (∃ failure, placeAttr vocabulary node site attr a = .error failure a) ∨
      ∃ mask, a.usageMask vocabulary attr = .ok mask ∧
        (vocabulary.permits mask site = true ∧ placeAttr vocabulary node site attr a = .ok () a ∨
          vocabulary.permits mask site = false ∧
            ∃ d, a.destination? vocabulary node site mask = some d ∧
              placeAttr vocabulary node site attr a = .ok () (a.moveAttr node d attr)) := by
  cases hmask : a.usageMask vocabulary attr with
  | error failure =>
    refine Or.inl ⟨failure, ?_⟩
    simp only [placeAttr, hmask]
  | ok mask =>
    cases hp : vocabulary.permits mask site with
    | true =>
      refine Or.inr ⟨mask, rfl, Or.inl ⟨hp, ?_⟩⟩
      simp only [placeAttr, hmask, hp, if_true]
    | false =>
      cases hd : a.destination? vocabulary node site mask with
      | none =>
        refine Or.inl ?_
        simp only [placeAttr, hmask, hp, hd]
        exact ⟨_, rfl⟩
      | some d =>
        refine Or.inr ⟨mask, rfl, Or.inr ⟨hp, d, hd, ?_⟩⟩
        simp only [placeAttr, hmask, hp, hd]
        rfl

/-- What checking the attributes of a package does. -/
theorem Link.placeAttributes_cases (package builtin : NodeId) (a : Arena) :
    placeAttributes package builtin a = .ok () a ∧
        (∀ decl, a.kind package = .package decl → decl.scripts.values = []) ∨
      (∃ failure, a.scriptsOf package ≠ [] ∧ Vocabulary.ofPackage a builtin = .error failure ∧
        placeAttributes package builtin a = .error failure a) ∨
      ∃ vocabulary, Vocabulary.ofPackage a builtin = .ok vocabulary ∧
        placeAttributes package builtin a =
          (a.sites package).forM (placeSite vocabulary) a := by
  cases hp : a.package? package with
  | none =>
    refine Or.inl ⟨by simp only [placeAttributes, hp], fun decl hd => ?_⟩
    rw [package?_eq_some.2 hd] at hp
    cases hp
  | some decl =>
    by_cases hempty : decl.scripts.isEmpty = true
    · refine Or.inl ⟨by simp only [placeAttributes, hp, hempty, if_true], fun decl' hd => ?_⟩
      rw [package?_eq_some.2 hd] at hp
      cases hp
      refine List.eq_nil_iff_forall_not_mem.2 fun s hs => ?_
      obtain ⟨name, hname⟩ := mem_values_iff.1 hs
      rw [Std.TreeMap.getElem?_of_isEmpty hempty] at hname
      cases hname
    · cases hv : Vocabulary.ofPackage a builtin with
      | error failure =>
        refine Or.inr (Or.inl ⟨failure, fun hnone => hempty ?_, rfl, ?_⟩)
        · rw [scriptsOf_eq (package?_eq_some.1 hp)] at hnone
          rw [Std.TreeMap.isEmpty_eq_size_eq_zero, ← Std.TreeMap.length_toList, beq_iff_eq,
            List.length_eq_zero_iff, ← List.map_eq_nil_iff, ← values_eq_map]
          exact hnone
        · simp only [placeAttributes, hp, hempty, hv]
          rfl
      | ok vocabulary =>
        refine Or.inr (Or.inr ⟨vocabulary, rfl, ?_⟩)
        simp only [placeAttributes, hp, hempty, hv]
        rfl

namespace Scene

variable {scene : Scene} {a b : Arena} {n m : Nat}

/-- What holds between two steps of the pass: everything below the package belongs to it. -/
structure Placing (scene : Scene) (a : Arena) : Prop extends Holds scene a where
  inner : ∀ n c : Nat, a.home n = some scene.package → c ∈ a.children n →
    a.home c = some scene.package

theorem Placing.home_of_reaches (h : Placing scene a) (hr : a.Reaches scene.package n) :
    a.home n = some scene.package := by
  induction hr with
  | refl =>
    obtain ⟨decl, hd⟩ := h.isPackage
    exact home_of_package hd
  | tail _ hc ih => exact h.inner _ _ ih hc

/-- A node of the package is dressed otherwise: it keeps its parts, and gets attributes of the package
only where it is no declaration. -/
theorem Placing.dress {x : Node} (h : Placing scene a) (hm : a.home m = some scene.package)
    (hc : Changed a b m x) (hname : x.name = (a.node m).name) (hs : x.script = (a.node m).script)
    (hshape : x.kind.ctorIdx = (a.kind m).ctorIdx) (hkept : (a.kind m).Kept x.kind)
    (hreferences : x.kind.references = (a.kind m).references)
    (hcontract : ∀ decl, x.kind = .contract decl → a.kind m = .contract decl)
    (hparent : ∀ o, x.parent = some o → scene.Covers a o)
    (hchildren : ∀ c ∈ x.children, c ∈ a.children m ∨
      (a.kind m).level ≠ 6 ∧ a.home c = some scene.package) :
    Rearranges scene a b ∧ Placing scene b := by
  have hcovers : scene.Covers a m := Or.inr (Or.inl hm)
  have hhome : ∀ c ∈ x.children, a.home c = some scene.package := fun c hx =>
    (hchildren c hx).elim (h.inner m c hm) And.right
  have he : Edits scene a m x := by
    refine ⟨h.loose_of_home hm, hcovers, hname, hs, hshape, hkept, fun l hl => ?_, fun hlevel c hx => ?_,
      fun decl hd k => h.methods m k decl hcovers (hcontract decl hd), fun decl hd hf => ?_⟩
    · rcases Node.mem_links.1 hl with hl | hl | hl | hl
      · exact hparent l hl
      · rw [hs] at hl
        exact h.closed.script hcovers hl
      · exact Or.inr (Or.inl (hhome l hl))
      · rw [hreferences] at hl
        exact h.closed.reference hcovers hl
    · rcases hchildren c hx with hx | ⟨hne, -⟩
      · exact h.plain m c hcovers hlevel hx
      · exact absurd hlevel hne
    · have hformed := h.formed m hcovers
      rw [hcontract decl hd] at hformed
      exact hformed hf
  obtain ⟨hr, hb⟩ := h.toHolds.edit hc he
  refine ⟨hr, hb, fun n c hn hnc => ?_⟩
  have hback : ∀ k : Nat, k < a.size → b.home k = a.home k := hr.homes
  have hlt : n < a.size := hc.size_eq ▸ lt_size_of_home hn
  rw [hback n hlt] at hn
  have hc' : a.home c = some scene.package := by
    unfold children at hnc
    by_cases e : n = m
    · subst e
      rw [hc.node_self] at hnc
      exact hhome c hnc
    · rw [hc.node_ne e] at hnc
      exact h.inner n c hn hnc
  rw [hback c (lt_size_of_home hc'), hc']

/-! ## One attribute -/

theorem Placing.removeAttr (h : Placing scene a) (hm : a.home m = some scene.package)
    (attr : NodeId) : Rearranges scene a (a.removeAttr m attr).2 ∧
      Placing scene (a.removeAttr m attr).2 := by
  refine h.dress hm (changed_update (lt_size_of_home hm) _) rfl rfl rfl (.refl _) rfl (fun _ hd => hd)
    (fun o ho => h.closed m o (Or.inr (Or.inl hm)) (Node.mem_links.2 (Or.inl ho))) fun c hc => ?_
  refine Or.inl ?_
  unfold children Node.children at *
  simp only [List.mem_append, Array.mem_toList_iff, Array.mem_filter] at hc ⊢
  exact hc.imp And.left id

theorem Placing.addAttr {attr : Nat} (h : Placing scene a) (hm : a.home m = some scene.package)
    (hlevel : (a.kind m).level ≠ 6) (ha : a.home attr = some scene.package) :
    Rearranges scene a (a.addAttr m attr) ∧ Placing scene (a.addAttr m attr) := by
  rw [addAttr_eq]
  have hc := changed_update (lt_size_of_home hm) (withAttr attr)
  obtain ⟨h₁, h₂⟩ := h.dress hm hc rfl rfl rfl (.refl _) rfl (fun _ hd => hd)
    (fun o ho => h.closed m o (Or.inr (Or.inl hm)) (Node.mem_links.2 (Or.inl ho))) fun c hx => by
      rcases mem_children_withAttr.1 hx with hx | rfl
      · exact Or.inl hx
      · exact Or.inr ⟨hlevel, ha⟩
  have hm' := (h₁.homes m (lt_size_of_home hm)).trans hm
  have ha' := (h₁.homes attr (lt_size_of_home ha)).trans ha
  obtain ⟨h₃, h₄⟩ := h₂.dress ha' (changed_adopt (lt_size_of_home ha')) rfl rfl rfl (.refl _) rfl
    (fun _ hd => hd) (fun o ho => by cases ho; exact Or.inr (Or.inl hm')) fun c hx => Or.inl hx
  exact ⟨h₁.trans h₃, h₄⟩

/-- An attribute goes to a script or a package. -/
theorem Placing.destination {vocabulary : Vocabulary} {site : Site} {mask : Int64} {d : Nat}
    (h : Placing scene a) (hm : a.home m = some scene.package)
    (hd : a.destination? vocabulary m site mask = some d) :
    a.home d = some scene.package ∧ (a.kind d).level ≠ 6 := by
  unfold destination? at hd
  split at hd
  · unfold scriptOf at hd
    split at hd
    · rename_i decl hk
      cases hd
      exact ⟨hm, by rw [hk]; exact (by decide : 7 ≠ 6)⟩
    · obtain ⟨⟨decl, hk⟩, hhome⟩ := h.anchored.script_home hm hd
      exact ⟨hhome, by rw [hk]; exact (by decide : 7 ≠ 6)⟩
  · split at hd
    · rw [packageOf_of_home hm] at hd
      cases hd
      obtain ⟨decl, hk⟩ := h.isPackage
      exact ⟨home_of_package hk, by rw [hk]; exact (by decide : 8 ≠ 6)⟩
    · cases hd

theorem leads_placeAttr {attr : Nat} (vocabulary : Vocabulary) (site : Site) (h : Placing scene a)
    (hm : a.home m = some scene.package) (ha : a.home attr = some scene.package) :
    Leads (Rearranges scene) (Link.placeAttr vocabulary m site attr) a
      fun _ b => Placing scene b := by
  rcases Link.placeAttr_cases vocabulary m site attr a with
    ⟨failure, hrun⟩ | ⟨mask, -, ⟨-, hrun⟩ | ⟨-, d, hd, hrun⟩⟩
  · exact .of_error hrun (refl a)
  · exact .of_ok hrun (refl a) h
  · obtain ⟨hhome, hlevel⟩ := h.destination hm hd
    obtain ⟨h₁, h₂⟩ := h.removeAttr hm attr
    have hd' := (h₁.homes d (lt_size_of_home hhome)).trans hhome
    have ha' := (h₁.homes attr (lt_size_of_home ha)).trans ha
    have hlevel' : ((a.removeAttr m attr).2.kind d).level ≠ 6 := by
      rw [NodeKind.level_congr (h₁.shape d (lt_size_of_home hhome))]
      exact hlevel
    obtain ⟨h₃, h₄⟩ := h₂.addAttr hd' hlevel' ha'
    exact .of_ok hrun (h₁.trans h₃) h₄

/-! ## One site -/

/-- A node of the package gets another tag. -/
theorem Placing.retag {f : NodeKind → NodeKind} (h : Placing scene a)
    (hm : a.home m = some scene.package) (hf : ∀ kind : NodeKind, kind.Kept (f kind))
    (hcontract : ∀ decl, f (.contract decl) = .contract decl) :
    Rearranges scene a (a.updateKind m f) ∧ Placing scene (a.updateKind m f) := by
  have hparts : ∀ kind : NodeKind, (f kind).parts = kind.parts ∧ (f kind).references = kind.references ∧
      ∀ decl, f kind = .contract decl → kind = .contract decl := by
    intro kind
    have hkept := hf kind
    cases kind with
    | contract decl =>
      rw [hcontract]
      exact ⟨rfl, rfl, fun _ => id⟩
    | enum decl =>
      obtain ⟨isError, he⟩ := hkept
      rw [he]
      exact ⟨rfl, rfl, nofun⟩
    | table decl =>
      obtain ⟨isStruct, he⟩ := hkept
      rw [he]
      exact ⟨rfl, rfl, nofun⟩
    | method decl =>
      obtain ⟨number, he⟩ := hkept
      rw [he]
      exact ⟨rfl, rfl, nofun⟩
    | _ =>
      rw [show f _ = _ from hkept]
      exact ⟨rfl, rfl, fun _ => id⟩
  obtain ⟨hparts, hreferences, hcontract⟩ := hparts (a.kind m)
  refine h.dress hm (changed_updateKind (lt_size_of_home hm) f) rfl rfl (hf _).shape (hf _) hreferences
    hcontract (fun o ho => h.closed m o (Or.inr (Or.inl hm)) (Node.mem_links.2 (Or.inl ho)))
    fun c hc => Or.inl ?_
  unfold children Node.children
  unfold Node.children at hc
  dsimp only at hc
  rwa [hparts] at hc

theorem leads_tag (vocabulary : Vocabulary) (site : Site) (h : Placing scene a)
    (hm : a.home m = some scene.package) :
    Leads (Rearranges scene) (Link.tag vocabulary m site) a fun _ b => Placing scene b ∧
      b.home m = some scene.package := by
  have hhome : ∀ {b : Arena}, Rearranges scene a b → b.home m = some scene.package := fun hr =>
    (hr.homes m (lt_size_of_home hm)).trans hm
  unfold Link.tag
  cases site with
  | table =>
    have hset : ∀ value, Rearranges scene a (a.setStruct m value) ∧
        Placing scene (a.setStruct m value) := fun value =>
      h.retag hm (fun kind => by cases kind <;> first | exact .refl _ | exact ⟨_, rfl⟩) fun _ => rfl
    obtain ⟨hr, hb⟩ := hset !(a.attrsOfType m vocabulary.structMarker).isEmpty
    exact .of_ok rfl hr ⟨hb, hhome hr⟩
  | enum =>
    have hset : ∀ value, Rearranges scene a (a.setError m value) ∧
        Placing scene (a.setError m value) := fun value =>
      h.retag hm (fun kind => by cases kind <;> first | exact .refl _ | exact ⟨_, rfl⟩) fun _ => rfl
    obtain ⟨hr, hb⟩ := hset !(a.attrsOfType m vocabulary.errorMarker).isEmpty
    exact .of_ok rfl hr ⟨hb, hhome hr⟩
  | _ => exact .of_ok rfl (refl a) ⟨h, hm⟩

theorem leads_placeSite (vocabulary : Vocabulary) (entry : NodeId × Site) (h : Placing scene a)
    (hm : a.home entry.1 = some scene.package) :
    Leads (Rearranges scene) (Link.placeSite vocabulary entry) a fun _ b => Placing scene b := by
  refine (leads_tag vocabulary entry.2 h hm).bind fun site b _ hb => ?_
  have hattrs : ∀ x ∈ (b.node entry.1).attrs.toList, b.home x = some scene.package := fun x hx =>
    hb.1.inner entry.1 x hb.2 (List.mem_append_left _ hx)
  refine (Leads.forM (I := fun rest c => Placing scene c ∧ c.home entry.1 = some scene.package ∧
    ∀ x ∈ rest, c.home x = some scene.package) ?_ _ b ⟨hb.1, hb.2, hattrs⟩).mono
      fun _ _ _ hc => hc.1
  intro x rest c hc
  obtain ⟨hp, he, hx⟩ := hc
  refine (leads_placeAttr vocabulary site hp he (hx x (List.mem_cons_self ..))).mono
    fun _ d hr hd => ⟨hd, ?_, fun y hy => ?_⟩
  · rw [hr.homes entry.1 (lt_size_of_home he), he]
  · have hy' := hx y (List.mem_cons_of_mem _ hy)
    rw [hr.homes y (lt_size_of_home hy'), hy']

/-! ## All sites -/

theorem Placing.home_of_mem_sites (h : Placing scene a) {entry : NodeId × Site}
    (he : entry ∈ a.sites scene.package) : a.home entry.1 = some scene.package := by
  unfold sites at he
  obtain ⟨n, hn, hmem⟩ := List.mem_flatMap.1 he
  have hhome := h.home_of_reaches (reaches_of_mem_walk hn)
  unfold sitesAt at hmem
  split at hmem
  case h_7 decl hk =>
    rw [List.cons_append, List.mem_cons, List.mem_append, List.mem_map, List.mem_map] at hmem
    have hslot : ∀ slot, slot ∈ decl.params.toList ++ decl.results.toList →
        a.home slot = some scene.package := by
      intro slot hslot
      refine h.inner n slot hhome (List.mem_append_right _ ?_)
      unfold kind at hk
      rw [hk]
      exact hslot
    rcases hmem with rfl | ⟨slot, hslot', rfl⟩ | ⟨slot, hslot', rfl⟩
    · exact hhome
    · exact hslot slot (List.mem_append_left _ hslot')
    · exact hslot slot (List.mem_append_right _ hslot')
  all_goals first
    | (rw [List.mem_singleton] at hmem; rw [hmem]; exact hhome)
    | cases hmem

theorem leads_placeSites (vocabulary : Vocabulary) (entries : List (NodeId × Site))
    (h : Placing scene a) (he : ∀ entry ∈ entries, a.home entry.1 = some scene.package) :
    Leads (Rearranges scene) (entries.forM (Link.placeSite vocabulary)) a
      fun _ b => Placing scene b := by
  refine (Leads.forM (I := fun rest b => Placing scene b ∧
    ∀ entry ∈ rest, b.home entry.1 = some scene.package) ?_ entries a ⟨h, he⟩).mono
      fun _ _ _ hb => hb.1
  intro entry rest b hb
  have hentry := hb.2 entry (List.mem_cons_self ..)
  refine (leads_placeSite vocabulary entry hb.1 hentry).mono fun _ c hr hc => ⟨hc, fun e he => ?_⟩
  have he' := hb.2 e (List.mem_cons_of_mem _ he)
  rw [hr.homes e.1 (lt_size_of_home he'), he']

/-- The second pass stays within the package. -/
theorem leads_placeAttributes (h : Placing scene a) (builtin : NodeId) :
    Leads (Rearranges scene) (Link.placeAttributes scene.package builtin) a
      fun _ b => Placing scene b := by
  rcases Link.placeAttributes_cases scene.package builtin a with
    ⟨hrun, -⟩ | ⟨failure, -, -, hrun⟩ | ⟨vocabulary, -, hrun⟩
  · exact .of_ok hrun (refl a) h
  · exact .of_error hrun (refl a)
  · exact .follow hrun (refl a) (leads_placeSites vocabulary _ h fun entry => h.home_of_mem_sites)

end Scene

end SchemaLang
