import SchemaLang.Proofs.Grammar.Meaning
import SchemaLang.Proofs.Session.Resolution
import SchemaLang.Proofs.Session.Tagging

/-!
# Keywords that stand for types of the built-in package

A scalar keyword is read as a reference to a type of the built-in package (`Parse.reads_builtinRef`), and
the keyword of a struct as the marker of that package (`Arena.Bears`). Both are spelled as the package at
hand sees the built-in one (`Phrase.Ref.builtin`): as its own types, if it is that package, and else behind
the alias that every script has for the built-in package. A script may bind this alias to another package,
and sees that one then.

So keywords mean what they should in the scripts that see the built-in package (`Arena.Sees`): references
are bound to the types of that name (`Session.keyword_bound`), and structs are tagged, wherever their
markers are moved to (`Session.structs_tagged`).
-/

namespace SchemaLang

open Arena Phrase

variable {a b : Arena} {n p t builtin : Nat} {name word : String} {script : Script}

/-! ## What a script sees -/

/-- The keywords of a script lead to the package, in a package of the name: to that package itself, if it is
called like the built-in one, and else to what the script has under that alias. -/
def Script.Sees (a : Arena) (name : String) (script : Script) (builtin : NodeId) : Prop :=
  if name = Prelude.packageName then script.package = builtin
  else ∃ node, script.imports.find? Prelude.packageName = some node ∧ a.kind node = .packageRef builtin

namespace Arena

/-- The script from which the node was read sees the package. -/
def Sees (a : Arena) (name : String) (n builtin : NodeId) : Prop :=
  ∃ s script, (a.node n).script = some s ∧ a.kind s = .script script ∧ script.Sees a name builtin

theorem Sees.binds (h : a.Sees name n builtin) (hb : Binds a b) : b.Sees name n builtin := by
  obtain ⟨s, script, hn, hs, hsees⟩ := h
  refine ⟨s, script, (hb.script_eq n).trans hn, hb.script_iff.2 hs, ?_⟩
  unfold Script.Sees at *
  simpa only [hb.packageRef_iff] using hsees

/-- A keyword denotes a type of the package that the script sees. -/
theorem find?_types_of_denotes {package : Package} (h : script.Sees a name builtin)
    (hp : a.kind script.package = .package package)
    (hd : Denotes a script package (Ref.builtin name word).items t) :
    ∃ decl, a.kind builtin = .package decl ∧ decl.types.find? word = some t := by
  unfold Script.Sees at h
  rw [Ref.items_builtin] at hd
  by_cases hname : name = Prelude.packageName
  · rw [if_pos hname] at h
    rw [if_pos (beq_iff_eq.2 hname)] at hd
    cases hd with
    | type _ ht => exact ⟨package, h ▸ hp, ht⟩
  · rw [if_neg hname] at h
    rw [if_neg fun he => hname (beq_iff_eq.1 he)] at hd
    obtain ⟨node, hf, hk⟩ := h
    cases hd with
    | imported hi ht =>
      obtain ⟨node', q, hf', hk', hq⟩ := hi
      cases hf.symm.trans hf'
      cases hk.symm.trans hk'
      exact ⟨_, hq, ht⟩
    | value hn =>
      rw [hn] at hf
      cases hf

/-- A keyword that is bound is bound to a type of the package that its script sees. -/
theorem Bound.find?_types {target : Option NodeId} (h : a.Bound n) (hsees : a.Sees name n builtin)
    (hk : a.kind n = .typeRef ⟨(Ref.builtin name word).items, target⟩) :
    ∃ decl t, a.kind builtin = .package decl ∧ decl.types.find? word = some t ∧ target = some t := by
  obtain ⟨path, t, hk', s, script, package, decl, hn, hs, hp, hr, hd⟩ := h
  obtain ⟨s', script', hn', hs', hsees⟩ := hsees
  cases hn.symm.trans hn'
  cases hs.symm.trans hs'
  cases hk.symm.trans hk'
  cases hk.symm.trans hr
  obtain ⟨other, ho, ht⟩ := find?_types_of_denotes hsees hp hd
  exact ⟨other, t, ho, ht, rfl⟩

/-- A script of a package that is read sees the package itself or one that was served. -/
theorem Gathered.sees {served : NodeId → Prop} {s : NodeId} (h : Gathered p served a) (ha : Anchored a)
    (hs : s ∈ a.scriptsOf p) (hn : a.Own s n) (hsees : a.Sees name n builtin) :
    builtin = p ∨ served builtin := by
  have hf := h.forest s hs
  obtain ⟨s', script, hn', hk, hsees⟩ := hsees
  cases hn.symm.trans hn'
  unfold Script.Sees at hsees
  by_cases hname : name = Prelude.packageName
  · rw [if_pos hname] at hsees
    obtain ⟨decl, hd, hfit⟩ := hf.isScript
    cases hk.symm.trans hd
    exact Or.inl (hsees.symm.trans hfit.package_eq)
  · rw [if_neg hname] at hsees
    obtain ⟨node, hfind, hnode⟩ := hsees
    have hchild : node ∈ a.children s := by
      unfold children Node.children
      unfold kind at hk
      rw [hk]
      exact List.mem_append_right _ (List.mem_append_left _ (Registry.mem_nodes_of_find? hfind))
    have hown := (hf.child s node (Or.inl rfl) hchild).1
    exact Or.inr (h.needs ⟨node, hf.home_of_own ha hown, hnode⟩)

/-! ## Markers -/

/-- An attribute that a node has by its keyword is bound to a type of the package that the script sees. -/
theorem Gathered.attrsOfType_ne_nil {served : NodeId → Prop} {s : NodeId} (h : Gathered p served a)
    (hrun : Link.bindReferences p a = .ok () b) (hs : s ∈ a.scriptsOf p) (hn : a.Own s n)
    (hsees : a.Sees name n builtin) (hwears : a.Wears n [⟨.builtin name word, none⟩]) :
    ∃ decl marker, b.kind builtin = .package decl ∧ decl.types.find? word = some marker ∧
      b.attrsOfType n marker ≠ [] := by
  have hf := h.forest s hs
  obtain ⟨hbinds, -, hbound⟩ := h.binds_of_ok hrun
  obtain ⟨x, hx, type, args, ⟨-, hattr⟩, ⟨-, htype⟩, -⟩ := List.forall_mem_singleton.1 hwears
  -- the attribute and its reference were read from the script of the node
  have hxown : a.Own s x :=
    (hf.child n x (Or.inr hn) (List.mem_append_left _ (Array.mem_toList_iff.2 hx))).1
  have htypeown : a.Own s type := (hf.child x type (Or.inr hxown) (by
    unfold kind at hattr
    unfold children Node.children
    rw [hattr]
    exact List.mem_append_right _ (List.mem_cons_self ..))).1
  have hseestype : a.Sees name type builtin := by
    obtain ⟨s', script, hn', hsees⟩ := hsees
    exact ⟨s', script, htypeown.trans (hn.symm.trans hn'), hsees⟩
  obtain ⟨target, htarget⟩ := hbinds.path_iff.2 ⟨none, htype⟩
  obtain ⟨decl, marker, hd, hfind, rfl⟩ := (hbound type ⟨⟨s, hs, htypeown⟩, _, htype⟩).find?_types
    (hseestype.binds hbinds) htarget
  have hattr' : b.kind x = .attr ⟨type, args⟩ := (hbinds.kind_iff (by exact Nat.succ_ne_zero 2)).2 hattr
  have hmem : x ∈ b.attrsOfType n marker := by
    refine mem_attrsOfType.2 ⟨by rwa [hbinds.attrs_eq], ?_⟩
    unfold attrType
    rw [attr?_eq_some.2 hattr', Option.bind_eq_bind, Option.bind_some, reference?_eq_some.2 htarget]
    rfl
  exact ⟨decl, marker, hd, hfind, List.ne_nil_of_mem hmem⟩

end Arena

/-- A table that carries the struct marker once the references of its package are bound is tagged. -/
theorem Passes.isStruct {cached settled : NodeId → Prop} {c d : Arena} {decl : Table} {package : Package}
    {marker : NodeId} (h : Passes p builtin cached settled a b c d) (hn : b.home t = some p)
    (hk : b.kind t = .table decl) (hp : b.kind builtin = .package package)
    (hmarker : package.types.find? Prelude.structMarker = some marker)
    (hcarries : b.attrsOfType t marker ≠ []) :
    ∃ decl, d.kind t = .table decl ∧ decl.isStruct = true := by
  obtain ⟨v, hv, htagged⟩ := h.laid.taggedBy h.placed hn (by rw [hk]; rfl)
  obtain ⟨package', _, hp', -, -, -, -, hstruct, -⟩ := Vocabulary.ofPackage_eq_ok.1 hv
  cases hp.symm.trans (package?_eq_some.1 hp')
  cases hmarker.symm.trans hstruct
  have hshape := h.rearranges.shape t (lt_size_of_home hn)
  rw [hk] at hshape
  obtain ⟨decl', hc⟩ := NodeKind.table_of_ctorIdx hshape
  refine ⟨decl', h.copies.table t decl' hc, ?_⟩
  rw [htagged.struct decl' hc, Bool.not_eq_true', ← Bool.not_eq_true, List.isEmpty_iff]
  exact hcarries

/-! ## Linked packages -/

namespace Session

variable {s x : Session} {held : NodeId → Prop}

/-- In every session the keywords of linked packages are bound to the types of that name in the package
that their scripts see. -/
theorem keyword_bound {target : Option NodeId} (hs : s.Reachable) (hp : s.package? name = some p)
    (hn : s.arena.home n = some p) (hsees : s.arena.Sees name n builtin)
    (hk : s.arena.kind n = .typeRef ⟨(Ref.builtin name word).items, target⟩) :
    ∃ decl t, s.arena.kind builtin = .package decl ∧ decl.types.find? word = some t ∧ target = some t :=
  (hs.sound.bound hp (Or.inr hn) hk).find?_types hsees hk

/-- A table with the struct marker is tagged when its package is linked, if its script sees the built-in
package of the session. -/
theorem Entered.isStruct {decl : Table} (h : s.Entered name p x b held) (hs : Sound s)
    (hb : s.package? Prelude.packageName = some builtin) (ht : x.1.home t = some p)
    (hk : x.1.kind t = .table decl) (hsees : x.1.Sees name t builtin)
    (hwears : x.1.Wears t [⟨.builtin name Prelude.structMarker, none⟩]) :
    ∃ decl, s.1.kind t = .table decl ∧ decl.isStruct = true := by
  obtain ⟨settled, hsettled⟩ := h.sound.settled
  obtain ⟨r, hr, hown⟩ := h.gathered.own_of_level ht (by rw [hk]; exact (by decide : 6 < 7))
  -- the package is linked against the package that the script sees
  obtain ⟨e, c, hpass⟩ := h.gathered.passes h.sound.anchored hsettled h.fresh h.linked
  rw [h.builtin_eq_of_caches hs hb (h.gathered.sees h.sound.anchored hr hown hsees)] at hpass
  have hbinds := (h.gathered.binds_of_ok hpass.bound).1
  have hk' : e.kind t = .table decl := (hbinds.kind_iff (by exact Nat.succ_ne_zero 5)).2 hk
  obtain ⟨package, marker, hpackage, hmarker, hcarries⟩ :=
    h.gathered.attrsOfType_ne_nil hpass.bound hr hown hsees hwears
  obtain ⟨decl', hd, htag⟩ :=
    hpass.isStruct ((hbinds.home_eq t).trans ht) hk' hpackage hmarker hcarries
  -- and the table has stayed since
  have hhome : b.home t = some p := (hpass.within_all.homes t (lt_size_of_home ht)).trans ht
  have hheld : held t := (h.settled.whole t p hhome (Or.inl rfl)).resolve_right fun hm => by
    rw [method?, hd] at hm
    cases hm
  exact ⟨decl', (congrArg Node.kind (h.kept t hheld)).trans hd, htag⟩

/-- Every linked package has entered the session so that its structs are tagged now, as far as their scripts
see the built-in package. -/
theorem structs_tagged (hs : s.Reachable) (hb : s.package? Prelude.packageName = some builtin)
    (hp : s.package? name = some p) :
    ∃ x b held, s.Entered name p x b held ∧ ∀ (t : NodeId) (decl : Table), x.1.home t = some p →
      x.1.kind t = .table decl → x.1.Sees name t builtin →
      x.1.Wears t [⟨.builtin name Prelude.structMarker, none⟩] →
      ∃ decl, s.arena.kind t = .table decl ∧ decl.isStruct = true := by
  obtain ⟨x, b, held, h⟩ := hs.entered hp
  exact ⟨x, b, held, h, fun _ _ ht hk hsees hwears => h.isStruct hs.sound hb ht hk hsees hwears⟩

end Session

end SchemaLang
