import Mathlib.Data.List.Find
import SchemaLang.Proofs.Link.Masks
import SchemaLang.Proofs.Link.Placing

/-!
# Attributes at rest

A site is at rest where its tag is right and every attribute on it may stay. The second pass of
linking leaves such sites alone (`placeAttributes_of_resting`).

Whether a site is at rest depends on nodes that can be reached from it and on the vocabulary. Steps
that leave attributes, tags and the vocabulary alone keep it (`Upholds.resting`): in particular those
of the third pass, and whatever happens elsewhere.
-/

namespace SchemaLang

namespace Arena

variable {a b : Arena} {attr builtin m n p : NodeId} {mask : Int64} {site : Site}
  {vocabulary : Vocabulary} {held : NodeId → Prop}

/-! ## Sites at rest -/

/-- The site that counts for the attributes of a node: a table that carries the struct marker is a
struct. -/
def countedSite (a : Arena) (vocabulary : Vocabulary) (n : NodeId) (site : Site) : Site :=
  if site = .table ∧ a.attrsOfType n vocabulary.structMarker ≠ [] then .struct else site

/-- The tag of the node is right, and every attribute on it may stay. -/
structure AtRest (a : Arena) (vocabulary : Vocabulary) (n : NodeId) (site : Site) : Prop where
  stays : ∀ attr ∈ (a.node n).attrs, ∃ mask, a.usageMask vocabulary attr = .ok mask ∧
    vocabulary.permits mask (a.countedSite vocabulary n site) = true
  struct : ∀ decl, a.kind n = .table decl →
    decl.isStruct = !(a.attrsOfType n vocabulary.structMarker).isEmpty
  error : ∀ decl, a.kind n = .enum decl →
    decl.isError = !(a.attrsOfType n vocabulary.errorMarker).isEmpty

/-- The sites at a node are at rest. -/
def Resting (a : Arena) (builtin n : NodeId) : Prop :=
  ∀ entry ∈ a.sitesAt n, ∃ vocabulary, Vocabulary.ofPackage a builtin = .ok vocabulary ∧
    a.AtRest vocabulary entry.1 entry.2

/-- The sites at a node are its own and those of its slots. -/
theorem eq_or_child_of_sitesAt {entry : NodeId × Site} (h : entry ∈ a.sitesAt n) :
    entry.1 = n ∨ entry.1 ∈ a.children n := by
  unfold sitesAt at h
  split at h
  case h_7 decl hk =>
    rw [List.cons_append, List.mem_cons, List.mem_append, List.mem_map, List.mem_map] at h
    rcases h with rfl | ⟨slot, hs, rfl⟩ | ⟨slot, hs, rfl⟩
    · exact Or.inl rfl
    · exact Or.inr (List.mem_append_right _ (by
        unfold kind at hk
        rw [hk]
        exact List.mem_append_left _ hs))
    · exact Or.inr (List.mem_append_right _ (by
        unfold kind at hk
        rw [hk]
        exact List.mem_append_right _ hs))
  case h_8 => cases h
  all_goals exact Or.inl (by rw [List.mem_singleton.1 h])

/-- The sites at a node do not depend on tags, ids and methods. -/
theorem sitesAt_of_kept (h : (a.kind n).Kept (b.kind n)) : b.sitesAt n = a.sitesAt n := by
  unfold sitesAt
  cases hk : a.kind n with
  | enum decl =>
    rw [hk] at h
    obtain ⟨isError, he⟩ := h
    rw [he]
  | table decl =>
    rw [hk] at h
    obtain ⟨isStruct, he⟩ := h
    rw [he]
  | contract decl =>
    rw [hk] at h
    obtain ⟨decl', he, -⟩ := h
    rw [he]
  | method decl =>
    rw [hk] at h
    obtain ⟨number, he⟩ := h
    rw [he]
  | _ =>
    rw [hk] at h
    rw [h]

/-! ## The pass leaves them alone -/

/-- Giving a node the kind that it has changes nothing. -/
theorem updateKind_eq_self {f : NodeKind → NodeKind} (h : f (a.kind n) = a.kind n) :
    a.updateKind n f = a := by
  have hsize : (a.updateKind n f).size = a.size := size_updateKind ..
  refine ext_node hsize fun m hm => ?_
  rw [node_updateKind]
  split
  · rename_i hmn
    rw [Node.mapKind_eq, hmn.1]
    unfold kind at h
    rw [h]
  · rfl

theorem AtRest.setStruct (h : a.AtRest vocabulary n site) :
    a.setStruct n (!(a.attrsOfType n vocabulary.structMarker).isEmpty) = a := by
  refine updateKind_eq_self ?_
  cases hk : a.kind n with
  | table decl => rw [← h.struct decl hk]
  | _ => rfl

theorem AtRest.setError (h : a.AtRest vocabulary n site) :
    a.setError n (!(a.attrsOfType n vocabulary.errorMarker).isEmpty) = a := by
  refine updateKind_eq_self ?_
  cases hk : a.kind n with
  | enum decl => rw [← h.error decl hk]
  | _ => rfl

theorem AtRest.tag (h : a.AtRest vocabulary n site) :
    Link.tag vocabulary n site a = .ok (a.countedSite vocabulary n site) a := by
  unfold Link.tag countedSite
  cases site with
  | table =>
    dsimp only
    rw [h.setStruct]
    cases a.attrsOfType n vocabulary.structMarker <;> rfl
  | enum =>
    dsimp only
    rw [h.setError]
    rfl
  | _ => rfl

/-- Checking attributes that may stay changes nothing. -/
theorem forM_placeAttr_of_stays : ∀ (attrs : List NodeId), (∀ attr ∈ attrs, ∃ mask,
      a.usageMask vocabulary attr = .ok mask ∧ vocabulary.permits mask site = true) →
    attrs.forM (Link.placeAttr vocabulary n site) a = .ok () a
  | [], _ => rfl
  | attr :: rest, h => by
    obtain ⟨mask, hmask, hp⟩ := h attr (List.mem_cons_self ..)
    have hstep : Link.placeAttr vocabulary n site attr a = .ok () a := by
      simp only [Link.placeAttr, hmask, hp, if_true]
    rw [forM_cons_ok rest hstep]
    exact forM_placeAttr_of_stays rest fun x hx => h x (List.mem_cons_of_mem _ hx)

theorem AtRest.placeSite (h : a.AtRest vocabulary n site) :
    Link.placeSite vocabulary (n, site) a = .ok () a :=
  (bind_ok h.tag).trans (forM_placeAttr_of_stays _ fun attr hattr =>
    h.stays attr (Array.mem_toList_iff.1 hattr))

/-- The pass changes nothing where all sites that it comes by are at rest. -/
theorem placeAttributes_of_resting (h : ∀ n ∈ a.walk p, a.Resting builtin n)
    (hv : a.scriptsOf p ≠ [] → ∃ vocabulary, Vocabulary.ofPackage a builtin = .ok vocabulary) :
    Link.placeAttributes p builtin a = .ok () a := by
  rcases Link.placeAttributes_cases p builtin a with
    ⟨hrun, -⟩ | ⟨failure, hscripts, herror, -⟩ | ⟨vocabulary, hvocabulary, hrun⟩
  · exact hrun
  · obtain ⟨vocabulary, hvocabulary⟩ := hv hscripts
    rw [herror] at hvocabulary
    cases hvocabulary
  · rw [hrun]
    have hsites : ∀ entry ∈ a.sites p, a.AtRest vocabulary entry.1 entry.2 := by
      intro entry he
      obtain ⟨n, hn, he⟩ := List.mem_flatMap.1 he
      obtain ⟨vocabulary', hv', hrest⟩ := h n hn entry he
      cases hvocabulary.symm.trans hv'
      exact hrest
    generalize a.sites p = entries at hsites
    induction entries with
    | nil => rfl
    | cons entry rest ih =>
      rw [forM_cons_ok rest (hsites entry (List.mem_cons_self ..)).placeSite]
      exact ih fun x hx => hsites x (List.mem_cons_of_mem _ hx)

/-! ## The vocabulary -/

end Arena

namespace Vocabulary

open Arena

variable {a : Arena} {builtin : NodeId} {vocabulary : Vocabulary}

theorem declared_eq_ok {types : Registry} {name : String} {node : NodeId} :
    declared types name = .ok node ↔ types.find? name = some node := by
  unfold declared
  cases types.find? name <;> simp

/-- The vocabulary, declaration by declaration. -/
theorem ofPackage_eq_ok : ofPackage a builtin = .ok vocabulary ↔ ∃ package sites,
    a.package? builtin = some package ∧ package.types.find? Prelude.attrTarget = some sites ∧
    siteBits (a.enumValues sites) Site.all = .ok vocabulary.bits ∧
    package.types.find? Prelude.attrUsage = some vocabulary.usage ∧
    a.findField? vocabulary.usage Prelude.targetField = some vocabulary.target ∧
    package.types.find? Prelude.structMarker = some vocabulary.structMarker ∧
    package.types.find? Prelude.errorMarker = some vocabulary.errorMarker := by
  unfold ofPackage
  cases hp : a.package? builtin with
  | none => exact ⟨nofun, fun ⟨_, _, h, _⟩ => nomatch h⟩
  | some package =>
    simp only [except_bind_eq_ok, declared_eq_ok]
    constructor
    · rintro ⟨sites, hsites, bits, hbits, usage, husage, h⟩
      cases htarget : a.findField? usage Prelude.targetField with
      | none =>
        rw [htarget] at h
        cases h
      | some target =>
        rw [htarget] at h
        simp only [except_bind_eq_ok, declared_eq_ok] at h
        obtain ⟨structMarker, hstruct, errorMarker, herror, h⟩ := h
        cases h
        exact ⟨package, sites, rfl, hsites, hbits, husage, htarget, hstruct, herror⟩
    · rintro ⟨_, sites, hp, hsites, hbits, husage, htarget, hstruct, herror⟩
      cases hp
      refine ⟨sites, hsites, vocabulary.bits, hbits, vocabulary.usage, husage, ?_⟩
      rw [htarget]
      simp only [except_bind_eq_ok, declared_eq_ok]
      exact ⟨_, hstruct, _, herror, rfl⟩

/-- Types are listed under their names, so the declarations of the vocabulary are different. -/
theorem distinct (h : ofPackage a builtin = .ok vocabulary)
    (hkeyed : ∀ entry ∈ a.typeEntries builtin, a.name entry.2 = entry.1) :
    vocabulary.usage ≠ vocabulary.structMarker ∧ vocabulary.usage ≠ vocabulary.errorMarker := by
  obtain ⟨package, _, hp, -, -, husage, -, hstruct, herror⟩ := ofPackage_eq_ok.1 h
  have hname : ∀ {name : String} {t : NodeId}, package.types.find? name = some t →
      a.name t = name := fun {name t} ht => by
    rw [Registry.find?_eq, Option.map_eq_some_iff] at ht
    obtain ⟨entry, he, rfl⟩ := ht
    rw [hkeyed entry (by
      rw [Arena.typeEntries_eq (package?_eq_some.1 hp)]
      exact Array.mem_toList_iff.2 (Array.mem_of_find?_eq_some he))]
    simpa using Array.find?_some he
  refine ⟨fun e => ?_, fun e => ?_⟩
  · have hsame := (hname husage).symm.trans ((congrArg a.name e).trans (hname hstruct))
    exact absurd hsame (by decide)
  · have hsame := (hname husage).symm.trans ((congrArg a.name e).trans (hname herror))
    exact absurd hsame (by decide)

end Vocabulary

namespace Arena

/-- The vocabulary of the built-in package is as it was, and so is the field that holds masks. -/
def KeepsVocabulary (builtin : NodeId) (a b : Arena) : Prop :=
  ∀ vocabulary, Vocabulary.ofPackage a builtin = .ok vocabulary →
    Vocabulary.ofPackage b builtin = .ok vocabulary ∧
      b.field? vocabulary.target = a.field? vocabulary.target ∧
      b.name vocabulary.target = a.name vocabulary.target

theorem KeepsVocabulary.trans {c : Arena} (h : KeepsVocabulary builtin a b)
    (h' : KeepsVocabulary builtin b c) : KeepsVocabulary builtin a c := by
  intro vocabulary hv
  obtain ⟨hv', hfield, hname⟩ := h vocabulary hv
  obtain ⟨hv'', hfield', hname'⟩ := h' vocabulary hv'
  exact ⟨hv'', hfield'.trans hfield, hname'.trans hname⟩

/-- The fields of the tables of a package are nodes. -/
def Fielded (a : Arena) (package : NodeId) : Prop :=
  ∀ t ∈ a.typesOf package, ∀ decl, a.table? t = some decl → ∀ f ∈ decl.fields.toList, f < a.size

/-- Packages, values and fields are as they were. -/
structure SameDeclarations (a b : Arena) : Prop where
  size_le : a.size ≤ b.size
  package : ∀ n, b.package? n = a.package? n
  values : ∀ n, (b.enum? n).map (·.values) = (a.enum? n).map (·.values)
  value : ∀ n, b.enumValue? n = a.enumValue? n
  fields : ∀ n, (b.table? n).map (·.fields) = (a.table? n).map (·.fields)
  field : ∀ n, b.field? n = a.field? n
  name_eq : ∀ n, n < a.size → b.name n = a.name n

theorem SameDeclarations.enumValues (h : SameDeclarations a b) (n : NodeId) :
    b.enumValues n = a.enumValues n := by
  have hvalues := h.values n
  unfold Arena.enumValues
  cases ha : a.enum? n with
  | none =>
    rw [ha] at hvalues
    rw [Option.map_eq_none_iff.1 hvalues]
  | some decl =>
    rw [ha] at hvalues
    obtain ⟨decl', hd', he⟩ := Option.map_eq_some_iff.1 hvalues
    rw [hd']
    simp only [h.value, he]

theorem SameDeclarations.findField? (h : SameDeclarations a b) (hf : a.Fielded p) {t : NodeId}
    (ht : t ∈ a.typesOf p) (name : String) : b.findField? t name = a.findField? t name := by
  have hfields := h.fields t
  unfold Arena.findField?
  cases ha : a.table? t with
  | none =>
    rw [ha] at hfields
    rw [Option.map_eq_none_iff.1 hfields]
    rfl
  | some decl =>
    rw [ha] at hfields
    obtain ⟨decl', hd', he⟩ := Option.map_eq_some_iff.1 hfields
    have hdecl : decl'.fields = decl.fields := he
    rw [hd', Option.bind_some, Option.bind_some, hdecl, ← Array.find?_toList, ← Array.find?_toList]
    refine List.find?_congr fun f hmem => ?_
    rw [h.name_eq f (hf t ht decl ha f hmem)]

theorem SameDeclarations.keepsVocabulary (h : SameDeclarations a b) (hf : a.Fielded builtin) :
    KeepsVocabulary builtin a b := by
  intro vocabulary hv
  obtain ⟨package, sites, hp, hsites, hbits, husage, htarget, hstruct, herror⟩ :=
    Vocabulary.ofPackage_eq_ok.1 hv
  have hmem : vocabulary.usage ∈ a.typesOf builtin := by
    unfold typesOf
    rw [hp]
    exact Registry.mem_nodes_of_find? husage
  refine ⟨Vocabulary.ofPackage_eq_ok.2 ⟨package, sites, (h.package builtin).trans hp, hsites, ?_,
    husage, ?_, hstruct, herror⟩, h.field _, h.name_eq _ ?_⟩
  · rw [h.enumValues, hbits]
  · rw [h.findField? hf hmem, htarget]
  · obtain ⟨decl, hd, hfind⟩ := Option.bind_eq_some_iff.1 htarget
    exact hf _ hmem decl hd _ (Array.mem_toList_iff.2 (Array.mem_of_find?_eq_some hfind))

/-! ## What keeps them at rest -/

/-- Of the nodes that `held` holds of, a set of their own, tags and attributes are as they were. -/
structure Upholds (held : NodeId → Prop) (a b : Arena) : Prop where
  closed : a.ClosedUnder held
  kinds : ∀ n : Nat, held n → (a.kind n).Kept (b.kind n)
  attrs_eq : ∀ n : Nat, held n → (b.node n).attrs = (a.node n).attrs
  table : ∀ (n : Nat) (decl : Table), held n → a.kind n = .table decl → b.kind n = .table decl
  enum : ∀ (n : Nat) (decl : Enumeration), held n → a.kind n = .enum decl → b.kind n = .enum decl

/-- Nodes that are as they were. -/
theorem Upholds.of_nodes (hc : a.ClosedUnder held)
    (hn : ∀ n : Nat, held n → b.node n = a.node n) : Upholds held a b := by
  have hkind : ∀ n : Nat, held n → b.kind n = a.kind n := fun n h => by
    unfold kind
    rw [hn n h]
  exact ⟨hc, fun n h => by rw [hkind n h]; exact .refl _, fun n h => by rw [hn n h],
    fun n _ h hk => (hkind n h).trans hk, fun n _ h hk => (hkind n h).trans hk⟩

section

variable (h : Upholds held a b)

include h

theorem Upholds.kind_iff {kind : NodeKind} (hn : held n) (hk : kind.isConstant = true) :
    b.kind n = kind ↔ a.kind n = kind := by
  have hkept := h.kinds n hn
  constructor
  · intro he
    rw [← hkept.constant (hkept.isConstant_eq ▸ he ▸ hk), he]
  · intro he
    rw [hkept.constant (he ▸ hk), he]

theorem Upholds.attr? (hn : held n) : b.attr? n = a.attr? n :=
  Option.ext fun decl => by
    rw [attr?_eq_some, attr?_eq_some]
    exact h.kind_iff hn rfl

theorem Upholds.reference? (hn : held n) : b.reference? n = a.reference? n :=
  Option.ext fun decl => by
    rw [reference?_eq_some, reference?_eq_some]
    exact h.kind_iff hn rfl

theorem Upholds.attrType (hn : held n) : b.attrType n = a.attrType n := by
  unfold Arena.attrType
  rw [h.attr? hn]
  cases hd : a.attr? n with
  | none => rfl
  | some decl =>
    have hpart : held decl.type := h.closed.part hn (by
      rw [attr?_eq_some.1 hd]
      exact List.mem_cons_self ..)
    show (b.reference? decl.type >>= _) = (a.reference? decl.type >>= _)
    rw [h.reference? hpart]

theorem Upholds.attrsOfType (hn : held n) (type : NodeId) :
    b.attrsOfType n type = a.attrsOfType n type := by
  unfold Arena.attrsOfType
  rw [h.attrs_eq n hn]
  refine List.filter_congr fun attr hattr => ?_
  rw [h.attrType (h.closed.child hn (List.mem_append_left _ hattr))]

/-- A constant expression has its value, with any fuel from there on. -/
theorem Upholds.evalWithin : ∀ (fuel : Nat) {expr : NodeId} {value : Int64}, held expr →
    a.evalWithin fuel expr = .ok value → ∀ fuel', fuel ≤ fuel' →
      b.evalWithin fuel' expr = .ok value
  | fuel + 1, expr, value, hn, he, fuel', hle => by
    obtain ⟨fuel', rfl⟩ := Nat.exists_eq_add_of_le' (Nat.le_trans (Nat.succ_pos fuel) hle)
    have hle' : fuel ≤ fuel' := Nat.le_of_succ_le_succ hle
    unfold Arena.evalWithin at he ⊢
    cases hk : a.kind expr with
    | int x =>
      rw [hk] at he
      rw [(h.kind_iff hn rfl).2 hk]
      exact he
    | enumValue x =>
      rw [hk] at he
      rw [(h.kind_iff hn rfl).2 hk]
      exact he
    | typeRef reference =>
      rw [hk] at he
      rw [(h.kind_iff hn rfl).2 hk]
      cases ht : reference.target with
      | none =>
        simp only [ht] at he
        cases he
      | some target =>
        have htarget : held target := h.closed.reference hn (by
          rw [hk]
          simp [NodeKind.references, ht])
        have hvalue : b.enumValue? target = a.enumValue? target := Option.ext fun x => by
          rw [enumValue?_eq_some, enumValue?_eq_some]
          exact h.kind_iff htarget rfl
        simp only [ht] at he ⊢
        rw [hvalue]
        cases hv : a.enumValue? target with
        | none =>
          rw [hv] at he
          cases he
        | some x =>
          rw [hv] at he
          exact he
    | union left right =>
      rw [hk] at he
      rw [(h.kind_iff hn rfl).2 hk]
      have hleft : held left := h.closed.part hn (by
        rw [hk]
        exact List.mem_cons_self ..)
      have hright : held right := h.closed.part hn (by
        rw [hk]
        exact List.mem_cons_of_mem _ (List.mem_singleton_self _))
      cases hl : a.evalWithin fuel left with
      | error failure =>
        simp only [hl] at he
        cases he
      | ok x =>
        cases hr : a.evalWithin fuel right with
        | error failure =>
          simp only [hl, hr] at he
          cases he
        | ok y =>
          simp only [hl, hr] at he
          simp only [Upholds.evalWithin fuel hleft hl fuel' hle',
            Upholds.evalWithin fuel hright hr fuel' hle']
          exact he
    | _ =>
      rw [hk] at he
      cases he

theorem Upholds.fieldArg? {field args target : NodeId} (hn : held args)
    (hfield : b.field? field = a.field? field) (hname : b.name field = a.name field)
    (ha : a.fieldArg? field args = some target) :
    b.fieldArg? field args = some target ∧ target ∈ (a.kind args).parts := by
  unfold Arena.fieldArg? at *
  cases hk : a.kind args with
  | args items =>
    rw [hk] at ha
    rw [(h.kind_iff hn rfl).2 hk, hfield]
    refine ⟨ha, ?_⟩
    obtain ⟨decl, -, hitem⟩ := Option.bind_eq_some_iff.1 ha
    exact Array.mem_toList_iff.2 (Array.mem_of_getElem? hitem)
  | namedArgs items =>
    rw [hk] at ha
    rw [(h.kind_iff hn rfl).2 hk, hname]
    exact ⟨ha, Registry.mem_nodes_of_find? ha⟩
  | _ =>
    rw [hk] at ha
    cases ha

/-- The masks of attributes are as they were. -/
theorem Upholds.usageMask (hsize : a.size ≤ b.size) (hn : held attr)
    (hfield : b.field? vocabulary.target = a.field? vocabulary.target)
    (hname : b.name vocabulary.target = a.name vocabulary.target)
    (hmask : a.usageMask vocabulary attr = .ok mask) : b.usageMask vocabulary attr = .ok mask := by
  obtain ⟨type, decl, usage, rest, given, args, target, htype, hd, husage, hattr, ha, hta, he⟩ :=
    usageMask_eq_ok.1 hmask
  -- all that is consulted can be reached from the attribute
  have hheld : held type := by
    unfold Arena.attrType at htype
    obtain ⟨x, hx, htype⟩ := Option.bind_eq_some_iff.1 htype
    obtain ⟨reference, hr, htarget⟩ := Option.bind_eq_some_iff.1 htype
    have hpart : held x.type := h.closed.part hn (by
      rw [attr?_eq_some.1 hx]
      exact List.mem_cons_self ..)
    refine h.closed.reference hpart ?_
    rw [reference?_eq_some.1 hr]
    simp [NodeKind.references, htarget]
  have husages : held usage := by
    have hmem : usage ∈ a.attrsOfType type vocabulary.usage := husage ▸ List.mem_cons_self ..
    exact h.closed.child hheld (List.mem_append_left _ (List.mem_of_mem_filter hmem))
  have hargs : held args := h.closed.part husages (by
    rw [attr?_eq_some.1 hattr]
    simp [NodeKind.parts, ha])
  obtain ⟨hta', hpart⟩ := h.fieldArg? hargs hfield hname hta
  refine usageMask_eq_ok.2 ⟨type, decl, usage, rest, given, args, target, ?_, ?_, ?_, ?_, ha, hta', ?_⟩
  · rw [h.attrType hn, htype]
  · exact table?_eq_some.2 (h.table type decl hheld (table?_eq_some.1 hd))
  · rw [h.attrsOfType hheld, husage]
  · rw [h.attr? husages, hattr]
  · exact h.evalWithin _ (h.closed.part hargs hpart) he _ (Nat.succ_le_succ hsize)

theorem Upholds.sitesAt (hn : held n) : b.sitesAt n = a.sitesAt n :=
  sitesAt_of_kept (h.kinds n hn)

theorem Upholds.atRest (hsize : a.size ≤ b.size) (hn : held n)
    (hfield : b.field? vocabulary.target = a.field? vocabulary.target)
    (hname : b.name vocabulary.target = a.name vocabulary.target)
    (hrest : a.AtRest vocabulary n site) : b.AtRest vocabulary n site := by
  refine ⟨fun attr hattr => ?_, fun decl hd => ?_, fun decl hd => ?_⟩
  · rw [h.attrs_eq n hn] at hattr
    obtain ⟨mask, hmask, hp⟩ := hrest.stays attr hattr
    have hattrs : held attr :=
      h.closed.child hn (List.mem_append_left _ (Array.mem_toList_iff.2 hattr))
    refine ⟨mask, h.usageMask hsize hattrs hfield hname hmask, ?_⟩
    unfold countedSite at *
    rwa [h.attrsOfType hn]
  · rw [h.attrsOfType hn]
    have hshape := (h.kinds n hn).shape
    rw [hd] at hshape
    obtain ⟨decl', hd'⟩ := NodeKind.table_of_ctorIdx hshape.symm
    rw [h.table n decl' hn hd'] at hd
    cases hd
    exact hrest.struct decl hd'
  · rw [h.attrsOfType hn]
    have hshape := (h.kinds n hn).shape
    rw [hd] at hshape
    obtain ⟨decl', hd'⟩ := NodeKind.enum_of_ctorIdx hshape.symm
    rw [h.enum n decl' hn hd'] at hd
    cases hd
    exact hrest.error decl hd'

/-- Sites at rest stay so. -/
theorem Upholds.resting (hsize : a.size ≤ b.size) (hv : KeepsVocabulary builtin a b) (hn : held n)
    (hrest : a.Resting builtin n) : b.Resting builtin n := by
  intro entry hentry
  rw [h.sitesAt hn] at hentry
  obtain ⟨vocabulary, hvocabulary, hat⟩ := hrest entry hentry
  obtain ⟨hb, hfield, hname⟩ := hv vocabulary hvocabulary
  have hheld : held entry.1 := by
    rcases eq_or_child_of_sitesAt hentry with he | hc
    · rw [he]
      exact hn
    · exact h.closed.child hn hc
  exact ⟨vocabulary, hb, h.atRest hsize hheld hfield hname hat⟩

end

end Arena

end SchemaLang
