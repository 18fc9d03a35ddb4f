import SchemaLang.Proofs.Link.Resting
import SchemaLang.Proofs.Session.Placement
import SchemaLang.Proofs.Session.WellFormed

/-!
# Arguments with and without labels

The arguments of an attribute are found by place in a positional list and by label in a labelled one. In a
table whose fields have different names and are numbered in order both come to the same: the first arguments
of a list may be labelled by the first fields (`Arena.Relabels`), and no question about arguments is answered
otherwise.

* `WellFormedTable.attrArg?_positional`, `WellFormedTable.attrArg?_labelled`: what an attribute gives to a
  field.
* `Relabels.attrArg?`, `Relabels.usageMask`: labels make no difference.
* `arguments_interchangeable`: the tables of parsed attributes are of this kind, so all this holds of them.
-/

namespace SchemaLang

open Arena Session

namespace Arena

variable {a b : Arena} {attr args table field n : NodeId} {decl : Table} {given : Attribute}
  {items : Array NodeId} {name : String}

/-! ## The arguments of one attribute -/

/-- The argument for a field is looked for in the list of the attribute. -/
theorem attrArg?_eq (hattr : a.kind attr = .attr given) (hargs : given.args = some args)
    (htype : a.attrType attr = some table) (name : String) :
    a.attrArg? attr name = (a.findField? table name).bind fun field => a.fieldArg? field args := by
  unfold attrArg?
  rw [attr?_eq_some.2 hattr, htype]
  show (given.args.bind fun args => (a.findField? table name).bind fun field => a.fieldArg? field args) = _
  rw [hargs]
  rfl

theorem findField?_eq (htable : a.kind table = .table decl) (name : String) :
    a.findField? table name = decl.fields.find? fun field => a.name field == name := by
  unfold findField?
  rw [table?_eq_some.2 htable]
  rfl

namespace WellFormedTable

variable (h : a.WellFormedTable decl)

include h

/-- A field is found by its name. -/
theorem find?_name {i : Nat} (hi : i < decl.fields.size) :
    (decl.fields.find? fun field => a.name field == a.name decl.fields[i]) = some decl.fields[i] := by
  have hmem : decl.fields[i] ∈ decl.fields.toList := Array.mem_toList_iff.2 (Array.getElem_mem hi)
  obtain ⟨found, hfound⟩ := Option.isSome_iff_exists.1
    (List.find?_isSome (p := fun field => a.name field == a.name decl.fields[i]).2
      ⟨decl.fields[i], hmem, beq_self_eq_true _⟩)
  have hname : a.name found = a.name decl.fields[i] := by simpa using List.find?_some hfound
  rw [← Array.find?_toList, hfound,
    List.inj_on_of_nodup_map h.distinct (List.mem_of_find?_eq_some hfound) hmem hname]

theorem fieldArg?_positional {i : Nat} (hi : i < decl.fields.size) (hk : a.kind args = .args items) :
    a.fieldArg? decl.fields[i] args = items[i]? := by
  obtain ⟨member, hmember, hid⟩ := h.fields i hi
  unfold fieldArg?
  rw [hk, field?_eq_some.2 hmember]
  show items[member.id.toNat]? = _
  rw [hid]

variable (hattr : a.kind attr = .attr given) (hargs : given.args = some args)
  (htype : a.attrType attr = some table) (htable : a.kind table = .table decl)

include hattr hargs htype htable

/-- The argument in a place is that of the field in the place. -/
theorem attrArg?_positional (hk : a.kind args = .args items) {i : Nat} (hi : i < decl.fields.size) :
    a.attrArg? attr (a.name decl.fields[i]) = items[i]? := by
  rw [attrArg?_eq hattr hargs htype, findField?_eq htable, h.find?_name hi]
  exact h.fieldArg?_positional hi hk

omit h in
/-- There are no arguments for names that are not those of fields. -/
theorem attrArg?_unknown (hname : name ∉ decl.fields.toList.map a.name) :
    a.attrArg? attr name = none := by
  rw [attrArg?_eq hattr hargs htype, findField?_eq htable, Option.bind_eq_none_iff]
  intro field hfield
  refine absurd (List.mem_map.2 ⟨field, Array.mem_toList_iff.2 (Array.mem_of_find?_eq_some hfield), ?_⟩)
    hname
  simpa using Array.find?_some hfield

/-- The argument with a label is that of the field with the name. -/
theorem attrArg?_labelled {items : Registry} (hk : a.kind args = .namedArgs items) (name : String) :
    a.attrArg? attr name =
      if name ∈ decl.fields.toList.map a.name then items.find? name else none := by
  split
  · rename_i hname
    obtain ⟨field, hfield, rfl⟩ := List.mem_map.1 hname
    obtain ⟨i, hi, rfl⟩ := Array.mem_iff_getElem.1 (Array.mem_toList_iff.1 hfield)
    rw [attrArg?_eq hattr hargs htype, findField?_eq htable, h.find?_name hi]
    show a.fieldArg? decl.fields[i] args = _
    unfold fieldArg?
    rw [hk]
  · rename_i hname
    exact attrArg?_unknown hattr hargs htype htable hname

end WellFormedTable

/-! ## Labels on positional arguments -/

/-- The first items of a list are labelled by the first fields, in order. -/
def Labels (a : Arena) (fields items : Array NodeId) (list : Registry) : Prop :=
  items.size ≤ fields.size ∧ list.entries.toList = (fields.toList.map a.name).zip items.toList

/-- The second arena is the first one with labels on positional arguments. They are the names of the first
fields in the tables of the attributes that have the arguments. -/
structure Relabels (a b : Arena) : Prop where
  size_eq : b.size = a.size
  name_eq : ∀ n, b.name n = a.name n
  position_eq : ∀ n, b.position n = a.position n
  attrs_eq : ∀ n, (b.node n).attrs = (a.node n).attrs
  kinds : ∀ n, b.kind n = a.kind n ∨ ∃ items list, a.kind n = .args items ∧ b.kind n = .namedArgs list ∧
    ∀ attr given, a.kind attr = .attr given → given.args = some n →
      ∃ table decl, a.attrType attr = some table ∧ a.kind table = .table decl ∧
        a.WellFormedTable decl ∧ a.Labels decl.fields items list

/-- A label leads to the argument in the place of its field. -/
theorem Labels.find? {fields : Array NodeId} {list : Registry} (h : a.Labels fields items list)
    (hdistinct : (fields.toList.map a.name).Nodup) {i : Nat} (hi : i < fields.size) :
    list.find? (a.name fields[i]) = items[i]? := by
  have hname : (fields.toList.map a.name)[i]? = some (a.name fields[i]) := by
    rw [List.getElem?_map, Array.getElem?_toList, Array.getElem?_eq_getElem hi]
    rfl
  refine Option.ext fun item => ?_
  rw [Registry.find?_eq_some, h.2, List.mem_iff_getElem?]
  constructor
  · rintro ⟨j, hj⟩
    obtain ⟨hj, hitem⟩ := List.getElem?_zip_eq_some.1 hj
    have hlt : j < (fields.toList.map a.name).length := (List.getElem?_eq_some_iff.1 hj).1
    have heq : j = i := (List.getElem?_inj hlt hdistinct).1 (hj.trans hname.symm)
    rw [heq] at hitem
    rwa [Array.getElem?_toList] at hitem
  · intro hitem
    exact ⟨i, List.getElem?_zip_eq_some.2 ⟨hname, by rwa [Array.getElem?_toList]⟩⟩

namespace Relabels

variable (h : Relabels a b)

include h

theorem kind_iff {kind : NodeKind} (hk : kind.level ≠ 2) : b.kind n = kind ↔ a.kind n = kind := by
  rcases h.kinds n with heq | ⟨items, list, ha, hb, -⟩
  · rw [heq]
  · rw [ha, hb]
    constructor
    · rintro rfl
      exact absurd rfl hk
    · rintro rfl
      exact absurd rfl hk

theorem attr? : b.attr? n = a.attr? n :=
  Option.ext fun decl => by
    rw [attr?_eq_some, attr?_eq_some]
    exact h.kind_iff (by exact (by decide : 3 ≠ 2))

theorem reference? : b.reference? n = a.reference? n :=
  Option.ext fun reference => by
    rw [reference?_eq_some, reference?_eq_some]
    exact h.kind_iff (by exact (by decide : 0 ≠ 2))

theorem table? : b.table? n = a.table? n :=
  Option.ext fun decl => by
    rw [table?_eq_some, table?_eq_some]
    exact h.kind_iff (by exact (by decide : 6 ≠ 2))

theorem field? : b.field? n = a.field? n :=
  Option.ext fun decl => by
    rw [field?_eq_some, field?_eq_some]
    exact h.kind_iff (by exact (by decide : 5 ≠ 2))

theorem enumValue? : b.enumValue? n = a.enumValue? n :=
  Option.ext fun value => by
    rw [enumValue?_eq_some, enumValue?_eq_some]
    exact h.kind_iff (by exact (by decide : 5 ≠ 2))

theorem attrType : b.attrType n = a.attrType n := by
  unfold Arena.attrType
  simp only [h.attr?, h.reference?]

theorem attrsOfType (type : NodeId) : b.attrsOfType n type = a.attrsOfType n type := by
  unfold Arena.attrsOfType
  simp only [h.attrs_eq, h.attrType]

theorem findField? : b.findField? table name = a.findField? table name := by
  unfold Arena.findField?
  simp only [h.table?, h.name_eq]

/-- An argument of an attribute is found as it was before. -/
theorem fieldArg? (hattr : a.kind attr = .attr given) (hargs : given.args = some args)
    (htype : a.attrType attr = some table) (hfield : a.findField? table name = some field) :
    b.fieldArg? field args = a.fieldArg? field args := by
  rcases h.kinds args with heq | ⟨items, list, ha, hb, howner⟩
  · unfold Arena.fieldArg?
    rw [heq, h.field?, h.name_eq]
  · obtain ⟨table', decl, htype', htable, hformed, hlabels⟩ := howner attr given hattr hargs
    cases htype.symm.trans htype'
    rw [findField?_eq htable] at hfield
    obtain ⟨i, hi, rfl⟩ := Array.mem_iff_getElem.1 (Array.mem_of_find?_eq_some hfield)
    rw [hformed.fieldArg?_positional hi ha, ← hlabels.find? hformed.distinct hi]
    unfold Arena.fieldArg?
    rw [hb, h.name_eq]

/-- No argument is found otherwise than before. -/
theorem attrArg? (attr : NodeId) (name : String) : b.attrArg? attr name = a.attrArg? attr name := by
  unfold Arena.attrArg?
  rw [h.attr?, h.attrType]
  cases hattr : a.attr? attr with
  | none => rfl
  | some given =>
    cases htype : a.attrType attr with
    | none => rfl
    | some table =>
      cases hargs : given.args with
      | none => simp only [Option.bind_eq_bind, Option.bind_some, hargs, Option.bind_none]
      | some args =>
        simp only [Option.bind_eq_bind, Option.bind_some, hargs, h.findField?]
        cases hfield : a.findField? table name with
        | none => rfl
        | some field => exact h.fieldArg? (attr?_eq_some.1 hattr) hargs htype hfield

/-- A constant expression has the value that it had. Lists of arguments have none. -/
theorem evalWithin_iff (fuel : Nat) (expr : NodeId) (value : Int64) :
    b.evalWithin fuel expr = .ok value ↔ a.evalWithin fuel expr = .ok value := by
  have hfails : ∀ (e e' : Diagnostic) (value : Int64),
      (Except.error e : Except Diagnostic Int64) = .ok value ↔ Except.error e' = .ok value :=
    fun _ _ _ => by simp only [reduceCtorEq]
  induction fuel generalizing expr value with
  | zero => exact hfails _ _ _
  | succ fuel ih =>
    unfold evalWithin
    rcases h.kinds expr with heq | ⟨items, list, ha, hb, -⟩
    · rw [heq]
      cases a.kind expr with
      | typeRef reference =>
        obtain ⟨path, target⟩ := reference
        cases target with
        | none => exact hfails _ _ _
        | some target =>
          simp only [h.enumValue?]
          cases a.enumValue? target with
          | none => exact hfails _ _ _
          | some found => rfl
      | union left right => simp only [except_bind_eq_ok, ih]
      | int found | enumValue found => rfl
      | _ => exact hfails _ _ _
    · rw [ha, hb]
      exact hfails _ _ _

/-- No mask is another than before. -/
theorem usageMask_iff {vocabulary : Vocabulary} {builtin : NodeId}
    (hv : Vocabulary.ofPackage a builtin = .ok vocabulary) (attr : NodeId) (mask : Int64) :
    b.usageMask vocabulary attr = .ok mask ↔ a.usageMask vocabulary attr = .ok mask := by
  obtain ⟨-, -, -, -, -, -, htarget, -⟩ := Vocabulary.ofPackage_eq_ok.1 hv
  rw [usageMask_eq_ok, usageMask_eq_ok]
  unfold evalConst
  simp only [h.attrType, h.table?, h.attrsOfType, h.attr?, h.size_eq, h.evalWithin_iff]
  have hfield : ∀ {type usage : NodeId} {rest : List NodeId} {given : Attribute} {args : NodeId},
      a.attrsOfType type vocabulary.usage = usage :: rest → a.attr? usage = some given →
      given.args = some args → b.fieldArg? vocabulary.target args = a.fieldArg? vocabulary.target args := by
    intro type usage rest given args husage hattr hargs
    have hmem : usage ∈ a.attrsOfType type vocabulary.usage := husage ▸ List.mem_cons_self ..
    exact h.fieldArg? (attr?_eq_some.1 hattr) hargs (by simpa using (List.mem_filter.1 hmem).2) htarget
  constructor
  · rintro ⟨type, decl, usage, rest, given, args, target, htype, hd, husage, hattr, hargs, hf, he⟩
    exact ⟨type, decl, usage, rest, given, args, target, htype, hd, husage, hattr, hargs,
      hfield husage hattr hargs ▸ hf, he⟩
  · rintro ⟨type, decl, usage, rest, given, args, target, htype, hd, husage, hattr, hargs, hf, he⟩
    exact ⟨type, decl, usage, rest, given, args, target, htype, hd, husage, hattr, hargs,
      (hfield husage hattr hargs).trans hf, he⟩

end Relabels

/-- Labels on the arguments that attributes of one table have. -/
theorem relabels_updateKind (list : Registry) (hk : a.kind args = .args items)
    (hlabels : a.Labels decl.fields items list) (hformed : a.WellFormedTable decl)
    (howner : ∀ attr given, a.kind attr = .attr given → given.args = some args →
      ∃ table, a.attrType attr = some table ∧ a.kind table = .table decl) :
    a.Relabels (a.updateKind args fun _ => .namedArgs list) where
  size_eq := size_updateKind ..
  name_eq n := name_updateKind ..
  position_eq n := by
    unfold position
    rw [node_updateKind]
    split <;> rfl
  attrs_eq n := by
    rw [node_updateKind]
    split <;> rfl
  kinds n := by
    rw [kind_updateKind]
    split
    · rename_i heq
      rw [heq.1]
      refine .inr ⟨items, list, hk, rfl, fun attr given hattr hargs => ?_⟩
      obtain ⟨table, htype, htable⟩ := howner attr given hattr hargs
      exact ⟨table, decl, htype, htable, hformed, hlabels⟩
    · exact .inl rfl

/-! ## Tables of attributes that were read -/

/-- Where no link leads out of a set of formed nodes, the tables of its attributes are formed. -/
theorem ClosedUnder.wellFormedTable {covered : NodeId → Prop} (h : a.ClosedUnder covered)
    (hformed : ∀ n, covered n → a.Formed (a.kind n)) (hattr : covered attr)
    (htype : a.attrType attr = some table) (htable : a.kind table = .table decl) :
    a.WellFormedTable decl := by
  obtain ⟨given, hgiven, hbound⟩ := Option.bind_eq_some_iff.1 htype
  obtain ⟨reference, href, htarget⟩ := Option.bind_eq_some_iff.1 hbound
  have hcovered : covered given.type := h.part hattr (by
    rw [attr?_eq_some.1 hgiven]
    exact List.mem_cons_self ..)
  have htarget : covered table := h.reference hcovered (by
    rw [reference?_eq_some.1 href]
    exact Option.mem_toList.2 htarget)
  have hf := hformed table htarget
  rw [htable] at hf
  exact TableFit.wellFormed hf

end Arena

namespace Session

variable {s t : Session} {name : String} {p attr table : NodeId} {decl : Table}

/-- The tables of attributes in linked packages are formed. -/
theorem Reachable.wellFormedTable (hs : s.Reachable) (hp : s.package? name = some p)
    (hattr : s.arena.Visible p attr) (htype : s.arena.attrType attr = some table)
    (htable : s.arena.kind table = .table decl) : s.arena.WellFormedTable decl := by
  obtain ⟨settled, hsettled⟩ := hs.sound.settled
  have hcovered : settled attr := by
    refine (settled_or_method hsettled (Catalogue.caches_iff.2 ⟨name, hp⟩) hattr).resolve_right ?_
    intro hmethod
    obtain ⟨given, hgiven, -⟩ := Option.bind_eq_some_iff.1 htype
    obtain ⟨method, hm⟩ := Option.isSome_iff_exists.1 hmethod
    cases (attr?_eq_some.1 hgiven).symm.trans (method?_eq_some.1 hm)
  exact hsettled.closed.wellFormedTable hsettled.formed hcovered htype htable

/-- So are those of attributes in a package whose scripts are read and whose references are bound. -/
theorem Reachable.wellFormedTable_of_bound {provider : Provider} {depth : Nat} {sources : Sources}
    {c : Arena} (hs : s.Reachable) (hname : s.package? name = none)
    (hread : Compile.readSources provider (Compile.package provider depth) s.arena.size sources
      (s.opened name) = .ok () t)
    (hbind : Link.bindReferences s.arena.size t.arena = .ok () c)
    (hattr : c.home attr = some s.arena.size) (htype : c.attrType attr = some table)
    (htable : c.kind table = .table decl) : c.WellFormedTable decl := by
  have hhonest := honest_package provider depth
  have hrests := hhonest.rests_opened hs.sound hname
  obtain ⟨hcompiles, hgathered⟩ := ((leads_readSources _ provider hrests sources).ok hread).2
  have hcompiles : s.Compiles name t := hcompiles
  obtain ⟨settled, hsettled⟩ := hcompiles.sound.settled
  obtain ⟨hbinds, hframe, hbound⟩ := hgathered.binds_of_ok hbind
  have hholds := (hgathered.placing hcompiles.sound.anchored hsettled hcompiles.entry.2 hbinds hframe
    hbound).toHolds
  exact hholds.closed.wellFormedTable hholds.formed (.inr (.inl hattr)) htype htable

end Session

/-- The table of every attribute that was read has fields with different names, numbered in order: in linked
packages, and in a package whose attributes are about to be placed. With such a table the arguments of an
attribute are found by place as they are by label, and labels on the first arguments change neither the
argument for any name nor any mask. -/
theorem arguments_interchangeable :
    (∀ (s : Session) (name : String) (p attr table : NodeId) (decl : Table), s.Reachable →
      s.package? name = some p → s.arena.Visible p attr → s.arena.attrType attr = some table →
      s.arena.kind table = .table decl → s.arena.WellFormedTable decl) ∧
    (∀ (s t : Session) (provider : Provider) (depth : Nat) (name : String) (sources : Sources)
      (c : Arena) (attr table : NodeId) (decl : Table), s.Reachable → s.package? name = none →
      Compile.readSources provider (Compile.package provider depth) s.arena.size sources
        (s.opened name) = .ok () t →
      Link.bindReferences s.arena.size t.arena = .ok () c → c.home attr = some s.arena.size →
      c.attrType attr = some table → c.kind table = .table decl → c.WellFormedTable decl) ∧
    (∀ (a : Arena) (attr args table : NodeId) (given : Attribute) (decl : Table),
      a.kind attr = .attr given → given.args = some args → a.attrType attr = some table →
      a.kind table = .table decl → a.WellFormedTable decl →
      (∀ items, a.kind args = .args items →
        (∀ (i : Nat) (h : i < decl.fields.size),
          a.attrArg? attr (a.name decl.fields[i]) = items[i]?) ∧
        ∀ name, name ∉ decl.fields.toList.map a.name → a.attrArg? attr name = none) ∧
      ∀ items, a.kind args = .namedArgs items → ∀ name,
        a.attrArg? attr name =
          if name ∈ decl.fields.toList.map a.name then items.find? name else none) ∧
    ∀ a b : Arena, a.Relabels b →
      (∀ attr name, b.attrArg? attr name = a.attrArg? attr name) ∧
      ∀ vocabulary builtin, Vocabulary.ofPackage a builtin = .ok vocabulary → ∀ attr mask,
        b.usageMask vocabulary attr = .ok mask ↔ a.usageMask vocabulary attr = .ok mask := by
  refine ⟨?_, ?_, ?_, ?_⟩
  · intro s name p attr table decl hs hp hattr htype htable
    exact hs.wellFormedTable hp hattr htype htable
  · intro s t provider depth name sources c attr table decl hs hname hread hbind hattr htype htable
    exact hs.wellFormedTable_of_bound hname hread hbind hattr htype htable
  · intro a attr args table given decl hattr hargs htype htable hformed
    exact ⟨fun items hk => ⟨fun i hi => hformed.attrArg?_positional hattr hargs htype htable hk hi,
      fun name hname => WellFormedTable.attrArg?_unknown hattr hargs htype htable hname⟩,
      fun items hk name => hformed.attrArg?_labelled hattr hargs htype htable hk name⟩
  · intro a b h
    exact ⟨h.attrArg?, fun vocabulary builtin hv attr mask => h.usageMask_iff hv attr mask⟩

/-! ## A usage declaration with a label -/

namespace Session.Marked

/-- Whether the usage declaration on the first table is as it was written: with one argument, and alone with
it. -/
def declaresUsage (c : Arena) : Bool :=
  decide (c.attr? 15 = some ⟨14, some 16⟩ ∧ c.table? 18 = some ⟨#[20], false⟩ ∧
    c.attrType 15 = some 18 ∧ c.home 15 = some 0 ∧ c.name 20 = Prelude.targetField) &&
  (match c.kind 16 with
    | .args items => decide (items = #[17])
    | _ => false) &&
  (List.range c.size).all fun n =>
    match c.attr? n with
    | some given => decide (given.args = some 16 → n = 15)
    | none => true

theorem args_of_declaresUsage {c : Arena} (h : declaresUsage c = true) :
    c.kind 15 = .attr ⟨14, some 16⟩ ∧ c.kind 18 = .table ⟨#[20], false⟩ ∧ c.attrType 15 = some 18 ∧
      c.home 15 = some 0 ∧ c.name 20 = Prelude.targetField ∧ c.kind 16 = .args #[17] ∧
      ∀ attr given, c.kind attr = .attr given → given.args = some 16 → attr = 15 := by
  unfold declaresUsage at h
  rw [Bool.and_eq_true, Bool.and_eq_true, decide_eq_true_iff, List.all_eq_true] at h
  obtain ⟨⟨⟨hattr, htable, htype, hhome, hname⟩, hargs⟩, hall⟩ := h
  refine ⟨attr?_eq_some.1 hattr, table?_eq_some.1 htable, htype, hhome, hname, ?_, ?_⟩
  · split at hargs
    · rename_i items hk
      rw [hk, of_decide_eq_true hargs]
    · cases hargs
  · intro attr given hk hgiven
    have hlt : attr < c.size := lt_size_of_kind (by rw [hk]; simp [NodeKind.level])
    have hsame := hall attr (List.mem_range.2 hlt)
    rw [attr?_eq_some.2 hk] at hsame
    exact of_decide_eq_true hsame hgiven

/-- The usage declaration is there when the references of the package are bound, with its mask, and when
the package is linked. -/
theorem declares_ok : ∃ x c a vocabulary, sample.read = .ok () x ∧
    Link.bindReferences 0 x.1 = .ok () c ∧ Vocabulary.ofPackage c 0 = .ok vocabulary ∧
      declaresUsage c = true ∧ (c.usageMask vocabulary 15).toOption = some 1 ∧
      Link.package 0 (some 0) x.1 = .ok () a ∧ declaresUsage a = true := by
  have h : succeedsWith (fun x => binds (fun c vocabulary => declaresUsage c &&
      decide ((c.usageMask vocabulary 15).toOption = some 1)) x &&
        succeedsWith declaresUsage (Link.package 0 (some 0) x.1)) sample.read = true := by
    decide +kernel
  obtain ⟨x, hx, hcheck⟩ := succeedsWith_eq_true h
  rw [Bool.and_eq_true] at hcheck
  obtain ⟨c, vocabulary, hc, hv, hdeclares⟩ := binds_eq_true hcheck.1
  rw [Bool.and_eq_true, decide_eq_true_iff] at hdeclares
  obtain ⟨a, ha, hlinked⟩ := succeedsWith_eq_true hcheck.2
  exact ⟨x, c, a, vocabulary, hx, hc, hv, hdeclares.1, hdeclares.2, ha, hlinked⟩

end Session.Marked

theorem arguments_interchangeable_marked :
    (∃ (s : Session), s.Reachable ∧ ∃ decl, s.arena.kind 18 = .table decl ∧
      s.arena.WellFormedTable decl) ∧
    ∃ (c b : Arena) (decl : Table), c.kind 18 = .table decl ∧ c.WellFormedTable decl ∧
      c.attrArg? 15 Prelude.targetField = some 17 ∧ c.Relabels b ∧
      b.kind 16 = .namedArgs (Registry.empty.insert Prelude.targetField 17) ∧
      b.attrArg? 15 Prelude.targetField = some 17 ∧
      ∃ vocabulary, Vocabulary.ofPackage c 0 = .ok vocabulary ∧ b.usageMask vocabulary 15 = .ok 1 := by
  obtain ⟨hlinked, hbound, hfound, hlabels⟩ := arguments_interchangeable
  obtain ⟨x, c, a, vocabulary, hx, hc, hv, hcheck, hmask, ha, hafter⟩ := Marked.declares_ok
  refine ⟨?_, ?_⟩
  · obtain ⟨hreachable, hpackage⟩ :=
      reachable_of_ok (Marked.sample.compile_eq (Marked.sample.linked_eq hx ha))
    obtain ⟨hattr, htable, htype, hhome, -⟩ := Marked.args_of_declaresUsage hafter
    exact ⟨_, hreachable, _, htable, hlinked _ _ 0 15 18 _ hreachable hpackage (.inr hhome) htype htable⟩
  · have hmask : c.usageMask vocabulary 15 = .ok 1 := by
      cases hrun : c.usageMask vocabulary 15 with
      | ok mask =>
        rw [hrun] at hmask
        cases hmask
        rfl
      | error failure =>
        rw [hrun] at hmask
        cases hmask
    obtain ⟨hattr, htable, htype, hhome, hname, hargs, hsole⟩ := Marked.args_of_declaresUsage hcheck
    have hformed := hbound empty x Marked.sample.sources 0 Prelude.packageName (.files [⟨"a"⟩]) c 15 18 _
      .refl rfl (forM_cons_ok [] (Marked.sample.readPath_eq.trans hx)) hc hhome htype htable
    have hitem := ((hfound c 15 16 18 _ _ hattr rfl htype htable hformed).1 _ hargs).1 0 (by decide)
    have htarget : c.attrArg? 15 Prelude.targetField = some 17 := hname ▸ hitem
    have hrelabels := relabels_updateKind (Registry.empty.insert Prelude.targetField 17) hargs
      ⟨by decide, by show _ = [(c.name 20, 17)]; rw [hname]; rfl⟩ hformed
      fun attr given hk hgiven => ⟨18, by rw [hsole attr given hk hgiven, htype], htable⟩
    obtain ⟨hsame, hmasks⟩ := hlabels c _ hrelabels
    refine ⟨c, _, _, htable, hformed, htarget, hrelabels, ?_, by rw [hsame, htarget], vocabulary, hv,
      (hmasks vocabulary 0 hv 15 1).2 hmask⟩
    rw [kind_updateKind, if_pos ⟨rfl, lt_size_of_kind (by rw [hargs]; simp [NodeKind.level])⟩]

end SchemaLang
