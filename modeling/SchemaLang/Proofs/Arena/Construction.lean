import Mathlib.Data.List.Perm.Basic
import Mathlib.Logic.Relation
import SchemaLang.Proofs.Arena.Home
import SchemaLang.Proofs.Arena.Operation

/-!
# Arenas built in any order

A program may call the operations in any order and with any nodes that exist. Whatever it does, containers
and their members agree (`Arena.Consistent`).

* `Arena.Alters`: how an operation may change the kind of a node. An entry is made under the name of its
  node, and only where the name is free.
* `Arena.Advance`: what one node added or changed does to an arena.
* `advances_newScript` and so on: each operation is a few of these.
-/

namespace SchemaLang

namespace Arena

/-! ## Changes of a node -/

/-- The node exists and has the name. -/
def IsCalled (a : Arena) (n : NodeId) (name : String) : Prop :=
  n < a.size ∧ a.name n = name

/-- How an operation changes the kind of a node. -/
inductive Alters (a : Arena) : NodeKind → NodeKind → Prop
  | same (kind : NodeKind) : Alters a kind kind
  | script {n : NodeId} {name : String} {scripts : Std.TreeMap String NodeId} (types : Registry)
      (called : a.IsCalled n name) (free : scripts[name]? = none) :
    Alters a (.package ⟨scripts, types⟩) (.package ⟨scripts.insert name n, types⟩)
  | type {n : NodeId} {name : String} (scripts : Std.TreeMap String NodeId) {types : Registry}
      (called : a.IsCalled n name) (free : types.find? name = none) :
    Alters a (.package ⟨scripts, types⟩) (.package ⟨scripts, types.insert name n⟩)
  | declared (package : NodeId) (path : Option Path) (imports : Registry) (types types' : Array NodeId) :
    Alters a (.script ⟨package, path, imports, types⟩) (.script ⟨package, path, imports, types'⟩)
  | import {n : NodeId} {name : String} (package : NodeId) (path : Option Path) {imports : Registry}
      (types : Array NodeId) (called : a.IsCalled n name) (free : imports.find? name = none) :
    Alters a (.script ⟨package, path, imports, types⟩) (.script ⟨package, path, imports.insert name n, types⟩)
  | value {n : NodeId} {name : String} (base : EnumBase) {values : Registry} (default : Option NodeId)
      (isError : Bool) (called : a.IsCalled n name) (free : values.find? name = none) :
    Alters a (.enum ⟨base, values, default, isError⟩)
      (.enum ⟨base, values.insert name n, some (default.getD n), isError⟩)
  | field {n type : NodeId} {name : String} {fields : Array NodeId} (isStruct : Bool)
      (called : a.IsCalled n name) (hkind : a.kind n = .field ⟨UInt16.ofNat fields.size, type⟩)
      (free : ∀ field ∈ fields, a.name field ≠ name) :
    Alters a (.table ⟨fields, isStruct⟩) (.table ⟨fields.push n, isStruct⟩)
  | base {n : NodeId} {name : String} {bases : Array NodeId} (methods : Registry) (flattened : Bool)
      (called : a.IsCalled n name) (free : ∀ base ∈ bases, a.name base ≠ name) :
    Alters a (.contract ⟨bases, methods, flattened⟩) (.contract ⟨bases.push n, methods, flattened⟩)
  | method {n : NodeId} {name : String} (bases : Array NodeId) {methods : Registry} (flattened : Bool)
      {params results : Array NodeId} (called : a.IsCalled n name)
      (hkind : a.kind n = .method ⟨UInt16.ofNat methods.size, params, results⟩)
      (free : methods.find? name = none) :
    Alters a (.contract ⟨bases, methods, flattened⟩) (.contract ⟨bases, methods.insert name n, flattened⟩)
  | slots (id : UInt16) (params results params' results' : Array NodeId) :
    Alters a (.method ⟨id, params, results⟩) (.method ⟨id, params', results'⟩)
  | bind (path : List String) (target : NodeId) :
    Alters a (.typeRef ⟨path, none⟩) (.typeRef ⟨path, some target⟩)
  | attr (decl decl' : Attribute) : Alters a (.attr decl) (.attr decl')
  | args (items items' : Array NodeId) : Alters a (.args items) (.args items')
  | label {label : String} {items : Registry} (item : NodeId) (free : items.find? label = none) :
    Alters a (.namedArgs items) (.namedArgs (items.insert label item))

variable {a b c : Arena} {n m : NodeId} {name : String} {space : Space} {kind kind' : NodeKind}

/-- A new container has no members. -/
def IsNew : NodeKind → Prop
  | .package decl => decl.scripts = ∅ ∧ decl.types = .empty
  | .script decl => decl.imports = .empty
  | .enum decl => decl.values = .empty ∧ decl.default = none
  | .table decl => decl.fields = #[]
  | .contract decl => decl.bases = #[] ∧ decl.methods = .empty
  | .namedArgs items => items = .empty
  | _ => True

/-- What one node added or changed does to an arena. -/
structure Advance (a b : Arena) : Prop where
  size_le : a.size ≤ b.size
  name_eq : ∀ n, n < a.size → b.name n = a.name n
  alters : ∀ n, n < a.size → a.Alters (a.kind n) (b.kind n)
  isNew : ∀ n, a.size ≤ n → IsNew (b.kind n)

theorem Advance.alloc (name : String) (script : Option NodeId) (position : Position) {kind : NodeKind}
    (h : IsNew kind) : a.Advance (a.alloc name script position kind).2 where
  size_le := by simp
  name_eq n hn := by rw [Arena.name, node_alloc, if_neg (Nat.ne_of_lt hn), Arena.name]
  alters n hn := by
    rw [Arena.kind, Arena.kind, node_alloc, if_neg (Nat.ne_of_lt hn)]
    exact .same _
  isNew n hn := by
    rw [Arena.kind, node_alloc]
    split
    · exact h
    · rw [node_of_size_le hn]
      trivial

theorem Advance.update (n : NodeId) {f : Node → Node} (called : (f (a.node n)).name = a.name n)
    (h : a.Alters (a.kind n) (f (a.node n)).kind) : a.Advance (a.update n f) where
  size_le := by simp
  name_eq m hm := by
    rw [Arena.name, node_update]
    split
    · rename_i heq
      rw [heq.1, called]
    · rfl
  alters m hm := by
    rw [Arena.kind, Arena.kind, node_update]
    split
    · rename_i heq
      rw [heq.1]
      exact h
    · exact .same _
  isNew m hm := by
    rw [Arena.kind, node_update, if_neg fun h => absurd h.2 (Nat.not_lt.2 hm), node_of_size_le hm]
    trivial

/-- A few nodes added or changed. -/
def Advances : Arena → Arena → Prop :=
  Relation.ReflTransGen Advance

namespace Advances

theorem refl (a : Arena) : a.Advances a :=
  Relation.ReflTransGen.refl

theorem trans (h : a.Advances b) (h' : b.Advances c) : a.Advances c :=
  Relation.ReflTransGen.trans h h'

theorem alloc (name : String) (script : Option NodeId) (position : Position) (kind : NodeKind)
    (h : IsNew kind) : a.Advances (a.alloc name script position kind).2 :=
  .single (.alloc name script position h)

/-- Links, comments, attributes and extras do not matter. -/
theorem update (n : NodeId) {f : Node → Node} (hname : ∀ x, (f x).name = x.name)
    (hkind : ∀ x, (f x).kind = x.kind) : a.Advances (a.update n f) :=
  .single (.update n (hname _) (hkind (a.node n) ▸ .same _))

theorem adopt (a : Arena) (parent child : NodeId) : a.Advances (a.adopt parent child) :=
  update child (fun _ => rfl) fun _ => rfl

theorem updateKind {f : NodeKind → NodeKind} (h : ∀ kind, a.kind n = kind → a.Alters kind (f kind)) :
    a.Advances (a.updateKind n f) :=
  .single (.update n rfl (h _ rfl))

end Advances

/-! ## Entries that an operation makes -/

/-- The names of members are read from the arena or written down. -/
theorem members_congr {name name' : NodeId → String} (h : ∀ entry ∈ kind.members name space,
    space ≠ .labels → name' entry.2 = name entry.2) :
    kind.members name' space = kind.members name space := by
  unfold NodeKind.members at *
  split <;> try rfl
  · refine List.map_congr_left fun field hf => ?_
    rw [h (name field, field) (List.mem_map_of_mem hf) (by decide)]
  · refine List.map_congr_left fun base hb => ?_
    rw [h (name base, base) (List.mem_map_of_mem hb) (by decide)]

/-- The second collection is the first one, or has one entry more: under a free name, which is the name of
the node unless it is a label. -/
def Extended (a : Arena) (space : Space) (old new : List (String × NodeId)) : Prop :=
  new = old ∨ ∃ key n, new.Perm ((key, n) :: old) ∧ key ∉ old.map (·.1) ∧
    (space ≠ .labels → a.IsCalled n key)

theorem extended_scripts {scripts : Std.TreeMap String NodeId} (called : a.IsCalled n name)
    (free : scripts[name]? = none) :
    a.Extended .scripts scripts.toList (scripts.insert name n).toList := by
  refine .inr ⟨name, n, toList_insert_perm free, ?_, fun _ => called⟩
  rw [List.mem_map]
  rintro ⟨⟨key, m⟩, hm, rfl⟩
  rw [Std.TreeMap.mem_toList_iff_getElem?_eq_some, free] at hm
  cases hm

theorem extended_registry {items : Registry} (space : Space) (called : space ≠ .labels → a.IsCalled n name)
    (free : items.find? name = none) :
    a.Extended space items.entries.toList (items.insert name n).entries.toList := by
  refine .inr ⟨name, n, ?_, Registry.find?_eq_none_iff.1 free, called⟩
  rw [Registry.entries_insert_of_find?_eq_none n free, Array.toList_push]
  exact List.perm_append_singleton ..

theorem extended_named {nodes : Array NodeId} (space : Space) (called : a.IsCalled n name)
    (free : ∀ m ∈ nodes, a.name m ≠ name) :
    a.Extended space (nodes.toList.map fun m => (a.name m, m))
      ((nodes.push n).toList.map fun m => (a.name m, m)) := by
  refine .inr ⟨name, n, ?_, ?_, fun _ => called⟩
  · rw [Array.toList_push, List.map_append, ← called.2]
    exact List.perm_append_singleton ..
  · rw [List.map_map, List.mem_map]
    rintro ⟨m, hm, heq⟩
    exact free m (Array.mem_toList_iff.1 hm) heq

/-- A change of a kind makes one entry at most. -/
theorem Alters.members (h : a.Alters kind kind') (space : Space) :
    a.Extended space (kind.members a.name space) (kind'.members a.name space) := by
  cases h with
  | script types called free =>
    cases space <;> first | exact .inl rfl | exact extended_scripts called free
  | type scripts called free =>
    cases space <;> first | exact .inl rfl | exact extended_registry .types (fun _ => called) free
  | «import» package path types called free =>
    cases space <;> first | exact .inl rfl | exact extended_registry .imports (fun _ => called) free
  | value base default isError called free =>
    cases space <;> first | exact .inl rfl | exact extended_registry .values (fun _ => called) free
  | field isStruct called hkind free =>
    cases space <;> first | exact .inl rfl | exact extended_named .fields called free
  | base methods flattened called free =>
    cases space <;> first | exact .inl rfl | exact extended_named .bases called free
  | method bases flattened called hkind free =>
    cases space <;> first | exact .inl rfl | exact extended_registry .methods (fun _ => called) free
  | label item free =>
    cases space <;> first | exact .inl rfl | exact extended_registry .labels (absurd rfl) free
  | _ => cases space <;> exact .inl rfl

theorem IsNew.members (h : IsNew kind) (name : NodeId → String) (space : Space) :
    kind.members name space = [] := by
  cases kind with
  | package decl =>
    obtain ⟨scripts, types⟩ := decl
    obtain ⟨rfl, rfl⟩ := h
    cases space <;> rfl
  | script decl =>
    obtain ⟨package, path, imports, types⟩ := decl
    cases h
    cases space <;> rfl
  | enum decl =>
    obtain ⟨base, values, default, isError⟩ := decl
    obtain ⟨rfl, -⟩ := h
    cases space <;> rfl
  | table decl =>
    obtain ⟨fields, isStruct⟩ := decl
    cases h
    cases space <;> rfl
  | contract decl =>
    obtain ⟨bases, methods, flattened⟩ := decl
    obtain ⟨rfl, rfl⟩ := h
    cases space <;> rfl
  | namedArgs items =>
    cases h
    cases space <;> rfl
  | _ => cases space <;> rfl

/-! ## What holds of every arena -/

/-- Containers and their members agree. -/
structure Consistent (a : Arena) : Prop where
  /-- Members exist, and a name belongs to the node that it leads to; a label belongs to the list. -/
  keyed : ∀ container space key node, (key, node) ∈ a.members container space → space ≠ .labels →
    a.IsCalled node key
  /-- No name occurs twice. -/
  distinct : ∀ container space, ((a.members container space).map (·.1)).Nodup
  /-- The default of an enum is its first value. -/
  default : ∀ enum decl, a.kind enum = .enum decl → decl.default = decl.values.nodes.head?
  /-- The number of a field is its place, in 16 bits. -/
  fields : ∀ table decl, a.kind table = .table decl → ∀ i n, decl.fields[i]? = some n →
    ∃ type, a.kind n = .field ⟨UInt16.ofNat i, type⟩
  /-- The number of a method is its place, in 16 bits. -/
  methods : ∀ contract decl, a.kind contract = .contract decl → ∀ i n,
    decl.methods.nodes[i]? = some n → ∃ params results, a.kind n = .method ⟨UInt16.ofNat i, params, results⟩

theorem Consistent.lt_of_field (h : a.Consistent) {decl : Table} (hk : a.kind m = .table decl)
    (hn : n ∈ decl.fields) : n < a.size := by
  refine (h.keyed m .fields (a.name n) n ?_ (by decide)).1
  rw [members, hk]
  exact List.mem_map_of_mem (f := fun field => (a.name field, field)) (Array.mem_toList_iff.2 hn)

theorem consistent_empty : empty.Consistent := by
  have hkind : ∀ n, empty.kind n = .bool false := fun n => kind_of_size_le (Nat.zero_le n)
  refine ⟨?_, ?_, ?_, ?_, ?_⟩
  · intro container space key node h
    rw [members, hkind] at h
    cases space <;> cases h
  · intro container space
    rw [members, hkind]
    cases space <;> exact List.nodup_nil
  all_goals
    intro container decl h
    rw [hkind] at h
    cases h

section

variable (h : a.Advance b) (ha : a.Consistent)
include h

include ha in
/-- One change makes one entry in a collection at most. -/
theorem Advance.members (container : NodeId) (space : Space) :
    a.Extended space (a.members container space) (b.members container space) := by
  rcases Nat.lt_or_ge container a.size with hc | hc
  · have hext := (h.alters container hc).members space
    have hnames : b.members container space = (b.kind container).members a.name space := by
      refine members_congr fun entry he hs => h.name_eq entry.2 ?_
      rcases hext with heq | ⟨key, n, hperm, -, hn⟩
      · rw [heq] at he
        exact (ha.keyed container space entry.1 entry.2 he hs).1
      · rcases List.mem_cons.1 (hperm.mem_iff.1 he) with rfl | he
        · exact (hn hs).1
        · exact (ha.keyed container space entry.1 entry.2 he hs).1
    rw [hnames]
    exact hext
  · left
    have hold : a.members container space = [] := by
      rw [Arena.members, kind_of_size_le hc]
      cases space <;> rfl
    rw [hold]
    exact (h.isNew container hc).members b.name space

theorem Advance.of_kind (hn : a.kind n = kind) (hl : kind.level ≠ 1) : a.Alters kind (b.kind n) :=
  hn ▸ h.alters n (lt_size_of_kind (hn ▸ hl))

/-- Fields are complete once they are made. -/
theorem Advance.field {decl : Member} (hn : a.kind n = .field decl) : b.kind n = .field decl := by
  have halt := h.of_kind hn (by simp [NodeKind.level])
  generalize b.kind n = kind at halt ⊢
  cases halt
  rfl

/-- Methods keep their numbers. -/
theorem Advance.method {decl : Method} (hn : a.kind n = .method decl) :
    ∃ params results, b.kind n = .method ⟨decl.id, params, results⟩ := by
  have halt := h.of_kind hn (by simp [NodeKind.level])
  generalize b.kind n = kind at halt ⊢
  cases halt with
  | same => exact ⟨decl.params, decl.results, rfl⟩
  | slots id params results params' results' => exact ⟨params', results', rfl⟩

/-- A bound reference stays bound to what it is bound to. -/
theorem Advance.reference {path : List String} {target : NodeId}
    (hn : a.kind n = .typeRef ⟨path, some target⟩) : b.kind n = .typeRef ⟨path, some target⟩ := by
  have halt := h.of_kind hn (by simp [NodeKind.level])
  generalize b.kind n = kind at halt ⊢
  cases halt
  rfl

end

theorem Advance.consistent (h : a.Advance b) (ha : a.Consistent) : b.Consistent where
  keyed container space key node hmem hs := by
    have hold : ∀ {key node}, (key, node) ∈ a.members container space →
        node < b.size ∧ b.name node = key := fun hm => by
      obtain ⟨hlt, hname⟩ := ha.keyed container space _ _ hm hs
      exact ⟨Nat.lt_of_lt_of_le hlt h.size_le, (h.name_eq _ hlt).trans hname⟩
    rcases h.members ha container space with heq | ⟨key', n, hperm, -, hn⟩
    · exact hold (heq ▸ hmem)
    · rcases List.mem_cons.1 (hperm.mem_iff.1 hmem) with heq | hm
      · cases heq
        obtain ⟨hlt, hname⟩ := hn hs
        exact ⟨Nat.lt_of_lt_of_le hlt h.size_le, (h.name_eq _ hlt).trans hname⟩
      · exact hold hm
  distinct container space := by
    rcases h.members ha container space with heq | ⟨key, n, hperm, hfree, -⟩
    · rw [heq]
      exact ha.distinct container space
    · rw [(hperm.map _).nodup_iff, List.map_cons, List.nodup_cons]
      exact ⟨hfree, ha.distinct container space⟩
  default enum decl hk := by
    rcases Nat.lt_or_ge enum a.size with hlt | hge
    · have halt := h.alters enum hlt
      rw [hk] at halt
      generalize hkind : a.kind enum = kind at halt
      cases halt with
      | same => exact ha.default enum decl hkind
      | value base default isError called free =>
        have hold := ha.default enum _ hkind
        show some (default.getD _) = _
        rw [Registry.nodes_insert _ free, List.head?_append, ← hold]
        cases default <;> rfl
    · have hnew := h.isNew enum hge
      rw [hk] at hnew
      rw [hnew.1, hnew.2]
      rfl
  fields table decl hk i n hi := by
    rcases Nat.lt_or_ge table a.size with hlt | hge
    · have halt := h.alters table hlt
      rw [hk] at halt
      generalize hkind : a.kind table = kind at halt
      cases halt with
      | same =>
        obtain ⟨type, hn⟩ := ha.fields table decl hkind i n hi
        exact ⟨type, h.field hn⟩
      | field isStruct called hnew free =>
        rw [Array.getElem?_push] at hi
        split at hi
        · cases hi
          rename_i heq
          exact ⟨_, heq ▸ h.field hnew⟩
        · obtain ⟨type, hn⟩ := ha.fields table _ hkind i n hi
          exact ⟨type, h.field hn⟩
    · have hnew := h.isNew table hge
      rw [hk] at hnew
      have hnone : decl.fields[i]? = none := by rw [show decl.fields = #[] from hnew]; rfl
      rw [hnone] at hi
      cases hi
  methods contract decl hk i n hi := by
    have hkept : (∃ params results, a.kind n = .method ⟨UInt16.ofNat i, params, results⟩) →
        ∃ params results, b.kind n = .method ⟨UInt16.ofNat i, params, results⟩ := by
      rintro ⟨params, results, hn⟩
      exact h.method hn
    rcases Nat.lt_or_ge contract a.size with hlt | hge
    · have halt := h.alters contract hlt
      rw [hk] at halt
      generalize hkind : a.kind contract = kind at halt
      cases halt with
      | same => exact hkept (ha.methods contract decl hkind i n hi)
      | base methods flattened called free => exact hkept (ha.methods contract _ hkind i n hi)
      | @method m name bases methods flattened params results called hnew free =>
        rw [Registry.nodes_insert _ free, List.getElem?_append] at hi
        split at hi
        · exact hkept (ha.methods contract _ hkind i n hi)
        · rename_i hge
          rw [List.getElem?_singleton] at hi
          split at hi
          · rename_i hzero
            cases hi
            have hi : i = methods.size := by
              rw [← Registry.length_nodes]
              exact Nat.le_antisymm (Nat.le_of_sub_eq_zero hzero) (Nat.le_of_not_lt hge)
            exact hkept ⟨_, _, hi ▸ hnew⟩
          · cases hi
    · have hnew := h.isNew contract hge
      rw [hk] at hnew
      rw [hnew.2] at hi
      cases hi

/-! ## What operations do -/

section

variable (a)

theorem isCalled_alloc (name : String) (script : Option NodeId) (position : Position) (kind : NodeKind) :
    (a.alloc name script position kind).2.IsCalled a.size name :=
  ⟨by simp, name_alloc_self ..⟩

variable {a} in
theorem IsCalled.adopt (h : a.IsCalled n name) (parent child : NodeId) :
    (a.adopt parent child).IsCalled n name :=
  ⟨by rw [size_adopt]; exact h.1, (name_adopt ..).trans h.2⟩

/-- A node that is entered where it was just linked. -/
theorem isCalled_new (name : String) (script : Option NodeId) (position : Position) (kind : NodeKind)
    (parent child : NodeId) :
    ((a.alloc name script position kind).2.adopt parent child).IsCalled a.size name :=
  (isCalled_alloc ..).adopt ..

theorem advances_newScript {package : NodeId} (name : String) (path : Option Path)
    (hp : package < a.size) : a.Advances (a.newScript package name path).2 := by
  unfold newScript
  split
  · exact .refl a
  · rename_i hfree
    refine ((Advances.alloc name none _ (.script ⟨package, path, .empty, #[]⟩) rfl).trans
      (.adopt ..)).trans (.updateKind fun kind hkind => ?_)
    rw [kind_adopt, kind_alloc_of_lt hp] at hkind
    split
    · rw [package?_eq_some.2 hkind] at hfree
      exact .script _ (isCalled_new ..) hfree
    · exact .same _

theorem advances_declareType (script : NodeId) {type : NodeId} (ht : type < a.size) :
    a.Advances (a.declareType script type).2 := by
  unfold declareType
  split
  · exact .refl a
  dsimp only
  split
  · exact .refl a
  · rename_i hfree
    refine ((Advances.updateKind fun kind hkind => ?_).trans (.updateKind fun kind _ => ?_)).trans
      (.adopt ..)
    · split
      · rw [package?_eq_some.2 hkind] at hfree
        exact .type _ ⟨ht, rfl⟩ hfree
      · exact .same _
    · split
      · exact .declared ..
      · exact .same _

theorem advances_newPackageRef {script : NodeId} (name : String) (package : NodeId)
    (position : Position) (hs : script < a.size) :
    a.Advances (a.newPackageRef script name package position).2 := by
  unfold newPackageRef
  split
  · exact .refl a
  · rename_i hfree
    refine ((Advances.alloc name _ position (.packageRef package) trivial).trans
      (.adopt ..)).trans (.updateKind fun kind hkind => ?_)
    rw [kind_adopt, kind_alloc_of_lt hs] at hkind
    split
    · rw [script?_eq_some.2 hkind] at hfree
      exact .import _ _ _ (isCalled_new ..) hfree
    · exact .same _

theorem advances_resolve (reference target : NodeId) : a.Advances (a.resolve reference target).2 := by
  unfold resolve
  split
  · rename_i path hreference
    rw [reference?_eq_some] at hreference
    refine .updateKind fun kind hkind => ?_
    rw [hreference] at hkind
    subst hkind
    exact .bind ..
  · exact .refl a

theorem advances_newEnumValue {enum : NodeId} (name : String) (value : Int64) (position : Position)
    (he : enum < a.size) : a.Advances (a.newEnumValue enum name value position).2 := by
  unfold newEnumValue
  split
  · exact .refl a
  · rename_i hfree
    refine ((Advances.alloc name _ position (.enumValue value) trivial).trans
      (.adopt ..)).trans (.updateKind fun kind hkind => ?_)
    rw [kind_adopt, kind_alloc_of_lt he] at hkind
    split
    · rw [enum?_eq_some.2 hkind] at hfree
      exact .value _ _ _ (isCalled_new ..) hfree
    · exact .same _

theorem advances_newField {table type : NodeId} (name : String) (position : Position)
    (ha : a.Consistent) (ht : table < a.size) :
    a.Advances (a.newField table name type position).2 := by
  unfold newField
  split
  · exact .refl a
  · rename_i hfree
    rw [Array.find?_eq_none] at hfree
    refine (((Advances.alloc name _ position (.field _) trivial).trans
      (.adopt ..)).trans (.adopt ..)).trans (.updateKind fun kind hkind => ?_)
    rw [kind_adopt, kind_adopt, kind_alloc_of_lt ht] at hkind
    split
    · rename_i fields isStruct
      have hfields : a.fieldsOf table = fields := by rw [fieldsOf, table?_eq_some.2 hkind]
      rw [hfields] at hfree ⊢
      refine .field _ ((isCalled_new ..).adopt ..)
        ((kind_adopt ..).trans ((kind_adopt ..).trans (kind_alloc_self ..))) fun field hf => ?_
      · rw [name_adopt, name_adopt, name_alloc_of_lt (ha.lt_of_field hkind hf)]
        exact fun heq => hfree field hf (beq_iff_eq.2 heq)
    · exact .same _

theorem advances_addBase (contract : NodeId) {base : NodeId} (hb : base < a.size) :
    a.Advances (a.addBase contract base).2 := by
  unfold addBase
  split
  · exact .refl a
  · rename_i hfree
    rw [Array.find?_eq_none] at hfree
    refine (Advances.adopt ..).trans (.updateKind fun kind hkind => ?_)
    rw [kind_adopt] at hkind
    split
    · rename_i bases methods flattened
      have hbases : a.basesOf contract = bases := by rw [basesOf, contract?_eq_some.2 hkind]
      rw [hbases] at hfree
      refine .base _ _ (IsCalled.adopt ⟨hb, rfl⟩ ..) fun other ho => ?_
      rw [name_adopt]
      exact fun heq => hfree other ho (beq_iff_eq.2 heq)
    · exact .same _

theorem advances_newMethod {contract : NodeId} (name : String) (position : Position)
    (hc : contract < a.size) : a.Advances (a.newMethod contract name position).2 := by
  unfold newMethod
  split
  · exact .refl a
  split
  · exact .refl a
  · rename_i hfree
    refine ((Advances.alloc name _ position (.method _) trivial).trans
      (.adopt ..)).trans (.updateKind fun kind hkind => ?_)
    rw [kind_adopt, kind_alloc_of_lt hc] at hkind
    split
    · rename_i bases methods flattened
      have hcount : a.methodCount contract = methods.size := by
        rw [methodCount, contract?_eq_some.2 hkind]
      rw [findMethod?, contract?_eq_some.2 hkind] at hfree
      rw [hcount]
      exact .method _ _ (isCalled_new ..) ((kind_adopt ..).trans (kind_alloc_self ..)) hfree
    · exact .same _

theorem advances_newSlot (method : NodeId) (place : UInt16) (type : NodeId) (position : Position) :
    a.Advances (a.newSlot method place type position).2 :=
  ((Advances.alloc _ _ position (.param ⟨place, type⟩) trivial).trans (.adopt ..)).trans
    (.adopt ..)

theorem advances_newParam (method type : NodeId) (position : Position) :
    a.Advances (a.newParam method type position).2 := by
  unfold newParam
  refine (advances_newSlot ..).trans (.updateKind fun kind _ => ?_)
  cases kind with
  | method decl => exact .slots ..
  | _ => exact .same _

theorem advances_newResult (method type : NodeId) (position : Position) :
    a.Advances (a.newResult method type position).2 := by
  unfold newResult
  refine (advances_newSlot ..).trans (.updateKind fun kind _ => ?_)
  cases kind with
  | method decl => exact .slots ..
  | _ => exact .same _

theorem advances_setAttrArgs (attr args : NodeId) : a.Advances (a.setAttrArgs attr args) := by
  refine (Advances.adopt ..).trans (.updateKind fun kind _ => ?_)
  split
  · exact .attr ..
  · exact .same _

theorem advances_pushArg (args item : NodeId) : a.Advances (a.pushArg args item) := by
  refine (Advances.adopt ..).trans (.updateKind fun kind _ => ?_)
  split
  · exact .args ..
  · exact .same _

theorem advances_insertNamedArg (args : NodeId) (name : String) (item : NodeId) :
    a.Advances (a.insertNamedArg args name item).2 := by
  unfold insertNamedArg
  split
  · exact .refl a
  · rename_i hfree
    refine (Advances.adopt ..).trans (.updateKind fun kind hkind => ?_)
    rw [kind_adopt] at hkind
    split
    · rw [namedArgs?_eq_some.2 hkind] at hfree
      exact .label _ hfree
    · exact .same _

theorem advances_addAttr (node attr : NodeId) : a.Advances (a.addAttr node attr) :=
  (Advances.update (f := fun carrier => { carrier with
    attrs := if carrier.attrs.contains attr then carrier.attrs else carrier.attrs.push attr })
    node (fun _ => rfl) fun _ => rfl).trans (.adopt ..)

/-- An operation on nodes that exist is a few nodes added or changed. -/
theorem advances_run (ha : a.Consistent) {op : Operation} (h : op.Applies a) :
    a.Advances (op.run a).2 := by
  cases op with
  | newPackage name => exact .alloc name none .unknown _ ⟨rfl, rfl⟩
  | newScript package name path => exact advances_newScript a name path (h _ (by simp [Operation.nodes]))
  | declareType script type => exact advances_declareType a script (h _ (by simp [Operation.nodes]))
  | newPackageRef script name package position =>
    exact advances_newPackageRef a name package position (h _ (by simp [Operation.nodes]))
  | newTypeRef script path position => exact .alloc _ _ position _ trivial
  | resolve reference target => exact advances_resolve a reference target
  | newEnum script name base position => exact .alloc _ _ position _ ⟨rfl, rfl⟩
  | newEnumValue enum name value position =>
    exact advances_newEnumValue a name value position (h _ (by simp [Operation.nodes]))
  | newTable script name position => exact .alloc _ _ position _ rfl
  | newField table name type position =>
    exact advances_newField a name position ha (h _ (by simp [Operation.nodes]))
  | newContract script name position => exact .alloc _ _ position _ ⟨rfl, rfl⟩
  | addBase contract base => exact advances_addBase a contract (h _ (by simp [Operation.nodes]))
  | newMethod contract name position =>
    exact advances_newMethod a name position (h _ (by simp [Operation.nodes]))
  | newParam method type position => exact advances_newParam a method type position
  | newResult method type position => exact advances_newResult a method type position
  | newAttr script type position => exact (Advances.alloc _ _ position (.attr ⟨type, none⟩) trivial).trans (.adopt ..)
  | setAttrArgs attr args => exact advances_setAttrArgs a attr args
  | newArgs script position => exact .alloc _ _ position _ trivial
  | pushArg args item => exact advances_pushArg a args item
  | newNamedArgs script position => exact .alloc _ _ position _ rfl
  | insertNamedArg args name item => exact advances_insertNamedArg a args name item
  | addAttr node attr => exact advances_addAttr a node attr
  | removeAttr node attr => exact .update node (fun _ => rfl) fun _ => rfl
  | newString script value position | newInt script value position | newFloat script value position
  | newBool script value position => exact .alloc _ _ position _ trivial
  | newArray script length element position =>
    exact (Advances.alloc _ _ position (.array length element) trivial).trans (.adopt ..)
  | newList script element position =>
    exact (Advances.alloc _ _ position (.list element) trivial).trans (.adopt ..)
  | newMap script key value position =>
    exact ((Advances.alloc _ _ position (.map key value) trivial).trans (.adopt ..)).trans
      (.adopt ..)
  | newUnion script left right position =>
    exact ((Advances.alloc _ _ position (.union left right) trivial).trans (.adopt ..)).trans
      (.adopt ..)
  | bindComments node comments => exact .update node (fun _ => rfl) fun _ => rfl
  | setExtra node key value => exact .update node (fun _ => rfl) fun _ => rfl

end

end Arena

end SchemaLang
