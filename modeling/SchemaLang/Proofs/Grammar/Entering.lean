import SchemaLang.Proofs.Grammar.Exactness
import SchemaLang.Proofs.Grammar.Reading

/-!
# Entering names

Whether a reading goes on depends on the arena in two ways only: a name may be taken, and a table or
contract may be full. What decides both are the names that a node lists. An operation that enters a
name succeeds exactly if the name is new, and lists it after the others (`Enters`); everything else
keeps what older nodes are and what they are called (`Arena.Keeps`).
-/

namespace SchemaLang

variable {a b c : Arena} {m n : Nat}

namespace Arena

/-! ## What stays as it is -/

/-- Older nodes keep their names and their attributes, and their kinds where they are not `touched`. -/
structure Keeps (touched : List NodeId) (a b : Arena) : Prop where
  size_le : a.size ≤ b.size
  kind_eq : ∀ n : Nat, n < a.size → n ∉ touched → b.kind n = a.kind n
  name_eq : ∀ n : Nat, n < a.size → b.name n = a.name n
  attrs_mem : ∀ n : Nat, n < a.size → ∀ x ∈ (a.node n).attrs, x ∈ (b.node n).attrs

namespace Keeps

variable {s t : List NodeId}

theorem refl (s : List NodeId) (a : Arena) : a.Keeps s a :=
  ⟨Nat.le_refl _, fun _ _ _ => rfl, fun _ _ => rfl, fun _ _ _ h => h⟩

theorem trans (h : a.Keeps s b) (h' : b.Keeps t c) (ht : ∀ n : Nat, n ∈ t → n < a.size → n ∈ s) :
    a.Keeps s c where
  size_le := Nat.le_trans h.size_le h'.size_le
  kind_eq n hn hs := by
    rw [h'.kind_eq n (Nat.lt_of_lt_of_le hn h.size_le) fun hnt => hs (ht n hnt hn),
      h.kind_eq n hn hs]
  name_eq n hn := by
    rw [h'.name_eq n (Nat.lt_of_lt_of_le hn h.size_le), h.name_eq n hn]
  attrs_mem n hn x hx := h'.attrs_mem n (Nat.lt_of_lt_of_le hn h.size_le) x (h.attrs_mem n hn x hx)

/-- A part that touches nothing goes with any other. -/
theorem quiet (h : a.Keeps s b) (h' : b.Keeps [] c) : a.Keeps s c :=
  h.trans h' fun _ hn => by cases hn

/-- Touching a node that was not there touches nothing. -/
theorem above (h : a.Keeps s b) (h' : b.Keeps [m] c) (hm : a.size ≤ m) : a.Keeps s c :=
  h.trans h' fun n hn hlt => by
    rw [List.mem_singleton] at hn
    omega

theorem push (a : Arena) (x : Node) : a.Keeps [] (a.push x).2 where
  size_le := by simp
  kind_eq n hn _ := by simp only [kind, node_push, if_neg (Nat.ne_of_lt hn)]
  name_eq n hn := by simp only [name, node_push, if_neg (Nat.ne_of_lt hn)]
  attrs_mem n hn x hx := by rwa [node_push, if_neg (Nat.ne_of_lt hn)]

theorem alloc (a : Arena) (name : String) (script : Option NodeId) (position : Position)
    (kind : NodeKind) : a.Keeps [] (a.alloc name script position kind).2 :=
  push a _

theorem update {f : Node → Node} (a : Arena) (m : Nat) (hk : ∀ x, (f x).kind = x.kind)
    (hn : ∀ x, (f x).name = x.name) (ha : ∀ x : Node, ∀ y ∈ x.attrs, y ∈ (f x).attrs) :
    a.Keeps [] (a.update m f) where
  size_le := by simp
  kind_eq n _ _ := by
    simp only [kind, node_update]
    split
    · exact hk _
    · rfl
  name_eq n _ := by
    simp only [name, node_update]
    split
    · exact hn _
    · rfl
  attrs_mem n _ y hy := by
    rw [node_update]
    split
    · exact ha _ y hy
    · exact hy

theorem adopt (a : Arena) (parent child : NodeId) : a.Keeps [] (a.adopt parent child) :=
  update a child (fun _ => rfl) (fun _ => rfl) fun _ _ h => h

theorem bindComments (a : Arena) (node : NodeId) (comments : List Comment) :
    a.Keeps [] (a.bindComments node comments) :=
  update a node (fun _ => rfl) (fun _ => rfl) fun _ _ h => h

theorem addAttr (a : Arena) (node attr : NodeId) : a.Keeps [] (a.addAttr node attr) :=
  (update a node (f := withAttr attr) (fun _ => rfl) (fun _ => rfl) fun _ _ h =>
    mem_attrs_withAttr.2 (Or.inl h)).quiet (adopt _ _ _)

theorem addAttrs (node : NodeId) : ∀ (attrs : List NodeId) (a : Arena),
    a.Keeps [] (attrs.foldl (fun arena attr => arena.addAttr node attr) a)
  | [], a => refl [] a
  | attr :: rest, a => (addAttr a node attr).quiet (addAttrs node rest _)

theorem updateKind (a : Arena) (m : Nat) (f : NodeKind → NodeKind) :
    a.Keeps [m] (a.updateKind m f) where
  size_le := by simp
  kind_eq n _ hn := by
    have hne : ¬ (n = m ∧ n < a.size) := fun h => hn (List.mem_singleton.2 h.1)
    simp only [kind, node_updateKind, if_neg hne]
  name_eq n _ := by
    simp only [name, node_updateKind]
    split <;> rfl
  attrs_mem n _ x hx := by
    rw [node_updateKind]
    split <;> exact hx

end Keeps

section

variable (a : Arena) (script : NodeId) (position : Position)

theorem keeps_newUnion (left right : NodeId) :
    a.Keeps [] (a.newUnion script left right position).2 :=
  ((Keeps.alloc ..).quiet (Keeps.adopt ..)).quiet (Keeps.adopt ..)

theorem keeps_newArray (length : UInt16) (element : NodeId) :
    a.Keeps [] (a.newArray script length element position).2 :=
  (Keeps.alloc ..).quiet (Keeps.adopt ..)

theorem keeps_newList (element : NodeId) : a.Keeps [] (a.newList script element position).2 :=
  (Keeps.alloc ..).quiet (Keeps.adopt ..)

theorem keeps_newMap (key value : NodeId) :
    a.Keeps [] (a.newMap script key value position).2 :=
  ((Keeps.alloc ..).quiet (Keeps.adopt ..)).quiet (Keeps.adopt ..)

theorem keeps_newAttr (type : NodeId) : a.Keeps [] (a.newAttr script type position).2 :=
  (Keeps.alloc ..).quiet (Keeps.adopt ..)

theorem keeps_setAttrArgs (attr args : NodeId) : a.Keeps [attr] (a.setAttrArgs attr args) :=
  ((Keeps.refl [attr] a).quiet (Keeps.adopt ..)).trans (Keeps.updateKind ..) fun _ h _ => h

theorem keeps_pushArg (args item : NodeId) : a.Keeps [args] (a.pushArg args item) :=
  ((Keeps.refl [args] a).quiet (Keeps.adopt ..)).trans (Keeps.updateKind ..) fun _ h _ => h

theorem keeps_newSlot (method : NodeId) (place : UInt16) (type : NodeId) :
    a.Keeps [] (a.newSlot method place type position).2 :=
  ((Keeps.alloc ..).quiet (Keeps.adopt ..)).quiet (Keeps.adopt ..)

theorem keeps_newParam (method type : NodeId) :
    a.Keeps [method] (a.newParam method type position).2 :=
  ((Keeps.refl [method] a).quiet (keeps_newSlot ..)).trans (Keeps.updateKind ..) fun _ h _ => h

theorem keeps_newResult (method type : NodeId) :
    a.Keeps [method] (a.newResult method type position).2 :=
  ((Keeps.refl [method] a).quiet (keeps_newSlot ..)).trans (Keeps.updateKind ..) fun _ h _ => h

end

theorem kind_updateKind_self (h : n < a.size) (f : NodeKind → NodeKind) :
    (a.updateKind n f).kind n = f (a.kind n) := by
  rw [kind_updateKind, if_pos ⟨rfl, h⟩]

/-- A node has the attributes that it gets. -/
theorem mem_attrs_addAttrs {node : Nat} : ∀ (attrs : List NodeId) (a : Arena), node < a.size →
    ∀ x ∈ attrs, x ∈ ((attrs.foldl (fun arena attr => arena.addAttr node attr) a).node node).attrs
  | attr :: rest, a, hn, x, hx => by
    have hn' : node < (a.addAttr node attr).size := Nat.lt_of_lt_of_le hn (Keeps.addAttr ..).size_le
    rcases List.mem_cons.1 hx with rfl | hx
    · refine (Keeps.addAttrs node rest _).attrs_mem node hn' x ?_
      refine (Keeps.adopt _ node x).attrs_mem node (by simpa using hn) x ?_
      rw [node_update_self hn]
      exact mem_attrs_withAttr.2 (Or.inr rfl)
    · exact mem_attrs_addAttrs rest _ hn' x hx

/-! ## What a node lists -/

/-- The kind of a node of the arena satisfies `P`. -/
def HasKind (a : Arena) (n : Nat) (P : NodeKind → Prop) : Prop :=
  n < a.size ∧ P (a.kind n)

theorem HasKind.keep {P : NodeKind → Prop} {touched : List NodeId} (h : a.HasKind n P)
    (hk : a.Keeps touched b) (hn : n ∉ touched) : b.HasKind n P :=
  ⟨Nat.lt_of_lt_of_le h.1 hk.size_le, by rw [hk.kind_eq n h.1 hn]; exact h.2⟩

theorem hasKind_alloc (a : Arena) (name : String) (script : Option NodeId) (position : Position)
    (kind : NodeKind) : (a.alloc name script position kind).2.HasKind a.size (· = kind) :=
  ⟨by simp, kind_alloc_self ..⟩

theorem HasKind.adopt {P : NodeKind → Prop} (h : a.HasKind n P) (parent child : NodeId) :
    (a.adopt parent child).HasKind n P :=
  h.keep (Keeps.adopt ..) List.not_mem_nil

theorem HasKind.mono {P Q : NodeKind → Prop} (h : a.HasKind n P) (hq : ∀ kind, P kind → Q kind) :
    a.HasKind n Q :=
  ⟨h.1, hq _ h.2⟩

/-- Lists whose elements correspond give the same list where corresponding elements give the same. -/
theorem map_eq_of_forall₂ {α β γ : Type} {R : α → β → Prop} {f : α → γ} {g : β → γ} {xs : List α}
    {ys : List β} (h : List.Forall₂ R xs ys) (hR : ∀ x y, R x y → f x = g y) : xs.map f = ys.map g := by
  rw [← List.forall₂_eq_eq_eq, List.forall₂_map_left_iff, List.forall₂_map_right_iff]
  exact h.imp hR

/-- The nodes of a list are called `names`, in order. -/
structure Called (a : Arena) (listed : Array NodeId) (names : List String) : Prop where
  lt_size : ∀ x ∈ listed, x < a.size
  names_eq : listed.toList.map a.name = names

namespace Called

variable {listed : Array NodeId} {names : List String}

theorem keep {touched : List NodeId} (h : a.Called listed names) (hk : a.Keeps touched b) :
    b.Called listed names where
  lt_size x hx := Nat.lt_of_lt_of_le (h.lt_size x hx) hk.size_le
  names_eq := by
    rw [← h.names_eq]
    exact List.map_congr_left fun x hx =>
      hk.name_eq x (h.lt_size x (Array.mem_toList_iff.1 hx))

theorem push {name : String} (h : a.Called listed names) (hn : n < a.size)
    (hname : a.name n = name) : a.Called (listed.push n) (names ++ [name]) where
  lt_size x hx := by
    rcases Array.mem_push.1 hx with hx | rfl
    · exact h.lt_size x hx
    · exact hn
  names_eq := by simp [h.names_eq, hname]

end Called

end Arena

namespace NodeKind

/-- An enum with these values. -/
def ValuesAre (names : List String) (kind : NodeKind) : Prop :=
  ∃ decl, kind = .enum decl ∧ decl.values.names = names

/-- A contract with these methods. -/
def MethodsAre (names : List String) (kind : NodeKind) : Prop :=
  ∃ decl, kind = .contract decl ∧ decl.methods.names = names

/-- A package with these types. -/
def TypesAre (names : List String) (kind : NodeKind) : Prop :=
  ∃ decl, kind = .package decl ∧ decl.types.names = names

/-- A script of a package with these imports. -/
def ImportsAre (package : NodeId) (names : List String) (kind : NodeKind) : Prop :=
  ∃ decl, kind = .script decl ∧ decl.package = package ∧ decl.imports.names = names

end NodeKind

namespace Arena

open NodeKind

/-- A table with these fields. -/
def FieldsAre (a : Arena) (n : Nat) (names : List String) : Prop :=
  n < a.size ∧ ∃ decl, a.kind n = .table decl ∧ a.Called decl.fields names

/-- A package with a type of this name. -/
def Finds (a : Arena) (package : Nat) (name : String) (type : NodeId) : Prop :=
  a.HasKind package fun kind => ∃ decl, kind = .package decl ∧ decl.types.find? name = some type

theorem Finds.find?_types {package type : Nat} {name : String} (h : a.Finds package name type) :
    ((a.package? package).bind fun decl => decl.types.find? name) = some type := by
  obtain ⟨-, decl, hkind, hfound⟩ := h
  rw [package?, hkind]
  exact hfound

/-- A contract with these bases, without methods. -/
def BasesAre (a : Arena) (n : Nat) (names : List String) : Prop :=
  n < a.size ∧ ∃ decl, a.kind n = .contract decl ∧ a.Called decl.bases names ∧
    decl.methods.names = []

theorem FieldsAre.keep {touched : List NodeId} {names : List String} (h : a.FieldsAre n names)
    (hk : a.Keeps touched b) (hn : n ∉ touched) : b.FieldsAre n names := by
  obtain ⟨hs, decl, hkind, hc⟩ := h
  exact ⟨Nat.lt_of_lt_of_le hs hk.size_le, decl, (hk.kind_eq n hs hn).trans hkind, hc.keep hk⟩

theorem BasesAre.keep {touched : List NodeId} {names : List String} (h : a.BasesAre n names)
    (hk : a.Keeps touched b) (hn : n ∉ touched) : b.BasesAre n names := by
  obtain ⟨hs, decl, hkind, hc, hm⟩ := h
  exact ⟨Nat.lt_of_lt_of_le hs hk.size_le, decl, (hk.kind_eq n hs hn).trans hkind, hc.keep hk, hm⟩

theorem FieldsAre.size_eq {names : List String} (h : a.FieldsAre n names) :
    (a.fieldsOf n).size = names.length := by
  obtain ⟨-, decl, hkind, hc⟩ := h
  rw [← hc.names_eq]
  simp [fieldsOf, table?, hkind]

theorem methodCount_eq_length {names : List String} (h : a.HasKind n (MethodsAre names)) :
    a.methodCount n = names.length := by
  obtain ⟨-, decl, hkind, rfl⟩ := h
  simp [methodCount, contract?, hkind, Registry.length_names]

end Arena

/-! ## Operations with a rule of uniqueness -/

theorem nodup_snoc {names : List String} {name : String} :
    (names ++ [name]).Nodup ↔ names.Nodup ∧ name ∉ names := by
  rw [List.nodup_append]
  simp only [List.nodup_cons, List.not_mem_nil, not_false_eq_true, List.nodup_nil, and_self,
    List.mem_singleton, true_and, and_congr_right_iff]
  intro _
  constructor
  · exact fun h hmem => h name hmem name rfl rfl
  · rintro h x hx y rfl rfl
    exact h hx

/-- An operation enters a name into a list of names: it fails where the name is taken. -/
def Enters {α : Type} (listed : List String) (name : String) (result : Except NodeId α × Arena)
    (Q : α → Arena → Prop) : Prop :=
  if name ∈ listed then ∃ existing, result.1 = .error existing
  else ∃ x, result.1 = .ok x ∧ Q x result.2

section

variable {α : Type} {name : String} {result : Except NodeId α × Arena} {Q : α → Arena → Prop}

/-- What an operation does where it enters a new name may be said in another way. -/
theorem Enters.mono {listed : List String} {Q' : α → Arena → Prop} (h : Enters listed name result Q)
    (hq : name ∉ listed → ∀ x, Q x result.2 → Q' x result.2) : Enters listed name result Q' := by
  unfold Enters at *
  split
  · rename_i hmem
    rwa [if_pos hmem] at h
  · rename_i hmem
    rw [if_neg hmem] at h
    obtain ⟨x, hx, hdone⟩ := h
    exact ⟨x, hx, hq hmem x hdone⟩

theorem enters_registry {registry : Registry}
    (htaken : ∀ existing, registry.find? name = some existing → result.1 = .error existing)
    (hnew : registry.find? name = none → name ∉ registry.names →
      ∃ x, result.1 = .ok x ∧ Q x result.2) : Enters registry.names name result Q := by
  unfold Enters
  split
  · rename_i hmem
    obtain ⟨existing, he⟩ := Option.isSome_iff_exists.1 (Registry.contains_iff.2 hmem)
    exact ⟨existing, htaken existing he⟩
  · rename_i hmem
    exact hnew (Registry.find?_eq_none_iff.2 hmem) hmem

theorem enters_array {listed : Array NodeId}
    (htaken : ∀ existing, listed.find? (fun x => a.name x == name) = some existing →
      result.1 = .error existing)
    (hnew : listed.find? (fun x => a.name x == name) = none → ∃ x, result.1 = .ok x ∧ Q x result.2) :
    Enters (listed.toList.map a.name) name result Q := by
  unfold Enters
  split
  · rename_i hmem
    cases hfind : listed.find? (fun x => a.name x == name) with
    | some existing => exact ⟨existing, htaken existing hfind⟩
    | none =>
      obtain ⟨x, hx, rfl⟩ := List.mem_map.1 hmem
      exact absurd (Array.find?_eq_none.1 hfind x (Array.mem_toList_iff.1 hx)) (by simp)
  · rename_i hmem
    refine hnew (Array.find?_eq_none.2 fun x hx => ?_)
    simpa using fun h => hmem (List.mem_map.2 ⟨x, Array.mem_toList_iff.2 hx, h⟩)

end

namespace Arena

variable {name : String} {position : Position}

/-- Changing the kind of a node after steps that touch nothing. -/
theorem Keeps.change (h : a.Keeps [] b) (m : Nat) (f : NodeKind → NodeKind) :
    a.Keeps [m] (b.updateKind m f) :=
  ((Keeps.refl [m] a).quiet h).trans (Keeps.updateKind b m f) fun _ hn _ => hn

theorem Keeps.kind_change (h : a.Keeps [] b) {m : Nat} (hm : m < a.size)
    (f : NodeKind → NodeKind) : (b.updateKind m f).kind m = f (a.kind m) := by
  rw [kind_updateKind_self (Nat.lt_of_lt_of_le hm h.size_le), h.kind_eq m hm List.not_mem_nil]

open NodeKind

variable {names : List String}

theorem enters_insertNamedArg {args item : Nat} {items : Registry}
    (h : a.HasKind args (· = .namedArgs items)) :
    Enters items.names name (a.insertNamedArg args name item) fun _ b =>
      a.Keeps [args] b ∧ b.HasKind args (· = .namedArgs (items.insert name item)) := by
  obtain ⟨hs, hkind⟩ := h
  have hargs : a.namedArgs? args = some items := by simp [namedArgs?, hkind]
  have hkeeps := Keeps.adopt a args item
  refine enters_registry (fun existing he => ?_) fun hnone _ => ?_
  · simp [insertNamedArg, hargs, he]
  · simp only [insertNamedArg, hargs, Option.bind_some, hnone]
    have hchange := hkeeps.change args
    refine ⟨(), trivial, hchange _, Nat.lt_of_lt_of_le hs (hchange _).size_le, ?_⟩
    rw [hkeeps.kind_change hs, hkind]

theorem enters_newEnumValue {enum : Nat} {value : Int64} (h : a.HasKind enum (ValuesAre names)) :
    Enters names name (a.newEnumValue enum name value position) fun _ b =>
      a.Keeps [enum] b ∧ b.HasKind enum (ValuesAre (names ++ [name])) := by
  obtain ⟨hs, decl, hkind, rfl⟩ := h
  have henum : a.enum? enum = some decl := by simp [enum?, hkind]
  have hkeeps := (Keeps.alloc a name (a.node enum).script position (.enumValue value)).quiet
    (Keeps.adopt _ enum a.size)
  refine enters_registry (fun existing he => ?_) fun hnone hmem => ?_
  · simp [newEnumValue, henum, he]
  · simp only [newEnumValue, henum, Option.bind_some, hnone]
    have hchange := hkeeps.change enum
    refine ⟨_, rfl, hchange _, Nat.lt_of_lt_of_le hs (hchange _).size_le,
      ⟨decl.base, decl.values.insert name a.size, some (decl.default.getD a.size), decl.isError⟩,
      ?_, Registry.names_insert _ hmem⟩
    exact (hkeeps.kind_change hs _).trans (by rw [hkind]; rfl)

theorem enters_newMethod {contract : Nat} (h : a.HasKind contract (MethodsAre names)) :
    Enters names name (a.newMethod contract name position) fun method b =>
      a.Keeps [contract] b ∧ a.size ≤ method ∧ b.HasKind method (∃ decl, · = .method decl) ∧
        b.HasKind contract (MethodsAre (names ++ [name])) := by
  obtain ⟨hs, decl, hkind, rfl⟩ := h
  have hcontract : a.contract? contract = some decl := by simp [contract?, hkind]
  have hkeeps := (Keeps.alloc a name (a.node contract).script position
    (.method ⟨UInt16.ofNat (a.methodCount contract), #[], #[]⟩)).quiet
    (Keeps.adopt _ contract a.size)
  refine enters_registry (fun existing he => ?_) fun hnone hmem => ?_
  · simp [newMethod, findMethod?, hcontract, he]
  · simp only [newMethod, findMethod?, hcontract, Option.isNone_some, Option.bind_some, hnone,
      Bool.false_eq_true, if_false]
    have hchange := hkeeps.change contract
    refine ⟨_, rfl, hchange _, Nat.le_refl _, ⟨by simp [insertMethod], ?_⟩,
      Nat.lt_of_lt_of_le hs (hchange _).size_le,
      ⟨decl.bases, decl.methods.insert name a.size, decl.flattened⟩, ?_,
      Registry.names_insert _ hmem⟩
    · refine ⟨_, ((Keeps.updateKind _ contract _).kind_eq a.size ?_ ?_).trans
        (((Keeps.adopt _ _ _).kind_eq a.size ?_ List.not_mem_nil).trans
          (kind_alloc_self a _ _ _ _))⟩
      · simp
      · simpa using Nat.ne_of_gt hs
      · simp
    · exact (hkeeps.kind_change hs _).trans (by rw [hkind]; rfl)

theorem enters_newField {table type : Nat} (h : a.FieldsAre table names) :
    Enters names name (a.newField table name type position) fun _ b =>
      a.Keeps [table] b ∧ b.FieldsAre table (names ++ [name]) := by
  obtain ⟨hs, decl, hkind, hc⟩ := h
  have hfields : a.fieldsOf table = decl.fields := by simp [fieldsOf, table?, hkind]
  have halloc := Keeps.alloc a name (a.node table).script position
    (.field ⟨UInt16.ofNat decl.fields.size, type⟩)
  have hadopt := (Keeps.adopt (a.alloc name (a.node table).script position
    (.field ⟨UInt16.ofNat decl.fields.size, type⟩)).2 table a.size).quiet
    (Keeps.adopt _ a.size type)
  have hkeeps := halloc.quiet hadopt
  rw [← hc.names_eq]
  refine enters_array (fun existing he => ?_) fun hnone => ?_
  · simp [newField, hfields, he]
  · simp only [newField, hfields, hnone]
    have hchange := hkeeps.change table
    refine ⟨_, rfl, hchange _, Nat.lt_of_lt_of_le hs (hchange _).size_le,
      ⟨decl.fields.push a.size, decl.isStruct⟩,
      (hkeeps.kind_change hs _).trans (by rw [hkind]; rfl), ?_⟩
    -- the name of the new field survives the steps after its allocation
    have hlater := hadopt.change table
    rw [hc.names_eq]
    exact (hc.keep (hchange _)).push (Nat.lt_of_lt_of_le (by simp) (hlater _).size_le)
      (((hlater _).name_eq a.size (by simp)).trans (name_alloc_self ..))

theorem enters_addBase {contract base : Nat} (h : a.BasesAre contract names) (hb : base < a.size) :
    Enters names (a.name base) (a.addBase contract base) fun _ b =>
      a.Keeps [contract] b ∧ b.BasesAre contract (names ++ [a.name base]) := by
  obtain ⟨hs, decl, hkind, hc, hm⟩ := h
  have hbases : a.basesOf contract = decl.bases := by simp [basesOf, contract?, hkind]
  have hkeeps := Keeps.adopt a contract base
  rw [← hc.names_eq]
  refine enters_array (fun existing he => ?_) fun hnone => ?_
  · simp [addBase, hbases, he]
  · simp only [addBase, hbases, hnone]
    have hchange := hkeeps.change contract
    refine ⟨(), trivial, hchange _, Nat.lt_of_lt_of_le hs (hchange _).size_le,
      ⟨decl.bases.push base, decl.methods, decl.flattened⟩, ?_, ?_, hm⟩
    · rw [hkeeps.kind_change hs, hkind]
    · rw [hc.names_eq]
      exact (hc.keep (hchange _)).push (Nat.lt_of_lt_of_le hb (hchange _).size_le)
        ((hchange _).name_eq base hb)

theorem enters_newPackageRef {script package target : Nat}
    (h : a.HasKind script (ImportsAre package names)) :
    Enters names name (a.newPackageRef script name target position) fun _ b =>
      a.Keeps [script] b ∧ b.HasKind script (ImportsAre package (names ++ [name])) := by
  obtain ⟨hs, decl, hkind, hpackage, rfl⟩ := h
  have hscript : a.script? script = some decl := by simp [script?, hkind]
  have hkeeps := (Keeps.alloc a name (some script) position (.packageRef target)).quiet
    (Keeps.adopt _ script a.size)
  refine enters_registry (fun existing he => ?_) fun hnone hmem => ?_
  · simp [newPackageRef, hscript, he]
  · simp only [newPackageRef, hscript, Option.bind_some, hnone]
    have hchange := hkeeps.change script
    refine ⟨_, rfl, hchange _, Nat.lt_of_lt_of_le hs (hchange _).size_le,
      ⟨decl.package, decl.path, decl.imports.insert name a.size, decl.types⟩,
      ?_, hpackage, Registry.names_insert _ hmem⟩
    exact (hkeeps.kind_change hs _).trans (by rw [hkind]; rfl)

/-- A type is entered into its package, and found there besides those that were. -/
theorem enters_declareType {script package : Nat} {aliases : List String}
    (hscript : a.HasKind script (ImportsAre package aliases))
    (hpackage : a.HasKind package (TypesAre names)) (type : Nat) :
    Enters names (a.name type) (a.declareType script type) fun _ b =>
      a.Keeps [package, script] b ∧ b.HasKind script (ImportsAre package aliases) ∧
        b.HasKind package (TypesAre (names ++ [a.name type])) ∧ b.Finds package (a.name type) type ∧
        ∀ other found, a.Finds package other found → b.Finds package other found := by
  obtain ⟨hs, decl, hkind, rfl, rfl⟩ := hscript
  obtain ⟨hp, pdecl, hpkind, rfl⟩ := hpackage
  have hof : a.packageOf script = some decl.package := by
    unfold packageOf packageWithin
    rw [hkind]
  have hpackage : a.package? decl.package = some pdecl := by simp [package?, hpkind]
  have hne : script ≠ decl.package := by
    intro heq
    rw [heq, hpkind] at hkind
    cases hkind
  refine enters_registry (fun existing he => ?_) fun hnone hmem => ?_
  · simp [declareType, hof, hpackage, he]
  · simp only [declareType, hof, hpackage, Option.bind_some, hnone]
    have hfirst := Keeps.updateKind a decl.package
    have hscript : ∀ f g, (((a.updateKind decl.package f).updateKind script g).adopt script
        type).kind script = g (a.kind script) := fun f g => by
      rw [(Keeps.adopt _ _ _).kind_eq script (by simpa using hs) List.not_mem_nil,
        kind_updateKind_self (by simpa using hs), (hfirst f).kind_eq script hs (by simpa using hne)]
    have hpackage : ∀ f g, (((a.updateKind decl.package f).updateKind script g).adopt script
        type).HasKind decl.package (· = f (.package pdecl)) := fun f g => by
      have hchanged : (a.updateKind decl.package f).HasKind decl.package (· = f (.package pdecl)) :=
        ⟨by simpa using hp, by rw [kind_updateKind_self hp, hpkind]⟩
      exact (hchanged.keep (Keeps.updateKind _ script g) (by simpa using hne.symm)).adopt ..
    refine ⟨(), trivial, ?_, ⟨by simpa using hs, ⟨decl.package, decl.path, decl.imports,
      decl.types.push type⟩, (hscript _ _).trans (by rw [hkind]), rfl, rfl⟩, (hpackage _ _).mono ?_,
      (hpackage _ _).mono ?_, fun other found hother => (hpackage _ _).mono ?_⟩
    · exact (((Keeps.refl [decl.package, script] a).trans (hfirst _) (by simp)).trans
        (Keeps.updateKind _ script _) (by simp)).quiet (Keeps.adopt _ script type)
    · rintro _ rfl
      exact ⟨_, rfl, Registry.names_insert _ hmem⟩
    · rintro _ rfl
      exact ⟨_, rfl, by rw [Registry.find?_insert, if_pos rfl]⟩
    · rintro _ rfl
      obtain ⟨-, _, hkind', hfound⟩ := hother
      obtain rfl := NodeKind.package.inj (hpkind.symm.trans hkind')
      have hne : a.name type ≠ other := by
        rintro rfl
        rw [hnone] at hfound
        cases hfound
      exact ⟨_, rfl, by rw [Registry.find?_insert, if_neg (by simpa using hne), hfound]⟩

end Arena

/-! ## Steps that build -/

namespace Parse

open Arena

variable {σ α β I : Type} {cx : ReadingContext σ} {r : Reading σ} {ks : List TokenKind}
  {T : I → List TokenKind} {F : I → TokenKind → Prop} {G : I → Prop}
  {R : I → β → Reading σ → Prop}

section

variable {name : String} {operation : Arena → Except NodeId α × Arena} {listed : List String}
  {P : α → Arena → Prop}

theorem buildUnique_taken (what : Duplicate) (position : Position)
    (he : Enters listed name (operation r.arena) P) (h : name ∈ listed) :
    ∃ e r', buildUnique what name position operation r = .error e r' := by
  obtain ⟨existing, he⟩ := (if_pos h).mp he
  have hrun := build_eq operation r
  rw [he] at hrun
  exact ⟨_, _, bind_ok hrun⟩

theorem buildUnique_new (what : Duplicate) (position : Position)
    (he : Enters listed name (operation r.arena) P) (h : name ∉ listed) :
    ∃ x b, buildUnique what name position operation r = .ok x (rebuild r b) ∧ P x b := by
  obtain ⟨x, he, hP⟩ := (if_neg h).mp he
  have hrun := build_eq operation r
  rw [he] at hrun
  exact ⟨x, _, bind_ok hrun, hP⟩

end

namespace Reads

theorem build_bind {operation : Arena → α × Arena} {f : α → Parse σ β} (hr : Faces cx r ks)
    (hf : Faces cx (rebuild r (operation r.arena).2) ks →
      Reads (f (operation r.arena).1) (rebuild r (operation r.arena).2) ks T F G R) :
    Reads (build operation >>= f) r ks T F G R :=
  follow (bind_ok (build_eq operation r)) (hf (hr.keep hr.spells))

theorem build {operation : Arena → α × Arena} {F : TokenKind → Prop} {Q : α → Reading σ → Prop}
    (hr : Faces cx r ks) (hq : Q (operation r.arena).1 (rebuild r (operation r.arena).2)) :
    Reads (Parse.build operation) r ks (fun _ : Unit => []) (fun _ => F) (fun _ => True)
      fun _ => Q :=
  follow (build_eq operation r)
    (pure (r := rebuild r (operation r.arena).2) hr.spells hq)

theorem inspect_bind {query : Arena → α} {f : α → Parse σ β}
    (hf : Reads (f (query r.arena)) r ks T F G R) : Reads (inspect query >>= f) r ks T F G R :=
  follow (bind_ok rfl) hf

/-- A check that refuses what is read. -/
theorem refuse_bind {query : Arena → Bool} {refused : Bool} {position : Position} {cause : Cause}
    {m : Parse σ β} (hquery : query r.arena = refused)
    (hm : refused = false → Reads m r ks T F G R) :
    Reads (do
      if ← inspect query then failAt position cause
      else m) r ks T F (fun i => refused = false ∧ G i) R := by
  refine inspect_bind ?_
  rw [hquery]
  cases refused with
  | true => exact fail ⟨_, _, rfl⟩ fun i k rest _ _ hG => by cases hG.1
  | false =>
    exact (hm rfl).convert (fun i hG => ⟨i, rfl, ⟨rfl, hG⟩, fun _ _ h => h⟩)
      fun i k rest _ hF hG => ⟨i, rfl, hF, hG.2, fun _ _ h => h⟩

/-- A check that refuses one more, where the limit is reached. -/
theorem limit_bind {query : Arena → Nat} {count limit : Nat} {position : Position} {cause : Cause}
    {m : Parse σ β} (hquery : query r.arena = count) (hm : count < limit → Reads m r ks T F G R) :
    Reads (do
      if limit ≤ (← inspect query) then failAt position cause
      else m) r ks T F (fun i => count < limit ∧ G i) R := by
  refine inspect_bind ?_
  rw [hquery]
  by_cases h : limit ≤ count
  · rw [if_pos h]
    exact fail ⟨_, _, rfl⟩ fun i k rest _ _ hG => absurd hG.1 (Nat.not_lt.2 h)
  · rw [if_neg h]
    have hlt := Nat.not_le.1 h
    exact (hm hlt).convert (fun i hG => ⟨i, rfl, ⟨hlt, hG⟩, fun _ _ h => h⟩)
      fun i k rest _ hF hG => ⟨i, rfl, hF, hG.2, fun _ _ h => h⟩

/-- A name is entered, where it is new. -/
theorem unique_bind {what : Duplicate} {name : String} {position : Position}
    {operation : Arena → Except NodeId α × Arena} {f : α → Parse σ β} {listed : List String}
    {P : α → Arena → Prop} (hr : Faces cx r ks) (he : Enters listed name (operation r.arena) P)
    (hf : ∀ x b, name ∉ listed → P x b → Faces cx (rebuild r b) ks →
      Reads (f x) (rebuild r b) ks T F G R) :
    Reads (buildUnique what name position operation >>= f) r ks T F
      (fun i => name ∉ listed ∧ G i) R := by
  by_cases hmem : name ∈ listed
  · obtain ⟨e, r', htaken⟩ := buildUnique_taken what position he hmem
    exact fail ⟨e, r', bind_error htaken⟩ fun i k rest _ _ hG => hG.1 hmem
  · obtain ⟨x, b, hok, hP⟩ := buildUnique_new what position he hmem
    exact (follow (bind_ok hok) (hf x _ hmem hP (hr.keep hr.spells))).convert
      (fun i hG => ⟨i, rfl, ⟨hmem, hG⟩, fun _ _ h => h⟩)
      fun i k rest _ hF hG => ⟨i, rfl, hF, hG.2, fun _ _ h => h⟩

theorem attachComments_bind {node : NodeId} {f : Unit → Parse σ β} (hr : Faces cx r ks)
    (hf : ∀ r₁, Faces cx r₁ ks → r.arena.Keeps [] r₁.arena → r₁.attrs = r.attrs →
      Reads (f ()) r₁ ks T F G R) :
    Reads (Parse.attachComments node >>= f) r ks T F G R := by
  cases ks with
  | nil =>
    obtain ⟨e, r', he⟩ := peek_of_spells_nil hr.spells
    exact fail ⟨e, r', bind_error (bind_error he)⟩ fun i k rest h => by simp at h
  | cons k ks =>
    obtain ⟨token, feed, comments, hpeek, -, hs⟩ := peek_of_spells hr.spells
    exact follow (bind_ok (bind_ok hpeek)) (hf _ (hr.keep hs) (Keeps.bindComments _ _ _) rfl)

theorem attachComments {node : NodeId} {F : TokenKind → Prop} {Q : Reading σ → Prop}
    (hr : Faces cx r ks) (hq : ∀ r', r.arena.Keeps [] r'.arena → Q r') :
    Reads (Parse.attachComments node) r ks (fun _ : Unit => []) (fun _ => F) (fun _ => True)
      fun _ _ => Q := by
  rw [← bind_pure (Parse.attachComments node)]
  exact attachComments_bind hr fun r₁ hr₁ hk _ => pure hr₁.spells (hq r₁ hk)

/-- The attributes that wait are put on a node. -/
theorem attachAttrs_bind {node : Nat} {f : Unit → Parse σ β} (hr : Faces cx r ks)
    (hf : ∀ r₁, Faces cx r₁ ks → r.arena.Keeps [] r₁.arena →
      (node < r.arena.size → ∀ x ∈ r.attrs, x ∈ (r₁.arena.node node).attrs) →
      Reads (f ()) r₁ ks T F G R) :
    Reads (attachAttrs node >>= f) r ks T F G R :=
  follow (bind_ok rfl) (hf _ (hr.keep hr.spells) (Keeps.addAttrs _ _ _) (mem_attrs_addAttrs _ _))

/-- Whether a character follows. -/
theorem flag {c : Char} {E : TokenKind → Prop} {P : Reading σ → Prop} (hr : Faces cx r ks)
    (hp : ∀ r', r.arena.Keeps [] r'.arena → P r') :
    Reads (matchChar c) r ks (fun found : Bool => if found then [.char c] else [])
      (fun found k => found = false → E k ∧ k ≠ .char c) (fun _ => True)
      fun found x r' => x = found ∧ P r' := by
  rw [← bind_pure (matchChar c)]
  apply convert
  · apply matchChar_bind hr
    · intro feed comments rest _ hr₁
      exact pure (F := fun _ => True) (Q := fun x r' => x = true ∧ P r') hr₁.spells
        ⟨rfl, hp _ (Keeps.refl _ _)⟩
    · intro feed comments hr₁
      exact pure (F := fun _ => True) (Q := fun x r' => x = false ∧ P r') hr₁.spells
        ⟨rfl, hp _ (Keeps.refl _ _)⟩
  · rintro (_ | _) _
    · exact ⟨true, rfl, trivial, fun _ _ h => h⟩
    · exact ⟨false, rfl, trivial, fun _ _ h => h⟩
  · rintro (_ | _) k rest _ hF _
    · exact ⟨.inr (), rfl, ⟨trivial, (hF rfl).2⟩, trivial, fun _ _ h => h⟩
    · exact ⟨.inl (), rfl, trivial, trivial, fun _ _ h => h⟩

/-- Whether a comma follows, before comments are bound. -/
theorem comma_attachComments {node : NodeId} {E : TokenKind → Prop} {P : Reading σ → Prop}
    (hr : Faces cx r ks)
    (hp : ∀ r', r.arena.Keeps [] r'.arena → P r') :
    Reads (do
      let more ← matchChar ','
      Parse.attachComments node
      Pure.pure more) r ks (fun more : Bool => if more then [.char ','] else [])
      (fun more k => more = false → E k ∧ k ≠ .char ',') (fun _ => True)
      fun more x r' => x = more ∧ P r' := by
  apply convert
  · apply bind hr (flag (P := fun r' => r.arena.Keeps [] r'.arena) hr fun _ h => h)
    · intro more x r₁ rest _ hr₁ _ hk
      apply attachComments_bind hr₁
      intro r₂ hr₂ hk₂ _
      exact pure (F := fun k => more = false → E k ∧ k ≠ .char ',')
        (Q := fun x r' => x = more ∧ P r') hr₂.spells ⟨hk.1, hp _ (hk.2.quiet hk₂)⟩
    · exact fun _ _ _ hF => hF
  · rintro ⟨more, _⟩ _
    exact ⟨more, by simp, trivial, fun _ _ h => h⟩
  · intro more k rest _ hF _
    exact ⟨(more, ()), by simp, hF, ⟨trivial, trivial⟩, fun _ _ h => h⟩

end Reads

end Parse

end SchemaLang
