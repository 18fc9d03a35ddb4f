import SchemaLang.Proofs.Arena.Home
import SchemaLang.Proofs.Grammar.Entering
import SchemaLang.Proofs.Grammar.Trees

/-!
# What the nodes of an attribute say

An attribute is read to a node that names its type and has its arguments, and these are what is written:
literals with their values, references with their paths, and unions that are grouped to the left
(`Arena.IsAttr`). None of this is changed when nodes above attributes are (`Arena.IsAttr.keep`). The
attributes of an item are on its declaration, which the package has under its name (`Arena.Bears`). A struct
bears one that is not written, the marker that its keyword stands for (`Phrase.Decl.marks`).
-/

namespace SchemaLang

open Phrase

/-! ## Operands -/

namespace Phrase

/-- The kind of a number behind a sign. -/
def Number.kind (negative : Bool) : Number → NodeKind
  | int value => .int (if negative then -value else value)
  | float value => .float (if negative then value.negate else value)

/-- The kind of an operand, whose reference is bound to a target or not. -/
def Operand.kind (target : Option NodeId) : Operand → NodeKind
  | number literal => literal.kind false
  | string value => .string value
  | bool value => .bool value
  | signed negative literal => literal.kind negative
  | ref path => .typeRef ⟨path.items, target⟩

theorem Operand.level_kind_le (target : Option NodeId) (x : Operand) : (x.kind target).level ≤ 1 := by
  rcases x with ⟨_ | _⟩ | _ | _ | ⟨_, _ | _⟩ | _
  all_goals simp [kind, Number.kind, NodeKind.level]

/-! ## Keywords that stand for references -/

/-- The reference to a type of the built-in package that a keyword stands for in a package of the name. -/
def Ref.builtin (package type : String) : Ref :=
  if package == Prelude.packageName then ⟨type, []⟩ else ⟨Prelude.packageName, [type]⟩

theorem Ref.items_builtin (package type : String) : (Ref.builtin package type).items =
    if package == Prelude.packageName then [type] else [Prelude.packageName, type] := by
  unfold builtin
  split <;> rfl

/-- The attributes that a table has by its keyword in a package of the name. -/
def tableMarks (package : String) (isStruct : Bool) : List Attr :=
  if isStruct then [⟨.builtin package Prelude.structMarker, none⟩] else []

/-- The attributes that a declaration has by its keyword in a package of the name. -/
def Decl.marks (package : String) : Decl → List Attr
  | .table isStruct .. => tableMarks package isStruct
  | .enum .. | .contract .. => []

end Phrase

namespace Arena

variable {a b : Arena} {touched : List NodeId} {n : Nat}

/-! ## Nodes that stay -/

theorem HasKind.keep_of_level {kind : NodeKind} (h : a.HasKind n (· = kind)) (hk : a.Keeps touched b)
    (ht : ∀ m ∈ touched, kind.level < (a.kind m).level) : b.HasKind n (· = kind) :=
  h.keep hk fun hn => Nat.lt_irrefl _ (h.2 ▸ ht n hn)

/-! ## Arguments -/

/-- A chain of unions over its operands: from the first one on, each union has the chain so far on its left
and the next operand on its right, and is newer than both. -/
inductive Chain (a : Arena) : List NodeId → List NodeId → NodeId → Prop
  | operand (n : Nat) : Chain a [n] [] n
  | union {leaves unions : List NodeId} {left right n : Nat} (h : Chain a leaves unions left)
    (hkind : a.HasKind n (· = .union left right)) (hleft : left < right) (hright : right < n) :
    Chain a (leaves ++ [right]) (unions ++ [n]) n

/-- Only the unions make a chain. -/
theorem Chain.mono {leaves unions : List NodeId} (h : a.Chain leaves unions n)
    (hkind : ∀ n left right, a.HasKind n (· = .union left right) → b.HasKind n (· = .union left right)) :
    b.Chain leaves unions n := by
  induction h with
  | operand n => exact .operand n
  | union _ hk hleft hright ih => exact .union ih (hkind _ _ _ hk) hleft hright

/-- The node of an argument with these operands. Its references are not bound yet. -/
def Unites (a : Arena) (operands : List Phrase.Operand) (n : NodeId) : Prop :=
  ∃ leaves unions, a.Chain leaves unions n ∧
    List.Forall₂ (fun x leaf => a.HasKind leaf (· = x.kind none)) operands leaves

theorem Unites.keep {operands : List Phrase.Operand} (h : a.Unites operands n) (hk : a.Keeps touched b)
    (ht : ∀ m ∈ touched, 2 ≤ (a.kind m).level) : b.Unites operands n := by
  obtain ⟨leaves, unions, hchain, hleaves⟩ := h
  refine ⟨leaves, unions, hchain.mono fun n left right hn => hn.keep_of_level hk ht,
    hleaves.imp fun x leaf hleaf => hleaf.keep_of_level hk fun m hm => ?_⟩
  exact Nat.lt_of_le_of_lt (x.level_kind_le none) (ht m hm)

/-- The node of an argument. -/
def IsArg (a : Arena) (arg : Arg) (n : NodeId) : Prop :=
  a.Unites arg.items n

/-- The list of positional arguments. -/
def ListsArgs (a : Arena) (args : List Arg) (n : NodeId) : Prop :=
  ∃ items, a.HasKind n (· = .args items) ∧ List.Forall₂ a.IsArg args items.toList

/-- The list of labelled arguments. -/
def LabelsArgs (a : Arena) (args : List (String × Arg)) (n : NodeId) : Prop :=
  ∃ items, a.HasKind n (· = .namedArgs items) ∧
    List.Forall₂ (fun arg entry => entry.1 = arg.1 ∧ a.IsArg arg.2 entry.2) args items.entries.toList

theorem ListsArgs.keep {args : List Arg} (h : a.ListsArgs args n) (hk : a.Keeps touched b)
    (ht : ∀ m ∈ touched, 3 ≤ (a.kind m).level) : b.ListsArgs args n := by
  obtain ⟨items, hitems, hargs⟩ := h
  exact ⟨items, hitems.keep_of_level hk ht,
    hargs.imp fun _ _ h => h.keep hk fun m hm => Nat.le_of_succ_le (ht m hm)⟩

theorem LabelsArgs.keep {args : List (String × Arg)} (h : a.LabelsArgs args n) (hk : a.Keeps touched b)
    (ht : ∀ m ∈ touched, 3 ≤ (a.kind m).level) : b.LabelsArgs args n := by
  obtain ⟨items, hitems, hargs⟩ := h
  exact ⟨items, hitems.keep_of_level hk ht,
    hargs.imp fun _ _ h => ⟨h.1, h.2.keep hk fun m hm => Nat.le_of_succ_le (ht m hm)⟩⟩

theorem lists_newArgs (a : Arena) (script : NodeId) (position : Position) :
    (a.newArgs script position).2.ListsArgs [] a.size :=
  ⟨#[], hasKind_alloc .., .nil⟩

theorem labels_newNamedArgs (a : Arena) (script : NodeId) (position : Position) :
    (a.newNamedArgs script position).2.LabelsArgs [] a.size :=
  ⟨.empty, hasKind_alloc .., .nil⟩

/-- An argument is appended. -/
theorem ListsArgs.push {args : List Arg} {arg : Arg} {item : NodeId} (h : a.ListsArgs args n)
    (hitem : a.IsArg arg item) : (a.pushArg n item).ListsArgs (args ++ [arg]) n := by
  obtain ⟨items, ⟨hs, hkind⟩, hargs⟩ := h
  have hkeeps : a.Keeps [n] (a.pushArg n item) := (Keeps.adopt a n item).change n _
  have htouched : ∀ m ∈ [n], 2 ≤ (a.kind m).level := by
    rw [List.forall_mem_singleton, hkind]
    exact Nat.le_refl 2
  refine ⟨items.push item, ⟨Nat.lt_of_lt_of_le hs hkeeps.size_le, ?_⟩, ?_⟩
  · exact ((Keeps.adopt a n item).kind_change hs _).trans (by rw [hkind])
  · rw [Array.toList_push]
    exact List.rel_append (hargs.imp fun _ _ h => h.keep hkeeps htouched)
      (.cons (hitem.keep hkeeps htouched) .nil)

/-- A label is entered behind the others. -/
theorem LabelsArgs.enters {args : List (String × Arg)} {name : String} {arg : Arg} {item : NodeId}
    (h : a.LabelsArgs args n) (hitem : a.IsArg arg item) :
    Enters (args.map (·.1)) name (a.insertNamedArg n name item) fun _ b =>
      a.Keeps [n] b ∧ b.LabelsArgs (args ++ [(name, arg)]) n := by
  obtain ⟨items, hitems, hargs⟩ := h
  have htouched : ∀ m ∈ [n], 2 ≤ (a.kind m).level := by
    rw [List.forall_mem_singleton, hitems.2]
    exact Nat.le_refl 2
  have hnames : args.map (·.1) = items.names := map_eq_of_forall₂ hargs fun _ _ h => h.1.symm
  rw [hnames]
  refine (enters_insertNamedArg hitems).mono fun hnew _ hdone => ?_
  obtain ⟨hkeeps, hlabels⟩ := hdone
  refine ⟨hkeeps, items.insert name item, hlabels, ?_⟩
  rw [Registry.entries_insert_of_find?_eq_none item (Registry.find?_eq_none_iff.2 hnew),
    Array.toList_push]
  exact List.rel_append (hargs.imp fun _ _ h => ⟨h.1, h.2.keep hkeeps htouched⟩)
    (.cons ⟨rfl, hitem.keep hkeeps htouched⟩ .nil)

/-- What stands in the parentheses of an attribute, if anything does. -/
def IsArgs (a : Arena) : Args → Option NodeId → Prop
  | .empty, args => args = none
  | .listed written, args => ∃ n ∈ args, a.ListsArgs written.items n
  | .labelled written, args => ∃ n ∈ args, a.LabelsArgs written.items n

theorem IsArgs.keep {written : Args} {args : Option NodeId} (h : a.IsArgs written args)
    (hk : a.Keeps touched b) (ht : ∀ m ∈ touched, 3 ≤ (a.kind m).level) : b.IsArgs written args := by
  cases written with
  | empty => exact h
  | listed written =>
    obtain ⟨n, hn, hargs⟩ := h
    exact ⟨n, hn, hargs.keep hk ht⟩
  | labelled written =>
    obtain ⟨n, hn, hargs⟩ := h
    exact ⟨n, hn, hargs.keep hk ht⟩

/-! ## Attributes -/

/-- The node of an attribute. -/
def IsAttr (a : Arena) (attr : Attr) (n : NodeId) : Prop :=
  ∃ type args, a.HasKind n (· = .attr ⟨type, args⟩) ∧
    a.HasKind type (· = .typeRef ⟨attr.type.items, none⟩) ∧
    a.IsArgs (attr.args.getD .empty) args

theorem IsAttr.keep {attr : Attr} (h : a.IsAttr attr n) (hk : a.Keeps touched b)
    (ht : ∀ m ∈ touched, 4 ≤ (a.kind m).level) : b.IsAttr attr n := by
  obtain ⟨type, args, hattr, htype, hargs⟩ := h
  exact ⟨type, args, hattr.keep_of_level hk ht,
    htype.keep_of_level hk fun m hm => Nat.lt_of_lt_of_le (by decide : 0 < 4) (ht m hm),
    hargs.keep hk fun m hm => Nat.le_of_succ_le (ht m hm)⟩

theorem hasKind_newAttr (a : Arena) (script type : NodeId) (position : Position) :
    (a.newAttr script type position).2.HasKind a.size (· = .attr ⟨type, none⟩) :=
  (hasKind_alloc ..).adopt ..

/-- An attribute gets its arguments. -/
theorem isAttr_setAttrArgs {type args : NodeId} {ref : Ref} {written : Args}
    (hattr : a.HasKind n (· = .attr ⟨type, none⟩)) (htype : a.HasKind type (· = .typeRef ⟨ref.items, none⟩))
    (hargs : a.IsArgs written (some args)) : (a.setAttrArgs n args).IsAttr ⟨ref, some written⟩ n := by
  have hkeeps := keeps_setAttrArgs a n args
  have htouched : ∀ m ∈ [n], 3 ≤ (a.kind m).level := by
    rw [List.forall_mem_singleton, hattr.2]
    exact Nat.le_refl 3
  refine ⟨type, some args, ⟨Nat.lt_of_lt_of_le hattr.1 hkeeps.size_le, ?_⟩,
    htype.keep_of_level hkeeps fun m hm => Nat.lt_of_lt_of_le (by decide : 0 < 3) (htouched m hm),
    hargs.keep hkeeps htouched⟩
  exact ((Keeps.adopt a n args).kind_change hattr.1 _).trans (by rw [hattr.2])

/-! ## Items -/

/-- The attributes are on the node. -/
def Wears (a : Arena) (n : NodeId) (attrs : List Attr) : Prop :=
  ∀ attr ∈ attrs, ∃ x ∈ (a.node n).attrs, a.IsAttr attr x

theorem Wears.mono {attrs : List Attr} (h : a.Wears n attrs) (hn : n < a.size) (hk : a.Keeps touched b)
    (hattrs : ∀ attr x, a.IsAttr attr x → b.IsAttr attr x) : b.Wears n attrs := fun attr hattr => by
  obtain ⟨x, hx, hnode⟩ := h attr hattr
  exact ⟨x, hk.attrs_mem n hn x hx, hattrs attr x hnode⟩

/-- An attribute without arguments is made and put on a node. -/
theorem wears_addAttr (hn : n < a.size) (ref : Ref) (script : NodeId) (position : Position) :
    let named := (a.newTypeRef script ref.items position).2
    let made := (named.newAttr script a.size position).2
    a.Keeps [] (made.addAttr n named.size) ∧ (made.addAttr n named.size).Wears n [⟨ref, none⟩] := by
  intro named made
  have hnamed : a.Keeps [] named := Keeps.alloc ..
  have hmade : named.Keeps [] made := keeps_newAttr ..
  have hadd : made.Keeps [] (made.addAttr n named.size) := Keeps.addAttr ..
  have htype : named.HasKind a.size (· = .typeRef ⟨ref.items, none⟩) := hasKind_alloc ..
  have hattr : made.HasKind named.size (· = .attr ⟨a.size, none⟩) := hasKind_newAttr ..
  have hlt : n < made.size := Nat.lt_of_lt_of_le hn (hnamed.quiet hmade).size_le
  refine ⟨(hnamed.quiet hmade).quiet hadd, List.forall_mem_singleton.2 ⟨named.size, ?_, a.size, none,
    hattr.keep hadd List.not_mem_nil,
    (htype.keep hmade List.not_mem_nil).keep hadd List.not_mem_nil, rfl⟩⟩
  exact mem_attrs_addAttrs [named.size] made hlt _ (List.mem_singleton_self _)

/-- The declaration of an item is found in the package, which has the given name, and the attributes of the
item are on it. -/
def Bears (a : Arena) (name : String) (package : Nat) (item : Item) : Prop :=
  ∃ type, type < a.size ∧ a.Finds package item.decl.name type ∧
    a.Wears type (item.attrs ++ item.decl.marks name)

theorem Bears.mono {name : String} {package : Nat} {item : Item} (h : a.Bears name package item)
    (hk : a.Keeps touched b)
    (hfinds : ∀ name type, a.Finds package name type → b.Finds package name type)
    (hattrs : ∀ attr n, a.IsAttr attr n → b.IsAttr attr n) : b.Bears name package item := by
  obtain ⟨type, hsize, hfound, hitem⟩ := h
  exact ⟨type, Nat.lt_of_lt_of_le hsize hk.size_le, hfinds _ _ hfound, hitem.mono hsize hk hattrs⟩

theorem Bears.quiet {name : String} {package : Nat} {item : Item} (h : a.Bears name package item)
    (hk : a.Keeps [] b) : b.Bears name package item :=
  h.mono hk (fun _ _ hfound => hfound.keep hk List.not_mem_nil) fun _ _ hattr =>
    hattr.keep hk fun _ hm => absurd hm List.not_mem_nil

end Arena

end SchemaLang
