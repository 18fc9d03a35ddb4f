import SchemaLang.Grammar.Script

/-!
# The grammar, as trees

A tree says how a list of tokens is derived. Its tokens are what it is written with; comments and
the end of the file are not among them.

```
script  = ('import' ('(' imp* ')' | imp))* (attr* decl)* attr*
imp     = String | Ident String
decl    = 'enum' Ident ['(' base ')'] '{' value (',' value)* '}'
        | ('table' | 'struct') Ident '{' (attr* Ident type ';')* attr* '}'
        | 'contract' Ident ['(' ref (',' ref)* ')'] '{' method* attr* '}'
value   = attr* Ident '(' ['-'] Int ')'
method  = attr* Ident '(' [slot (',' slot)*] ')' ['->' '(' slot (',' slot)* ')'] ';'
slot    = attr* type
type    = '[' [Int] ']' type | 'map' '[' type ']' type | scalar | ref
ref     = Ident ('.' Ident)*
attr    = '@' ref ['(' [Label arg (',' Label arg)* | arg (',' arg)*] ')']
arg     = operand ('|' operand)*
operand = Int | Float | String | Bool | ('-' | '+') (Int | Float) | ref
```

What the grammar asks for beyond the shape is `WellFormed`:

* a value of an enum fits the storage of the enum;
* the length of an array is between 1 and 65535;
* no element of an array or list is an array or list, and no key or value of a map is an array, list
  or map;
* the types of a script, the values of an enum, the fields of a table, the methods of a contract and
  the labels of an attribute have names of their own, the bases of a contract are written
  differently, and the imports have aliases of their own;
* a table has at most 65535 fields and a contract as many methods.
-/

namespace SchemaLang.Phrase

/-! ## Chains -/

/-- One or more items with a character between them. -/
structure Chain (α : Type) where
  first : α
  rest : List α

namespace Chain

variable {α : Type}

def items (chain : Chain α) : List α :=
  chain.first :: chain.rest

def tokens (separator : Char) (written : α → List TokenKind) (chain : Chain α) : List TokenKind :=
  written chain.first ++ chain.rest.flatMap fun item => .char separator :: written item

/-- Items that end with one form a chain, written with the separator after all but the last. -/
theorem exists_of_last (init : List α) (last : α) : ∃ chain : Chain α,
    chain.items = init ++ [last] ∧ ∀ separator written, chain.tokens separator written =
      (init.flatMap fun item => written item ++ [.char separator]) ++ written last := by
  induction init with
  | nil => exact ⟨⟨last, []⟩, rfl, fun _ _ => by simp [tokens]⟩
  | cons item init ih =>
    obtain ⟨chain, hitems, htokens⟩ := ih
    refine ⟨⟨item, chain.items⟩, congrArg _ hitems, fun separator written => ?_⟩
    simp only [List.flatMap_cons, List.append_assoc, ← htokens]
    simp [tokens, items]

theorem exists_last (chain : Chain α) : ∃ init last, chain.items = init ++ [last] ∧
    ∀ separator written, chain.tokens separator written =
      (init.flatMap fun item => written item ++ [.char separator]) ++ written last := by
  have hne : chain.items ≠ [] := List.cons_ne_nil _ _
  obtain ⟨other, hitems, htokens⟩ := exists_of_last chain.items.dropLast (chain.items.getLast hne)
  rw [List.dropLast_concat_getLast hne] at hitems
  obtain rfl : other = chain := by
    cases other
    cases chain
    simpa [items] using hitems
  exact ⟨_, _, (List.dropLast_concat_getLast hne).symm, htokens⟩

end Chain

/-! ## References, arguments and attributes -/

/-- `Ident ('.' Ident)*` -/
abbrev Ref := Chain String

namespace Ref

def tokens (ref : Ref) : List TokenKind :=
  Chain.tokens '.' (fun name => [.ident name]) ref

/-- The reference as it is written. -/
def dotted (ref : Ref) : String :=
  String.intercalate "." (Chain.items ref)

end Ref

inductive Number where
  | int (value : Int64)
  | float (value : Binary64)

def Number.token : Number → TokenKind
  | int value => .int value
  | float value => .float value

/-- `Int | Float | String | Bool | ('-' | '+') (Int | Float) | ref` -/
inductive Operand where
  | number (literal : Number)
  | string (value : String)
  | bool (value : Bool)
  | signed (negative : Bool) (literal : Number)
  | ref (path : Ref)

def Operand.tokens : Operand → List TokenKind
  | number literal => [literal.token]
  | string value => [.string value]
  | bool value => [.bool value]
  | signed negative literal => [.char (if negative then '-' else '+'), literal.token]
  | ref path => path.tokens

/-- `operand ('|' operand)*` -/
abbrev Arg := Chain Operand

def Arg.tokens (arg : Arg) : List TokenKind :=
  Chain.tokens '|' Operand.tokens arg

/-- `[Label arg (',' Label arg)* | arg (',' arg)*]` -/
inductive Args where
  | empty
  | labelled (args : Chain (String × Arg))
  | listed (args : Chain Arg)

/-- `Label arg` -/
def labelledTokens (arg : String × Arg) : List TokenKind :=
  .label arg.1 :: Arg.tokens arg.2

namespace Args

def tokens : Args → List TokenKind
  | empty => []
  | labelled args => args.tokens ',' labelledTokens
  | listed args => args.tokens ',' Arg.tokens

def WellFormed : Args → Prop
  | labelled args => (args.items.map (·.1)).Nodup
  | empty | listed _ => True

end Args

/-- `'@' ref ['(' args ')']` -/
structure Attr where
  type : Ref
  args : Option Args

namespace Attr

def tokens (attr : Attr) : List TokenKind :=
  .char '@' :: attr.type.tokens ++
    match attr.args with
    | some args => .char '(' :: args.tokens ++ [.char ')']
    | none => []

def WellFormed (attr : Attr) : Prop :=
  ∀ args ∈ attr.args, args.WellFormed

end Attr

/-! ## Types -/

/-- `'[' [Int] ']' type | 'map' '[' type ']' type | scalar | ref` -/
inductive TypeExpr where
  | array (length : Int64) (element : TypeExpr)
  | list (element : TypeExpr)
  | map (key value : TypeExpr)
  | scalar (word : {word : Keyword // word.category = .scalar})
  | ref (path : Ref)

namespace TypeExpr

def tokens : TypeExpr → List TokenKind
  | array length element => .char '[' :: .int length :: .char ']' :: element.tokens
  | list element => .char '[' :: .char ']' :: element.tokens
  | map key value =>
    .keyword .map :: .char '[' :: (key.tokens ++ .char ']' :: value.tokens)
  | scalar word => [.keyword word.1]
  | ref path => path.tokens

def isSequence : TypeExpr → Bool
  | array .. | list _ => true
  | _ => false

def isComposite : TypeExpr → Bool
  | array .. | list _ | map .. => true
  | _ => false

def WellFormed : TypeExpr → Prop
  | array length element =>
    (1 ≤ length.toInt ∧ length.toInt ≤ 65535) ∧ element.WellFormed ∧ element.isSequence = false
  | list element => element.WellFormed ∧ element.isSequence = false
  | map key value =>
    (key.WellFormed ∧ key.isComposite = false) ∧ value.WellFormed ∧ value.isComposite = false
  | scalar _ | ref _ => True

end TypeExpr

/-! ## Declarations -/

/-- `attr* Ident '(' ['-'] Int ')'` -/
structure Value where
  attrs : List Attr
  name : String
  negative : Bool
  size : Int64

namespace Value

def tokens (value : Value) : List TokenKind :=
  value.attrs.flatMap Attr.tokens ++ .ident value.name :: .char '(' ::
    ((if value.negative then [.char '-'] else []) ++ [.int value.size, .char ')'])

/-- The number that is written. -/
def number (value : Value) : Int :=
  if value.negative then -value.size.toInt else value.size.toInt

def WellFormed (base : EnumBase) (value : Value) : Prop :=
  (∀ attr ∈ value.attrs, attr.WellFormed) ∧ base.contains value.number

end Value

/-- `attr* Ident type ';'` -/
structure Field where
  attrs : List Attr
  name : String
  type : TypeExpr

namespace Field

def tokens (field : Field) : List TokenKind :=
  field.attrs.flatMap Attr.tokens ++ .ident field.name :: (field.type.tokens ++ [.char ';'])

def WellFormed (field : Field) : Prop :=
  (∀ attr ∈ field.attrs, attr.WellFormed) ∧ field.type.WellFormed

end Field

/-- `attr* type` -/
structure Slot where
  attrs : List Attr
  type : TypeExpr

namespace Slot

def tokens (slot : Slot) : List TokenKind :=
  slot.attrs.flatMap Attr.tokens ++ slot.type.tokens

def WellFormed (slot : Slot) : Prop :=
  (∀ attr ∈ slot.attrs, attr.WellFormed) ∧ slot.type.WellFormed

end Slot

/-- `slot (',' slot)*` -/
abbrev Slots := Chain Slot

def Slots.tokens (slots : Slots) : List TokenKind :=
  Chain.tokens ',' Slot.tokens slots

def Slots.WellFormed (slots : Slots) : Prop :=
  ∀ slot ∈ Chain.items slots, slot.WellFormed

/-- `[slots]` -/
def paramTokens : Option Slots → List TokenKind
  | some slots => slots.tokens
  | none => []

/-- `['->' '(' slots ')']` -/
def resultTokens : Option Slots → List TokenKind
  | some slots => .arrow :: .char '(' :: (slots.tokens ++ [.char ')'])
  | none => []

/-- `attr* Ident '(' [slots] ')' ['->' '(' slots ')'] ';'` -/
structure Method where
  attrs : List Attr
  name : String
  params : Option Slots
  results : Option Slots

namespace Method

def tokens (method : Method) : List TokenKind :=
  method.attrs.flatMap Attr.tokens ++ .ident method.name :: .char '(' ::
    (paramTokens method.params ++ .char ')' :: (resultTokens method.results ++ [.char ';']))

def WellFormed (method : Method) : Prop :=
  (∀ attr ∈ method.attrs, attr.WellFormed) ∧ (∀ slots ∈ method.params, slots.WellFormed) ∧
    ∀ slots ∈ method.results, slots.WellFormed

end Method

/-- `['(' base ')']` -/
def storageTokens : Option {word : Keyword // word.enumBase.isSome} → List TokenKind
  | some word => [.char '(', .keyword word.1, .char ')']
  | none => []

/-- The storage of an enum. -/
def storage : Option {word : Keyword // word.enumBase.isSome} → EnumBase
  | some word => word.1.enumBase.get word.2
  | none => .standard

/-- `['(' ref (',' ref)* ')']` -/
def baseTokens : Option (Chain Ref) → List TokenKind
  | some bases => .char '(' :: (bases.tokens ',' Ref.tokens ++ [.char ')'])
  | none => []

inductive Decl where
  /-- `'enum' Ident ['(' base ')'] '{' value (',' value)* '}'` -/
  | enum (name : String) (base : Option {word : Keyword // word.enumBase.isSome})
      (values : Chain Value)
  /-- `('table' | 'struct') Ident '{' field* attr* '}'` -/
  | table (isStruct : Bool) (name : String) (fields : List Field) (trailing : List Attr)
  /-- `'contract' Ident ['(' ref (',' ref)* ')'] '{' method* attr* '}'` -/
  | contract (name : String) (bases : Option (Chain Ref)) (methods : List Method)
      (trailing : List Attr)

namespace Decl

def name : Decl → String
  | enum name .. | table _ name .. | contract name .. => name

def tokens : Decl → List TokenKind
  | enum name base values =>
    .keyword .enum :: .ident name ::
      (storageTokens base ++ .char '\x7b' :: (values.tokens ',' Value.tokens ++ [.char '\x7d']))
  | table isStruct name fields trailing =>
    .keyword (if isStruct then .struct else .table) :: .ident name :: .char '\x7b' ::
      (fields.flatMap Field.tokens ++ (trailing.flatMap Attr.tokens ++ [.char '\x7d']))
  | contract name bases methods trailing =>
    .keyword .contract :: .ident name ::
      (baseTokens bases ++ .char '\x7b' ::
        (methods.flatMap Method.tokens ++ (trailing.flatMap Attr.tokens ++ [.char '\x7d'])))

def WellFormed : Decl → Prop
  | enum _ base values =>
    (∀ value ∈ values.items, value.WellFormed (storage base)) ∧
      (values.items.map Value.name).Nodup
  | table _ _ fields trailing =>
    (∀ field ∈ fields, field.WellFormed) ∧ (∀ attr ∈ trailing, attr.WellFormed) ∧
      (fields.map Field.name).Nodup ∧ fields.length ≤ 65535
  | contract _ bases methods trailing =>
    (∀ bases' ∈ bases, (bases'.items.map Ref.dotted).Nodup) ∧
      (∀ method ∈ methods, method.WellFormed) ∧ (∀ attr ∈ trailing, attr.WellFormed) ∧
      (methods.map Method.name).Nodup ∧ methods.length ≤ 65535

end Decl

/-! ## Scripts -/

/-- `String | Ident String` -/
structure Import where
  name : Option String
  path : String

namespace Import

def tokens (clause : Import) : List TokenKind :=
  (match clause.name with
    | some name => [.ident name]
    | none => []) ++ [.string clause.path]

/-- The name that the script has for the package. -/
def boundAs (clause : Import) : String :=
  clause.name.getD (Parse.aliasOf clause.path)

end Import

/-- `'import' ('(' imp* ')' | imp)` -/
inductive ImportStatement where
  | single (clause : Import)
  | group (clauses : List Import)

namespace ImportStatement

def tokens : ImportStatement → List TokenKind
  | single clause => .keyword .imports :: clause.tokens
  | group clauses =>
    .keyword .imports :: .char '(' :: (clauses.flatMap Import.tokens ++ [.char ')'])

def clauses : ImportStatement → List Import
  | single clause => [clause]
  | group clauses => clauses

end ImportStatement

/-- A declaration with the attributes before it. -/
structure Item where
  attrs : List Attr
  decl : Decl

namespace Item

def tokens (item : Item) : List TokenKind :=
  item.attrs.flatMap Attr.tokens ++ item.decl.tokens

def WellFormed (item : Item) : Prop :=
  (∀ attr ∈ item.attrs, attr.WellFormed) ∧ item.decl.WellFormed

end Item

/-- `statement* item* attr*` -/
structure Script where
  imports : List ImportStatement
  items : List Item
  trailing : List Attr

namespace Script

def tokens (script : Script) : List TokenKind :=
  script.imports.flatMap ImportStatement.tokens ++
    (script.items.flatMap Item.tokens ++ script.trailing.flatMap Attr.tokens)

/-- The packages that the script imports, with their aliases. -/
def clauses (script : Script) : List Import :=
  script.imports.flatMap ImportStatement.clauses

structure WellFormed (script : Script) : Prop where
  items : ∀ item ∈ script.items, item.WellFormed
  trailing : ∀ attr ∈ script.trailing, attr.WellFormed
  types : (script.items.map fun item => item.decl.name).Nodup
  aliases : (script.clauses.map Import.boundAs).Nodup

end Script

end SchemaLang.Phrase
