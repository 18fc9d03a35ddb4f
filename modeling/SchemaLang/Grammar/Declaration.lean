import SchemaLang.Grammar.TypeExpression

/-!
# Declarations

```
decl   = 'enum' Ident ['(' base ')'] '{' value (',' value)* '}'
       | ('table' | 'struct') Ident '{' (attr* Ident type ';')* attr* '}'
       | 'contract' Ident ['(' ref (',' ref)* ')'] '{' method* attr* '}'
value  = attr* Ident '(' ['-'] Int ')'
method = attr* Ident '(' [slots] ')' ['->' '(' slots ')'] ';'
slots  = attr* type (',' attr* type)*
```

A declaration enters its package as soon as its name is read, so that the second of two equal names
is the one reported.
-/

namespace SchemaLang.Parse

variable {σ : Type} (cx : ReadingContext σ)

/-- Enters a new declaration into the package, and ties the comments and attributes before it to
it. -/
def declare (name : String) (position : Position) (type : NodeId) : Parse σ Unit := do
  buildUnique .type name position fun arena => arena.declareType cx.script type
  attachComments type
  attachAttrs type

/-! ## Enums -/

/-- The storage of an enum. -/
def enumBase : Parse σ EnumBase := do
  if ← matchChar '(' then
    let token ← next
    let base :=
      match token.kind with
      | .keyword word => word.enumBase
      | _ => none
    match base with
    | some base =>
      expectChar ')'
      pure base
    | none => unexpected token "enum base type (byte, sbyte, int16, uint16, int32 or uint32)"
  else pure .standard

/-- One value of an enum, and whether another one follows. -/
def enumValue (enum : NodeId) (enumName : String) (base : EnumBase) : Parse σ Bool := do
  attributes cx
  let (name, position) ← expectIdent "enum value"
  expectChar '('
  let negative ← matchChar '-'
  let literal ← next
  match literal.kind with
  | .int size =>
    let value := if negative then -size else size
    if base.contains value.toInt then
      expectChar ')'
      let node ← buildUnique .enumValue name position fun arena =>
        arena.newEnumValue enum name value position
      attachAttrs node
      let more ← matchChar ','
      attachComments node
      pure more
    else failAt literal.position (.enumValueOutOfRange enumName value.toInt base)
  | _ => unexpected literal "integer"

/-- An enum, after its keyword. -/
def enumDeclaration : Parse σ Unit := do
  let (name, position) ← expectIdent "enum name"
  let base ← enumBase
  let enum ← build fun arena => arena.newEnum cx.script name base position
  declare cx name position enum
  expectChar '\x7b'
  repeatWhile (enumValue cx enum name base) cx.budget
  expectChar '\x7d'

/-! ## Tables -/

/-- Puts the struct marker on a table. -/
def markStruct (table : NodeId) (position : Position) : Parse σ Unit := do
  let type ← builtinRef cx Prelude.structMarker position
  let attr ← build fun arena => arena.newAttr cx.script type position
  change fun arena => arena.addAttr table attr

/-- One field of a table, if the next token after any attributes is a name. -/
def field (table : NodeId) : Parse σ Bool := do
  attributes cx
  if ← nextIsIdent then
    let (name, position) ← expectIdent "field name"
    let type ← typeExpression cx
    expectChar ';'
    if 65535 ≤ (← inspect fun arena => (arena.fieldsOf table).size) then
      failAt position .tooManyFields
    else
      let node ← buildUnique .field name position fun arena =>
        arena.newField table name type position
      attachComments node
      attachAttrs node
      pure true
  else pure false

/-- A table or a struct, after its keyword. -/
def tableDeclaration (isStruct : Bool) : Parse σ Unit := do
  let (name, position) ← expectIdent "table name"
  let table ← build fun arena => arena.newTable cx.script name position
  declare cx name position table
  if isStruct then markStruct cx table position
  expectChar '\x7b'
  repeatWhile (field cx table) cx.budget
  expectChar '\x7d'

/-! ## Contracts -/

/-- One base of a contract, and whether another one follows. -/
def baseContract (contract : NodeId) : Parse σ Bool := do
  let base ← typeRef cx
  let name ← inspect fun arena => arena.name base
  let position ← inspect fun arena => arena.position base
  buildUnique .base name position fun arena => arena.addBase contract base
  attachComments base
  matchChar ','

/-- One slot of a method, and whether another one follows. -/
def slot (method : NodeId) (isResult : Bool) : Parse σ Bool := do
  attributes cx
  let first ← peek
  let type ← typeExpression cx
  let node ← build fun arena =>
    if isResult then arena.newResult method type first.position
    else arena.newParam method type first.position
  attachAttrs node
  attachComments node
  matchChar ','

/-- The slots of a method. -/
def slots (method : NodeId) (isResult : Bool) : Parse σ Unit :=
  repeatWhile (slot cx method isResult) cx.budget

/-- The parameters and results of a method, up to the semicolon. -/
def signature (method : NodeId) : Parse σ Unit := do
  expectChar '('
  if !(← nextIs ')') then slots cx method false
  expectChar ')'
  let token ← peek
  if token.kind == .arrow then
    advance
    expectChar '('
    slots cx method true
    expectChar ')'
  expectChar ';'

/-- One method of a contract, if the next token after any attributes is a name. The method claims
its comments and attributes before its slots can. -/
def method (contract : NodeId) : Parse σ Bool := do
  attributes cx
  if ← nextIsIdent then
    let (name, position) ← expectIdent "method name"
    if 65535 ≤ (← inspect fun arena => arena.methodCount contract) then
      failAt position .tooManyMethods
    else
      let node ← buildUnique .method name position fun arena =>
        arena.newMethod contract name position
      attachAttrs node
      attachComments node
      signature cx node
      attachComments node
      pure true
  else pure false

/-- A contract, after its keyword. -/
def contractDeclaration : Parse σ Unit := do
  let (name, position) ← expectIdent "contract name"
  let contract ← build fun arena => arena.newContract cx.script name position
  declare cx name position contract
  if ← matchChar '(' then
    repeatWhile (baseContract cx contract) cx.budget
    expectChar ')'
  expectChar '\x7b'
  repeatWhile (method cx contract) cx.budget
  expectChar '\x7d'

end SchemaLang.Parse
