import SchemaLang.Grammar.Script
import SchemaLang.Proofs.Token.Progress

/-!
# The metered grammar

Reading a script is written here a second time. Where a loop of `Parse` stops at the end of its budget,
and a type nested deeper than that is an error, the reading is cut off here and gives nothing at all. So
what it gives says that the budget was not met. The parts that have no loop are those of `Parse`.

An importer is a function, so every import is answered in the end.
-/

namespace SchemaLang

/-- A part of a reading, which may also be cut off. -/
abbrev Metered (σ : Type) := ExceptT Diagnostic (StateT (Reading σ) Option)

/-- How a step ends, and the state it leaves. -/
def outcome {ε σ α : Type} : EStateM.Result ε σ α → Except ε α × σ
  | .ok x s => (.ok x, s)
  | .error e s => (.error e, s)

namespace Metered

variable {σ α : Type}

/-- A part that is never cut off. -/
def once (m : Parse σ α) : Metered σ α :=
  fun r => some (outcome (m r))

def cutOff : Metered σ α :=
  fun _ => none

open Parse

/-! ## Loops -/

/-- Repeats a step on what it gives until it gives nothing. -/
def iterate (step : α → Metered σ (Option α)) : Nat → α → Metered σ α
  | 0, _ => cutOff
  | rounds + 1, x => do
    match ← step x with
    | some y => iterate step rounds y
    | none => pure x

/-- Repeats a step until it says no. -/
def loop (step : Metered σ Bool) (rounds : Nat) : Metered σ Unit :=
  iterate (fun _ => do
    if ← step then pure (some ()) else pure none) rounds ()

variable (cx : ReadingContext σ)

/-! ## References, arguments and attributes -/

/-- The next name of a dotted path. -/
def pathStep (path : List String) : Metered σ (Option (List String)) := do
  if ← once (matchChar '.') then
    let (name, _) ← once (expectIdent "type name")
    pure (some (path ++ [name]))
  else pure none

def finishRef (first : String) (position : Position) : Metered σ NodeId := do
  let path ← iterate pathStep cx.budget [first]
  once (build fun arena => arena.newTypeRef cx.script path position)

def typeRef : Metered σ NodeId := do
  let (first, position) ← once (expectIdent "type name")
  finishRef cx first position

def operand : Metered σ NodeId := do
  let token ← once next
  let position := token.position
  match token.kind with
  | .int value => once (build fun arena => arena.newInt cx.script value position)
  | .float value => once (build fun arena => arena.newFloat cx.script value position)
  | .string value => once (build fun arena => arena.newString cx.script value position)
  | .bool value => once (build fun arena => arena.newBool cx.script value position)
  | .char c =>
    if c == '-' then once (signed cx true position)
    else if c == '+' then once (signed cx false position)
    else once (unexpected token "argument")
  | .ident first => finishRef cx first position
  | _ => once (unexpected token "argument")

/-- The next operand of a chain. -/
def unionStep (value : NodeId) : Metered σ (Option NodeId) := do
  let bar ← once peek
  if bar.kind == .char '|' then
    once advance
    let right ← operand cx
    let value ← once (build fun arena => arena.newUnion cx.script value right bar.position)
    pure (some value)
  else pure none

def argument : Metered σ NodeId := do
  let value ← operand cx
  iterate (unionStep cx) cx.budget value

def namedArgument (args : NodeId) : Metered σ Bool := do
  let label ← once next
  match label.kind with
  | .label name =>
    let value ← argument cx
    once (buildUnique .argument name label.position fun arena => arena.insertNamedArg args name value)
    let more ← once (matchChar ',')
    once (attachComments value)
    pure more
  | _ => once (unexpected label "argument label")

def positionalArgument (args : NodeId) : Metered σ Bool := do
  let value ← argument cx
  once (change fun arena => arena.pushArg args value)
  let more ← once (matchChar ',')
  once (attachComments value)
  pure more

def arguments : Metered σ (Option NodeId) := do
  let token ← once peek
  if token.kind = .char ')' then pure none
  else
    match token.kind with
    | .label _ =>
      let args ← once (build fun arena => arena.newNamedArgs cx.script token.position)
      loop (namedArgument cx args) cx.budget
      pure (some args)
    | _ =>
      let args ← once (build fun arena => arena.newArgs cx.script token.position)
      loop (positionalArgument cx args) cx.budget
      pure (some args)

def attr : Metered σ Bool := do
  let sign ← once peek
  if sign.kind == .char '@' then
    once advance
    let type ← typeRef cx
    let node ← once (build fun arena => arena.newAttr cx.script type sign.position)
    if ← once (matchChar '(') then
      match ← arguments cx with
      | some args => once (change fun arena => arena.setAttrArgs node args)
      | none => pure ()
      once (expectChar ')')
    once (attachComments node)
    once (holdAttr node)
    pure true
  else pure false

def attributes : Metered σ Unit :=
  loop (attr cx) cx.budget

/-! ## Types -/

def typeWithin : Nat → Metered σ NodeId
  | 0 => cutOff
  | depth + 1 => do
    let token ← once next
    if token.kind = .char '[' then
      let length ← once arrayLength
      once (expectChar ']')
      let element ← typeWithin depth
      if ← once (inspect fun arena => (arena.kind element).isSequence) then
        once (failAt token.position (.nestedComposite .element))
      else
        match length with
        | some length =>
          once (build fun arena => arena.newArray cx.script length element token.position)
        | none => once (build fun arena => arena.newList cx.script element token.position)
    else
      match token.kind with
      | .keyword .map =>
        once (expectChar '[')
        let key ← typeWithin depth
        if ← once (inspect fun arena => (arena.kind key).isComposite) then
          once (failAt token.position (.nestedComposite .mapKey))
        else
          once (expectChar ']')
          let value ← typeWithin depth
          if ← once (inspect fun arena => (arena.kind value).isComposite) then
            once (failAt token.position (.nestedComposite .mapValue))
          else once (build fun arena => arena.newMap cx.script key value token.position)
      | .keyword word =>
        match word.typeName with
        | some name => once (builtinRef cx name token.position)
        | none => once (unexpected token "type")
      | .ident first => finishRef cx first token.position
      | _ => once (unexpected token "type")

def typeExpression : Metered σ NodeId :=
  typeWithin cx cx.budget

/-! ## Declarations -/

def enumValue (enum : NodeId) (enumName : String) (base : EnumBase) : Metered σ Bool := do
  attributes cx
  let (name, position) ← once (expectIdent "enum value")
  once (expectChar '(')
  let negative ← once (matchChar '-')
  let literal ← once next
  match literal.kind with
  | .int size =>
    let value := if negative then -size else size
    if base.contains value.toInt then
      once (expectChar ')')
      let node ← once (buildUnique .enumValue name position fun arena =>
        arena.newEnumValue enum name value position)
      once (attachAttrs node)
      let more ← once (matchChar ',')
      once (attachComments node)
      pure more
    else once (failAt literal.position (.enumValueOutOfRange enumName value.toInt base))
  | _ => once (unexpected literal "integer")

def enumDeclaration : Metered σ Unit := do
  let (name, position) ← once (expectIdent "enum name")
  let base ← once enumBase
  let enum ← once (build fun arena => arena.newEnum cx.script name base position)
  once (declare cx name position enum)
  once (expectChar '\x7b')
  loop (enumValue cx enum name base) cx.budget
  once (expectChar '\x7d')

def field (table : NodeId) : Metered σ Bool := do
  attributes cx
  if ← once nextIsIdent then
    let (name, position) ← once (expectIdent "field name")
    let type ← typeExpression cx
    once (expectChar ';')
    if 65535 ≤ (← once (inspect fun arena => (arena.fieldsOf table).size)) then
      once (failAt position .tooManyFields)
    else
      let node ← once (buildUnique .field name position fun arena =>
        arena.newField table name type position)
      once (attachComments node)
      once (attachAttrs node)
      pure true
  else pure false

def tableDeclaration (isStruct : Bool) : Metered σ Unit := do
  let (name, position) ← once (expectIdent "table name")
  let table ← once (build fun arena => arena.newTable cx.script name position)
  once (declare cx name position table)
  if isStruct then once (markStruct cx table position)
  once (expectChar '\x7b')
  loop (field cx table) cx.budget
  once (expectChar '\x7d')

def baseContract (contract : NodeId) : Metered σ Bool := do
  let base ← typeRef cx
  let name ← once (inspect fun arena => arena.name base)
  let position ← once (inspect fun arena => arena.position base)
  once (buildUnique .base name position fun arena => arena.addBase contract base)
  once (attachComments base)
  once (matchChar ',')

def slot (method : NodeId) (isResult : Bool) : Metered σ Bool := do
  attributes cx
  let first ← once peek
  let type ← typeExpression cx
  let node ← once (build fun arena =>
    if isResult then arena.newResult method type first.position
    else arena.newParam method type first.position)
  once (attachAttrs node)
  once (attachComments node)
  once (matchChar ',')

def slots (method : NodeId) (isResult : Bool) : Metered σ Unit :=
  loop (slot cx method isResult) cx.budget

def signature (method : NodeId) : Metered σ Unit := do
  once (expectChar '(')
  if !(← once (nextIs ')')) then slots cx method false
  once (expectChar ')')
  let token ← once peek
  if token.kind == .arrow then
    once advance
    once (expectChar '(')
    slots cx method true
    once (expectChar ')')
  once (expectChar ';')

def method (contract : NodeId) : Metered σ Bool := do
  attributes cx
  if ← once nextIsIdent then
    let (name, position) ← once (expectIdent "method name")
    if 65535 ≤ (← once (inspect fun arena => arena.methodCount contract)) then
      once (failAt position .tooManyMethods)
    else
      let node ← once (buildUnique .method name position fun arena =>
        arena.newMethod contract name position)
      once (attachAttrs node)
      once (attachComments node)
      signature cx node
      once (attachComments node)
      pure true
  else pure false

def contractDeclaration : Metered σ Unit := do
  let (name, position) ← once (expectIdent "contract name")
  let contract ← once (build fun arena => arena.newContract cx.script name position)
  once (declare cx name position contract)
  if ← once (matchChar '(') then
    loop (baseContract cx contract) cx.budget
    once (expectChar ')')
  once (expectChar '\x7b')
  loop (method cx contract) cx.budget
  once (expectChar '\x7d')

def declaration : Metered σ Bool := do
  attributes cx
  let token ← once next
  match token.kind with
  | .eof => pure false
  | .keyword .enum =>
    enumDeclaration cx
    pure true
  | .keyword .table =>
    tableDeclaration cx false
    pure true
  | .keyword .struct =>
    tableDeclaration cx true
    pure true
  | .keyword .contract =>
    contractDeclaration cx
    pure true
  | _ => once (unexpected token "declaration (enum, table, struct or contract)")

/-! ## Scripts -/

def importStatement : Metered σ Bool := do
  let token ← once peek
  if token.kind == .keyword .imports then
    once advance
    if ← once (matchChar '(') then
      loop (once (groupedImport cx)) cx.budget
      once (expectChar ')')
    else once (importClause cx)
    pure true
  else pure false

def script : Metered σ Unit := do
  loop (importStatement cx) cx.budget
  once (implicitImport cx)
  loop (declaration cx) cx.budget
  once (attachAttrs cx.script)
  once (attachAllComments cx.script)

/-- Reads a source into a script, with this many rounds for every loop and every way down a type. -/
def readScript (budget : Nat) (importer : Importer σ) (script : NodeId) (source : Text.Source) :
    Arena × σ → Option (Except Diagnostic Unit × (Arena × σ)) :=
  fun (arena, host) => do
    let file := arena.scriptFile script
    let lexing ← Lexing.readAll budget [] (.ofSource file source)
    let cx : ReadingContext σ :=
      { script := script
        file := file
        package := (arena.packageName? script).getD ""
        budget := budget
        importer := importer }
    let (result, reading) ← Metered.script cx ⟨Feed.ofLexing lexing, [], [], arena, host⟩
    pure (result, (reading.arena, reading.host))

end Metered

end SchemaLang
