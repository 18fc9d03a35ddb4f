import SchemaLang.Grammar.Reading

/-!
# References, arguments and attributes

```
ref     = Ident ('.' Ident)*
attr    = '@' ref ['(' args ')']
args    = [Label arg (',' Label arg)* | arg (',' arg)*]
arg     = operand ('|' operand)*
operand = Int | Float | String | Bool | ('-' | '+') (Int | Float) | ref
```

The first token decides whether the arguments of an attribute are labelled.
-/

namespace SchemaLang.Parse

variable {σ : Type} (cx : ReadingContext σ)

/-! ## References -/

/-- The rest of a dotted path. -/
def pathTail : Nat → List String → Parse σ (List String)
  | 0, path => pure path
  | fuel + 1, path => do
    if ← matchChar '.' then
      let (name, _) ← expectIdent "type name"
      pathTail fuel (path ++ [name])
    else pure path

/-- A reference whose first name is taken already. -/
def finishRef (first : String) (position : Position) : Parse σ NodeId := do
  let path ← pathTail cx.budget [first]
  build fun arena => arena.newTypeRef cx.script path position

/-- A reference. -/
def typeRef : Parse σ NodeId := do
  let (first, position) ← expectIdent "type name"
  finishRef cx first position

/-! ## Arguments -/

/-- A number after a sign. -/
def signed (negative : Bool) (position : Position) : Parse σ NodeId := do
  let number ← next
  match number.kind with
  | .int value =>
    build fun arena => arena.newInt cx.script (if negative then -value else value) position
  | .float value =>
    build fun arena =>
      arena.newFloat cx.script (if negative then value.negate else value) position
  | _ => unexpected number "number"

/-- A literal or a reference. -/
def operand : Parse σ NodeId := do
  let token ← next
  let position := token.position
  match token.kind with
  | .int value => build fun arena => arena.newInt cx.script value position
  | .float value => build fun arena => arena.newFloat cx.script value position
  | .string value => build fun arena => arena.newString cx.script value position
  | .bool value => build fun arena => arena.newBool cx.script value position
  | .char c =>
    if c == '-' then signed cx true position
    else if c == '+' then signed cx false position
    else unexpected token "argument"
  | .ident first => finishRef cx first position
  | _ => unexpected token "argument"

/-- The rest of a chain of operands, grouped to the left. -/
def unionTail : Nat → NodeId → Parse σ NodeId
  | 0, value => pure value
  | fuel + 1, value => do
    let bar ← peek
    if bar.kind == .char '|' then
      advance
      let right ← operand cx
      let value ← build fun arena => arena.newUnion cx.script value right bar.position
      unionTail fuel value
    else pure value

/-- The value of an argument. -/
def argument : Parse σ NodeId := do
  let value ← operand cx
  unionTail cx cx.budget value

/-- One labelled argument, and whether another one follows. -/
def namedArgument (args : NodeId) : Parse σ Bool := do
  let label ← next
  match label.kind with
  | .label name =>
    let value ← argument cx
    buildUnique .argument name label.position fun arena => arena.insertNamedArg args name value
    let more ← matchChar ','
    attachComments value
    pure more
  | _ => unexpected label "argument label"

/-- One positional argument, and whether another one follows. -/
def positionalArgument (args : NodeId) : Parse σ Bool := do
  let value ← argument cx
  change fun arena => arena.pushArg args value
  let more ← matchChar ','
  attachComments value
  pure more

/-- The arguments of an attribute, if there are any. -/
def arguments : Parse σ (Option NodeId) := do
  let token ← peek
  match token.kind with
  | .char ')' => pure none
  | .label _ =>
    let args ← build fun arena => arena.newNamedArgs cx.script token.position
    repeatWhile (namedArgument cx args) cx.budget
    pure (some args)
  | _ =>
    let args ← build fun arena => arena.newArgs cx.script token.position
    repeatWhile (positionalArgument cx args) cx.budget
    pure (some args)

/-! ## Attributes -/

/-- One attribute, if the next token starts one. -/
def attr : Parse σ Bool := do
  let sign ← peek
  if sign.kind == .char '@' then
    advance
    let type ← typeRef cx
    let node ← build fun arena => arena.newAttr cx.script type sign.position
    if ← matchChar '(' then
      match ← arguments cx with
      | some args => change fun arena => arena.setAttrArgs node args
      | none => pure ()
      expectChar ')'
    attachComments node
    holdAttr node
    pure true
  else pure false

/-- Attributes, which wait for what follows. -/
def attributes : Parse σ Unit :=
  repeatWhile (attr cx) cx.budget

end SchemaLang.Parse
