import SchemaLang.Grammar.Argument
import SchemaLang.Prelude

/-!
# Types

```
type = '[' [Int] ']' type | 'map' '[' type ']' type | scalar | ref
```

The element of an array or list is no array or list; the key and the value of a map are neither
array, list nor map. The length of an array is between 1 and 65535.
-/

namespace SchemaLang.Parse

variable {σ : Type} (cx : ReadingContext σ)

/-- A reference to a type of the built-in package, as it is written in the package at hand. -/
def builtinRef (name : String) (position : Position) : Parse σ NodeId :=
  let path :=
    if cx.package == Prelude.packageName then [name] else [Prelude.packageName, name]
  build fun arena => arena.newTypeRef cx.script path position

/-- The length of an array, if the next token is a number. -/
def arrayLength : Parse σ (Option UInt16) := do
  let literal ← peek
  match literal.kind with
  | .int value =>
    advance
    if 1 ≤ value.toInt ∧ value.toInt ≤ 65535 then pure (some (UInt16.ofNat value.toInt.toNat))
    else failAt literal.position (.arrayLengthOutOfRange value.toInt)
  | _ => pure none

/-- A type, nested at most `fuel` deep. -/
def typeWithin : Nat → Parse σ NodeId
  | 0 => do
    let token ← next
    unexpected token "type"
  | fuel + 1 => do
    let token ← next
    match token.kind with
    | .char '[' =>
      let length ← arrayLength
      expectChar ']'
      let element ← typeWithin fuel
      if ← inspect fun arena => (arena.kind element).isSequence then
        failAt token.position (.nestedComposite .element)
      else
        match length with
        | some length =>
          build fun arena => arena.newArray cx.script length element token.position
        | none => build fun arena => arena.newList cx.script element token.position
    | .keyword .map =>
      expectChar '['
      let key ← typeWithin fuel
      if ← inspect fun arena => (arena.kind key).isComposite then
        failAt token.position (.nestedComposite .mapKey)
      else
        expectChar ']'
        let value ← typeWithin fuel
        if ← inspect fun arena => (arena.kind value).isComposite then
          failAt token.position (.nestedComposite .mapValue)
        else build fun arena => arena.newMap cx.script key value token.position
    | .keyword word =>
      match word.typeName with
      | some name => builtinRef cx name token.position
      | none => unexpected token "type"
    | .ident first => finishRef cx first token.position
    | _ => unexpected token "type"

/-- A type. Every level of nesting takes a token. -/
def typeExpression : Parse σ NodeId :=
  typeWithin cx cx.budget

end SchemaLang.Parse
