import SchemaLang.Grammar.Script
import SchemaLang.Proofs.Arena.Numbers
import SchemaLang.Proofs.Step

/-!
# Walking through the grammar

The grammar is put together from few steps: it looks at tokens and takes them, builds nodes, ties
comments and attributes to them, and fails. A property of parts of a reading that these steps have and
that goes over to what is put together (`Parse.Walks`) holds of every part, and with imports that have
it too, of the whole script (`Parse.Walks.script`). Where the steps have it that do not deal with
attributes (`Parse.Paces`), it holds of references, arguments and types.

What is known of a token when it is looked at goes along: a number that is built, or that a failure
reports, is that of such a token, perhaps with its sign changed (`Token.Counts`).
-/

namespace SchemaLang

/-- The number that a failure of the grammar reports. -/
def Cause.number? : Cause → Option Int
  | enumValueOutOfRange _ value _ => some value
  | arrayLengthOutOfRange length => some length
  | _ => none

/-- The number is that of an integer token with the property `T`, or its negative. -/
def Token.Counts (T : Token → Prop) (value : Int64) : Prop :=
  ∃ token, T token ∧ ∃ size, token.kind = .int size ∧ (value = size ∨ value = -size)

namespace Parse

variable {σ α β : Type}

/-- A property of parts of a reading that those of the grammar have which leave attributes alone, where the
tokens satisfy `T`. -/
structure Paces (T : Token → Prop) (P : {α : Type} → Parse σ α → Prop) : Prop where
  pure {α : Type} (x : α) : P (Pure.pure x)
  bind {α β : Type} {m : Parse σ α} {f : α → Parse σ β} : P m → (∀ x, P (f x)) → P (m >>= f)
  look {α : Type} {f : Token → Parse σ α} : (∀ token, T token → P (f token)) → P (peek >>= f)
  advance : P advance
  failAt {α : Type} (position : Position) {cause : Cause} (phase : cause.phase = .parse)
    (number : ∀ value, cause.number? = some value →
      ∃ size : Int64, Token.Counts T size ∧ value = size.toInt) :
    P (failAt position cause : Parse σ α)
  build {α : Type} {operation : Arena → α × Arena}
    (reckons : ∀ a : Arena, a.Reckons (Token.Counts T) (operation a).2) : P (build operation)
  inspect {α : Type} (query : Arena → α) : P (inspect query)
  attachComments (node : NodeId) : P (attachComments node)

/-- A property of parts of a reading that all those of the grammar have. -/
structure Walks (T : Token → Prop) (P : {α : Type} → Parse σ α → Prop) : Prop extends Paces T P where
  attachAllComments (node : NodeId) : P (attachAllComments node)
  holdAttr (attr : NodeId) : P (holdAttr attr)
  attachAttrs (node : NodeId) : P (attachAttrs node)

namespace Paces

variable {T : Token → Prop} {P : {α : Type} → Parse σ α → Prop} {cx : ReadingContext σ}

/-! ## Steps of a reading -/

theorem ite (_ : Paces T P) {c : Prop} [Decidable c] {m m' : Parse σ α} (h : P m) (h' : P m') :
    P (if c then m else m') := by
  split
  · exact h
  · exact h'

section

variable (w : Paces T P)

include w

theorem change {operation : Arena → Arena}
    (h : ∀ a : Arena, a.Reckons (Token.Counts T) (operation a)) : P (change operation) :=
  w.build h

theorem unexpected (token : Token) (expected : String) :
    P (unexpected token expected : Parse σ α) :=
  w.failAt _ rfl nofun

theorem buildUnique {operation : Arena → Except NodeId α × Arena} (what : Duplicate) (name : String)
    (position : Position) (h : ∀ a : Arena, a.Reckons (Token.Counts T) (operation a).2) :
    P (buildUnique what name position operation) := by
  refine w.bind (w.build h) fun result => ?_
  cases result with
  | ok value => exact w.pure value
  | error existing => exact w.bind (w.inspect _) fun first => w.failAt _ rfl nofun

theorem take {f : Token → Parse σ α} (h : ∀ token, T token → P (f token)) : P (next >>= f) := by
  have hnext : (next >>= f : Parse σ α) = peek >>= fun token => Parse.advance >>= fun _ => f token := by
    simp only [next, bind_assoc, pure_bind]
  rw [hnext]
  exact w.look fun token ht => w.bind w.advance fun _ => h token ht

theorem next : P (next : Parse σ Token) :=
  w.look fun _ _ => w.bind w.advance fun _ => w.pure _

theorem nextIs (c : Char) : P (nextIs c : Parse σ Bool) :=
  w.look fun _ _ => w.pure _

theorem matchChar (c : Char) : P (matchChar c : Parse σ Bool) :=
  w.bind (w.nextIs c) fun _ => w.ite (w.bind w.advance fun _ => w.pure _) (w.pure _)

theorem expectChar (c : Char) : P (expectChar c : Parse σ Unit) :=
  w.take fun _ _ => w.ite (w.pure _) (w.unexpected _ _)

theorem expectIdent (what : String) : P (expectIdent what : Parse σ (String × Position)) := by
  refine w.take fun token _ => ?_
  split
  · exact w.pure _
  · exact w.unexpected _ _

theorem expectString (what : String) : P (expectString what : Parse σ (String × Position)) := by
  refine w.take fun token _ => ?_
  split
  · exact w.pure _
  · exact w.unexpected _ _

theorem nextIsIdent : P (nextIsIdent : Parse σ Bool) := by
  refine w.look fun token _ => ?_
  split <;> exact w.pure _

theorem repeatWhile {step : Parse σ Bool} (h : P step) : ∀ fuel : Nat, P (repeatWhile step fuel)
  | 0 => w.pure ()
  | fuel + 1 => w.bind h fun _ => w.ite (repeatWhile h fuel) (w.pure ())

/-! ## References, arguments and attributes -/

theorem pathTail : ∀ (fuel : Nat) (path : List String), P (pathTail fuel path : Parse σ _)
  | 0, path => w.pure path
  | fuel + 1, _ => w.bind (w.matchChar '.') fun _ =>
    w.ite (w.bind (w.expectIdent _) fun _ => pathTail fuel _) (w.pure _)

theorem finishRef (first : String) (position : Position) : P (finishRef cx first position) :=
  w.bind (w.pathTail _ _) fun _ => w.build fun a => a.reckons_newTypeRef ..

theorem typeRef : P (typeRef cx) :=
  w.bind (w.expectIdent _) fun _ => w.finishRef _ _

/-- A literal that is no number. -/
theorem literal {kind : NodeKind} (position : Position) (h : kind.number? = none) :
    P (Parse.build fun arena => arena.alloc "" (some cx.script) position kind) :=
  w.build fun _ => .alloc _ _ _ fun _ hv => by rw [h] at hv; cases hv

/-- A number after a sign is that of a token, or its negative. -/
theorem signed (negative : Bool) (position : Position) : P (signed cx negative position) := by
  refine w.take fun number ht => ?_
  split
  · rename_i value hkind
    refine w.build fun a => a.reckons_newInt ⟨number, ht, value, hkind, ?_⟩ ..
    cases negative
    · exact Or.inl rfl
    · exact Or.inr rfl
  · exact w.literal _ rfl
  · exact w.unexpected _ _

theorem operand : P (operand cx) := by
  refine w.take fun token ht => ?_
  dsimp only
  split
  · rename_i value hkind
    exact w.build fun a => a.reckons_newInt ⟨token, ht, value, hkind, Or.inl rfl⟩ ..
  · exact w.literal _ rfl
  · exact w.literal _ rfl
  · exact w.literal _ rfl
  · exact w.ite (w.signed _ _) (w.ite (w.signed _ _) (w.unexpected _ _))
  · exact w.finishRef _ _
  · exact w.unexpected _ _

theorem unionTail : ∀ (fuel : Nat) (value : NodeId), P (unionTail cx fuel value)
  | 0, value => w.pure value
  | fuel + 1, value => by
    refine w.look fun bar _ => w.ite ?_ (w.pure value)
    refine w.bind w.advance fun _ => w.bind w.operand fun right => ?_
    refine w.bind (w.build fun a => ?_) fun union => unionTail fuel union
    exact (a.reckons_owner _ _ _ rfl).trans (.adopt ..)

theorem argument : P (argument cx) :=
  w.bind w.operand fun value => w.unionTail _ value

theorem namedArgument (args : NodeId) : P (namedArgument cx args) := by
  refine w.take fun label _ => ?_
  split
  · refine w.bind w.argument fun value => ?_
    refine w.bind (w.buildUnique _ _ _ fun a => a.reckons_insertNamedArg ..) fun _ => ?_
    refine w.bind (w.matchChar ',') fun more => ?_
    exact w.bind (w.attachComments value) fun _ => w.pure more
  · exact w.unexpected _ _

theorem positionalArgument (args : NodeId) : P (positionalArgument cx args) := by
  refine w.bind w.argument fun value => ?_
  refine w.bind (w.change fun a => a.reckons_pushArg ..) fun _ => ?_
  refine w.bind (w.matchChar ',') fun more => ?_
  exact w.bind (w.attachComments value) fun _ => w.pure more

theorem arguments : P (arguments cx) := by
  refine w.look fun token _ => ?_
  split
  · exact w.pure none
  · refine w.bind (w.literal _ rfl) fun args => ?_
    exact w.bind (w.repeatWhile (w.namedArgument args) _) fun _ => w.pure (some args)
  · refine w.bind (w.literal _ rfl) fun args => ?_
    exact w.bind (w.repeatWhile (w.positionalArgument args) _) fun _ => w.pure (some args)

/-! ## Types -/

theorem builtinRef (name : String) (position : Position) : P (builtinRef cx name position) :=
  w.build fun a => a.reckons_newTypeRef ..

theorem arrayLength : P (arrayLength : Parse σ (Option UInt16)) := by
  refine w.look fun literal ht => ?_
  split
  · rename_i value hkind
    refine w.bind w.advance fun _ => w.ite (w.pure _) (w.failAt _ rfl ?_)
    rintro _ ⟨⟩
    exact ⟨value, ⟨literal, ht, value, hkind, Or.inl rfl⟩, rfl⟩
  · exact w.pure none

theorem typeWithin : ∀ fuel : Nat, P (typeWithin cx fuel)
  | 0 => w.take fun _ _ => w.unexpected _ _
  | fuel + 1 => by
    have ih : P (Parse.typeWithin cx fuel) := typeWithin fuel
    refine w.take fun token _ => ?_
    split
    · refine w.bind w.arrayLength fun length => w.bind (w.expectChar ']') fun _ => ?_
      refine w.bind ih fun element => w.bind (w.inspect _) fun _ => ?_
      refine w.ite (w.failAt _ rfl nofun) ?_
      split
      · exact w.build fun a => a.reckons_owner _ _ _ rfl
      · exact w.build fun a => a.reckons_owner _ _ _ rfl
    · refine w.bind (w.expectChar '[') fun _ => w.bind ih fun key => ?_
      refine w.bind (w.inspect _) fun _ => w.ite (w.failAt _ rfl nofun) ?_
      refine w.bind (w.expectChar ']') fun _ => w.bind ih fun value => ?_
      refine w.bind (w.inspect _) fun _ => w.ite (w.failAt _ rfl nofun) (w.build fun a => ?_)
      exact (a.reckons_owner _ _ _ rfl).trans (.adopt ..)
    · split
      · exact w.builtinRef _ _
      · exact w.unexpected _ _
    · exact w.finishRef _ _
    · exact w.unexpected _ _

theorem typeExpression : P (typeExpression cx) :=
  w.typeWithin _

/-! ## Parts of declarations -/

theorem enumBase : P (enumBase : Parse σ EnumBase) := by
  refine w.bind (w.matchChar '(') fun _ => w.ite (w.take fun token _ => ?_) (w.pure _)
  dsimp only
  split
  · exact w.bind (w.expectChar ')') fun _ => w.pure _
  · exact w.unexpected _ _

theorem markStruct (table : NodeId) (position : Position) : P (markStruct cx table position) := by
  refine w.bind (w.builtinRef _ _) fun type => ?_
  refine w.bind (w.build fun a => a.reckons_newAttr ..) fun attr => ?_
  exact w.change fun a => .addAttr ..

theorem baseContract (contract : NodeId) : P (baseContract cx contract) := by
  refine w.bind w.typeRef fun base => w.bind (w.inspect _) fun name => ?_
  refine w.bind (w.inspect _) fun position => ?_
  refine w.bind (w.buildUnique _ _ _ fun a => a.reckons_addBase ..) fun _ => ?_
  exact w.bind (w.attachComments base) fun _ => w.matchChar ','

end

end Paces

namespace Walks

variable {T : Token → Prop} {P : {α : Type} → Parse σ α → Prop} {cx : ReadingContext σ}

section

variable (w : Walks T P)

include w

/-! ## Attributes -/

theorem attr : P (attr cx) := by
  have hrest : ∀ node : NodeId, P (do
      Parse.attachComments node
      Parse.holdAttr node
      Pure.pure true : Parse σ Bool) := fun node =>
    w.bind (w.attachComments node) fun _ => w.bind (w.holdAttr node) fun _ => w.pure true
  refine w.look fun sign _ => w.ite ?_ (w.pure false)
  refine w.bind w.advance fun _ => w.bind w.typeRef fun type => ?_
  refine w.bind (w.build fun a => a.reckons_newAttr ..) fun node => ?_
  refine w.bind (w.matchChar '(') fun opened => w.ite (w.bind w.arguments fun args => ?_) (hrest node)
  cases args with
  | none => exact w.bind (w.expectChar ')') fun _ => hrest node
  | some args =>
    refine w.bind (w.change fun a => a.reckons_setAttrArgs ..) fun _ => ?_
    exact w.bind (w.expectChar ')') fun _ => hrest node

theorem attributes : P (attributes cx) :=
  w.repeatWhile w.attr _

/-! ## Declarations -/

theorem declare (name : String) (position : Position) (type : NodeId) :
    P (declare cx name position type) :=
  w.bind (w.buildUnique _ _ _ fun a => a.reckons_declareType ..) fun _ =>
    w.bind (w.attachComments type) fun _ => w.attachAttrs type

/-- A body between braces. -/
theorem braced {body : Parse σ Unit} (h : P body) : P (do
    Parse.expectChar '\x7b'
    body
    Parse.expectChar '\x7d' : Parse σ Unit) :=
  w.bind (w.expectChar '\x7b') fun _ => w.bind h fun _ => w.expectChar '\x7d'

/-- The value of an enum is that of a token, or its negative. -/
theorem enumValue (enum : NodeId) (enumName : String) (base : EnumBase) :
    P (enumValue cx enum enumName base) := by
  refine w.bind w.attributes fun _ => w.bind (w.expectIdent _) fun ident => ?_
  refine w.bind (w.expectChar '(') fun _ => w.bind (w.matchChar '-') fun negative => ?_
  refine w.take fun literal ht => ?_
  split
  · rename_i size hkind
    dsimp only
    have hcounts : Token.Counts T (if negative = true then -size else size) := by
      refine ⟨literal, ht, size, hkind, ?_⟩
      cases negative
      · exact Or.inl rfl
      · exact Or.inr rfl
    refine w.ite ?_ (w.failAt _ rfl ?_)
    · refine w.bind (w.expectChar ')') fun _ => ?_
      refine w.bind (w.buildUnique _ _ _ fun a => a.reckons_newEnumValue hcounts ..) fun node => ?_
      refine w.bind (w.attachAttrs node) fun _ => w.bind (w.matchChar ',') fun more => ?_
      exact w.bind (w.attachComments node) fun _ => w.pure more
    · rintro _ ⟨⟩
      exact ⟨_, hcounts, rfl⟩
  · exact w.unexpected _ _

theorem enumDeclaration : P (enumDeclaration cx) := by
  refine w.bind (w.expectIdent _) fun ident => w.bind w.enumBase fun base => ?_
  refine w.bind (w.build fun _ => .alloc _ _ _ nofun) fun enum => ?_
  refine w.bind (w.declare _ _ enum) fun _ => ?_
  exact w.braced (w.repeatWhile (w.enumValue enum _ base) _)

theorem field (table : NodeId) : P (field cx table) := by
  refine w.bind w.attributes fun _ => w.bind w.nextIsIdent fun _ => w.ite ?_ (w.pure false)
  refine w.bind (w.expectIdent _) fun ident => w.bind w.typeExpression fun type => ?_
  refine w.bind (w.expectChar ';') fun _ => w.bind (w.inspect _) fun _ => ?_
  refine w.ite (w.failAt _ rfl nofun) ?_
  refine w.bind (w.buildUnique _ _ _ fun a => a.reckons_newField ..) fun node => ?_
  exact w.bind (w.attachComments node) fun _ => w.bind (w.attachAttrs node) fun _ => w.pure true

theorem tableDeclaration (isStruct : Bool) : P (tableDeclaration cx isStruct) := by
  have hbody : ∀ table, P (do
      Parse.expectChar '\x7b'
      Parse.repeatWhile (Parse.field cx table) cx.budget
      Parse.expectChar '\x7d') := fun table => w.braced (w.repeatWhile (w.field table) _)
  refine w.bind (w.expectIdent _) fun ident => ?_
  refine w.bind (w.build fun _ => .alloc _ _ _ nofun) fun table => ?_
  refine w.bind (w.declare _ _ table) fun _ => w.ite ?_ (hbody table)
  exact w.bind (w.markStruct table _) fun _ => hbody table

theorem slot (method : NodeId) (isResult : Bool) : P (slot cx method isResult) := by
  refine w.bind w.attributes fun _ => w.look fun first _ => w.bind w.typeExpression fun type => ?_
  refine w.bind (w.build fun a => ?_) fun node => ?_
  · cases isResult
    · exact a.reckons_newParam ..
    · exact a.reckons_newResult ..
  · refine w.bind (w.attachAttrs node) fun _ => w.bind (w.attachComments node) fun _ => ?_
    exact w.matchChar ','

theorem signature (method : NodeId) : P (signature cx method) := by
  have hslots : ∀ isResult, P (slots cx method isResult) := fun isResult =>
    w.repeatWhile (w.slot method isResult) _
  have hresults : P (do
      Parse.expectChar ')'
      let token ← peek
      if token.kind == .arrow then
        Parse.advance
        Parse.expectChar '('
        slots cx method true
        Parse.expectChar ')'
      Parse.expectChar ';' : Parse σ Unit) := by
    refine w.bind (w.expectChar ')') fun _ => w.look fun token _ => w.ite ?_ (w.expectChar ';')
    refine w.bind w.advance fun _ => w.bind (w.expectChar '(') fun _ => ?_
    refine w.bind (hslots true) fun _ => w.bind (w.expectChar ')') fun _ => ?_
    exact w.expectChar ';'
  refine w.bind (w.expectChar '(') fun _ => w.bind (w.nextIs ')') fun closed => ?_
  exact w.ite (w.bind (hslots false) fun _ => hresults) hresults

theorem method (contract : NodeId) : P (method cx contract) := by
  refine w.bind w.attributes fun _ => w.bind w.nextIsIdent fun _ => w.ite ?_ (w.pure false)
  refine w.bind (w.expectIdent _) fun ident => w.bind (w.inspect _) fun _ => ?_
  refine w.ite (w.failAt _ rfl nofun) ?_
  refine w.bind (w.buildUnique _ _ _ fun a => a.reckons_newMethod ..) fun node => ?_
  refine w.bind (w.attachAttrs node) fun _ => w.bind (w.attachComments node) fun _ => ?_
  refine w.bind (w.signature node) fun _ => w.bind (w.attachComments node) fun _ => ?_
  exact w.pure true

theorem contractDeclaration : P (contractDeclaration cx) := by
  have hbody : ∀ contract, P (do
      Parse.expectChar '\x7b'
      Parse.repeatWhile (Parse.method cx contract) cx.budget
      Parse.expectChar '\x7d') := fun contract => w.braced (w.repeatWhile (w.method contract) _)
  refine w.bind (w.expectIdent _) fun ident => ?_
  refine w.bind (w.build fun _ => .alloc _ _ _ nofun) fun contract => ?_
  refine w.bind (w.declare _ _ contract) fun _ => w.bind (w.matchChar '(') fun _ => ?_
  refine w.ite ?_ (hbody contract)
  refine w.bind (w.repeatWhile (w.baseContract contract) _) fun _ => ?_
  exact w.bind (w.expectChar ')') fun _ => hbody contract

/-- What comes after the keyword of a declaration. -/
theorem declared {m : Parse σ Unit} (h : P m) : P (do m; Pure.pure true) :=
  w.bind h fun _ => w.pure true

theorem declaration : P (declaration cx) := by
  refine w.bind w.attributes fun _ => w.take fun token _ => ?_
  split
  · exact w.pure false
  · exact w.declared w.enumDeclaration
  · exact w.declared (w.tableDeclaration false)
  · exact w.declared (w.tableDeclaration true)
  · exact w.declared w.contractDeclaration
  · exact w.unexpected _ _

end

/-! ## Imports and the whole script -/

section

variable (w : Walks T P) (himport : ∀ path position, P (importPackage cx path position))

include w himport

theorem importClause : P (importClause cx) := by
  have hrest : ∀ (name path : String) (position : Position), P (do
      let package ← importPackage cx path position
      let node ← bindImport cx name package position
      Parse.attachComments node) := fun name path position =>
    w.bind (himport path position) fun package =>
      w.bind (w.buildUnique _ _ _ fun a => a.reckons_newPackageRef ..) fun node =>
        w.attachComments node
  refine w.take fun token _ => ?_
  split
  · exact hrest ..
  · exact w.bind (w.expectString _) fun _ => hrest ..
  · exact w.bind (w.unexpected _ _) fun _ => hrest ..

theorem groupedImport : P (groupedImport cx) :=
  w.bind (w.nextIs ')') fun _ => w.ite (w.pure false)
    (w.bind (w.importClause himport) fun _ => w.pure true)

theorem importStatement : P (importStatement cx) := by
  refine w.look fun token _ => w.ite ?_ (w.pure false)
  refine w.bind w.advance fun _ => w.bind (w.matchChar '(') fun _ => w.ite ?_ ?_
  · refine w.bind (w.repeatWhile (w.groupedImport himport) _) fun _ => ?_
    exact w.bind (w.expectChar ')') fun _ => w.pure true
  · exact w.bind (w.importClause himport) fun _ => w.pure true

theorem implicitImport : P (implicitImport cx) := by
  refine w.bind (w.inspect _) fun bound => w.ite ?_ (w.pure _)
  refine w.bind (himport _ _) fun package => ?_
  exact w.bind (w.buildUnique _ _ _ fun a => a.reckons_newPackageRef ..) fun _ => w.pure _

theorem script : P (script cx) := by
  refine w.bind (w.repeatWhile (w.importStatement himport) _) fun _ => ?_
  refine w.bind (w.implicitImport himport) fun _ => ?_
  refine w.bind (w.repeatWhile w.declaration _) fun _ => ?_
  exact w.bind (w.attachAttrs _) fun _ => w.attachAllComments _

end

end Walks

end Parse

end SchemaLang
