import SchemaLang.Proofs.Grammar.Imports

/-!
# Readings with different hosts

Only imports are answered by the host. So reading a script does the same with two hosts that give
the same answers to the strings of the script, and to the name of the built-in package
(`agrees_readFile`).

* `Feed.Strings`: the strings that may come.
* `Parse.Told`: the state in which the hosts give the same answers.
-/

namespace SchemaLang

open Arena

/-! ## The strings of a feed -/

/-- All strings of the feed satisfy `P`. -/
def Feed.Strings (P : String → Prop) : Feed → Prop
  | more _ token rest => (∀ value, token.kind = .string value → P value) ∧ rest.Strings P
  | _ => True

theorem Feed.Spells.strings {P : String → Prop} {feed : Feed} {kinds : List TokenKind}
    (h : feed.Spells kinds) (hp : ∀ value, .string value ∈ kinds → P value) : feed.Strings P := by
  induction h with
  | done => trivial
  | broken => trivial
  | more hkind _ _ ih =>
    refine ⟨fun value hvalue => hp value ?_, ih fun value hvalue => hp value ?_⟩
    · rw [← hkind, hvalue]
      exact List.mem_cons_self ..
    · exact List.mem_cons_of_mem _ hvalue

variable {σ α β : Type} {importer : Importer σ} {p : Nat}

/-- The context with another host. -/
def ReadingContext.answeredBy (cx : ReadingContext σ) (importer : Importer σ) : ReadingContext σ :=
  { cx with importer := importer }

namespace Parse

/-! ## Declarations import nothing -/

section

variable (cx : ReadingContext σ) (importer : Importer σ)

theorem finishRef_answeredBy : finishRef (cx.answeredBy importer) = finishRef cx := rfl

theorem operand_answeredBy : operand (cx.answeredBy importer) = operand cx := by
  simp only [operand, finishRef_answeredBy]
  rfl

theorem unionTail_answeredBy (fuel : Nat) (value : NodeId) :
    unionTail (cx.answeredBy importer) fuel value = unionTail cx fuel value := by
  induction fuel generalizing value with
  | zero => rfl
  | succ fuel ih =>
    simp only [unionTail, operand_answeredBy, ih]
    rfl

theorem attributes_answeredBy : attributes (cx.answeredBy importer) = attributes cx := by
  have hargument : argument (cx.answeredBy importer) = argument cx := by
    simp only [argument, operand_answeredBy, unionTail_answeredBy]
    rfl
  have hargs : arguments (cx.answeredBy importer) = arguments cx := by
    simp only [arguments, namedArgument, positionalArgument, hargument]
    rfl
  have hattr : attr (cx.answeredBy importer) = attr cx := by
    simp only [attr, typeRef, finishRef_answeredBy, hargs]
    rfl
  rw [attributes, hattr]
  rfl

theorem typeExpression_answeredBy :
    typeExpression (cx.answeredBy importer) = typeExpression cx := by
  have hwithin : ∀ fuel, typeWithin (cx.answeredBy importer) fuel = typeWithin cx fuel := by
    intro fuel
    induction fuel with
    | zero => rfl
    | succ fuel ih =>
      simp only [typeWithin, ih, finishRef_answeredBy]
      rfl
  exact hwithin cx.budget

theorem enumDeclaration_answeredBy :
    enumDeclaration (cx.answeredBy importer) = enumDeclaration cx := by
  simp only [enumDeclaration, enumValue, attributes_answeredBy]
  rfl

theorem tableDeclaration_answeredBy (isStruct : Bool) :
    tableDeclaration (cx.answeredBy importer) isStruct = tableDeclaration cx isStruct := by
  simp only [tableDeclaration, field, attributes_answeredBy, typeExpression_answeredBy]
  rfl

theorem contractDeclaration_answeredBy :
    contractDeclaration (cx.answeredBy importer) = contractDeclaration cx := by
  simp only [contractDeclaration, baseContract, typeRef, method, signature, slots, slot,
    attributes_answeredBy, typeExpression_answeredBy, finishRef_answeredBy]
  rfl

theorem declaration_answeredBy : declaration (cx.answeredBy importer) = declaration cx := by
  simp only [declaration, attributes_answeredBy, enumDeclaration_answeredBy,
    tableDeclaration_answeredBy, contractDeclaration_answeredBy]

end

/-! ## Steps that leave the strings alone -/

variable {P : String → Prop} {r r' : Reading σ}

/-- The step changes the feed and the waiting comments only, and no string comes that did not. -/
def Sifts (m : Parse σ α) : Prop :=
  Quiet m ∧ ∀ (P : String → Prop) (r r' : Reading σ) (x : α), r.feed.Strings P → m r = .ok x r' →
    r'.feed.Strings P

theorem Sifts.bind {m : Parse σ α} {f : α → Parse σ β} (h : Sifts m) (hf : ∀ x, Sifts (f x)) :
    Sifts (m >>= f) := by
  refine ⟨h.1.bind fun x => (hf x).1, fun P r r' y hr hrun => ?_⟩
  obtain ⟨x, r₁, hx, hy⟩ := of_bind_ok hrun
  exact (hf x).2 P r₁ r' y (h.2 P r r₁ x hr hx) hy

theorem Sifts.pure (x : α) : Sifts (Pure.pure x : Parse σ α) :=
  ⟨.pure x, fun _ _ _ _ hr hrun => by cases hrun; exact hr⟩

theorem sifts_unexpected (token : Token) (expected : String) :
    Sifts (unexpected token expected : Parse σ α) :=
  ⟨quiet_unexpected _ _, fun _ _ _ _ _ hrun => by cases hrun⟩

theorem sifts_peek : Sifts (peek : Parse σ Token) := by
  refine ⟨quiet_peek, fun P r r' token hr hrun => ?_⟩
  obtain ⟨feed, comments, attrs, arena, host⟩ := r
  unfold peek at hrun
  cases feed with
  | more leading token rest =>
    cases leading with
    | nil => cases hrun; exact hr
    | cons comment others => cases hrun; exact hr
  | done leading position => cases hrun; exact hr
  | broken failure => cases hrun

theorem sifts_advance : Sifts (advance : Parse σ Unit) := by
  refine ⟨quiet_advance, fun P r r' token hr hrun => ?_⟩
  obtain ⟨feed, comments, attrs, arena, host⟩ := r
  cases feed with
  | more leading token rest => cases hrun; exact hr.2
  | done leading position => cases hrun; exact hr
  | broken failure => cases hrun; exact hr

theorem sifts_nextIs (c : Char) : Sifts (nextIs c : Parse σ Bool) :=
  sifts_peek.bind fun _ => .pure _

theorem sifts_matchChar (c : Char) : Sifts (matchChar c : Parse σ Bool) := by
  refine (sifts_nextIs c).bind fun found => ?_
  split
  · exact sifts_advance.bind fun _ => .pure _
  · exact .pure _

theorem sifts_next : Sifts (next : Parse σ Token) :=
  sifts_peek.bind fun _ => sifts_advance.bind fun _ => .pure _

theorem sifts_expectChar (c : Char) : Sifts (expectChar c : Parse σ Unit) := by
  refine sifts_next.bind fun token => ?_
  split
  · exact .pure _
  · exact sifts_unexpected ..

theorem sifts_expectString (what : String) :
    Sifts (expectString what : Parse σ (String × Position)) := by
  refine sifts_next.bind fun token => ?_
  split
  · exact .pure _
  · exact sifts_unexpected ..

/-- The strings that are taken are strings of the feed. -/
theorem string_of_next {token : Token} {value : String} (hr : r.feed.Strings P)
    (hrun : next r = .ok token r') (hkind : token.kind = .string value) : P value := by
  obtain ⟨feed, comments, attrs, arena, host⟩ := r
  cases feed with
  | more leading token' rest =>
    cases leading with
    | nil => cases hrun; exact hr.1 value hkind
    | cons comment others => cases hrun; exact hr.1 value hkind
  | done leading position => cases hrun; cases hkind
  | broken failure => cases hrun

theorem string_of_expectString {what : String} {value : String × Position}
    (hr : r.feed.Strings P) (hrun : expectString what r = .ok value r') : P value.1 := by
  obtain ⟨⟨kind, position⟩, r₁, hnext, hrun⟩ := of_bind_ok hrun
  cases kind with
  | string text =>
    cases hrun
    exact string_of_next hr hnext rfl
  | _ => cases hrun

/-! ## Imports -/

/-- The other host answers as this one does to what satisfies `P`. -/
def Echoes {importer : Importer σ} (hosting : Hosting importer p) (P : String → Prop)
    (other : Importer σ) : Prop :=
  ∀ path, P path → ∀ (position : Position) (a : Arena) (host : σ), hosting.Inv a host →
    other path position (a, host) = importer path position (a, host)

/-- The state in which the hosts give the same answers. -/
structure Told {cx : ReadingContext σ} (hosting : Hosting cx.importer p) (P : String → Prop)
    (r : Reading σ) : Prop where
  stands : Stands hosting r []
  strings : r.feed.Strings P

variable {cx : ReadingContext σ} {hosting : Hosting cx.importer p} {other : Importer σ}

theorem Told.sifts {m : Parse σ α} (h : Told hosting P r) (hm : Sifts m) :
    Agrees m m r fun _ r' => Told hosting P r' := by
  refine .same fun x r' hrun => ⟨?_, hm.2 P r r' x h.strings hrun⟩
  obtain ⟨feed, comments, ⟨y, hy⟩ | ⟨e, he⟩⟩ := hm.1 r
  · cases hy.symm.trans hrun
    exact h.stands.retake feed comments
  · cases he.symm.trans hrun

theorem agrees_importPackage {path : String} (position : Position) (h : Told hosting P r)
    (he : Echoes hosting P other) (hp : P path) :
    Agrees (importPackage (cx.answeredBy other) path position) (importPackage cx path position) r
      fun q r' => Told hosting P r' ∧ (r'.arena.kind q).level = 8 ∧ hosting.served r'.host q := by
  refine ⟨?_, fun q r' hrun => ?_⟩
  · unfold importPackage ReadingContext.answeredBy
    dsimp only
    rw [he path hp position r.arena r.host h.stands.inv]
  · obtain ⟨-, hstands, hlevel⟩ := (leads_importPackage h.stands).ok hrun
    refine ⟨⟨hstands, ?_⟩, hlevel⟩
    unfold importPackage at hrun
    dsimp only at hrun
    split at hrun
    · cases hrun
      exact h.strings
    · cases hrun

theorem feed_of_buildUnique {what : Duplicate} {name : String} {position : Position}
    {operation : Arena → Except NodeId α × Arena} {x : α}
    (hrun : buildUnique what name position operation r = .ok x r') : r'.feed = r.feed := by
  obtain ⟨value, r₁, hbuild, hrun⟩ := of_bind_ok hrun
  rw [build_eq] at hbuild
  cases hbuild
  cases hvalue : (operation r.arena).1 with
  | ok value =>
    rw [hvalue] at hrun
    cases hrun
    rfl
  | error existing =>
    rw [hvalue] at hrun
    cases hrun

/-- An import is answered, bound and commented. -/
theorem agrees_import (name : String) {path : String} (position : Position)
    (h : Told hosting P r) (he : Echoes hosting P other) (hp : P path) :
    Agrees (do
        let package ← importPackage (cx.answeredBy other) path position
        bindImport (cx.answeredBy other) name package position)
      (do
        let package ← importPackage cx path position
        bindImport cx name package position) r
      fun n r' => Told hosting P r' ∧ r'.arena.Own cx.script n := by
  refine (agrees_importPackage position h he hp).bind fun q r₁ h₁ => ?_
  refine .same fun n r₂ hrun => ?_
  obtain ⟨-, hstands, hown⟩ := (leads_bindImport h₁.1.stands h₁.2.1 h₁.2.2).ok hrun
  exact ⟨⟨hstands, feed_of_buildUnique hrun ▸ h₁.1.strings⟩, hown⟩

theorem agrees_attachComments {node : NodeId} (h : Told hosting P r)
    (hn : r.arena.Own cx.script node) :
    Agrees (attachComments node) (attachComments node) r fun _ r' => Told hosting P r' := by
  refine .same fun _ r' hrun => ⟨((leads_attachComments h.stands (Or.inr hn)
    (Nat.zero_le _)).ok hrun).2, ?_⟩
  obtain ⟨token, r₁, hpeek, hrun⟩ := of_bind_ok hrun
  cases hrun
  exact sifts_peek.2 P r r₁ token h.strings hpeek

theorem agrees_importClause (h : Told hosting P r) (he : Echoes hosting P other) :
    Agrees (importClause (cx.answeredBy other)) (importClause cx) r fun _ r' =>
      Told hosting P r' := by
  have hrest : ∀ (name path : String) (position : Position) (r₁ : Reading σ), P path →
      Told hosting P r₁ → Agrees (do
        let package ← importPackage (cx.answeredBy other) path position
        let node ← bindImport (cx.answeredBy other) name package position
        attachComments node)
      (do
        let package ← importPackage cx path position
        let node ← bindImport cx name package position
        attachComments node) r₁ fun _ r' => Told hosting P r' := by
    intro name path position r₁ hp h₁
    have himport := agrees_import name position h₁ he hp
    simp only [← bind_assoc]
    exact himport.bind fun n r₂ h₂ => agrees_attachComments h₂.1 h₂.2
  have hnext : Agrees next next r fun token r' => Told hosting P r' ∧
      ∀ value, token.kind = .string value → P value :=
    .same fun token r' hrun => ⟨(h.sifts sifts_next).2 token r' hrun, fun value =>
      string_of_next h.strings hrun⟩
  refine hnext.bind fun token r₁ h₁ => ?_
  obtain ⟨kind, position⟩ := token
  cases kind with
  | string path => exact hrest _ _ _ _ (h₁.2 path rfl) h₁.1
  | ident name =>
    have hpath : Agrees (expectString "import path") (expectString "import path") r₁
        fun value r' => Told hosting P r' ∧ P value.1 :=
      .same fun value r' hrun => ⟨(h₁.1.sifts (sifts_expectString _)).2 value r' hrun,
        string_of_expectString h₁.1.strings hrun⟩
    simp only [pure_bind]
    exact hpath.bind fun value r₂ h₂ => hrest _ _ _ _ h₂.2 h₂.1
  | _ => exact .same fun _ _ hrun => by cases hrun

theorem agrees_groupedImport (h : Told hosting P r) (he : Echoes hosting P other) :
    Agrees (groupedImport (cx.answeredBy other)) (groupedImport cx) r fun _ r' =>
      Told hosting P r' := by
  refine (h.sifts (sifts_nextIs _)).bind fun closed r₁ h₁ => ?_
  split
  · exact h₁.sifts (.pure _)
  · exact (agrees_importClause h₁ he).bind fun _ r₂ h₂ => h₂.sifts (.pure _)

theorem agrees_repeatWhile {step step' : Parse σ Bool} {I : Reading σ → Prop}
    (h : ∀ r, I r → Agrees step step' r fun _ r' => I r') :
    ∀ (fuel : Nat) (r : Reading σ), I r →
      Agrees (repeatWhile step fuel) (repeatWhile step' fuel) r fun _ r' => I r'
  | 0, r, hi => .same fun _ _ hrun => by cases hrun; exact hi
  | fuel + 1, r, hi => by
    refine (h r hi).bind fun more r' hi' => ?_
    split
    · exact agrees_repeatWhile h fuel r' hi'
    · exact .same fun _ _ hrun => by cases hrun; exact hi'

theorem agrees_importStatement (h : Told hosting P r) (he : Echoes hosting P other) :
    Agrees (importStatement (cx.answeredBy other)) (importStatement cx) r fun _ r' =>
      Told hosting P r' := by
  refine (h.sifts sifts_peek).bind fun token r₁ h₁ => ?_
  dsimp only
  split
  · refine (h₁.sifts sifts_advance).bind fun _ r₂ h₂ => ?_
    refine (h₂.sifts (sifts_matchChar _)).bind fun grouped r₃ h₃ => ?_
    split
    · refine (agrees_repeatWhile (fun _ hi => agrees_groupedImport hi he) cx.budget r₃ h₃).bind
        fun _ r₄ h₄ => ?_
      exact (h₄.sifts (sifts_expectChar _)).bind fun _ r₅ h₅ => h₅.sifts (.pure _)
    · exact (agrees_importClause h₃ he).bind fun _ r₄ h₄ => h₄.sifts (.pure _)
  · exact h₁.sifts (.pure _)

theorem agrees_implicitImport (h : Told hosting P r) (he : Echoes hosting P other)
    (hp : P Prelude.packageName) :
    Agrees (implicitImport (cx.answeredBy other)) (implicitImport cx) r fun _ r' =>
      Told hosting P r' := by
  refine Agrees.bind (P := fun _ r' => Told hosting P r')
    (.same fun _ _ hrun => by cases hrun; exact h) fun bound r₁ h₁ => ?_
  by_cases hcond : (cx.package != Prelude.packageName && !bound) = true
  · have hcond' : ((cx.answeredBy other).package != Prelude.packageName && !bound) = true := hcond
    rw [if_pos hcond, if_pos hcond']
    have himport := agrees_import Prelude.packageName ⟨cx.file, 1, 1⟩ h₁ he hp
    simp only [← bind_assoc]
    exact himport.bind fun n r₂ h₂ => h₂.1.sifts (.pure _)
  · have hcond' : ¬ ((cx.answeredBy other).package != Prelude.packageName && !bound) = true := hcond
    rw [if_neg hcond, if_neg hcond']
    exact h₁.sifts (.pure _)

theorem agrees_script (h : Told hosting P r) (he : Echoes hosting P other)
    (hp : P Prelude.packageName) :
    Agrees (script (cx.answeredBy other)) (script cx) r fun _ _ => True := by
  refine (agrees_repeatWhile (fun _ hi => agrees_importStatement hi he) cx.budget r h).bind
    fun _ r₁ h₁ => ?_
  refine (agrees_implicitImport h₁ he hp).bind fun _ r₂ h₂ => ?_
  rw [declaration_answeredBy]
  exact .same fun _ _ _ => trivial

end Parse

/-- Reading a source into a script does the same with both hosts. -/
theorem readScript_eq_of_echoes {hosting : Hosting importer p} {P : String → Prop}
    {other : Importer σ} (he : Parse.Echoes hosting P other) (hp : P Prelude.packageName)
    {a : Arena} {host : σ} {script : Nat} {source : Text.Source} (hi : hosting.Inv a host)
    (hf : Forest p script (hosting.served host) a [])
    (hs : ∀ value, .string value ∈ source.kinds → P value) :
    readScript other script source (a, host) = readScript importer script source (a, host) := by
  let feed := Feed.ofLexing (Lexing.ofSource (a.scriptFile script) source)
  let cx : ReadingContext σ :=
    ⟨script, a.scriptFile script, (a.packageName? script).getD "", feed.size + 1, importer⟩
  let hosting' : Hosting cx.importer p := hosting
  have hspells : feed.Spells source.kinds := by
    have h := Lexing.spells_ofSource (a.scriptFile script) source
    rwa [Lexing.significant_ofSource] at h
  have htold : Parse.Told hosting' P ⟨feed, [], [], a, host⟩ :=
    ⟨⟨hi, hf, nofun⟩, hspells.strings hs⟩
  have hrun : Parse.script (cx.answeredBy other) ⟨feed, [], [], a, host⟩ =
      Parse.script cx ⟨feed, [], [], a, host⟩ := (Parse.agrees_script htold he hp).1
  unfold readScript
  dsimp only
  rw [show Parse.script ⟨script, _, _, _, other⟩ _ = _ from hrun]

/-- Reading one more script of a package does the same with both hosts. -/
theorem readFile_eq_of_echoes {hosting : Hosting importer p} {P : String → Prop}
    {other : Importer σ} (he : Parse.Echoes hosting P other) (hp : P Prelude.packageName)
    {x : Arena × σ} (h : hosting.Rests x) (name : String) (file : Option Path)
    {source : Text.Source} (hs : ∀ value, .string value ∈ source.kinds → P value) :
    Compile.readFile other p name file source x = Compile.readFile importer p name file source x := by
  obtain ⟨a, host⟩ := x
  obtain ⟨hi, hg⟩ := h
  have ha := hosting.anchored hi
  obtain ⟨decl, hd⟩ := hg.isPackage
  have htries := opened_newScript hd name file
  unfold Tries at htries
  unfold Compile.readFile
  dsimp only
  split
  · rfl
  · rename_i script b hnew
    rw [hnew] at htries
    have hopened : Opened p script a b := htries
    have hb : hosting.Inv b host := hosting.built hi (hopened.within hd ha)
    obtain ⟨hgb, hscript⟩ := hopened.gathered hd hg ha
    exact readScript_eq_of_echoes he hp hb (hgb.forest script hscript) hs

end SchemaLang
