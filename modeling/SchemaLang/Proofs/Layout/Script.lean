import SchemaLang.Proofs.Layout.Reading

/-!
# The layout of a source does not matter

Each rule of the grammar reads alike feeds in lockstep, and so does the whole of a script. Sources of
the same tokens, but for comments, therefore give the same outcome.
-/

namespace SchemaLang

open Arena

variable {σ τ : Type}

namespace Parse

variable {H : σ → τ → Prop} {cx : ReadingContext σ} {cx' : ReadingContext τ}

/-! ## Types -/

theorem lockstep_builtinRef (hcx : cx.Alike H cx') (name : String)
    (position position' : Position) :
    Lockstep (Reading.Alike H) (builtinRef cx name position) (builtinRef cx' name position') Eq := by
  unfold builtinRef
  rw [hcx.package]
  exact lockstep_newNode hcx _ _ _ _

theorem lockstep_arrayLength : Lockstep (Reading.Alike H) arrayLength arrayLength Eq := by
  refine lockstep_bind_token lockstep_peek fun kind position position' => ?_
  cases kind with
  | int value =>
    refine lockstep_advance.bind_eq fun _ => ?_
    split
    · exact .pure rfl
    · exact lockstep_failAt _ _ rfl
  | _ => exact .pure rfl

theorem lockstep_isSequence (node : NodeId) :
    Lockstep (Reading.Alike H) (inspect fun arena => (arena.kind node).isSequence)
      (inspect fun arena => (arena.kind node).isSequence) Eq :=
  lockstep_inspect fun a b hab => by rw [← kind_bare a, hab, kind_bare]

theorem lockstep_isComposite (node : NodeId) :
    Lockstep (Reading.Alike H) (inspect fun arena => (arena.kind node).isComposite)
      (inspect fun arena => (arena.kind node).isComposite) Eq :=
  lockstep_inspect fun a b hab => by rw [← kind_bare a, hab, kind_bare]

theorem lockstep_typeWithin (hcx : cx.Alike H cx') : ∀ fuel,
    Lockstep (Reading.Alike H) (typeWithin cx fuel) (typeWithin cx' fuel) Eq
  | 0 => lockstep_next.bind fun _ _ _ => lockstep_unexpected _ _ _
  | fuel + 1 => by
    refine lockstep_bind_token lockstep_next fun kind position position' => ?_
    dsimp only
    split
    · refine lockstep_arrayLength.bind_eq fun length => ?_
      refine (lockstep_expectChar ']').bind_eq fun _ => ?_
      refine (lockstep_typeWithin hcx fuel).bind_eq fun element => ?_
      refine (lockstep_isSequence element).bind_eq fun nested => ?_
      split
      · exact lockstep_failAt _ _ rfl
      · cases length with
        | some length =>
          refine lockstep_build fun a b hab => ?_
          rw [bare_newArray, bare_newArray, hab, hcx.script]
        | none =>
          refine lockstep_build fun a b hab => ?_
          rw [bare_newList, bare_newList, hab, hcx.script]
    · refine (lockstep_expectChar '[').bind_eq fun _ => ?_
      refine (lockstep_typeWithin hcx fuel).bind_eq fun key => ?_
      refine (lockstep_isComposite key).bind_eq fun nested => ?_
      split
      · exact lockstep_failAt _ _ rfl
      · refine (lockstep_expectChar ']').bind_eq fun _ => ?_
        refine (lockstep_typeWithin hcx fuel).bind_eq fun value => ?_
        refine (lockstep_isComposite value).bind_eq fun nested => ?_
        split
        · exact lockstep_failAt _ _ rfl
        · refine lockstep_build fun a b hab => ?_
          rw [bare_newMap, bare_newMap, hab, hcx.script]
    · split
      · exact lockstep_builtinRef hcx _ _ _
      · exact lockstep_unexpected _ _ _
    · exact lockstep_finishRef hcx _ _ _
    · exact lockstep_unexpected _ _ _

theorem lockstep_typeExpression (hcx : cx.Alike H cx') :
    Lockstep (Reading.Alike H) (typeExpression cx) (typeExpression cx') Eq := by
  unfold typeExpression
  rw [hcx.budget]
  exact lockstep_typeWithin hcx _

/-! ## Declarations -/

theorem lockstep_declare (hcx : cx.Alike H cx') (name : String) (position position' : Position)
    (type : NodeId) :
    Lockstep (Reading.Alike H) (declare cx name position type) (declare cx' name position' type)
      Eq := by
  refine Lockstep.bind_eq (lockstep_buildUnique _ _ _ _ fun a b hab => ?_) fun _ =>
    (lockstep_attachComments type).bind_eq fun _ => lockstep_attachAttrs type
  rw [bare_declareType, bare_declareType, hab, hcx.script]

theorem lockstep_enumBase : Lockstep (Reading.Alike H) enumBase enumBase Eq := by
  refine (lockstep_matchChar '(').bind_eq fun found => ?_
  split
  · refine lockstep_bind_token lockstep_next fun kind position position' => ?_
    dsimp only
    split
    · exact (lockstep_expectChar ')').bind_eq fun _ => .pure rfl
    · exact lockstep_unexpected _ _ _
  · exact .pure rfl

theorem lockstep_enumValue (hcx : cx.Alike H cx') (enum : NodeId) (enumName : String)
    (base : EnumBase) :
    Lockstep (Reading.Alike H) (enumValue cx enum enumName base)
      (enumValue cx' enum enumName base) Eq := by
  refine (lockstep_attributes hcx).bind_eq fun _ => ?_
  refine lockstep_bind_text (lockstep_expectIdent _) fun name position position' => ?_
  refine (lockstep_expectChar '(').bind_eq fun _ => ?_
  refine (lockstep_matchChar '-').bind_eq fun negative => ?_
  refine lockstep_bind_token lockstep_next fun kind _ _ => ?_
  cases kind with
  | int size =>
    dsimp only
    generalize (if negative = true then -size else size) = value
    split
    · refine (lockstep_expectChar ')').bind_eq fun _ => ?_
      refine Lockstep.bind_eq (lockstep_buildUnique _ _ _ _ fun a b hab => ?_) fun node => ?_
      · rw [bare_newEnumValue, bare_newEnumValue, hab]
      · exact (lockstep_attachAttrs node).bind_eq fun _ => (lockstep_matchChar ',').bind_eq fun _ =>
          (lockstep_attachComments node).bind_eq fun _ => .pure rfl
    · exact lockstep_failAt _ _ rfl
  | _ => exact lockstep_unexpected _ _ _

theorem lockstep_enumDeclaration (hcx : cx.Alike H cx') :
    Lockstep (Reading.Alike H) (enumDeclaration cx) (enumDeclaration cx') Eq := by
  unfold enumDeclaration
  rw [hcx.budget]
  refine lockstep_bind_text (lockstep_expectIdent _) fun name position position' => ?_
  refine lockstep_enumBase.bind_eq fun base => ?_
  refine (lockstep_newNode hcx _ _ _ _).bind_eq fun enum => ?_
  exact (lockstep_declare hcx _ _ _ _).bind_eq fun _ => (lockstep_expectChar _).bind_eq fun _ =>
    (lockstep_repeatWhile (lockstep_enumValue hcx _ _ _) _).bind_eq fun _ => lockstep_expectChar _

theorem lockstep_markStruct (hcx : cx.Alike H cx') (table : NodeId)
    (position position' : Position) :
    Lockstep (Reading.Alike H) (markStruct cx table position) (markStruct cx' table position')
      Eq := by
  refine (lockstep_builtinRef hcx _ _ _).bind_eq fun type => ?_
  refine (lockstep_newAttr hcx type _ _).bind_eq fun attr => lockstep_change fun a b hab => ?_
  rw [Arena.Alike, bare_addAttr, bare_addAttr, hab]

theorem lockstep_field (hcx : cx.Alike H cx') (table : NodeId) :
    Lockstep (Reading.Alike H) (field cx table) (field cx' table) Eq := by
  refine (lockstep_attributes hcx).bind_eq fun _ => ?_
  refine lockstep_nextIsIdent.bind_eq fun found => ?_
  split
  · refine lockstep_bind_text (lockstep_expectIdent _) fun name position position' => ?_
    refine (lockstep_typeExpression hcx).bind_eq fun type => ?_
    refine (lockstep_expectChar ';').bind_eq fun _ => ?_
    refine Lockstep.bind_eq (lockstep_inspect fun a b hab => ?_) fun count => ?_
    · rw [← fieldsOf_bare a, hab, fieldsOf_bare]
    split
    · exact lockstep_failAt _ _ rfl
    · refine Lockstep.bind_eq (lockstep_buildUnique _ _ _ _ fun a b hab => ?_) fun node => ?_
      · rw [bare_newField, bare_newField, hab]
      · exact (lockstep_attachComments node).bind_eq fun _ =>
          (lockstep_attachAttrs node).bind_eq fun _ => .pure rfl
  · exact .pure rfl

theorem lockstep_tableDeclaration (hcx : cx.Alike H cx') (isStruct : Bool) :
    Lockstep (Reading.Alike H) (tableDeclaration cx isStruct) (tableDeclaration cx' isStruct)
      Eq := by
  refine lockstep_bind_text (lockstep_expectIdent _) fun name position position' => ?_
  refine (lockstep_newNode hcx _ _ _ _).bind_eq fun table => ?_
  refine (lockstep_declare hcx _ _ _ _).bind_eq fun _ => ?_
  have hrest : Lockstep (Reading.Alike H)
      (do
        expectChar '\x7b'
        repeatWhile (field cx table) cx.budget
        expectChar '\x7d')
      (do
        expectChar '\x7b'
        repeatWhile (field cx' table) cx'.budget
        expectChar '\x7d') Eq := by
    rw [hcx.budget]
    exact (lockstep_expectChar _).bind_eq fun _ =>
      (lockstep_repeatWhile (lockstep_field hcx table) _).bind_eq fun _ => lockstep_expectChar _
  dsimp only
  split
  · exact (lockstep_markStruct hcx table _ _).bind_eq fun _ => hrest
  · exact hrest

theorem lockstep_baseContract (hcx : cx.Alike H cx') (contract : NodeId) :
    Lockstep (Reading.Alike H) (baseContract cx contract) (baseContract cx' contract) Eq := by
  refine (lockstep_typeRef hcx).bind_eq fun base => ?_
  refine Lockstep.bind_eq (lockstep_inspect fun a b hab => ?_) fun name => ?_
  · rw [← name_bare a, hab, name_bare]
  refine Lockstep.bind (V := fun _ _ => True) (fun _ _ hr => ⟨trivial, hr⟩)
    fun position position' _ => ?_
  refine Lockstep.bind_eq (lockstep_buildUnique _ _ _ _ fun a b hab => ?_) fun _ => ?_
  · rw [bare_addBase, bare_addBase, hab]
  · exact (lockstep_attachComments base).bind_eq fun _ => lockstep_matchChar ','

theorem lockstep_slot (hcx : cx.Alike H cx') (method : NodeId) (isResult : Bool) :
    Lockstep (Reading.Alike H) (slot cx method isResult) (slot cx' method isResult) Eq := by
  refine (lockstep_attributes hcx).bind_eq fun _ => ?_
  refine lockstep_bind_token lockstep_peek fun _ position position' => ?_
  refine (lockstep_typeExpression hcx).bind_eq fun type => ?_
  refine Lockstep.bind_eq (lockstep_build fun a b hab => ?_) fun node =>
    (lockstep_attachAttrs node).bind_eq fun _ =>
      (lockstep_attachComments node).bind_eq fun _ => lockstep_matchChar ','
  cases isResult with
  | true =>
    show bareResult (a.newResult ..) = bareResult (b.newResult ..)
    rw [bare_newResult, bare_newResult, hab]
  | false =>
    show bareResult (a.newParam ..) = bareResult (b.newParam ..)
    rw [bare_newParam, bare_newParam, hab]

theorem lockstep_slots (hcx : cx.Alike H cx') (method : NodeId) (isResult : Bool) :
    Lockstep (Reading.Alike H) (slots cx method isResult) (slots cx' method isResult) Eq := by
  unfold slots
  rw [hcx.budget]
  exact lockstep_repeatWhile (lockstep_slot hcx method isResult) _

theorem lockstep_signature (hcx : cx.Alike H cx') (method : NodeId) :
    Lockstep (Reading.Alike H) (signature cx method) (signature cx' method) Eq := by
  have hresults : Lockstep (Reading.Alike H)
      (do
        expectChar ')'
        let token ← peek
        if token.kind == .arrow then
          advance
          expectChar '('
          slots cx method true
          expectChar ')'
        expectChar ';')
      (do
        expectChar ')'
        let token ← peek
        if token.kind == .arrow then
          advance
          expectChar '('
          slots cx' method true
          expectChar ')'
        expectChar ';') Eq := by
    refine (lockstep_expectChar _).bind_eq fun _ => ?_
    refine lockstep_bind_token lockstep_peek fun kind _ _ => ?_
    dsimp only
    split
    · exact lockstep_advance.bind_eq fun _ => (lockstep_expectChar _).bind_eq fun _ =>
        (lockstep_slots hcx method true).bind_eq fun _ => (lockstep_expectChar _).bind_eq fun _ =>
          lockstep_expectChar _
    · exact lockstep_expectChar _
  refine (lockstep_expectChar _).bind_eq fun _ => ?_
  refine (lockstep_nextIs _).bind_eq fun closed => ?_
  dsimp only
  split
  · exact (lockstep_slots hcx method false).bind_eq fun _ => hresults
  · exact hresults

theorem lockstep_method (hcx : cx.Alike H cx') (contract : NodeId) :
    Lockstep (Reading.Alike H) (method cx contract) (method cx' contract) Eq := by
  refine (lockstep_attributes hcx).bind_eq fun _ => ?_
  refine lockstep_nextIsIdent.bind_eq fun found => ?_
  split
  · refine lockstep_bind_text (lockstep_expectIdent _) fun name position position' => ?_
    refine Lockstep.bind_eq (lockstep_inspect fun a b hab => ?_) fun count => ?_
    · rw [← methodCount_bare a, hab, methodCount_bare]
    split
    · exact lockstep_failAt _ _ rfl
    · refine Lockstep.bind_eq (lockstep_buildUnique _ _ _ _ fun a b hab => ?_) fun node => ?_
      · rw [bare_newMethod, bare_newMethod, hab]
      · exact (lockstep_attachAttrs node).bind_eq fun _ =>
          (lockstep_attachComments node).bind_eq fun _ =>
            (lockstep_signature hcx node).bind_eq fun _ =>
              (lockstep_attachComments node).bind_eq fun _ => .pure rfl
  · exact .pure rfl

theorem lockstep_contractDeclaration (hcx : cx.Alike H cx') :
    Lockstep (Reading.Alike H) (contractDeclaration cx) (contractDeclaration cx') Eq := by
  refine lockstep_bind_text (lockstep_expectIdent _) fun name position position' => ?_
  refine (lockstep_newNode hcx _ _ _ _).bind_eq fun contract => ?_
  refine (lockstep_declare hcx _ _ _ _).bind_eq fun _ => ?_
  have hrest : Lockstep (Reading.Alike H)
      (do
        expectChar '\x7b'
        repeatWhile (method cx contract) cx.budget
        expectChar '\x7d')
      (do
        expectChar '\x7b'
        repeatWhile (method cx' contract) cx'.budget
        expectChar '\x7d') Eq := by
    rw [hcx.budget]
    exact (lockstep_expectChar _).bind_eq fun _ =>
      (lockstep_repeatWhile (lockstep_method hcx contract) _).bind_eq fun _ =>
        lockstep_expectChar _
  refine (lockstep_matchChar '(').bind_eq fun found => ?_
  dsimp only
  split
  · have hbases := lockstep_repeatWhile (lockstep_baseContract hcx contract) cx.budget
    rw [← hcx.budget]
    rw [← hcx.budget] at hrest
    exact hbases.bind_eq fun _ => (lockstep_expectChar _).bind_eq fun _ => hrest
  · exact hrest

/-! ## Scripts -/

theorem lockstep_bindImport (hcx : cx.Alike H cx') (name : String) (package : NodeId)
    (position position' : Position) :
    Lockstep (Reading.Alike H) (bindImport cx name package position)
      (bindImport cx' name package position') Eq :=
  lockstep_buildUnique _ _ _ _ fun a b hab => by
    rw [bare_newPackageRef, bare_newPackageRef, hab, hcx.script]

theorem lockstep_importClause (hcx : cx.Alike H cx') :
    Lockstep (Reading.Alike H) (importClause cx) (importClause cx') Eq := by
  have hrest : ∀ (name path : String) (position position' : Position),
      Lockstep (Reading.Alike H)
        (do
          let package ← importPackage cx path position
          let node ← bindImport cx name package position
          attachComments node)
        (do
          let package ← importPackage cx' path position'
          let node ← bindImport cx' name package position'
          attachComments node) Eq := fun name path position position' =>
    (lockstep_importPackage hcx path position position').bind_eq fun package =>
      (lockstep_bindImport hcx name package position position').bind_eq fun node =>
        lockstep_attachComments node
  refine lockstep_bind_token lockstep_next fun kind position position' => ?_
  cases kind with
  | string path => exact hrest _ _ _ _
  | ident name =>
    simp only [pure_bind]
    exact lockstep_bind_text (lockstep_expectString _) fun path _ _ => hrest _ _ _ _
  | _ => exact fun _ _ hr => ⟨rfl, hr⟩

theorem lockstep_groupedImport (hcx : cx.Alike H cx') :
    Lockstep (Reading.Alike H) (groupedImport cx) (groupedImport cx') Eq := by
  refine (lockstep_nextIs _).bind_eq fun closed => ?_
  split
  · exact .pure rfl
  · exact (lockstep_importClause hcx).bind_eq fun _ => .pure rfl

theorem lockstep_importStatement (hcx : cx.Alike H cx') :
    Lockstep (Reading.Alike H) (importStatement cx) (importStatement cx') Eq := by
  unfold importStatement
  rw [hcx.budget]
  refine lockstep_bind_token lockstep_peek fun kind _ _ => ?_
  dsimp only
  split
  · refine lockstep_advance.bind_eq fun _ => (lockstep_matchChar _).bind_eq fun grouped => ?_
    split
    · exact (lockstep_repeatWhile (lockstep_groupedImport hcx) _).bind_eq fun _ =>
        (lockstep_expectChar _).bind_eq fun _ => .pure rfl
    · exact (lockstep_importClause hcx).bind_eq fun _ => .pure rfl
  · exact .pure rfl

theorem lockstep_implicitImport (hcx : cx.Alike H cx') :
    Lockstep (Reading.Alike H) (implicitImport cx) (implicitImport cx') Eq := by
  refine Lockstep.bind_eq (lockstep_inspect fun a b hab => ?_) fun bound => ?_
  · rw [← script?_bare a, hab, script?_bare, hcx.script]
  · rw [hcx.package]
    split
    · exact (lockstep_importPackage hcx _ _ _).bind_eq fun package =>
        (lockstep_bindImport hcx _ package _ _).bind_eq fun _ => .pure rfl
    · exact .pure rfl

theorem lockstep_declaration (hcx : cx.Alike H cx') :
    Lockstep (Reading.Alike H) (declaration cx) (declaration cx') Eq := by
  refine (lockstep_attributes hcx).bind_eq fun _ => ?_
  refine lockstep_bind_token lockstep_next fun kind position position' => ?_
  dsimp only
  split
  · exact .pure rfl
  · exact (lockstep_enumDeclaration hcx).bind_eq fun _ => .pure rfl
  · exact (lockstep_tableDeclaration hcx false).bind_eq fun _ => .pure rfl
  · exact (lockstep_tableDeclaration hcx true).bind_eq fun _ => .pure rfl
  · exact (lockstep_contractDeclaration hcx).bind_eq fun _ => .pure rfl
  · exact lockstep_unexpected _ _ _

theorem lockstep_script (hcx : cx.Alike H cx') :
    Lockstep (Reading.Alike H) (script cx) (script cx') Eq := by
  unfold script
  rw [hcx.budget, hcx.script]
  exact (lockstep_repeatWhile (lockstep_importStatement hcx) _).bind_eq fun _ =>
    (lockstep_implicitImport hcx).bind_eq fun _ =>
      (lockstep_repeatWhile (lockstep_declaration hcx) _).bind_eq fun _ =>
        (lockstep_attachAttrs _).bind_eq fun _ => lockstep_attachAllComments _

end Parse

/-! ## Reading a source -/

/-- The importer with the paths of the imports that it has answered or refused, in order. -/
def Importer.recording (importer : Importer σ) : Importer (σ × List String) :=
  fun path position (arena, host, paths) =>
    match importer path position (arena, host) with
    | .ok package (arena, host) => .ok package (arena, host, paths ++ [path])
    | .error failure (arena, host) => .error failure (arena, host, paths ++ [path])

section

variable {H : σ → τ → Prop} {importer : Importer σ} {importer' : Importer τ}

theorem Importer.Mirrors.recording (h : importer.Mirrors H importer') :
    importer.recording.Mirrors (fun x y => H x.1 y.1 ∧ x.2 = y.2) importer'.recording := by
  rintro path position position' ⟨a, host, paths⟩ ⟨b, host', paths'⟩ ⟨hab, hh, hpaths⟩
  have himport := h path position position' (a, host) (b, host') ⟨hab, hh⟩
  unfold Importer.recording
  dsimp only at hpaths ⊢
  rw [hpaths]
  cases hs : importer path position (a, host) with
  | ok q s =>
    cases ht : importer' path position' (b, host') with
    | ok q' t =>
      rw [hs, ht] at himport
      exact ⟨himport.1, himport.2.1, himport.2.2, rfl⟩
    | error e t =>
      rw [hs, ht] at himport
      exact himport.elim
  | error e s =>
    cases ht : importer' path position' (b, host') with
    | ok q' t =>
      rw [hs, ht] at himport
      exact himport.elim
    | error e' t =>
      rw [hs, ht] at himport
      exact ⟨himport.1, himport.2.1, himport.2.2, rfl⟩

theorem Arena.Alike.scriptFile_eq {a b : Arena} (h : a.Alike b) (script : NodeId) :
    a.scriptFile script = b.scriptFile script := by
  unfold scriptFile
  rw [← script?_bare a, ← name_bare a, h, script?_bare, name_bare]

theorem Arena.Alike.packageName?_eq {a b : Arena} (h : a.Alike b) (node : NodeId) :
    a.packageName? node = b.packageName? node := by
  have hname : a.name = b.name := by
    funext n
    rw [← name_bare a, h, name_bare]
  unfold packageName?
  rw [← packageOf_bare a, h, packageOf_bare, hname]

/-- A source that is read to its end has the end among its tokens. -/
theorem Lexing.eof_mem_kinds {file : String} {source : Text.Source}
    (h : (Lexing.ofSource file source).failure = none) : .eof ∈ source.kinds := by
  obtain ⟨init, last, hlast, hkind, -⟩ := Lexing.ends file source h
  rw [← Lexing.significant_ofSource file, Lexing.significant, hlast, ← hkind]
  refine List.mem_filter.2 ⟨?_, by rw [hkind]; rfl⟩
  exact List.mem_map_of_mem (List.mem_append_right _ (List.mem_singleton_self _))

/-- Sources whose feeds are alike are read alike. -/
theorem lockstep_readScript (h : importer.Mirrors H importer') (script : NodeId)
    {source source' : Text.Source}
    (hfeed : ∀ file, (Feed.ofLexing (.ofSource file source)).Alike
      (Feed.ofLexing (.ofSource file source'))) :
    Lockstep (Importer.Alike H) (readScript importer script source)
      (readScript importer' script source') Eq := by
  rintro ⟨a, host⟩ ⟨b, host'⟩ ⟨hab, hh⟩
  unfold readScript
  dsimp only
  rw [hab.scriptFile_eq, hab.packageName?_eq]
  have hfeed' := hfeed (b.scriptFile script)
  generalize Feed.ofLexing (Lexing.ofSource (b.scriptFile script) source) = feed at hfeed' ⊢
  generalize Feed.ofLexing (Lexing.ofSource (b.scriptFile script) source') = feed' at hfeed' ⊢
  have hcx : (⟨script, b.scriptFile script, (b.packageName? script).getD "", feed.size + 1,
      importer⟩ : ReadingContext σ).Alike H ⟨script, b.scriptFile script,
        (b.packageName? script).getD "", feed'.size + 1, importer'⟩ :=
    ⟨rfl, rfl, congrArg (· + 1) hfeed'.size_eq, h⟩
  have hscript := Parse.lockstep_script hcx ⟨feed, [], [], a, host⟩ ⟨feed', [], [], b, host'⟩
    ⟨hfeed', rfl, hab, hh⟩
  generalize Parse.script ⟨script, b.scriptFile script, (b.packageName? script).getD "",
    feed.size + 1, importer⟩ ⟨feed, [], [], a, host⟩ = result at hscript ⊢
  generalize Parse.script ⟨script, b.scriptFile script, (b.packageName? script).getD "",
    feed'.size + 1, importer'⟩ ⟨feed', [], [], b, host'⟩ = result' at hscript ⊢
  cases result with
  | ok x r =>
    cases result' with
    | ok y r' => exact ⟨rfl, hscript.2.arena, hscript.2.host⟩
    | error e r' => exact hscript.elim
  | error e r =>
    cases result' with
    | ok y r' => exact hscript.elim
    | error e' r' => exact ⟨hscript.1, hscript.2.arena, hscript.2.host⟩

end

end SchemaLang
