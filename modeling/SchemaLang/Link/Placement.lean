import SchemaLang.Link.References
import SchemaLang.Prelude
import SchemaLang.Reflection
import SchemaLang.Site

/-!
# Placing attributes

The second pass of linking checks where attributes stand. The type of an attribute is a table with
a usage declaration, whose `Target` is the mask of the sites that the attribute may have. An
attribute whose mask has the bit of its node's site stays. Otherwise it moves to the script if its
mask has the bit of scripts, or else to the package if its mask has the bit of packages; failing
both it is an error.

On the way tables that carry the struct marker and enums that carry the error marker are tagged.
-/

namespace SchemaLang

/-- The declarations of the built-in package that the pass uses. -/
structure Vocabulary where
  usage : NodeId
  /-- The field of the usage declaration that holds the mask. -/
  target : NodeId
  structMarker : NodeId
  errorMarker : NodeId
  /-- The mask bits of the sites. -/
  bits : List (Site × Int64)

namespace Vocabulary

/-- The mask bit of a site. -/
def bit (vocabulary : Vocabulary) (site : Site) : Int64 :=
  (vocabulary.bits.lookup site).getD 0

/-- Whether a mask has the bit of a site. -/
def permits (vocabulary : Vocabulary) (mask : Int64) (site : Site) : Bool :=
  mask &&& vocabulary.bit site != 0

/-- The failure of a missing built-in declaration. -/
def missing (name : String) : Diagnostic :=
  ⟨.missingBuiltin name, .unknown⟩

/-- The mask bits of the given sites, from the values of the enum of sites. -/
def siteBits (values : List (String × Int64)) :
    List Site → Except Diagnostic (List (Site × Int64))
  | [] => .ok []
  | site :: rest =>
    match values.lookup site.name with
    | none => .error (missing (Prelude.attrTarget ++ "." ++ site.name))
    | some bit => do
      let others ← siteBits values rest
      pure ((site, bit) :: others)

/-- A declaration of the built-in package. -/
def declared (types : Registry) (name : String) : Except Diagnostic NodeId :=
  match types.find? name with
  | some node => .ok node
  | none => .error (missing name)

/-- Reads the vocabulary from the built-in package. -/
def ofPackage (arena : Arena) (builtin : NodeId) : Except Diagnostic Vocabulary :=
  match arena.package? builtin with
  | none => .error (missing Prelude.packageName)
  | some package => do
    let sites ← declared package.types Prelude.attrTarget
    let bits ← siteBits (arena.enumValues sites) Site.all
    let usage ← declared package.types Prelude.attrUsage
    match arena.findField? usage Prelude.targetField with
    | none => throw (missing (Prelude.attrUsage ++ "." ++ Prelude.targetField))
    | some target =>
      let structMarker ← declared package.types Prelude.structMarker
      let errorMarker ← declared package.types Prelude.errorMarker
      pure ⟨usage, target, structMarker, errorMarker, bits⟩

end Vocabulary

namespace Arena

/-- The sites at a node. A method stands for its slots too, which count as parameters or results by
the list they are in. -/
def sitesAt (arena : Arena) (id : NodeId) : List (NodeId × Site) :=
  match arena.kind id with
  | .script _ => [(id, .script)]
  | .enum _ => [(id, .enum)]
  | .enumValue _ => [(id, .enumValue)]
  | .table _ => [(id, .table)]
  | .field _ => [(id, .field)]
  | .contract _ => [(id, .contract)]
  | .method decl =>
    (id, .method) :: (decl.params.toList.map fun slot => (slot, .param))
      ++ decl.results.toList.map fun slot => (slot, .result)
  | _ => []

/-- The sites of a package. -/
def sites (arena : Arena) (package : NodeId) : List (NodeId × Site) :=
  (arena.walk package).flatMap arena.sitesAt

/-- The mask of an attribute: the `Target` of the first usage declaration on its type. -/
def usageMask (arena : Arena) (vocabulary : Vocabulary) (attr : NodeId) :
    Except Diagnostic Int64 :=
  let position := arena.position attr
  let name := arena.name attr
  match arena.attrType attr with
  | none => .error ⟨.unknownType name, position⟩
  | some type =>
    if (arena.table? type).isNone then .error ⟨.invalidAttribute name .notATable, position⟩
    else
      match arena.attrsOfType type vocabulary.usage with
      | [] => .error ⟨.invalidAttribute name .noUsage, position⟩
      | usage :: _ =>
        match ((arena.attr? usage).bind (·.args)).bind (arena.fieldArg? vocabulary.target) with
        | none => .error ⟨.invalidAttribute name .noTarget, position⟩
        | some target => arena.evalConst target

/-- Where an attribute goes that may not stay at its site. -/
def destination? (arena : Arena) (vocabulary : Vocabulary) (node : NodeId) (site : Site)
    (mask : Int64) : Option NodeId :=
  if site ≠ .script ∧ vocabulary.permits mask .script then arena.scriptOf node
  else if vocabulary.permits mask .package then arena.packageOf node
  else none

end Arena

namespace Link

/-- Checks one attribute of a node, and moves it where it may not stay. -/
def placeAttr (vocabulary : Vocabulary) (node : NodeId) (site : Site) (attr : NodeId) :
    Link Unit :=
  fun arena =>
    match arena.usageMask vocabulary attr with
    | .error failure => .error failure arena
    | .ok mask =>
      if vocabulary.permits mask site then .ok () arena
      else
        match arena.destination? vocabulary node site mask with
        | none =>
          let described := site.name.toLower ++ " " ++ arena.name node
          .error ⟨.attrTargetMismatch (arena.name attr) described, arena.position attr⟩ arena
        | some destination =>
          let arena := (arena.removeAttr node attr).2
          .ok () (arena.addAttr destination attr)

/-- Tags tables and enums by their markers. A tagged table counts as a struct. -/
def tag (vocabulary : Vocabulary) (node : NodeId) (site : Site) : Link Site :=
  fun arena =>
    match site with
    | .table =>
      let isStruct := !(arena.attrsOfType node vocabulary.structMarker).isEmpty
      .ok (if isStruct then .struct else .table) (arena.setStruct node isStruct)
    | .enum =>
      let isError := !(arena.attrsOfType node vocabulary.errorMarker).isEmpty
      .ok .enum (arena.setError node isError)
    | other => .ok other arena

/-- Checks the attributes of one site. -/
def placeSite (vocabulary : Vocabulary) (entry : NodeId × Site) : Link Unit := do
  let site ← tag vocabulary entry.1 entry.2
  fun arena =>
    (arena.node entry.1).attrs.toList.forM (placeAttr vocabulary entry.1 site) arena

/-- Checks the attributes of a package against the built-in package. A package without scripts has
none. -/
def placeAttributes (package builtin : NodeId) : Link Unit :=
  fun arena =>
    match arena.package? package with
    | none => .ok () arena
    | some decl =>
      if decl.scripts.isEmpty then .ok () arena
      else
        match Vocabulary.ofPackage arena builtin with
        | .error failure => .error failure arena
        | .ok vocabulary => (arena.sites package).forM (placeSite vocabulary) arena

end Link

end SchemaLang
