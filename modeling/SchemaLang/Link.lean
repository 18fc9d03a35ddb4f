import SchemaLang.Link.Inheritance
import SchemaLang.Link.Placement

/-!
# Linking a package

Linking runs once all scripts of a package are read: it binds references, places attributes and
flattens contracts, in that order. Imported packages are linked before the scripts that import
them are read on, so references into them lead to linked nodes.
-/

namespace SchemaLang.Link

/-- Links a package. The built-in package that it is checked against is the package itself where
none is given. -/
def package (id : NodeId) (builtin : Option NodeId) : Link Unit := do
  bindReferences id
  placeAttributes id (builtin.getD id)
  flattenContracts id

end SchemaLang.Link
