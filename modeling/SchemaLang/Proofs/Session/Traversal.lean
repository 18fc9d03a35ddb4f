import SchemaLang.Proofs.Arena.Traversal
import SchemaLang.Proofs.Session.Outlines

/-!
# Walks of packages come to an end

Linking puts copies of methods into contracts and moves attributes, so that what is below a package is no
tree any more. But it is still no deeper than it was: the parents of every node that can be reached from a
linked package lead up to a package (`Arena.Outlined`), in one step more than those of the node above it.
So no way down goes on for ever, and the walk of the package is the recursive traversal of it
(`Session.walk_traverses`).
-/

namespace SchemaLang

open Arena

variable {s : Session} {name : String} {p : NodeId}

/-- No way down from a linked package goes on for ever. -/
theorem Session.Reachable.founded (hs : s.Reachable) (hp : s.package? name = some p) :
    s.arena.Founded p := by
  obtain ⟨linked, held, h⟩ := hs.outlined hp
  obtain ⟨hheld, decl, hkind⟩ := h.settled.package p h.self
  have hroot : s.arena.AtDepth p 0 := .top hkind (h.aligned.root p decl hheld hkind)
  exact (h.aligned.descends h.settled.closed).founded ⟨hheld, 0, hroot⟩

/-- Where no way down from a node goes on for ever, the walk with a stack finishes, and it visits the nodes
in the order of the recursive traversal, which finishes too. So does the walk of the arena: a node, and
then the walks of its children. No way down from a linked package goes on for ever. -/
theorem Session.walk_traverses :
    (∀ (a : Arena) (root : NodeId), a.Founded root → ∃ nodes,
      Finishes (fun depth => a.traverse depth root) nodes ∧
      Finishes (fun rounds => a.visitAll rounds [] [root]) nodes ∧ a.walk root = nodes ∧
      nodes = root :: (a.children root).flatMap a.walk) ∧
    ∀ (s : Session) (name : String) (p : NodeId), s.Reachable → s.package? name = some p →
      s.arena.Founded p :=
  ⟨fun a root h => ⟨a.walk root, ⟨a.size + 1, fun _ => h.traverse_eq⟩,
    ⟨(a.walk root).length + 1, fun _ => h.visitAll_eq⟩, rfl, h.walk_unfold⟩,
    fun _ _ _ hs hp => hs.founded hp⟩

/-- In the sample the walk visits the parameter of the method that is inherited twice. -/
theorem Session.walk_traverses_full : ∃ (t : Session) (nodes : List NodeId), t.Reachable ∧
    t.package? Prelude.packageName = some 0 ∧ t.arena.Founded 0 ∧
    Finishes (fun depth => t.arena.traverse depth 0) nodes ∧
    Finishes (fun rounds => t.arena.visitAll rounds [] [0]) nodes ∧ nodes.count 48 = 2 := by
  obtain ⟨x, hx, hslot, -⟩ := Full.walk_ok
  let t : Session := (x.1, x.2.leave.add Prelude.packageName 0)
  obtain ⟨hreachable, hpackage⟩ := reachable_of_ok (Full.sample.compile_eq hx)
  obtain ⟨hwalk, hfounded⟩ := Session.walk_traverses
  have hroot : t.arena.Founded 0 := hfounded t Prelude.packageName 0 hreachable hpackage
  obtain ⟨nodes, htraverse, hvisit, rfl, -⟩ := hwalk t.arena 0 hroot
  exact ⟨t, _, hreachable, hpackage, hroot, htraverse, hvisit, hslot⟩

end SchemaLang
