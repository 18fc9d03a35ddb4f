import Mathlib.Data.List.Nodup
import SchemaLang.Proofs.Arena.Nodes

/-!
# Where a node belongs, and what it names

* `NodeKind.level`: a node owns nodes of lower levels, or older nodes of its own level.
* `Node.links`: every number that a node holds.
* `Arena.Home`: the package that a node belongs to, said without fuel; `Arena.packageOf` finds it
  (`packageOf_of_home`).
-/

namespace SchemaLang

section

variable {κ β : Type} {order : κ → κ → Ordering}

theorem values_eq_map {entries : Std.TreeMap κ β order} :
    entries.values = entries.toList.map (·.2) := by
  have h : entries.values = entries.foldr (fun _ value rest => value :: rest) [] := rfl
  rw [h, Std.TreeMap.foldr_eq_foldr_toList]
  induction entries.toList with
  | nil => rfl
  | cons entry rest ih =>
    rw [List.foldr_cons, ih]
    rfl

/-- The values of a map are those that some key has. -/
theorem mem_values_iff [Std.TransCmp order] [Std.LawfulEqCmp order]
    {entries : Std.TreeMap κ β order} {value : β} :
    value ∈ entries.values ↔ ∃ key : κ, entries[key]? = some value := by
  rw [values_eq_map]
  simp [Std.TreeMap.mem_toList_iff_getElem?_eq_some]

end

/-- Entering a free name adds an entry. -/
theorem toList_insert_perm {scripts : Std.TreeMap String NodeId} {name : String} {node : NodeId}
    (h : scripts[name]? = none) :
    (scripts.insert name node).toList.Perm ((name, node) :: scripts.toList) := by
  have hfree : ∀ entry ∈ scripts.toList, decide ¬(name == entry.1) = true := by
    rintro ⟨key, value⟩ he
    rw [Std.TreeMap.mem_toList_iff_getElem?_eq_some] at he
    refine decide_eq_true fun hkey => ?_
    have hname : name = key := eq_of_beq hkey
    rw [← hname, h] at he
    cases he
  have hperm := Std.TreeMap.toList_insert_perm (t := scripts) (k := name) (v := node)
  rwa [List.filter_eq_self.2 hfree] at hperm

/-- Entering a free name adds its node to the values. -/
theorem values_insert_perm {scripts : Std.TreeMap String NodeId} {name : String} {node : NodeId}
    (h : scripts[name]? = none) : (scripts.insert name node).values.Perm (node :: scripts.values) := by
  rw [values_eq_map, values_eq_map]
  exact (toList_insert_perm h).map (·.2)

theorem mem_values_insert {scripts : Std.TreeMap String NodeId} {name : String}
    {node other : NodeId} (h : scripts[name]? = none) :
    other ∈ (scripts.insert name node).values ↔ other ∈ scripts.values ∨ other = node := by
  rw [(values_insert_perm h).mem_iff, List.mem_cons, or_comm]

/-! ## Registries -/

/-- Where no name occurs twice, an entry is found by its name. -/
theorem find?_entry_eq_some {entries : List (String × NodeId)} (h : (entries.map (·.1)).Nodup)
    {name : String} {node : NodeId} :
    (entries.find? (·.1 == name)).map (·.2) = some node ↔ (name, node) ∈ entries := by
  rw [Option.map_eq_some_iff]
  constructor
  · rintro ⟨⟨key, value⟩, he, rfl⟩
    have hkey : key = name := by simpa using List.find?_some he
    exact hkey ▸ List.mem_of_find?_eq_some he
  · intro hmem
    obtain ⟨entry, he⟩ := Option.isSome_iff_exists.1
      (List.find?_isSome (p := fun entry => entry.1 == name).2
        ⟨(name, node), hmem, beq_self_eq_true name⟩)
    have hkey : entry.1 = name := by simpa using List.find?_some he
    have hsame := List.inj_on_of_nodup_map h (List.mem_of_find?_eq_some he) hmem hkey
    exact ⟨entry, he, by rw [hsame]⟩

namespace Registry

variable {registry : Registry} {name : String} {node : NodeId}

theorem nodes_insert (node : NodeId) (h : registry.find? name = none) :
    (registry.insert name node).nodes = registry.nodes ++ [node] := by
  unfold nodes
  rw [entries_insert_of_find?_eq_none node h, Array.toList_push, List.map_append]
  rfl

theorem length_nodes (registry : Registry) : registry.nodes.length = registry.size := by
  simp [nodes, size]

theorem mem_nodes_insert {other : NodeId} (h : other ∈ (registry.insert name node).nodes) :
    other ∈ registry.nodes ∨ other = node := by
  cases hf : registry.find? name with
  | none =>
    rw [nodes_insert node hf, List.mem_append, List.mem_singleton] at h
    exact h
  | some old =>
    obtain ⟨entries, index, agrees, distinct⟩ := registry
    simp only [find?] at hf
    simp only [insert, hf, Option.isSome_some, dif_pos, nodes, replaced, Array.toList_map,
      List.map_map, List.mem_map, Function.comp_apply] at h
    obtain ⟨entry, he, rfl⟩ := h
    split
    · exact Or.inr rfl
    · exact Or.inl (List.mem_map_of_mem he)

/-- A registry holds a name with a node where it finds it. -/
theorem find?_eq_some :
    registry.find? name = some node ↔ (name, node) ∈ registry.entries.toList := by
  rw [find?_eq, ← Array.find?_toList]
  exact find?_entry_eq_some registry.names_nodup

theorem mem_nodes_of_find? (h : registry.find? name = some node) : node ∈ registry.nodes :=
  List.mem_map.2 ⟨(name, node), find?_eq_some.1 h, rfl⟩

end Registry

/-! ## Levels -/

/-- The level of a kind in a tree, from references up to packages. -/
def NodeKind.level : NodeKind → Nat
  | package _ => 8
  | script _ => 7
  | enum _ | table _ | contract _ => 6
  | packageRef _ | enumValue _ | field _ | method _ => 5
  | param _ => 4
  | attr _ | array .. | list _ | map .. => 3
  | args _ | namedArgs _ => 2
  | union .. | string _ | int _ | float _ | bool _ => 1
  | typeRef _ => 0

theorem NodeKind.level_congr {x y : NodeKind} (h : x.ctorIdx = y.ctorIdx) : x.level = y.level := by
  cases x <;> cases y <;> first | rfl | cases h

theorem NodeKind.level_le (kind : NodeKind) : kind.level ≤ 8 := by
  cases kind <;> simp [level]

/-! ## Links -/

/-- What a node names beside its parent, its script and what it owns. -/
def NodeKind.references : NodeKind → List NodeId
  | package decl => decl.types.nodes
  | script decl => [decl.package]
  | packageRef target => [target]
  | typeRef reference => reference.target.toList
  | enum decl => decl.default.toList
  | _ => []

/-- Every number that a node holds. -/
def Node.links (node : Node) : List NodeId :=
  node.parent.toList ++ node.script.toList ++ node.children ++ node.kind.references

theorem Node.mem_links {node : Node} {n : NodeId} : n ∈ node.links ↔ node.parent = some n ∨
    node.script = some n ∨ n ∈ node.children ∨ n ∈ node.kind.references := by
  unfold links
  simp only [List.mem_append, Option.mem_toList, or_assoc]

namespace Arena

variable {a b : Arena} {n m p q s : Nat}

/-- The second node comes below the first one: its level is lower, or it is older. No declaration
is below another one. -/
def Under (a : Arena) (owner node : Nat) : Prop :=
  (a.kind node).level < (a.kind owner).level ∨
    (a.kind node).level = (a.kind owner).level ∧ (a.kind owner).level < 6 ∧ node < owner

/-- A rank that is lower for nodes that come below. -/
def rank (a : Arena) (node : Nat) : Nat :=
  (a.kind node).level * a.size + node

theorem Under.rank_lt (h : a.Under m n) (hn : n < a.size) : a.rank n < a.rank m := by
  unfold rank
  rcases h with h | ⟨h, -, hlt⟩
  · calc (a.kind n).level * a.size + n
        < (a.kind n).level * a.size + a.size := Nat.add_lt_add_left hn _
      _ = ((a.kind n).level + 1) * a.size := (Nat.succ_mul ..).symm
      _ ≤ (a.kind m).level * a.size := Nat.mul_le_mul_right _ h
      _ ≤ (a.kind m).level * a.size + m := Nat.le_add_right ..
  · rw [h]
    exact Nat.add_lt_add_left hlt _

/-! ## Homes -/

/-- The package of a node: a package is its own, a script names its package, and any other node was
read from a script. -/
def home (a : Arena) (node : NodeId) : Option NodeId :=
  match a.kind node with
  | .package _ => some node
  | .script decl => some decl.package
  | _ => (a.node node).script.bind fun script => (a.script? script).map (·.package)

theorem home_of_package {decl : Package} (h : a.kind n = .package decl) : a.home n = some n := by
  unfold home
  rw [h]

theorem home_of_script {decl : Script} (h : a.kind n = .script decl) :
    a.home n = some decl.package := by
  unfold home
  rw [h]

theorem home_of_level (h : (a.kind n).level < 7) :
    a.home n = (a.node n).script.bind fun script => (a.script? script).map (·.package) := by
  unfold home
  cases hk : a.kind n with
  | package decl => simp [hk, NodeKind.level] at h
  | script decl => simp [hk, NodeKind.level] at h
  | _ => rfl

theorem home_of_own {decl : Script} (h : (a.kind n).level < 7) (hs : (a.node n).script = some s)
    (hk : a.kind s = .script decl) : a.home n = some decl.package := by
  rw [home_of_level h, hs, Option.bind_some, script?_eq_some.2 hk]
  rfl

theorem scriptOf_eq_self {decl : Script} (h : a.kind n = .script decl) :
    a.scriptOf n = some n := by
  unfold scriptOf
  rw [h]

theorem scriptOf_of_level (h : (a.kind n).level ≠ 7) : a.scriptOf n = (a.node n).script := by
  unfold scriptOf
  cases hk : a.kind n with
  | script decl =>
    rw [hk] at h
    exact absurd rfl h
  | _ => rfl

theorem lt_size_of_kind (h : (a.kind n).level ≠ 1) : n < a.size := by
  rcases Nat.lt_or_ge n a.size with hn | hn
  · exact hn
  · unfold kind at h
    rw [node_of_size_le hn] at h
    exact absurd rfl h

theorem lt_size_of_home (h : a.home n = some p) : n < a.size := by
  rcases Nat.lt_or_ge n a.size with hn | hn
  · exact hn
  · unfold home kind at h
    rw [node_of_size_le hn] at h
    cases h

theorem packageWithin_of_script {decl : Script} (h : a.kind s = .script decl) :
    a.packageWithin a.size s = some decl.package := by
  have hlt : s < a.size := lt_size_of_kind (by rw [h]; simp [NodeKind.level])
  obtain ⟨size, hsize⟩ := Nat.exists_eq_succ_of_ne_zero (Nat.ne_of_gt (Nat.zero_lt_of_lt hlt))
  rw [hsize]
  unfold packageWithin
  rw [h]

/-- A node with a home finds it. -/
theorem packageOf_of_home (h : a.home n = some p) : a.packageOf n = some p := by
  unfold packageOf packageWithin
  unfold home at h
  cases hk : a.kind n with
  | package decl => rwa [hk] at h
  | script decl => rwa [hk] at h
  | _ =>
    rw [hk] at h
    obtain ⟨s, hs, hmap⟩ := Option.bind_eq_some_iff.1 h
    obtain ⟨decl, hd, rfl⟩ := Option.map_eq_some_iff.1 hmap
    rw [hs]
    exact packageWithin_of_script (script?_eq_some.1 hd)

/-! ## Anchored arenas -/

/-- The link to a script and the home of a node lead to nodes of the arena, and neither packages nor
scripts have a link to a script. -/
structure AnchoredAt (a : Arena) (n : Nat) : Prop where
  script_lt : ∀ s : Nat, (a.node n).script = some s → s < a.size
  level_lt : ∀ s : Nat, (a.node n).script = some s → (a.kind n).level < 7
  home_lt : ∀ p : Nat, a.home n = some p → p < a.size

/-- An arena whose nodes are all anchored. -/
def Anchored (a : Arena) : Prop :=
  ∀ n : Nat, a.AnchoredAt n

theorem anchored_of_size_le (h : a.size ≤ n) : a.AnchoredAt n := by
  have hs : (a.node n).script = none := by
    rw [node_of_size_le h]
    rfl
  refine ⟨fun s e => ?_, fun s e => ?_, fun p hp => ?_⟩
  · rw [hs] at e
    cases e
  · rw [hs] at e
    cases e
  · exact absurd (lt_size_of_home hp) (Nat.not_lt.2 h)

theorem script?_congr (h : b.node n = a.node n) : b.script? n = a.script? n := by
  unfold script? kind
  rw [h]

/-- A home is decided by the node and the script it was read from. -/
theorem home_of_nodes (hn : b.node n = a.node n)
    (hs : ∀ s : Nat, (a.node n).script = some s → b.node s = a.node s) : b.home n = a.home n := by
  unfold home kind
  rw [hn]
  cases h : (a.node n).script with
  | none => rfl
  | some s => simp only [Option.bind_some, script?_congr (hs s h)]

/-- The script that a node was read from belongs where the node does. -/
theorem Anchored.script_home (h : Anchored a) (hn : a.home n = some p)
    (hs : (a.node n).script = some s) : (∃ decl, a.kind s = .script decl) ∧ a.home s = some p := by
  rw [home_of_level ((h n).level_lt s hs), hs, Option.bind_some] at hn
  obtain ⟨decl, hd, hp⟩ := Option.map_eq_some_iff.1 hn
  rw [script?_eq_some] at hd
  exact ⟨⟨decl, hd⟩, by rw [home_of_script hd, hp]⟩

/-- An anchored arena keeps its homes when nodes are added. -/
theorem Anchored.home_eq (h : Anchored a) (he : a.Extends b) (hn : n < a.size) :
    b.home n = a.home n :=
  home_of_nodes (he.node_eq n hn) fun s hs => he.node_eq s ((h n).script_lt s hs)

end Arena

end SchemaLang
