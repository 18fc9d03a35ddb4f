import Std.Data.TreeMap

/-!
# Registries of names

A registry maps names to nodes and keeps the order in which the names were entered. A name occurs
once; entering it again replaces its node and keeps its place. The entries are the registry; the
index beside them only makes looking up fast, and agrees with searching them.
-/

namespace SchemaLang

/-- The number of a node in its arena. -/
abbrev NodeId := Nat

/-- Names with their nodes, in the order of entry. -/
structure Registry where
  entries : Array (String × NodeId)
  /-- The nodes by name. -/
  index : Std.TreeMap String NodeId
  /-- Looking up by the index is searching the entries. -/
  agrees : ∀ name, index[name]? = (entries.find? (·.1 == name)).map (·.2)
  /-- No name occurs twice. -/
  distinct : (entries.map (·.1)).toList.Nodup

namespace Registry

/-- The registry without names. -/
def empty : Registry where
  entries := #[]
  index := ∅
  agrees := by simp
  distinct := by simp

instance : Inhabited Registry := ⟨empty⟩

/-- The node of a name. -/
def find? (registry : Registry) (name : String) : Option NodeId :=
  registry.index[name]?

/-- Whether a name is entered. -/
def contains (registry : Registry) (name : String) : Bool :=
  (registry.find? name).isSome

/-- The number of names. -/
def size (registry : Registry) : Nat :=
  registry.entries.size

/-- The names in order of entry. -/
def names (registry : Registry) : List String :=
  registry.entries.toList.map (·.1)

/-- The nodes in order of entry. -/
def nodes (registry : Registry) : List NodeId :=
  registry.entries.toList.map (·.2)

theorem find?_eq (registry : Registry) (name : String) :
    registry.find? name = (registry.entries.find? (·.1 == name)).map (·.2) :=
  registry.agrees name

theorem names_nodup (registry : Registry) : registry.names.Nodup := by
  have h := registry.distinct
  rwa [Array.toList_map] at h

/-! ## Entering a name -/

/-- The entries with the node of a name replaced. -/
def replaced (entries : Array (String × NodeId)) (name : String) (node : NodeId) :
    Array (String × NodeId) :=
  entries.map fun entry => if entry.1 == name then (name, node) else entry

theorem map_fst_replaced (entries : Array (String × NodeId)) (name : String) (node : NodeId) :
    (replaced entries name node).map (·.1) = entries.map (·.1) := by
  simp only [replaced, Array.map_map]
  congr 1
  funext entry
  by_cases h : entry.1 = name <;> simp [h]

theorem find?_replaced (entries : Array (String × NodeId)) (name other : String) (node : NodeId) :
    ((replaced entries name node).find? (·.1 == other)).map (·.2) =
      if name = other then (entries.find? (·.1 == other)).map fun _ => node
      else (entries.find? (·.1 == other)).map (·.2) := by
  obtain ⟨list⟩ := entries
  simp only [replaced, List.map_toArray, List.find?_toArray]
  induction list with
  | nil => simp
  | cons entry rest ih =>
    simp only [List.map_cons, List.find?_cons]
    by_cases h : entry.1 = name <;> by_cases ho : name = other
    · simp [h, ho]
    · simp only [h, ho, beq_self_eq_true, if_true, if_false]
      have : (name == other) = false := by simpa using ho
      simp only [this]
      simpa [ho] using ih
    · have hb : (entry.1 == name) = false := by simpa using h
      have hc : (entry.1 == other) = false := by simpa [← ho] using h
      simp only [hb, hc, Bool.false_eq_true, if_false]
      simpa [ho] using ih
    · have hb : (entry.1 == name) = false := by simpa using h
      simp only [hb, Bool.false_eq_true, if_false]
      by_cases hc : entry.1 = other
      · simp [hc, ho]
      · have : (entry.1 == other) = false := by simpa using hc
        simp only [this]
        simpa [ho] using ih

theorem find?_entries_eq_none_iff (registry : Registry) (name : String) :
    registry.find? name = none ↔ ∀ entry ∈ registry.entries, entry.1 ≠ name := by
  simp [find?_eq]

/-- Enters a name. A name that is there keeps its place and gets the new node. -/
def insert (registry : Registry) (name : String) (node : NodeId) : Registry :=
  match registry with
  | ⟨entries, index, agrees, distinct⟩ =>
    if h : index[name]?.isSome then
      { entries := replaced entries name node
        index := index.insert name node
        agrees := by
          intro other
          rw [Std.TreeMap.getElem?_insert, find?_replaced, ← agrees other]
          by_cases ho : name = other
          · subst ho
            simp only [Std.compare_self, if_true]
            obtain ⟨found, hf⟩ := Option.isSome_iff_exists.1 (agrees name ▸ h)
            rw [Option.map_eq_some_iff] at hf
            obtain ⟨entry, he, _⟩ := hf
            simp [he]
          · simp [Std.LawfulEqCmp.compare_eq_iff_eq, ho]
        distinct := by rw [map_fst_replaced]; exact distinct }
    else
      { entries := entries.push (name, node)
        index := index.insert name node
        agrees := by
          intro other
          rw [Std.TreeMap.getElem?_insert, Array.find?_push]
          by_cases ho : name = other
          · subst ho
            have hn : entries.find? (·.1 == name) = none := by
              have := agrees name
              rw [Option.not_isSome_iff_eq_none.1 h] at this
              simpa using this.symm
            simp [hn]
          · have hb : (name == other) = false := by simpa using ho
            simp [Std.LawfulEqCmp.compare_eq_iff_eq, ho, agrees other]
        distinct := by
          have hn : ∀ entry ∈ entries, entry.1 ≠ name := by
            have := agrees name
            rw [Option.not_isSome_iff_eq_none.1 h] at this
            simpa using this.symm
          simp only [Array.map_push, Array.toList_push]
          rw [List.nodup_append]
          refine ⟨distinct, by simp, ?_⟩
          intro a ha b hb
          simp only [Array.toList_map, List.mem_map, Array.mem_toList_iff] at ha
          obtain ⟨entry, he, rfl⟩ := ha
          simp only [List.mem_singleton] at hb
          subst hb
          exact hn entry he }

theorem find?_insert (registry : Registry) (name other : String) (node : NodeId) :
    (registry.insert name node).find? other =
      if name = other then some node else registry.find? other := by
  obtain ⟨entries, index, agrees, distinct⟩ := registry
  simp only [insert, find?]
  split <;> simp only [Std.TreeMap.getElem?_insert, Std.LawfulEqCmp.compare_eq_iff_eq]

theorem entries_insert_of_find?_eq_none {registry : Registry} {name : String} (node : NodeId)
    (h : registry.find? name = none) :
    (registry.insert name node).entries = registry.entries.push (name, node) := by
  obtain ⟨entries, index, agrees, distinct⟩ := registry
  simp only [find?] at h
  simp [insert, h]

/-! ## The names -/

theorem contains_iff {registry : Registry} {name : String} :
    registry.contains name = true ↔ name ∈ registry.names := by
  unfold contains names
  rw [Option.isSome_iff_ne_none, Ne, find?_entries_eq_none_iff]
  simp

theorem find?_eq_none_iff {registry : Registry} {name : String} :
    registry.find? name = none ↔ name ∉ registry.names := by
  rw [← contains_iff, contains]
  simp

theorem mem_names_insert {registry : Registry} {name other : String} {node : NodeId}
    (h : other ∈ (registry.insert name node).names) : other = name ∨ other ∈ registry.names := by
  rw [← contains_iff, contains, find?_insert] at h
  split at h
  · exact Or.inl (Eq.symm ‹name = other›)
  · exact Or.inr (contains_iff.1 h)

theorem names_insert {registry : Registry} {name : String} (node : NodeId)
    (h : name ∉ registry.names) : (registry.insert name node).names = registry.names ++ [name] := by
  unfold names
  rw [entries_insert_of_find?_eq_none node (find?_eq_none_iff.2 h)]
  simp

theorem length_names (registry : Registry) : registry.names.length = registry.size := by
  simp [names, size]

end Registry

end SchemaLang
