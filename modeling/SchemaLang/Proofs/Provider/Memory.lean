import Mathlib.Data.List.Induction
import SchemaLang.Proofs.Provider.Places
import SchemaLang.Provider.Memory

/-!
# Files in memory

Files are added one after the other, each at the place of its path, so a path reads the last file that
was added under a path that is worked out alike. A directory is what such places have in common: its
list is made of names, and names are told apart.

* `Memory.filled`: the memory after files were added.
* `Memory.read_filled`: what a path reads.
* `Memory.find_filled`: the directory of a package.
* `Memory.lists_filled`: the source files of a directory.
-/

namespace SchemaLang

/-- The path leads to an entry of the directory. -/
def Path.IsIn (path directory : Path) : Prop :=
  (Place.ofPath path).parent? = some (Place.ofPath directory)

instance (path directory : Path) : Decidable (path.IsIn directory) :=
  inferInstanceAs (Decidable (_ = _))

theorem Path.IsIn.exists_name {path directory : Path} (h : path.IsIn directory) :
    ∃ name, IsName name ∧ Place.ofPath path = Place.ofPath directory ++ [name] :=
  (Place.wellFormed_ofPath path).of_parent h

/-- The name of a source file has something before the extension. -/
theorem Path.exists_stem_of_extensionOf {name : RawText}
    (h : extensionOf name = some (.ofString Prelude.sourceExtension)) :
    ∃ stem : RawText, stem ≠ .empty ∧ name = stem ++ RawText.ofString ".tidl" := by
  unfold extensionOf at h
  dsimp only at h
  have hsplit := List.takeWhile_append_dropWhile (p := (· != dot)) (l := name.bytes.reverse)
  have hhead := List.head?_dropWhile_not (· != dot) name.bytes.reverse
  generalize name.bytes.reverse.dropWhile (· != dot) = rest at h hsplit hhead
  generalize name.bytes.reverse.takeWhile (· != dot) = taken at h hsplit
  match rest, h with
  | c :: d :: before, h =>
    obtain rfl : c = dot := by simpa using hhead
    have htaken : taken.reverse = (RawText.ofString Prelude.sourceExtension).bytes :=
      congrArg RawText.bytes (Option.some.inj h)
    refine ⟨⟨(d :: before).reverse⟩, by simp [RawText.empty], RawText.ext ?_⟩
    have hname := congrArg List.reverse hsplit
    rw [List.reverse_reverse, List.reverse_append, htaken, List.reverse_cons] at hname
    rw [← hname, List.append_assoc]
    rfl

namespace Memory

variable {memory : Memory} {path directory : Path}

/-- The paths lead to the source files directly inside a directory, in ascending order. -/
structure Lists (memory : Memory) (directory : Path) (paths : List Path) : Prop where
  mem_iff : ∀ path, path ∈ paths ↔ path.normal = path ∧ (∃ bytes, memory.read path = .ok bytes) ∧
    path.IsIn directory ∧ path.isSource
  ending : ∀ path ∈ paths, ∃ stem : RawText, stem ≠ .empty ∧
    path.fileName? = some (stem ++ RawText.ofString ".tidl") ∧
    path = directory.normal.join (stem ++ RawText.ofString ".tidl")
  ascending : paths.Pairwise fun path other =>
    compare (Place.ofPath path) (Place.ofPath other) = .lt
  distinct : (paths.map Path.fileName?).Nodup

/-- All files are at places that paths lead to. -/
def WellFormed (memory : Memory) : Prop :=
  ∀ place ∈ memory.files, place.WellFormed

theorem exists_read_iff : (∃ bytes, memory.read path = .ok bytes) ↔
    Place.ofPath path ∈ memory.files := by
  rw [Std.TreeMap.mem_iff_isSome_getElem?]
  unfold read
  dsimp only
  cases memory.files[Place.ofPath path]? with
  | none => exact ⟨nofun, nofun⟩
  | some bytes => exact ⟨fun _ => rfl, fun _ => ⟨bytes, rfl⟩⟩

theorem mem_inside {place : Place} : place ∈ memory.inside (Place.ofPath directory) ↔
    place ∈ memory.files ∧ place.parent? = some (Place.ofPath directory) := by
  unfold inside
  rw [List.mem_filter, Std.TreeMap.mem_keys, beq_iff_eq]

namespace WellFormed

variable (h : memory.WellFormed)

include h

theorem mem_list : path ∈ memory.list directory ↔ path.normal = path ∧
    (∃ bytes, memory.read path = .ok bytes) ∧ path.IsIn directory ∧ path.isSource := by
  unfold list
  rw [List.mem_filter, List.mem_map, exists_read_iff]
  constructor
  · rintro ⟨⟨place, hplace, rfl⟩, hsource⟩
    obtain ⟨hmem, hparent⟩ := mem_inside.1 hplace
    have hback := Place.ofPath_path (h place hmem)
    refine ⟨?_, ?_, ?_, hsource⟩
    · rw [Path.normal, hback]
    · rwa [hback]
    · rw [Path.IsIn, hback, hparent]
  · rintro ⟨hnormal, hmem, hin, hsource⟩
    exact ⟨⟨Place.ofPath path, mem_inside.2 ⟨hmem, hin⟩, hnormal⟩, hsource⟩

/-- A listed path is a name joined to the directory. -/
theorem exists_name_of_mem_list (hpath : path ∈ memory.list directory) :
    ∃ name, Path.IsName name ∧ Place.ofPath path = Place.ofPath directory ++ [name] ∧
      path.fileName? = some name ∧ path = directory.normal.join name := by
  obtain ⟨hnormal, -, hin, -⟩ := h.mem_list.1 hpath
  obtain ⟨name, hname, hplace⟩ := hin.exists_name
  have hd := Place.wellFormed_ofPath directory
  have hwritten : path = Place.path (Place.ofPath directory ++ [name]) := by
    rw [← hplace]
    exact hnormal.symm
  refine ⟨name, hname, hplace, ?_, ?_⟩
  · rw [hwritten, Place.fileName?_path_concat hd hname]
  · rw [hwritten, Place.path_concat hd hname]
    rfl

theorem pairwise_list : (memory.list directory).Pairwise fun path other =>
    compare (Place.ofPath path) (Place.ofPath other) = .lt := by
  have hkeys : (memory.inside (Place.ofPath directory)).Pairwise fun place other =>
      compare place other = .lt :=
    (Std.TreeMap.ordered_keys (t := memory.files)).filter _
  unfold list
  refine List.Pairwise.filter _ (List.pairwise_map.2 (hkeys.imp_of_mem fun hplace hother hlt => ?_))
  rwa [Place.ofPath_path (h _ (mem_inside.1 hplace).1), Place.ofPath_path (h _ (mem_inside.1 hother).1)]

theorem lists (directory : Path) : memory.Lists directory (memory.list directory) where
  mem_iff _ := h.mem_list
  ending path hpath := by
    obtain ⟨name, -, -, hfile, hjoin⟩ := h.exists_name_of_mem_list hpath
    obtain ⟨-, -, -, hsource⟩ := h.mem_list.1 hpath
    unfold Path.isSource at hsource
    rw [hfile] at hsource
    obtain ⟨stem, hstem, rfl⟩ := Path.exists_stem_of_extensionOf (beq_iff_eq.1 hsource)
    exact ⟨stem, hstem, hfile, hjoin⟩
  ascending := h.pairwise_list
  distinct := by
    refine List.pairwise_map.2 (h.pairwise_list.imp_of_mem fun hpath hother hlt he => ?_)
    obtain ⟨name, -, hplace, hfile, -⟩ := h.exists_name_of_mem_list hpath
    obtain ⟨otherName, -, hotherPlace, hotherFile, -⟩ := h.exists_name_of_mem_list hother
    obtain rfl : name = otherName := Option.some.inj (hfile.symm.trans (he.trans hotherFile))
    rw [hplace, hotherPlace, Std.compare_self] at hlt
    cases hlt

end WellFormed

/-! ## Adding files -/

/-- The memory after files were added one after the other. -/
def filled (inserts : List (Path × ByteArray)) : Memory :=
  inserts.foldl (fun memory file => memory.insert file.1 file.2) .empty

theorem filled_concat (inserts : List (Path × ByteArray)) (path : Path) (bytes : ByteArray) :
    filled (inserts ++ [(path, bytes)]) = (filled inserts).insert path bytes := by
  unfold filled
  rw [List.foldl_append]
  rfl

/-- At a place is the last file that was added there. -/
theorem getElem?_files_filled (inserts : List (Path × ByteArray)) (place : Place) :
    (filled inserts).files[place]? =
      (inserts.reverse.find? fun file => Place.ofPath file.1 = place).map Prod.snd := by
  induction inserts using List.reverseRecOn with
  | nil => exact Std.TreeMap.getElem?_emptyc
  | append_singleton inserts file ih =>
    obtain ⟨path, bytes⟩ := file
    rw [filled_concat, List.reverse_concat, List.find?_cons]
    unfold insert
    dsimp only
    rw [Std.TreeMap.getElem?_insert]
    by_cases hplace : Place.ofPath path = place
    · rw [if_pos (Std.LawfulEqCmp.compare_eq_iff_eq.2 hplace), decide_eq_true hplace]
      rfl
    · rw [if_neg fun h => hplace (Std.LawfulEqCmp.compare_eq_iff_eq.1 h), decide_eq_false hplace]
      exact ih

theorem mem_files_filled {inserts : List (Path × ByteArray)} {place : Place} :
    place ∈ (filled inserts).files ↔ ∃ file ∈ inserts, Place.ofPath file.1 = place := by
  rw [Std.TreeMap.mem_iff_isSome_getElem?, getElem?_files_filled, Option.isSome_map,
    List.find?_isSome]
  simp

theorem wellFormed_filled (inserts : List (Path × ByteArray)) : (filled inserts).WellFormed := by
  intro place hplace
  obtain ⟨file, -, rfl⟩ := mem_files_filled.1 hplace
  exact Place.wellFormed_ofPath file.1

/-- A path reads the last file that was added under a path that is worked out alike. -/
theorem read_filled (inserts : List (Path × ByteArray)) (query : Path) :
    (filled inserts).read query =
      match inserts.reverse.find? fun file => file.1.normal = query.normal with
      | some file => .ok file.2
      | none => .error ⟨.notFound, "file not found in memory: " ++ query.normal.display⟩ := by
  have hfile := getElem?_files_filled inserts (Place.ofPath query)
  simp only [← Path.normal_eq_normal_iff] at hfile
  unfold read
  dsimp only
  rw [hfile]
  cases inserts.reverse.find? fun file => file.1.normal = query.normal with
  | none => rfl
  | some file => rfl

/-- A package is in the directory of its name, where a file was added to this directory. -/
theorem find_filled (inserts : List (Path × ByteArray)) (name : String) :
    (filled inserts).find name =
      if ∃ file ∈ inserts, file.1.IsIn ⟨name⟩ then [(Path.mk name).normal] else [] := by
  have hinside : (filled inserts).inside (Place.ofPath ⟨name⟩) = [] ↔
      ¬ ∃ file ∈ inserts, file.1.IsIn ⟨name⟩ := by
    rw [List.eq_nil_iff_forall_not_mem]
    constructor
    · rintro h ⟨file, hfile, hin⟩
      exact h _ (mem_inside.2 ⟨mem_files_filled.2 ⟨file, hfile, rfl⟩, hin⟩)
    · intro h place hplace
      obtain ⟨hmem, hparent⟩ := mem_inside.1 hplace
      obtain ⟨file, hfile, rfl⟩ := mem_files_filled.1 hmem
      exact h ⟨file, hfile, hparent⟩
  unfold find
  dsimp only
  split
  · rename_i hempty
    rw [if_neg (hinside.1 (List.isEmpty_iff.1 hempty))]
  · rename_i hempty
    rw [if_pos (not_not.1 fun h => hempty (List.isEmpty_iff.2 (hinside.2 h)))]
    rfl

/-- The list of a directory. -/
theorem lists_filled (inserts : List (Path × ByteArray)) (directory : Path) :
    (filled inserts).Lists directory ((filled inserts).list directory) :=
  (wellFormed_filled inserts).lists directory

end Memory

end SchemaLang
