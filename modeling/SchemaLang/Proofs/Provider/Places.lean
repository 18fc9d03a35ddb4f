import Mathlib.Data.List.Basic
import SchemaLang.Path

/-!
# Paths and places

Working out a path gives the names on the way, and these can be written in one way only. So a path that
is worked out stays as it is, and paths that lead to one place are worked out to one path.

* `Place.WellFormed`: names on the way, maybe from the root; so is the place of every path.
* `Place.ofPath_path`: such a place is written so that the path leads back to it.
* `Place.path_concat`: the path of an entry is its name joined to the path of the directory.
-/

namespace SchemaLang

/-! ## Pieces between slashes -/

namespace Path

theorem slash_notMem_of_mem_pieces : ∀ {bytes piece : List UInt8}, piece ∈ pieces bytes → slash ∉ piece
  | [], piece, h => by
    rw [pieces, List.mem_singleton] at h
    rw [h]
    exact List.not_mem_nil
  | byte :: rest, piece, h => by
    unfold pieces at h
    split at h
    · rcases List.mem_cons.1 h with rfl | h
      · exact List.not_mem_nil
      · exact slash_notMem_of_mem_pieces h
    · rename_i hbyte
      have hslash : slash ≠ byte := fun e => hbyte (beq_iff_eq.2 e.symm)
      split at h
      · rw [List.mem_singleton.1 h]
        simpa using hslash
      · rename_i first others hrest
        have hpieces : ∀ other ∈ first :: others, slash ∉ other := fun other hother =>
          slash_notMem_of_mem_pieces (hrest ▸ hother)
        rcases List.mem_cons.1 h with rfl | h
        · simpa [hslash] using hpieces first List.mem_cons_self
        · exact hpieces piece (List.mem_cons_of_mem _ h)

theorem pieces_of_slash_notMem : ∀ {piece : List UInt8}, slash ∉ piece → pieces piece = [piece]
  | [], _ => rfl
  | byte :: rest, h => by
    rw [List.mem_cons, not_or] at h
    rw [pieces, if_neg fun e => h.1 (beq_iff_eq.1 e).symm, pieces_of_slash_notMem h.2]

theorem pieces_append_slash (rest : List UInt8) : ∀ {piece : List UInt8}, slash ∉ piece →
    pieces (piece ++ slash :: rest) = piece :: pieces rest
  | [], _ => rfl
  | byte :: piece, h => by
    rw [List.mem_cons, not_or] at h
    rw [List.cons_append, pieces, if_neg fun e => h.1 (beq_iff_eq.1 e).symm,
      pieces_append_slash rest h.2]

theorem pieces_intercalate : ∀ {first : List UInt8} {others : List (List UInt8)},
    (∀ piece ∈ first :: others, slash ∉ piece) →
    pieces (List.intercalate [slash] (first :: others)) = first :: others
  | first, [], h => by
    rw [List.intercalate_singleton]
    exact pieces_of_slash_notMem (h first List.mem_cons_self)
  | first, second :: others, h => by
    rw [List.intercalate_cons_cons, List.append_assoc, List.singleton_append,
      pieces_append_slash _ (h first List.mem_cons_self),
      pieces_intercalate fun piece hpiece => h piece (List.mem_cons_of_mem _ hpiece)]

/-! ## Names -/

/-- A name of a file or directory: a piece of a path that leads on. -/
structure IsName (name : RawText) : Prop where
  ne_empty : name ≠ .empty
  no_slash : slash ∉ name.bytes
  ne_here : name.bytes ≠ [dot]
  ne_up : name.bytes ≠ [dot, dot]

theorem Part.ofSegment_of_isName {name : RawText} (h : IsName name) :
    Part.ofSegment name = .name name := by
  unfold Part.ofSegment
  rw [if_neg (by simpa using h.ne_here), if_neg (by simpa using h.ne_up)]

/-- A part that may stand behind the front of a path. -/
inductive Part.Follows : Part → Prop where
  | here : Follows .here
  | up : Follows .up
  | name {text : RawText} (isName : IsName text) : Follows (.name text)

theorem Part.follows_ofSegment {path : Path} {segment : RawText} (h : segment ∈ path.segments) :
    (Part.ofSegment segment).Follows := by
  obtain ⟨piece, hpiece, hsegment⟩ := List.mem_filterMap.1 h
  split at hsegment
  · cases hsegment
  rename_i hne
  obtain rfl : RawText.mk piece = segment := Option.some.inj hsegment
  unfold Part.ofSegment
  split
  · exact .here
  split
  · exact .up
  · rename_i hhere hup
    exact .name ⟨fun e => hne (List.isEmpty_iff.2 (congrArg RawText.bytes e)),
      slash_notMem_of_mem_pieces hpiece, by simpa using hhere, by simpa using hup⟩

/-- A path is what follows the root, or what follows the working directory. -/
theorem exists_parts_eq (path : Path) : ∃ rest : List Part, (∀ part ∈ rest, part.Follows) ∧
    (path.parts = .root :: rest ∨ path.parts = rest) := by
  have hsegments : ∀ part ∈ path.segments.map Part.ofSegment, part.Follows := by
    intro part hpart
    obtain ⟨segment, hsegment, rfl⟩ := List.mem_map.1 hpart
    exact Part.follows_ofSegment hsegment
  unfold parts
  dsimp only
  generalize path.segments.map Part.ofSegment = all at hsegments
  split
  · exact ⟨_, fun part hpart => hsegments part (List.mem_filter.1 hpart).1, Or.inl rfl⟩
  · cases all with
    | nil => exact ⟨[], List.forall_mem_nil _, Or.inr rfl⟩
    | cons first rest =>
      rw [List.forall_mem_cons] at hsegments
      refine ⟨first :: rest.filter (· ≠ .here), List.forall_mem_cons.2 ⟨hsegments.1, ?_⟩, Or.inr rfl⟩
      exact fun part hpart => hsegments.2 part (List.mem_filter.1 hpart).1

end Path

namespace Place

open SchemaLang.Path

/-! ## The place of a path -/

/-- The place that names lead to, from the root or from the working directory. -/
def under (fromRoot : Bool) (names : List RawText) : Place :=
  if fromRoot then .empty :: names else names

/-- The place is reached by names. -/
def WellFormed (place : Place) : Prop :=
  ∃ fromRoot names, (∀ name ∈ names, IsName name) ∧ place = under fromRoot names

variable {place directory : Place} {names : List RawText} {name : RawText}

theorem WellFormed.step (h : place.WellFormed) {part : Part} (hpart : part.Follows) :
    (place.step part).WellFormed := by
  obtain ⟨fromRoot, names, hnames, rfl⟩ := h
  cases hpart with
  | here => exact ⟨fromRoot, names, hnames, rfl⟩
  | up =>
    have hdrop : ∀ name ∈ names.dropLast, IsName name := fun name hname =>
      hnames name (List.dropLast_subset _ hname)
    cases fromRoot with
    | false => exact ⟨false, names.dropLast, hdrop, rfl⟩
    | true =>
      cases names with
      | nil => exact ⟨false, [], List.forall_mem_nil _, rfl⟩
      | cons first rest => exact ⟨true, (first :: rest).dropLast, hdrop, rfl⟩
  | @name text isName =>
    refine ⟨fromRoot, names ++ [text], fun name hname => ?_, by cases fromRoot <;> rfl⟩
    rcases List.mem_append.1 hname with hname | hname
    · exact hnames name hname
    · rwa [List.mem_singleton.1 hname]

theorem WellFormed.foldl_step : ∀ {parts : List Part} {place : Place}, place.WellFormed →
    (∀ part ∈ parts, part.Follows) → (parts.foldl Place.step place).WellFormed
  | [], _, h, _ => h
  | part :: parts, place, h, hparts => by
    rw [List.forall_mem_cons] at hparts
    exact (h.step hparts.1).foldl_step hparts.2

/-- The place of a path is reached by names. -/
theorem wellFormed_ofPath (path : Path) : (ofPath path).WellFormed := by
  obtain ⟨rest, hrest, hparts | hparts⟩ := path.exists_parts_eq
  · have hroot : WellFormed [.empty] := ⟨true, [], List.forall_mem_nil _, rfl⟩
    unfold ofPath
    rw [hparts]
    exact hroot.foldl_step hrest
  · have hhere : WellFormed [] := ⟨false, [], List.forall_mem_nil _, rfl⟩
    unfold ofPath
    rw [hparts]
    exact hhere.foldl_step hrest

/-! ## The path of a place -/

/-- How a place is written, but for the root alone. -/
theorem path_under_cons (fromRoot : Bool) {first : RawText} (rest : List RawText)
    (hfirst : first ≠ .empty) : (under fromRoot (first :: rest)).path =
      ⟨⟨(if fromRoot then [slash] else []) ++
        List.intercalate [slash] ((first :: rest).map RawText.bytes)⟩⟩ := by
  unfold Place.path under
  cases fromRoot with
  | false =>
    rw [if_neg (by simp [hfirst])]
    simp
  | true =>
    rw [if_neg (by simp)]
    simp [List.intercalate_cons_cons, RawText.empty]

theorem pieces_intercalate_names {first : RawText} {rest : List RawText}
    (h : ∀ name ∈ first :: rest, IsName name) :
    pieces (List.intercalate [slash] ((first :: rest).map RawText.bytes)) =
      (first :: rest).map RawText.bytes := by
  rw [List.map_cons]
  refine pieces_intercalate fun piece hpiece => ?_
  rw [← List.map_cons (f := RawText.bytes)] at hpiece
  obtain ⟨name, hname, rfl⟩ := List.mem_map.1 hpiece
  exact (h name hname).no_slash

theorem segments_path_under (fromRoot : Bool) (h : ∀ name ∈ names, IsName name) :
    (under fromRoot names).path.segments = names := by
  cases names with
  | nil => cases fromRoot <;> rfl
  | cons first rest =>
    have hnames : ((first :: rest).map RawText.bytes).filterMap (fun piece =>
        if piece.isEmpty then none else some (RawText.mk piece)) = first :: rest := by
      rw [List.filterMap_map]
      refine (List.filterMap_congr fun name hname => ?_).trans List.filterMap_some
      exact if_neg fun hempty =>
        (h name hname).ne_empty (RawText.ext (List.isEmpty_iff.1 hempty))
    rw [path_under_cons fromRoot rest (h first List.mem_cons_self).ne_empty]
    have hpieces := pieces_intercalate_names h
    unfold segments
    dsimp only
    rw [← hpieces] at hnames
    refine Eq.trans ?_ hnames
    cases fromRoot <;> rfl

theorem isAbsolute_path_under (fromRoot : Bool) (h : ∀ name ∈ names, IsName name) :
    (under fromRoot names).path.isAbsolute = fromRoot := by
  cases names with
  | nil => cases fromRoot <;> rfl
  | cons first rest =>
    obtain ⟨hne, hslash, -, -⟩ := h first List.mem_cons_self
    obtain ⟨byte, more, hbytes⟩ :=
      List.exists_cons_of_ne_nil (l := first.bytes) fun e => hne (RawText.ext e)
    have hbyte : byte ≠ slash := fun e => hslash (by rw [hbytes, e]; exact List.mem_cons_self)
    rw [path_under_cons fromRoot rest hne]
    unfold isAbsolute
    cases fromRoot with
    | true => simp
    | false => cases rest <;> simp [List.intercalate_cons_cons, hbytes, hbyte]

/-- The parts of the path of a place: the root, if the names start there, and the names. -/
theorem parts_path_under (fromRoot : Bool) (h : ∀ name ∈ names, IsName name) :
    (under fromRoot names).path.parts =
      (if fromRoot then [Part.root] else []) ++ names.map Part.name := by
  have hparts : names.map Part.ofSegment = names.map Part.name :=
    List.map_congr_left fun name hname => Part.ofSegment_of_isName (h name hname)
  have hkept : ∀ others : List RawText,
      (others.map Part.name).filter (· ≠ .here) = others.map Part.name := fun others =>
    List.filter_eq_self.2 fun part hpart => by
      obtain ⟨name, -, rfl⟩ := List.mem_map.1 hpart
      rfl
  unfold parts
  dsimp only
  rw [segments_path_under fromRoot h, isAbsolute_path_under fromRoot h, hparts]
  cases fromRoot with
  | true =>
    rw [if_pos rfl, hkept]
    rfl
  | false =>
    cases names with
    | nil => rfl
    | cons first rest =>
      rw [if_neg Bool.false_ne_true, List.map_cons]
      dsimp only
      rw [hkept]
      rfl

theorem foldl_step_names : ∀ (names : List RawText) (place : Place),
    (names.map Part.name).foldl Place.step place = place ++ names
  | [], place => (List.append_nil place).symm
  | name :: names, place => by
    rw [List.map_cons, List.foldl_cons, foldl_step_names names, Place.step, List.append_assoc,
      List.singleton_append]

/-- The path of a place leads to this place. -/
theorem ofPath_path (h : place.WellFormed) : ofPath place.path = place := by
  obtain ⟨fromRoot, names, hnames, rfl⟩ := h
  unfold ofPath
  rw [parts_path_under fromRoot hnames, List.foldl_append, foldl_step_names]
  cases fromRoot <;> rfl

/-! ## Entries of a directory -/

/-- A place in a directory is its name there. -/
theorem WellFormed.of_parent (h : place.WellFormed) (hparent : place.parent? = some directory) :
    ∃ name, IsName name ∧ place = directory ++ [name] := by
  obtain ⟨fromRoot, names, hnames, rfl⟩ := h
  unfold parent? at hparent
  split at hparent
  · cases hparent
  rename_i hne
  rw [not_or] at hne
  obtain rfl : (under fromRoot names).dropLast = directory := Option.some.inj hparent
  rcases List.eq_nil_or_concat names with rfl | ⟨init, name, rfl⟩
  · cases fromRoot with
    | false => exact absurd rfl hne.1
    | true => exact absurd rfl hne.2
  · rw [List.concat_eq_append] at *
    refine ⟨name, hnames name (by simp), ?_⟩
    cases fromRoot with
    | false => simp [under]
    | true => rw [under, if_pos rfl, ← List.cons_append, List.dropLast_concat]

theorem concat_ne_root (hname : IsName name) : directory ++ [name] ≠ [.empty] := fun h => by
  have hlast := congrArg List.getLast? h
  rw [List.getLast?_concat] at hlast
  exact hname.ne_empty (Option.some.inj hlast)

theorem fileName?_path_concat (h : directory.WellFormed) (hname : IsName name) :
    (Place.path (directory ++ [name])).fileName? = some name := by
  obtain ⟨fromRoot, names, hnames, rfl⟩ := h
  have hall : ∀ other ∈ names ++ [name], IsName other := by
    rw [List.forall_mem_append]
    exact ⟨hnames, List.forall_mem_singleton.2 hname⟩
  have hplace : under fromRoot names ++ [name] = under fromRoot (names ++ [name]) := by
    cases fromRoot <;> rfl
  unfold fileName?
  rw [hplace, parts_path_under fromRoot hall, List.map_append, ← List.append_assoc]
  simp

theorem intercalate_concat (last : List UInt8) : ∀ {pieces : List (List UInt8)}, pieces ≠ [] →
    List.intercalate [slash] (pieces ++ [last]) = List.intercalate [slash] pieces ++ slash :: last
  | [], h => absurd rfl h
  | [piece], _ => by simp [List.intercalate_cons_cons]
  | piece :: second :: others, _ => by
    have hrest := intercalate_concat last (List.cons_ne_nil second others)
    rw [List.cons_append] at hrest
    rw [List.cons_append, List.cons_append, List.intercalate_cons_cons, hrest,
      List.intercalate_cons_cons]
    simp

/-- The text of an entry ends in its name, behind a slash if there is something before it. -/
theorem bytes_path_concat (hname : IsName name) :
    (Place.path (directory ++ [name])).text.bytes = if directory = [] then name.bytes
      else List.intercalate [slash] (directory.map RawText.bytes) ++ slash :: name.bytes := by
  unfold Place.path
  rw [if_neg (concat_ne_root hname)]
  dsimp only
  rw [List.map_append, List.map_singleton]
  split
  · rename_i hd
    rw [hd, List.map_nil, List.nil_append, List.intercalate_singleton]
  · rename_i hd
    exact intercalate_concat _ (mt List.map_eq_nil_iff.1 hd)

/-- The path of an entry is its name joined to the path of the directory. -/
theorem path_concat (h : directory.WellFormed) (hname : IsName name) :
    Place.path (directory ++ [name]) = directory.path.join name := by
  have habsolute : (Path.mk name).isAbsolute = false := by
    unfold isAbsolute
    refine beq_eq_false_iff_ne.2 fun e => hname.no_slash ?_
    exact List.mem_of_head? e
  have hpath : ∀ path : Path, path.text.bytes = (Place.path (directory ++ [name])).text.bytes →
      Place.path (directory ++ [name]) = path :=
    fun path hbytes => Path.ext (RawText.ext hbytes.symm)
  refine hpath _ ?_
  rw [bytes_path_concat hname]
  unfold join
  rw [habsolute, if_neg Bool.false_ne_true]
  obtain ⟨fromRoot, names, hnames, rfl⟩ := h
  rcases List.eq_nil_or_concat names with rfl | ⟨init, last, rfl⟩
  · cases fromRoot with
    | false => rfl
    | true => rfl
  · rw [List.concat_eq_append] at *
    have hlast : IsName last := hnames last (by simp)
    obtain ⟨above, habove⟩ : ∃ above, under fromRoot (init ++ [last]) = above ++ [last] := by
      cases fromRoot
      · exact ⟨init, rfl⟩
      · exact ⟨.empty :: init, rfl⟩
    -- the directory is written with a name at the end, so a slash has to come in between
    obtain ⟨before, hbytes⟩ :
        ∃ before, (Place.path (above ++ [last])).text.bytes = before ++ last.bytes := by
      rw [bytes_path_concat hlast]
      split
      · exact ⟨[], rfl⟩
      · exact ⟨List.intercalate [slash] (above.map RawText.bytes) ++ [slash], by simp⟩
    have hchars : last.bytes ≠ [] := fun e => hlast.ne_empty (RawText.ext e)
    have hslash : (Place.path (above ++ [last])).endsInSlash = false := by
      unfold endsInSlash
      rw [hbytes, List.getLast?_append_of_ne_nil _ hchars]
      exact beq_eq_false_iff_ne.2 fun e => hlast.no_slash (List.mem_of_getLast? e)
    have hempty : (Place.path (above ++ [last])).text.isEmpty = false := by
      unfold RawText.isEmpty
      rw [hbytes]
      simp [hchars]
    rw [habove, hslash, hempty, if_neg (by simp), if_neg (by simp)]
    unfold Place.path
    rw [if_neg (concat_ne_root hlast)]
    simp

end Place

/-! ## Paths that are worked out -/

namespace Path

/-- The path with `.` and `..` worked out. -/
def normal (path : Path) : Path :=
  (Place.ofPath path).path

theorem ofPath_normal (path : Path) : Place.ofPath path.normal = Place.ofPath path :=
  Place.ofPath_path (Place.wellFormed_ofPath path)

@[simp] theorem normal_normal (path : Path) : path.normal.normal = path.normal := by
  rw [normal, ofPath_normal]
  rfl

/-- Paths are worked out to one path where they lead to one place. -/
theorem normal_eq_normal_iff {path other : Path} :
    path.normal = other.normal ↔ Place.ofPath path = Place.ofPath other := by
  refine ⟨fun h => ?_, fun h => congrArg Place.path h⟩
  rw [← ofPath_normal path, h, ofPath_normal]

end Path

end SchemaLang
