import SchemaLang.Proofs.Provider.Memory
import SchemaLang.Proofs.Text.Raw

/-!
# Names in Unicode paths

Slashes and dots are characters of one byte, and no other character has their bytes. So a Unicode path
has Unicode names on the way, and so has every path that leads to the same place.

* `Path.isUnicode_of_mem_segments`: the segments of a Unicode path.
* `Memory.isUnicode_of_mem_list`: the names of files that were added under Unicode paths.
-/

namespace SchemaLang

/-! ## Pieces of encoded text -/

namespace Path

theorem pieces_ne_nil : ∀ bytes : List UInt8, pieces bytes ≠ []
  | [] => List.cons_ne_nil _ _
  | byte :: rest => by
    unfold pieces
    split
    · exact List.cons_ne_nil _ _
    · split <;> exact List.cons_ne_nil _ _

theorem pieces_append {rest first : List UInt8} {others : List (List UInt8)}
    (h : pieces rest = first :: others) : ∀ {piece : List UInt8}, slash ∉ piece →
    pieces (piece ++ rest) = (piece ++ first) :: others
  | [], _ => h
  | byte :: piece, hslash => by
    rw [List.mem_cons, not_or] at hslash
    rw [List.cons_append, pieces, if_neg fun e => hslash.1 (beq_iff_eq.1 e).symm,
      pieces_append h hslash.2]
    rfl

/-- Only a slash is encoded with the byte of the slash. -/
theorem slash_notMem_encode {x : Char} (h : x ≠ '/') : slash ∉ String.utf8EncodeChar x := by
  have hslash : slash.toNat = 0x2F := rfl
  intro hmem
  rcases Nat.lt_or_ge x.toNat 0x80 with hx | hx
  · rw [Text.encode_of_lt hx, List.mem_singleton] at hmem
    have hbyte := (Text.ofNat_eq_iff (by omega)).1 hmem.symm
    exact h (Char.toNat_inj.1 (hbyte.symm.trans hslash))
  · have hbyte := Text.le_of_mem_encode hx slash hmem
    omega

/-- The pieces of encoded text are encoded text, by induction on the characters. -/
theorem exists_chars_of_mem_pieces (chars : List Char) :
    ∀ piece ∈ pieces (chars.flatMap String.utf8EncodeChar),
      ∃ part : List Char, piece = part.flatMap String.utf8EncodeChar := by
  induction chars with
  | nil =>
    intro piece hpiece
    exact ⟨[], List.mem_singleton.1 hpiece⟩
  | cons x chars ih =>
    intro piece hpiece
    rw [List.flatMap_cons] at hpiece
    by_cases hx : x = '/'
    · have hcons : pieces (String.utf8EncodeChar '/' ++ chars.flatMap String.utf8EncodeChar) =
          [] :: pieces (chars.flatMap String.utf8EncodeChar) := rfl
      rw [hx, hcons] at hpiece
      rcases List.mem_cons.1 hpiece with rfl | hpiece
      · exact ⟨[], rfl⟩
      · exact ih piece hpiece
    · obtain ⟨first, others, hrest⟩ := List.exists_cons_of_ne_nil
        (pieces_ne_nil (chars.flatMap String.utf8EncodeChar))
      rw [hrest, List.forall_mem_cons] at ih
      rw [pieces_append hrest (slash_notMem_encode hx)] at hpiece
      rcases List.mem_cons.1 hpiece with rfl | hpiece
      · obtain ⟨part, rfl⟩ := ih.1
        exact ⟨x :: part, List.flatMap_cons.symm⟩
      · exact ih.2 piece hpiece

theorem isUnicode_of_mem_segments {path : Path} (h : path.text.IsUnicode) {segment : RawText}
    (hsegment : segment ∈ path.segments) : segment.IsUnicode := by
  obtain ⟨text, htext⟩ := h
  obtain ⟨piece, hpiece, hsegment⟩ := List.mem_filterMap.1 hsegment
  split at hsegment
  · cases hsegment
  obtain rfl := Option.some.inj hsegment
  rw [htext, RawText.bytes_ofString] at hpiece
  obtain ⟨part, rfl⟩ := exists_chars_of_mem_pieces _ piece hpiece
  refine ⟨String.ofList part, RawText.ext ?_⟩
  rw [RawText.bytes_ofString, String.toList_ofList]

end Path

/-! ## Names on the way -/

namespace Place

open SchemaLang.Path

/-- Going on by a part brings in its name alone. -/
theorem mem_step {place : Place} {part : Part} {name : RawText} (h : name ∈ place.step part) :
    name ∈ place ∨ name = .empty ∨ part = .name name := by
  cases part with
  | root => exact (List.mem_append.1 h).imp id fun h => Or.inl (List.mem_singleton.1 h)
  | here => exact Or.inl h
  | up => exact Or.inl (List.dropLast_subset _ h)
  | name text =>
    rcases List.mem_append.1 h with h | h
    · exact Or.inl h
    · exact Or.inr (Or.inr (congrArg Part.name (List.mem_singleton.1 h).symm))

theorem mem_foldl_step {name : RawText} : ∀ (parts : List Part) {place : Place},
    name ∈ parts.foldl Place.step place → name ∈ place ∨ name = .empty ∨ Part.name name ∈ parts
  | [], _, h => Or.inl h
  | part :: parts, place, h => by
    rcases mem_foldl_step parts h with h | h | h
    · rcases mem_step h with h | h | rfl
      · exact Or.inl h
      · exact Or.inr (Or.inl h)
      · exact Or.inr (Or.inr List.mem_cons_self)
    · exact Or.inr (Or.inl h)
    · exact Or.inr (Or.inr (List.mem_cons_of_mem _ h))

end Place

namespace Path

theorem mem_segments_of_name_mem_parts {path : Path} {name : RawText}
    (h : Part.name name ∈ path.parts) : name ∈ path.segments := by
  have hsegment : Part.name name ∈ path.segments.map Part.ofSegment → name ∈ path.segments := by
    intro h
    obtain ⟨segment, hsegment, heq⟩ := List.mem_map.1 h
    unfold Part.ofSegment at heq
    split at heq
    · cases heq
    split at heq
    · cases heq
    · exact Part.name.inj heq ▸ hsegment
  unfold parts at h
  dsimp only at h
  split at h
  · rcases List.mem_cons.1 h with h | h
    · cases h
    · exact hsegment (List.mem_filter.1 h).1
  · generalize path.segments.map Part.ofSegment = all at h hsegment
    cases all with
    | nil => cases h
    | cons first rest =>
      rcases List.mem_cons.1 h with h | h
      · exact hsegment (h ▸ List.mem_cons_self)
      · exact hsegment (List.mem_cons_of_mem _ (List.mem_filter.1 h).1)

/-- The names on the way to the place of a Unicode path. -/
theorem isUnicode_of_mem_ofPath {path : Path} (h : path.text.IsUnicode) {name : RawText}
    (hname : name ∈ Place.ofPath path) : name.IsUnicode := by
  rcases Place.mem_foldl_step _ hname with hname | rfl | hname
  · cases hname
  · exact ⟨"", rfl⟩
  · exact isUnicode_of_mem_segments h (mem_segments_of_name_mem_parts hname)

end Path

namespace Memory

/-- Source files that were added under Unicode paths have Unicode names. -/
theorem isUnicode_of_mem_list {inserts : List (Path × ByteArray)}
    (h : ∀ file ∈ inserts, file.1.text.IsUnicode) {directory path : Path} {name : RawText}
    (hpath : path ∈ (filled inserts).list directory) (hname : path.fileName? = some name) :
    name.IsUnicode := by
  obtain ⟨other, -, hplace, hother, -⟩ :=
    (wellFormed_filled inserts).exists_name_of_mem_list hpath
  obtain rfl : other = name := Option.some.inj (hother.symm.trans hname)
  obtain ⟨-, hread, -, -⟩ := (wellFormed_filled inserts).mem_list.1 hpath
  obtain ⟨file, hfile, hfileplace⟩ := mem_files_filled.1 (exists_read_iff.1 hread)
  refine Path.isUnicode_of_mem_ofPath (h file hfile) ?_
  rw [hfileplace, hplace]
  exact List.mem_append_right _ List.mem_cons_self

end Memory

end SchemaLang
