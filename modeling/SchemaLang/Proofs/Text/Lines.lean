import Mathlib.Data.String.Basic
import SchemaLang.Decimal.Style
import SchemaLang.Text.Quoted

/-!
# Texts on one line

What an outline shows of a node stands on one line, and does not start with the blanks that indent it.

* `Text.Unbroken`: a text without line feeds. Such texts are the lines of what they are put together to
  (`splitToList_join`).
* `Text.Solid`: a text without line feeds and spaces, such as a number (`solid_nat`, `solid_int`,
  `DecimalStyle.solid_outline`).
* `Text.IsLine`: a text on one line, such as quoted text (`isLine_quoted`).
-/

namespace SchemaLang

namespace Text

/-- There is no line feed in the text. -/
def Unbroken (s : String) : Prop :=
  '\n' ∉ s.toList

/-- There is neither a line feed nor a space in the text. -/
def Solid (s : String) : Prop :=
  ∀ c ∈ s.toList, c ≠ '\n' ∧ c ≠ ' '

/-- A name as it is written in a source: it has characters, and no blanks. -/
def IsWord (s : String) : Prop :=
  s ≠ "" ∧ Solid s

/-- What an outline shows after the indentation: one line, which does not start with a blank. -/
structure IsLine (s : String) : Prop where
  unbroken : Unbroken s
  flush : s.toList.head? ≠ some ' '

instance (s : String) : Decidable (Unbroken s) :=
  inferInstanceAs (Decidable ('\n' ∉ s.toList))

instance (s : String) : Decidable (Solid s) :=
  List.decidableBAll (fun c => c ≠ '\n' ∧ c ≠ ' ') s.toList

instance (s : String) : Decidable (IsWord s) :=
  inferInstanceAs (Decidable (s ≠ "" ∧ Solid s))

instance (s : String) : Decidable (IsLine s) :=
  decidable_of_iff (Unbroken s ∧ s.toList.head? ≠ some ' ') ⟨fun h => ⟨h.1, h.2⟩, fun h => ⟨h.1, h.2⟩⟩

variable {s t : String} {chars : List Char}

/-! ## Putting texts together -/

@[simp] theorem unbroken_append : Unbroken (s ++ t) ↔ Unbroken s ∧ Unbroken t := by
  unfold Unbroken
  rw [String.toList_append, List.mem_append, not_or]

theorem Solid.unbroken (h : Solid s) : Unbroken s :=
  fun hmem => (h _ hmem).1 rfl

theorem IsWord.unbroken (h : IsWord s) : Unbroken s :=
  h.2.unbroken

theorem Solid.append (h : Solid s) (h' : Solid t) : Solid (s ++ t) := by
  intro c hc
  rw [String.toList_append] at hc
  exact (List.mem_append.1 hc).elim (h c) (h' c)

theorem unbroken_join {texts : List String} (h : ∀ s ∈ texts, Unbroken s) :
    Unbroken (String.join texts) := by
  unfold Unbroken at *
  rw [String.toList_join]
  rintro hmem
  obtain ⟨s, hs, hline⟩ := List.mem_flatMap.1 hmem
  exact h s hs hline

theorem unbroken_intercalate {separator : String} (hs : Unbroken separator) :
    ∀ {texts : List String}, (∀ s ∈ texts, Unbroken s) →
      Unbroken (String.intercalate separator texts)
  | [], _ => by
    rw [String.intercalate_nil]
    decide
  | [s], h => by
    rw [String.intercalate_singleton]
    exact h s List.mem_cons_self
  | s :: t :: texts, h => by
    rw [String.intercalate_cons_cons]
    exact unbroken_append.2 ⟨unbroken_append.2 ⟨h s List.mem_cons_self, hs⟩,
      unbroken_intercalate hs fun u hu => h u (List.mem_cons_of_mem _ hu)⟩

theorem Solid.isLine (h : Solid s) : IsLine s :=
  ⟨h.unbroken, fun hs => (h _ (List.mem_of_mem_head? hs)).2 rfl⟩

/-- How a line goes on does not matter, once it has begun. -/
theorem IsLine.append (h : IsLine s) (hs : s ≠ "") (ht : Unbroken t) : IsLine (s ++ t) := by
  refine ⟨unbroken_append.2 ⟨h.unbroken, ht⟩, fun hhead => h.flush ?_⟩
  rw [String.toList_append] at hhead
  exact (List.head?_append_of_ne_nil _ fun he => hs (String.toList_eq_nil_iff.1 he)).symm.trans hhead

/-- Lines that are put together are found again where the text is split. -/
theorem splitToList_join : ∀ {texts : List String}, (∀ s ∈ texts, Unbroken s) →
    (String.join (texts.map fun s => s ++ "\n")).splitToList (· == '\n') = texts ++ [""] := by
  intro texts h
  rw [String.splitToList_of_valid, String.toList_join]
  induction texts with
  | nil => rfl
  | cons s texts ih =>
    have hs : ∀ c ∈ s.toList, (c == '\n') = false := fun c hc =>
      beq_eq_false_iff_ne.2 fun he => h s List.mem_cons_self (he ▸ hc)
    have hrest := ih fun t ht => h t (List.mem_cons_of_mem _ ht)
    rw [List.map_cons, List.flatMap_cons, String.toList_append, List.append_assoc]
    show (List.splitOnP _ (s.toList ++ '\n' :: _)).map String.ofList = _
    rw [List.splitOnP_append_cons_of_forall_mem hs '\n' rfl, List.map_cons, String.ofList_toList]
    exact congrArg (s :: ·) hrest

/-! ## Numbers -/

theorem solid_of_isDigit (h : ∀ c ∈ chars, c.isDigit = true) : Solid (String.ofList chars) := by
  intro c hc
  rw [String.toList_ofList] at hc
  have hdigit := h c hc
  constructor <;> rintro rfl <;> cases hdigit

theorem isDigit_of_mem_toDigits {n : Nat} : ∀ c ∈ Nat.toDigits 10 n, c.isDigit = true :=
  fun _ hc => Nat.isDigit_of_mem_toDigits (by decide) (by decide) hc

theorem solid_nat (n : Nat) : Solid (toString n) :=
  solid_of_isDigit isDigit_of_mem_toDigits

theorem solid_int (n : Int) : Solid (toString n) := by
  cases n with
  | ofNat n => exact solid_nat n
  | negSucc n => exact Solid.append (by decide) (solid_nat _)

/-! ## Quoted text -/

theorem digitChar_ne : ∀ digit : Fin 16, digit.val.digitChar ≠ '\n' := by
  decide

theorem unbroken_digits (n : Nat) : Unbroken (String.ofList (Nat.toDigits 16 n)) := by
  unfold Unbroken
  rw [String.toList_ofList]
  induction n using Nat.strongRecOn with
  | ind n ih =>
    rcases Nat.lt_or_ge n 16 with hlt | hge
    · rw [Nat.toDigits_of_lt_base hlt, List.mem_singleton]
      exact (digitChar_ne ⟨n, hlt⟩).symm
    · have hlast : n % 16 < 16 := Nat.mod_lt _ (by decide)
      rw [Nat.toDigits_of_base_le (by decide) hge, List.mem_append, List.mem_singleton, not_or]
      exact ⟨ih _ (Nat.div_lt_self (by omega) (by decide)), (digitChar_ne ⟨_, hlast⟩).symm⟩

theorem unbroken_quotedChar (c : Char) : Unbroken (quotedChar c) := by
  unfold quotedChar
  split
  · decide
  split
  · decide
  split
  · decide
  rename_i hline
  split
  · decide
  split
  · decide
  split
  · decide
  split
  · exact unbroken_append.2 ⟨unbroken_append.2 ⟨by decide, unbroken_digits _⟩, by decide⟩
  · unfold Unbroken
    rw [String.toList_singleton, List.mem_singleton]
    rintro rfl
    exact hline rfl

theorem isLine_quoted (text : String) : IsLine (quoted text) := by
  unfold quoted
  rw [String.append_assoc]
  refine IsLine.append (by decide) (by decide) (unbroken_append.2 ⟨?_, by decide⟩)
  refine unbroken_join fun s hs => ?_
  obtain ⟨c, -, rfl⟩ := List.mem_map.1 hs
  exact unbroken_quotedChar c

end Text

/-! ## Numbers with a point -/

namespace DecimalStyle

open Text

theorem solid_zeros (count : Nat) : Solid (zeros count) :=
  solid_of_isDigit fun c hc => by rw [List.eq_of_mem_replicate hc]; rfl

theorem solid_positional {style : DecimalStyle} (h : Solid style.wholeMark) (x : Decimal) :
    Solid (style.positional x) := by
  have hdigits : ∀ {chars : List Char}, (∀ c ∈ chars, c ∈ Nat.toDigits 10 x.digits) →
      Solid (String.ofList chars) := fun hsub =>
    solid_of_isDigit fun c hc => isDigit_of_mem_toDigits c (hsub c hc)
  unfold positional
  dsimp only
  split
  · exact (Solid.append (by decide) (solid_zeros _)).append (hdigits fun _ => id)
  split
  · exact ((hdigits fun _ => id).append (solid_zeros _)).append h
  · exact ((hdigits fun _ => List.mem_of_mem_take).append (by decide)).append
      (hdigits fun _ => List.mem_of_mem_drop)

theorem solid_exponential (x : Decimal) : Solid (exponential x) := by
  have hdigits : ∀ {chars : List Char}, (∀ c ∈ chars, c ∈ Nat.toDigits 10 x.digits) →
      Solid (String.ofList chars) := fun hsub =>
    solid_of_isDigit fun c hc => isDigit_of_mem_toDigits c (hsub c hc)
  unfold exponential
  dsimp only
  refine (((hdigits fun _ => List.mem_of_mem_take).append ?_).append (by decide)).append (solid_int _)
  split
  · decide
  · exact Solid.append (by decide) (hdigits fun _ => List.mem_of_mem_drop)

/-- A number as outlines show it. -/
theorem solid_outline (x : Binary64) : Solid (outline.render x) := by
  have htext : Solid (if x.isInfinite then "inf" else if x.isZero then "0" ++ outline.wholeMark
      else outline.positive (Decimal.shortest x)) := by
    split
    · decide
    split
    · decide
    · unfold positive
      split
      · exact solid_positional (by decide) _
      · exact solid_exponential _
  unfold render
  split
  · decide
  dsimp only
  split
  · exact Solid.append (by decide) htext
  · exact htext

end DecimalStyle

end SchemaLang
