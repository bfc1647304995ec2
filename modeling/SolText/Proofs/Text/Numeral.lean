import Mathlib.Algebra.Group.Nat.Defs
import Mathlib.Data.List.Basic
import SolText.Text.Numeral
import SolText.Text.Split

/-!
# Numerals and parts of texts

Notations consist of parts with marks between them, and many of the parts are numerals.

* `Denotes`: a numeral and the number that it stands for.
* `readWord_eq_some_iff`: a part is read as a number if it denotes the number.
* `readDigits_repr`, `head?_toDigits_ne`: a word in decimal is read as itself, and has no zeros in front.
* `splitAll_eq_splitOn`: a text is split as lists are.
* `splitFirst_append`: a text is split at the first separator.
-/

namespace SolText.Text

variable {part digits : List Char} {value : Nat}

/-! ### Numerals -/

/-- The part is a numeral of the value, which is a word: one or more digits, behind at most one plus
sign. -/
def Denotes (part : List Char) (value : Nat) : Prop :=
  ∃ digits, (part = digits ∨ part = '+' :: digits) ∧ digits ≠ [] ∧ (∀ c ∈ digits, c.isDigit) ∧
    Nat.ofDigitChars 10 digits 0 = value ∧ value < 2 ^ 64

theorem decimalValue_eq (digits : List Char) : decimalValue digits = Nat.ofDigitChars 10 digits 0 := by
  unfold decimalValue digitValue
  rw [Nat.ofDigitChars_eq_foldl]
  simp only [Nat.mul_comm]

theorem readDigits_eq_some_iff :
    readDigits digits = some value ↔ digits ≠ [] ∧ (∀ c ∈ digits, c.isDigit) ∧
      Nat.ofDigitChars 10 digits 0 = value ∧ value < 2 ^ 64 := by
  have hword : ∀ n, n ≤ maxWord ↔ n < 2 ^ 64 := fun n => Nat.lt_succ_iff.symm
  unfold readDigits
  rw [decimalValue_eq]
  simp only [Bool.and_eq_true, Bool.not_eq_true', List.isEmpty_eq_false_iff, List.all_eq_true,
    decide_eq_true_eq, hword]
  constructor
  · intro h
    split at h
    · rename_i hdigits
      cases h
      exact ⟨hdigits.1.1, hdigits.1.2, rfl, hdigits.2⟩
    · cases h
  · rintro ⟨hne, hall, rfl, hlt⟩
    rw [if_pos ⟨⟨hne, hall⟩, hlt⟩]

/-- **A part is read as a number if it denotes the number**, and only then. -/
theorem readWord_eq_some_iff : readWord part = some value ↔ Denotes part value := by
  unfold readWord Denotes
  split
  · rename_i digits
    rw [readDigits_eq_some_iff]
    constructor
    · intro h
      exact ⟨digits, .inr rfl, h⟩
    · rintro ⟨digits', rfl | hplus, h⟩
      · exact absurd (h.2.1 '+' List.mem_cons_self) (by decide)
      · cases hplus
        exact h
  · rename_i hplain
    rw [readDigits_eq_some_iff]
    constructor
    · intro h
      exact ⟨part, .inl rfl, h⟩
    · rintro ⟨digits', rfl | rfl, h⟩
      · exact h
      · exact absurd rfl (hplain digits')

theorem isDigit_of_mem_repr (value : Nat) : ∀ c ∈ (Nat.repr value).toList, c.isDigit := by
  intro c hc
  rw [Nat.repr_eq_ofList_toDigits, String.toList_ofList] at hc
  exact Nat.isDigit_of_mem_toDigits (by decide) (by decide) hc

theorem not_mem_repr {c : Char} (hdigit : c.isDigit = false) (value : Nat) :
    c ∉ (Nat.repr value).toList := by
  intro hc
  rw [isDigit_of_mem_repr value c hc] at hdigit
  cases hdigit

/-- A word in decimal is read as itself. -/
theorem readDigits_repr (h : value < 2 ^ 64) : readDigits (Nat.repr value).toList = some value := by
  refine readDigits_eq_some_iff.2 ⟨?_, isDigit_of_mem_repr value, ?_, h⟩
  · rw [Nat.repr_eq_ofList_toDigits, String.toList_ofList]
    exact Nat.toDigits_ne_nil
  · rw [Nat.repr_eq_ofList_toDigits, String.toList_ofList]
    exact Nat.ofDigitChars_ten_toDigits

/-- A word in decimal denotes itself. -/
theorem denotes_repr (h : value < 2 ^ 64) : Denotes (Nat.repr value).toList value :=
  ⟨_, .inl rfl, readDigits_eq_some_iff.1 (readDigits_repr h)⟩

/-- The first digit of a number other than zero is not zero. -/
theorem head?_toDigits_ne (h : 0 < value) : (Nat.toDigits 10 value).head? ≠ some '0' := by
  induction value using Nat.strongRecOn with
  | _ n ih =>
    rw [Nat.toDigits_eq_if (by decide)]
    split
    · rename_i hlt
      have hdigit : ∀ d < 10, 0 < d → [Nat.digitChar d].head? ≠ some '0' := by decide
      exact hdigit n hlt h
    · rename_i hge
      rw [List.head?_append_of_ne_nil _ Nat.toDigits_ne_nil]
      exact ih (n / 10) (by omega) (by omega)

/-- A numeral consists of digits and of the plus sign. -/
theorem Denotes.not_mem {c : Char} (h : Denotes part value) (hdigit : c.isDigit = false)
    (hplus : c ≠ '+') : c ∉ part := by
  obtain ⟨digits, hpart, -, hall, -, -⟩ := h
  have hdigits : c ∉ digits := by
    intro hc
    rw [hall c hc] at hdigit
    cases hdigit
  rcases hpart with rfl | rfl
  · exact hdigits
  · rw [List.mem_cons, not_or]
    exact ⟨hplus, hdigits⟩

/-! ### Parts -/

/-- A text is split as lists are. -/
theorem splitAll_eq_splitOn (separator : Char) (text : List Char) :
    splitAll separator text = text.splitOn separator := by
  induction text with
  | nil => rfl
  | cons c rest ih =>
    have hne := List.splitOn_ne_nil separator rest
    unfold List.splitOn at ih hne ⊢
    rw [splitAll, ih, List.splitOnP_cons_eq_if_modifyHead]
    by_cases hc : c = separator
    · rw [if_pos hc, if_pos (beq_iff_eq.2 hc)]
    · rw [if_neg hc, if_neg (mt beq_iff_eq.1 hc)]
      cases hparts : List.splitOnP (· == separator) rest with
      | nil => exact absurd hparts hne
      | cons part parts => rfl

/-- The parts of a text with the separators between them are the text. -/
theorem eq_of_splitAll {separator : Char} {text a b c : List Char}
    (h : splitAll separator text = [a, b, c]) : text = a ++ separator :: (b ++ separator :: c) := by
  rw [splitAll_eq_splitOn] at h
  have hparts : [separator].intercalate (text.splitOn separator) = text :=
    List.intercalate_splitOn separator
  rw [h] at hparts
  simpa [List.intercalate] using hparts.symm

/-- Parts without the separator are what the text with separators between them is split into. -/
theorem splitAll_eq_three {separator : Char} {a b c : List Char} (ha : separator ∉ a)
    (hb : separator ∉ b) (hc : separator ∉ c) :
    splitAll separator (a ++ separator :: (b ++ separator :: c)) = [a, b, c] := by
  have hparts : ∀ part ∈ [a, b, c], separator ∉ part := by
    simp only [List.forall_mem_cons]
    exact ⟨ha, hb, hc, List.forall_mem_nil _⟩
  have hsplit := List.splitOn_intercalate separator hparts (List.cons_ne_nil _ _)
  rw [splitAll_eq_splitOn]
  simpa [List.intercalate] using hsplit

/-- What holds of a separator and of all parts holds of the parts with separators between them. -/
theorem forall_mem_intercalate {P : Char → Prop} {separator : List Char} {parts : List (List Char)}
    (hseparator : ∀ c ∈ separator, P c) (hparts : ∀ part ∈ parts, ∀ c ∈ part, P c) :
    ∀ c ∈ separator.intercalate parts, P c := by
  induction parts with
  | nil => exact List.forall_mem_nil _
  | cons part rest ih =>
    obtain ⟨hpart, hrest⟩ := List.forall_mem_cons.1 hparts
    cases rest with
    | nil => simpa using hpart
    | cons next rest =>
      rw [List.intercalate_cons_cons, List.forall_mem_append, List.forall_mem_append]
      exact ⟨⟨hpart, hseparator⟩, ih hrest⟩

section
variable {separator : Char} {before : List Char}

/-- A text is split at the first separator, whatever follows. -/
theorem splitFirst_append (h : separator ∉ before) (after : List Char) :
    splitFirst separator (before ++ separator :: after) = (before, some after) := by
  induction before with
  | nil => rw [List.nil_append, splitFirst, if_pos rfl]
  | cons c before ih =>
    rw [List.mem_cons, not_or] at h
    rw [List.cons_append, splitFirst, if_neg (Ne.symm h.1), ih h.2]

theorem splitFirst_eq_self (h : separator ∉ before) : splitFirst separator before = (before, none) := by
  induction before with
  | nil => rfl
  | cons c before ih =>
    rw [List.mem_cons, not_or] at h
    rw [splitFirst, if_neg (Ne.symm h.1), ih h.2]

end

end SolText.Text
