/-!
# Text measured in bytes

Positions count UTF-8 bytes, while a text is a sequence of characters. A position is therefore
valid only where a character starts or the text ends.

* `byteLength`: the number of bytes of a text.
* `dropBytes`: what is left of a text from a byte position on, if the position is valid.
* `firstOccurrence`: the byte position at which one text first occurs in another.
-/

namespace SolText.Text

/-- The number of UTF-8 bytes of a text. -/
def byteLength : List Char → Nat
  | [] => 0
  | c :: rest => c.utf8Size + byteLength rest

/-- The text from byte `n` on, or none when `n` lies inside a character or past the end. -/
def dropBytes : Nat → List Char → Option (List Char)
  | 0, text => some text
  | _ + 1, [] => none
  | n + 1, c :: rest => if c.utf8Size ≤ n + 1 then dropBytes (n + 1 - c.utf8Size) rest else none

/-- The byte position of the first occurrence of `fragment` in a text. An empty fragment occurs at
the very start. -/
def firstOccurrence (fragment : List Char) : List Char → Option Nat
  | [] => if fragment.isEmpty then some 0 else none
  | c :: rest =>
    if fragment.isPrefixOf (c :: rest) then some 0
    else (firstOccurrence fragment rest).map (c.utf8Size + ·)

/-- The byte position, counted from `start`, of the first occurrence of `fragment` in `text` at or
after byte `start`. There is none when `start` is not a valid position. -/
def firstOccurrenceFrom (start : Nat) (fragment text : String) : Option Nat :=
  (dropBytes start text.toList).bind (firstOccurrence fragment.toList)

@[simp] theorem byteLength_nil : byteLength [] = 0 := rfl

@[simp] theorem byteLength_cons (c : Char) (text : List Char) :
    byteLength (c :: text) = c.utf8Size + byteLength text := rfl

@[simp] theorem byteLength_append (a b : List Char) :
    byteLength (a ++ b) = byteLength a + byteLength b := by
  induction a with
  | nil => simp
  | cons c a ih => simp [ih, Nat.add_assoc]

@[simp] theorem dropBytes_zero (text : List Char) : dropBytes 0 text = some text := by
  cases text <;> rfl

/-- Dropping the bytes of a first part leaves the second. -/
theorem dropBytes_append (a b : List Char) : dropBytes (byteLength a) (a ++ b) = some b := by
  induction a with
  | nil => simp
  | cons c a ih =>
    have hc := c.utf8Size_pos
    obtain ⟨n, hn⟩ : ∃ n, byteLength (c :: a) = n + 1 := ⟨byteLength (c :: a) - 1, by simp; omega⟩
    have hle : c.utf8Size ≤ n + 1 := by rw [← hn]; simp
    have hsub : n + 1 - c.utf8Size = byteLength a := by rw [← hn]; simp
    rw [hn, List.cons_append, dropBytes, if_pos hle, hsub, ih]

/-- What is left after dropping `n` bytes is preceded by exactly `n` bytes. -/
theorem exists_of_dropBytes {n : Nat} {text rest : List Char} (h : dropBytes n text = some rest) :
    ∃ before, text = before ++ rest ∧ byteLength before = n := by
  fun_induction dropBytes n text with
  | case1 text => exact ⟨[], by simpa using h, rfl⟩
  | case2 => simp at h
  | case3 n c text hle ih =>
    obtain ⟨before, rfl, hb⟩ := ih h
    exact ⟨c :: before, rfl, by simp; omega⟩
  | case4 => simp at h

end SolText.Text
