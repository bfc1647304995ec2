import Mathlib.Algebra.Group.Nat.Defs
import SolText.Proofs.Text.Literal

/-!
# Reading string literals back

A reader of string literals beside their writer. It decodes the escapes and stops at the first quote
that is not escaped. Escapes have different lengths and what follows one may look like a part of it, so
the reader is set against a spelling with any text behind it.

* `readLiteral`: the value of a literal, and the text behind its closing quote.
* `hexValue?_hexadecimal`: hexadecimal numerals denote the number that they were made of.
* `readLiteral_escapeChar`: **the spelling of a character reads back as the character**, whatever
  follows.
* `escape_reads_back`: **a literal reads back as its value.**
-/

namespace SolText.Text

/-! ### The reader -/

/-- The number that hexadecimal digits denote. -/
def hexValue? (digits : List Char) : Option Nat :=
  digits.foldlM (fun value c => (hexDigitValue? c).map (16 * value + ·)) 0

/-- The character with the code point that hexadecimal digits denote. -/
def charOfHex? (digits : List Char) : Option Char := do
  let code ← hexValue? digits
  if code.isValidChar then some (Char.ofNat code) else none

/-- The character that a backslash and a mark stand for. -/
def charOfMark? (mark : Char) : Option Char :=
  match mark with
  | '"' => some '"'
  | '\\' => some '\\'
  | 'n' => some '\n'
  | 'r' => some '\r'
  | 't' => some '\t'
  | _ => none

/-- What has been read of a literal with one more character in front of it, if there is one. -/
def preceded (c? : Option Char) (read? : Option (List Char × List Char)) :
    Option (List Char × List Char) := do
  let c ← c?
  let (value, behind) ← read?
  return (c :: value, behind)

/-- The value of a literal of which the text behind the opening quote is given, and the text behind its
closing quote. -/
def readLiteral : List Char → Option (List Char × List Char)
  | [] => none
  | '"' :: rest => some ([], rest)
  | '\\' :: 'x' :: a :: b :: rest => preceded (charOfHex? [a, b]) (readLiteral rest)
  | '\\' :: 'u' :: a :: b :: c :: d :: rest => preceded (charOfHex? [a, b, c, d]) (readLiteral rest)
  | '\\' :: mark :: rest => preceded (charOfMark? mark) (readLiteral rest)
  | c :: rest => if c = '\\' then none else preceded (some c) (readLiteral rest)

/-! ### Hexadecimal numerals -/

theorem hexValue?_append_digit {digits : List Char} {n d : Nat} (h : hexValue? digits = some n)
    (hd : d < 16) : hexValue? (digits ++ [Nat.digitChar d]) = some (16 * n + d) := by
  have hdigit : ∀ d < 16, hexDigitValue? (Nat.digitChar d) = some d := by decide
  unfold hexValue? at h ⊢
  rw [List.foldlM_append, h]
  simp [hdigit d hd]

theorem hexValue?_toDigits (n : Nat) : hexValue? (Nat.toDigits 16 n) = some n := by
  induction n using Nat.strongRecOn with
  | _ n ih =>
    rw [Nat.toDigits_eq_if (by decide)]
    split
    · rename_i hlt
      have hone : hexValue? ([] ++ [Nat.digitChar n]) = some (16 * 0 + n) :=
        hexValue?_append_digit rfl hlt
      simpa using hone
    · rename_i hge
      have hhead := ih (n / 16) (by omega)
      rw [hexValue?_append_digit hhead (by omega), Nat.div_add_mod]

theorem hexValue?_padded (zeros : Nat) (digits : List Char) :
    hexValue? (List.replicate zeros '0' ++ digits) = hexValue? digits := by
  induction zeros with
  | zero => rfl
  | succ zeros ih =>
    rw [List.replicate_succ, List.cons_append]
    exact ih

/-- **A hexadecimal numeral denotes the number that it was made of.** -/
theorem hexValue?_hexadecimal (width n : Nat) : hexValue? (hexadecimal width n).toList = some n := by
  unfold hexadecimal
  rw [String.toList_ofList, hexValue?_padded, hexValue?_toDigits]

theorem length_hexadecimal {width n : Nat} (hwidth : 0 < width) (hn : n < 16 ^ width) :
    (hexadecimal width n).toList.length = width := by
  have hle := (Nat.length_toDigits_le_iff (by decide) hwidth).2 hn
  unfold hexadecimal
  rw [String.toList_ofList, List.length_append, List.length_replicate]
  omega

theorem charOfHex?_hexadecimal (width : Nat) (c : Char) :
    charOfHex? (hexadecimal width c.toNat).toList = some c := by
  have hvalid : c.toNat.isValidChar := c.valid
  unfold charOfHex?
  rw [hexValue?_hexadecimal]
  simp [hvalid]

/-! ### Literals -/

/-- A character that needs no escape reads as itself. -/
theorem readLiteral_self {c : Char} (hquote : c ≠ '"') (hslash : c ≠ '\\') (rest : List Char) :
    readLiteral (c :: rest) = preceded (some c) (readLiteral rest) := by
  -- the escapes come before this case of the reader, and all of them begin with a backslash
  rw [readLiteral, if_neg hslash]
  · exact hquote
  · exact fun _ _ _ h => absurd h hslash
  · exact fun _ _ _ _ _ h => absurd h hslash
  · exact fun _ _ h => absurd h hslash

/-- **The spelling of a character reads back as the character**, whatever follows. -/
theorem readLiteral_escapeChar (c : Char) (rest : List Char) :
    readLiteral (escapeChar c ++ rest) = preceded (some c) (readLiteral rest) := by
  unfold escapeChar
  split_ifs with hquote hslash hnewline hreturn htab hascii hwide
  · rw [hquote]
    rfl
  · rw [hslash]
    rfl
  · rw [hnewline]
    rfl
  · rw [hreturn]
    rfl
  · rw [htab]
    rfl
  · have hlt : c.toNat < 16 ^ 2 := by
      unfold isAsciiControl at hascii
      simp only [Bool.or_eq_true, decide_eq_true_eq, beq_iff_eq] at hascii
      omega
    have hchar := charOfHex?_hexadecimal 2 c
    obtain ⟨a, b, hdigits⟩ := List.length_eq_two.1 (length_hexadecimal (by decide) hlt)
    rw [hdigits] at hchar ⊢
    show preceded (charOfHex? [a, b]) (readLiteral rest) = _
    rw [hchar]
  · have hlt : c.toNat < 16 ^ 4 := by
      unfold isWideControl at hwide
      simp only [Bool.and_eq_true, decide_eq_true_eq] at hwide
      omega
    have hchar := charOfHex?_hexadecimal 4 c
    obtain ⟨e, f, g, h, hdigits⟩ := List.length_eq_four.1 (length_hexadecimal (by decide) hlt)
    rw [hdigits] at hchar ⊢
    show preceded (charOfHex? [e, f, g, h]) (readLiteral rest) = _
    rw [hchar]
  · exact readLiteral_self hquote hslash rest

theorem readLiteral_flatMap_escapeChar (value rest : List Char) :
    readLiteral (value.flatMap escapeChar ++ '"' :: rest) = some (value, rest) := by
  induction value with
  | nil => rfl
  | cons c value ih =>
    rw [List.flatMap_cons, List.append_assoc, readLiteral_escapeChar, ih]
    rfl

/-- **A literal reads back as its value**: the reader takes the spelling and the closing quote, and
leaves what follows. The spelling has no control characters, and it is the same whether the value is
left as it is or spelled out. -/
theorem escape_reads_back (value : String) (rest : List Char) :
    readLiteral ((escape value).toList ++ '"' :: rest) = some (value.toList, rest) ∧
      (∀ c ∈ (escape value).toList, isControl c = false) ∧
      escape value = spell value := by
  refine ⟨?_, isControl_of_mem_escape value, escape_eq_spell value⟩
  rw [toList_escape]
  exact readLiteral_flatMap_escapeChar value.toList rest

-- digits of the value behind an escape are no part of it, and a quote behind a backslash may close
example : readLiteral (escape "\x07f\u0085a\\").toList = none ∧
    readLiteral ((escape "\x07f\u0085a\\").toList ++ ['"', '"']) =
      some (['\x07', 'f', '\u0085', 'a', '\\'], ['"']) := by decide

end SolText.Text
