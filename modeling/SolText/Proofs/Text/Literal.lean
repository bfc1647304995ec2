import Mathlib.Data.List.Basic
import Mathlib.Tactic.SplitIfs
import SolText.Text.Literal

/-!
# The characters of string literals

The spelling of a character is the character itself, or an escape: a backslash with a mark, and for
some marks hexadecimal digits.

* `forall_mem_hexadecimal`: what holds of sixteen digits holds of every hexadecimal numeral.
* `forall_mem_escapeChar`: **what a spelling consists of.**
* `escape_eq_spell`: **a value that is left as it is has that spelling.**
* `isControl_of_mem_escape`: no spelling has control characters, line breaks among them.
-/

namespace SolText.Text

variable {P : Char → Prop}

theorem forall_mem_toDigits (hdigit : ∀ n < 16, P (Nat.digitChar n)) (n : Nat) :
    ∀ c ∈ Nat.toDigits 16 n, P c := by
  induction n using Nat.strongRecOn with
  | _ n ih =>
    intro c hc
    rw [Nat.toDigits_eq_if (by decide)] at hc
    split at hc
    · rename_i hlt
      rw [List.mem_singleton.1 hc]
      exact hdigit n hlt
    · rename_i hge
      rcases List.mem_append.1 hc with hmem | hlast
      · exact ih (n / 16) (by omega) c hmem
      · rw [List.mem_singleton.1 hlast]
        exact hdigit (n % 16) (by omega)

/-- A hexadecimal numeral consists of digits, the padding included. -/
theorem forall_mem_hexadecimal (hdigit : ∀ n < 16, P (Nat.digitChar n)) (width n : Nat) :
    ∀ c ∈ (hexadecimal width n).toList, P c := by
  intro c hc
  unfold hexadecimal at hc
  rw [String.toList_ofList] at hc
  rcases List.mem_append.1 hc with hpadding | hdigits
  · rw [List.eq_of_mem_replicate hpadding]
    exact hdigit 0 (by decide)
  · exact forall_mem_toDigits hdigit n c hdigits

/-- The characters that escapes begin with. -/
def escapeMarks : List Char := ['\\', '"', 'n', 'r', 't', 'x', 'u']

/-- **What a spelling consists of**: marks and digits, or the character itself. -/
theorem forall_mem_escapeChar (hmark : ∀ m ∈ escapeMarks, P m)
    (hdigit : ∀ n < 16, P (Nat.digitChar n)) {c : Char} (hself : escapeChar c = [c] → P c) :
    ∀ d ∈ escapeChar c, P d := by
  have hmarks : ∀ {marks : List Char}, marks ⊆ escapeMarks → ∀ m ∈ marks, P m :=
    fun hsub m hm => hmark m (hsub hm)
  unfold escapeChar at hself ⊢
  split_ifs at hself ⊢ with hquote hslash hnewline hreturn htab hascii hwide
  · exact hmarks (by decide)
  · exact hmarks (by decide)
  · exact hmarks (by decide)
  · exact hmarks (by decide)
  · exact hmarks (by decide)
  · rw [List.forall_mem_cons, List.forall_mem_cons]
    exact ⟨hmark _ (by decide), hmark _ (by decide), forall_mem_hexadecimal hdigit 2 c.toNat⟩
  · rw [List.forall_mem_cons, List.forall_mem_cons]
    exact ⟨hmark _ (by decide), hmark _ (by decide), forall_mem_hexadecimal hdigit 4 c.toNat⟩
  · rw [List.forall_mem_singleton]
    exact hself rfl

/-- A character stands for itself unless it needs an escape. -/
theorem escapeChar_eq_self_iff {c : Char} : escapeChar c = [c] ↔ needsEscape c = false := by
  unfold escapeChar needsEscape isControl
  split_ifs with hquote hslash hnewline hreturn htab hascii hwide
  · simp [hquote]
  · simp [hslash]
  · simp [hnewline, isAsciiControl]
  · simp [hreturn, isAsciiControl]
  · simp [htab, isAsciiControl]
  · simp [hascii]
  · simp [hwide]
  · simp [hquote, hslash, hascii, hwide]

/-- **Leaving a value as it is and spelling it out give the same text**, if none of its characters needs
an escape. -/
theorem escape_eq_spell (value : String) : escape value = spell value := by
  unfold escape
  split
  · rfl
  · rename_i hnone
    rw [List.any_eq_true, not_exists] at hnone
    have hself : ∀ c ∈ value.toList, escapeChar c = [c] := by
      intro c hc
      have hneeds := not_and.1 (hnone c) hc
      exact escapeChar_eq_self_iff.2 (eq_false_of_ne_true hneeds)
    unfold spell
    rw [List.flatMap_congr hself, List.flatMap_singleton', String.ofList_toList]

theorem toList_escape (value : String) : (escape value).toList = value.toList.flatMap escapeChar := by
  rw [escape_eq_spell, spell, String.toList_ofList]

/-- What holds of the marks, of the digits and of the characters that need no escape holds of all that
is inside a string literal. -/
theorem forall_mem_escape (hmark : ∀ m ∈ escapeMarks, P m) (hdigit : ∀ n < 16, P (Nat.digitChar n))
    (hself : ∀ c, needsEscape c = false → P c) (value : String) : ∀ d ∈ (escape value).toList, P d := by
  intro d hd
  rw [toList_escape, List.mem_flatMap] at hd
  obtain ⟨c, -, hd⟩ := hd
  exact forall_mem_escapeChar hmark hdigit (fun h => hself c (escapeChar_eq_self_iff.1 h)) d hd

/-- There are no control characters inside a string literal. -/
theorem isControl_of_mem_escape (value : String) : ∀ c ∈ (escape value).toList, isControl c = false := by
  have hmarks : escapeMarks.all (fun m => !isControl m) = true := by decide
  refine forall_mem_escape (by simpa using hmarks) (by decide) (fun c hc => ?_) value
  unfold needsEscape at hc
  exact (Bool.or_eq_false_iff.1 hc).2

/-- There are no line breaks inside a string literal. -/
theorem newline_not_mem_escape (value : String) : '\n' ∉ (escape value).toList := by
  intro hmem
  exact absurd (isControl_of_mem_escape value '\n' hmem) (by decide)

end SolText.Text
