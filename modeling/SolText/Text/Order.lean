/-!
# The order of texts

Texts are compared character by character by code points, which is also the order of their UTF-8
bytes.

* `precedes_trans`, `precedes_of_not_precedes`: the order is transitive, and of two different texts
  one precedes the other.
-/

namespace SolText.Text

/-- Whether one sequence of characters comes before another. -/
def charsPrecede : List Char → List Char → Bool
  | _, [] => false
  | [], _ :: _ => true
  | a :: as, b :: bs => if a = b then charsPrecede as bs else a.toNat < b.toNat

/-- Whether one text comes before another. -/
def precedes (a b : String) : Bool := charsPrecede a.toList b.toList

theorem toNat_ne {a b : Char} (h : a ≠ b) : a.toNat ≠ b.toNat := fun he =>
  h (Char.ext (UInt32.toNat.inj he))

theorem charsPrecede_trans {a b c : List Char} (hab : charsPrecede a b) (hbc : charsPrecede b c) :
    charsPrecede a c := by
  induction a generalizing b c with
  | nil => cases c with
    | nil => cases b <;> simp [charsPrecede] at hbc
    | cons z c => rfl
  | cons x a ih =>
    cases b with
    | nil => simp [charsPrecede] at hab
    | cons y b =>
      cases c with
      | nil => simp [charsPrecede] at hbc
      | cons z c =>
        rw [charsPrecede] at hab hbc ⊢
        by_cases hxy : x = y <;> by_cases hyz : y = z
        · subst hxy hyz
          rw [if_pos rfl] at hab hbc ⊢
          exact ih hab hbc
        · subst hxy
          rwa [if_neg hyz] at hbc ⊢
        · subst hyz
          rwa [if_neg hxy] at hab ⊢
        · rw [if_neg hxy, decide_eq_true_eq] at hab
          rw [if_neg hyz, decide_eq_true_eq] at hbc
          have hxz : x ≠ z := by rintro rfl; omega
          rw [if_neg hxz, decide_eq_true_eq]
          omega

theorem charsPrecede_of_not {a b : List Char} (hab : ¬ charsPrecede a b) (hne : a ≠ b) :
    charsPrecede b a := by
  induction a generalizing b with
  | nil => cases b with
    | nil => exact absurd rfl hne
    | cons y b => exact absurd rfl hab
  | cons x a ih =>
    cases b with
    | nil => rfl
    | cons y b =>
      rw [charsPrecede] at hab ⊢
      by_cases hxy : x = y
      · subst hxy
        rw [if_pos rfl] at hab ⊢
        exact ih hab fun h => hne (by rw [h])
      · have := toNat_ne hxy
        rw [if_neg hxy, decide_eq_true_eq] at hab
        rw [if_neg (Ne.symm hxy), decide_eq_true_eq]
        omega

/-- The order of texts is transitive. -/
theorem precedes_trans {a b c : String} (hab : precedes a b) (hbc : precedes b c) : precedes a c :=
  charsPrecede_trans hab hbc

/-- Of two different texts one precedes the other. -/
theorem precedes_of_not_precedes {a b : String} (hab : ¬ precedes a b) (hne : a ≠ b) :
    precedes b a :=
  charsPrecede_of_not hab fun h => hne (String.toList_inj.1 h)

end SolText.Text
