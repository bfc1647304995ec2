import SolText.Proofs.Text.Numeral
import SolText.Version

/-!
# The text form of versions

The parts of a version are told apart by their marks alone, and a hyphen is both a mark and a character
of identifiers. Reading gives the version back all the same: it looks first for the plus sign, which is
in no identifier, and then for the first hyphen, and there is none in front of the pre-release.

* `Version.parseNumber_repr`: a number of a version reads back.
* `Version.exists_splitFirst_tail`: identifiers behind a mark are found and read back.
* `Version.parse_text`: **every version reads back from its text form.**
-/

namespace SolText.Version

open Text

/-! ### Numbers -/

theorem isPlainNumeral_repr (n : Nat) : isPlainNumeral (Nat.repr n).toList := by
  unfold isPlainNumeral
  rw [Nat.repr_eq_ofList_toDigits, String.toList_ofList, Bool.or_eq_true]
  rcases Nat.eq_zero_or_pos n with rfl | hpos
  · exact .inl (by decide)
  · exact .inr (bne_iff_ne.2 (head?_toDigits_ne hpos))

/-- A number of a version reads back. -/
theorem parseNumber_repr (n : UInt64) : parseNumber (Nat.repr n.toNat).toList = some n := by
  unfold parseNumber
  rw [if_pos (isPlainNumeral_repr n.toNat), readDigits_repr n.toNat_lt, Option.map_some,
    UInt64.ofNat_toNat]

/-! ### Identifiers -/

theorem isIdentifierChar_of_isIdentifier {text : String} (h : isIdentifier text) :
    ∀ c ∈ text.toList, isIdentifierChar c := by
  unfold isIdentifier at h
  exact List.all_eq_true.1 (Bool.and_eq_true_iff.1 h).2

theorem isIdentifier_of_isPreIdentifier {text : String} (h : isPreIdentifier text) :
    isIdentifier text := (Bool.and_eq_true_iff.1 h).1

/-- Identifiers with dots between them behind a mark, if there are any. -/
def tail (mark : Char) (identifiers : List String) : List Char :=
  if identifiers.isEmpty then [] else mark :: ['.'].intercalate (identifiers.map String.toList)

/-- A tail consists of its mark, dots and characters of identifiers. -/
theorem not_mem_tail {c mark : Char} {identifiers : List String} (hmark : c ≠ mark) (hdot : c ≠ '.')
    (hc : isIdentifierChar c = false) (h : ∀ text ∈ identifiers, isIdentifier text) :
    c ∉ tail mark identifiers := by
  have hparts : ∀ part ∈ identifiers.map String.toList, ∀ d ∈ part, d ≠ c := by
    intro part hpart d hd
    obtain ⟨text, htext, rfl⟩ := List.mem_map.1 hpart
    have hchar := isIdentifierChar_of_isIdentifier (h text htext) d hd
    rintro rfl
    rw [hchar] at hc
    cases hc
  have hdots : ∀ d ∈ ['.'], d ≠ c := List.forall_mem_singleton.2 (Ne.symm hdot)
  have hinner := forall_mem_intercalate hdots hparts
  unfold tail
  split
  · exact List.not_mem_nil
  · rw [List.mem_cons, not_or]
    exact ⟨hmark, fun hmem => hinner c hmem rfl⟩

/-- **Identifiers behind a mark are found and read back**, if the mark is not in front of them. -/
theorem exists_splitFirst_tail {mark : Char} {front : List Char} {identifiers : List String}
    (hfront : mark ∉ front) (h : ∀ text ∈ identifiers, isIdentifier text) :
    ∃ part, splitFirst mark (front ++ tail mark identifiers) = (front, part) ∧
      parseIdentifiers part = identifiers := by
  unfold tail
  cases identifiers with
  | nil =>
    refine ⟨none, ?_, rfl⟩
    simp only [List.isEmpty_nil, if_true, List.append_nil]
    exact splitFirst_eq_self hfront
  | cons first rest =>
    refine ⟨_, splitFirst_append hfront _, ?_⟩
    have hparts : ∀ part ∈ (first :: rest).map String.toList, '.' ∉ part := by
      intro part hpart hdot
      obtain ⟨text, htext, rfl⟩ := List.mem_map.1 hpart
      exact absurd (isIdentifierChar_of_isIdentifier (h text htext) '.' hdot) (by decide)
    have hsplit := List.splitOn_intercalate '.' hparts (List.cons_ne_nil _ _)
    rw [parseIdentifiers, splitAll_eq_splitOn, hsplit, List.map_map]
    simp

/-! ### Versions -/

/-- The three numbers of a version with dots between them. -/
def core (version : Version) : List Char :=
  (Nat.repr version.major.toNat).toList ++ '.' :: ((Nat.repr version.minor.toNat).toList ++
    '.' :: (Nat.repr version.patch.toNat).toList)

theorem toList_text (version : Version) :
    version.text.toList = version.core ++ tail '-' version.pre ++ tail '+' version.build := by
  unfold text core tail
  cases version.pre.isEmpty <;> cases version.build.isEmpty <;> simp [String.toList_intercalate]

theorem not_mem_core {c : Char} (hdigit : c.isDigit = false) (hdot : c ≠ '.') (version : Version) :
    c ∉ version.core := by
  have hnumber := not_mem_repr hdigit
  unfold core
  simp only [List.mem_append, List.mem_cons, not_or]
  exact ⟨hnumber _, hdot, hnumber _, hdot, hnumber _⟩

theorem splitAll_core (version : Version) :
    splitAll '.' version.core = [(Nat.repr version.major.toNat).toList,
      (Nat.repr version.minor.toNat).toList, (Nat.repr version.patch.toNat).toList] := by
  have hnumber := not_mem_repr (c := '.') (by decide)
  exact splitAll_eq_three (hnumber _) (hnumber _) (hnumber _)

/-- **Every version reads back from its text form.** -/
theorem parse_text (version : Version) : parse version.text = some version := by
  have hpre : ∀ text ∈ version.pre, isIdentifier text := fun text htext =>
    isIdentifier_of_isPreIdentifier (List.all_eq_true.1 version.pre_valid text htext)
  have hbuild : ∀ text ∈ version.build, isIdentifier text := List.all_eq_true.1 version.build_valid
  have hfront : '+' ∉ version.core ++ tail '-' version.pre := by
    rw [List.mem_append, not_or]
    exact ⟨not_mem_core (by decide) (by decide) version,
      not_mem_tail (by decide) (by decide) (by decide) hpre⟩
  obtain ⟨build, hplus, hbuilds⟩ := exists_splitFirst_tail hfront hbuild
  obtain ⟨pre, hhyphen, hpres⟩ :=
    exists_splitFirst_tail (not_mem_core (c := '-') (by decide) (by decide) version) hpre
  unfold parse
  simp only [toList_text, hplus, hhyphen, splitAll_core, parseNumber_repr, hbuilds, hpres]
  simp [version.pre_valid, version.build_valid]

end SolText.Version
