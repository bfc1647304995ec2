import SolText.Proofs.Text.Numeral
import SolText.Proofs.Write.Text

/-!
# Highlighted text without its markup

A terminal style puts escape sequences around the pieces of a text. They are taken out again by a
scanner that knows nothing of pieces: it removes whatever looks like a sequence, also where a piece
ends and the next one begins.

* `Style.withoutMarkup`: a text without its escape sequences.
* `Style.withoutMarkup_escapeSequence`: a sequence is removed, whatever follows.
* `Style.withoutMarkup_terminal`: **a piece in a terminal style is the piece between sequences.**
* `Writer.highlight_adds_markup`: **highlighting adds markup and nothing else.**
-/

namespace SolText

namespace Style

/-! ### The scanner -/

/-- The character with which escape sequences begin. -/
def escapeMark : Char := '\x1b'

/-- The characters of which the code of an escape sequence consists. -/
def isCodeChar (c : Char) : Bool := c.isDigit || c == ';'

/-- The text behind an escape sequence, of which the text behind its first character is given. There is
none if this is no sequence. -/
def behindSequence? : List Char → Option (List Char)
  | '[' :: rest =>
    match rest.dropWhile isCodeChar with
    | 'm' :: behind => some behind
    | _ => none
  | _ => none

theorem length_behindSequence? {text behind : List Char} (h : behindSequence? text = some behind) :
    behind.length < text.length := by
  unfold behindSequence? at h
  split at h
  · rename_i rest
    split at h
    · rename_i found hfound
      cases h
      have hle := (List.dropWhile_suffix (l := rest) isCodeChar).length_le
      rw [hfound, List.length_cons] at hle
      rw [List.length_cons]
      omega
    · cases h
  · cases h

/-- A text without its escape sequences. -/
def withoutMarkup : List Char → List Char
  | [] => []
  | c :: rest =>
    if c = escapeMark then
      match _ : behindSequence? rest with
      | some behind => withoutMarkup behind
      | none => c :: withoutMarkup rest
    else c :: withoutMarkup rest
termination_by text => text.length
decreasing_by
  · have hlt := length_behindSequence? ‹behindSequence? rest = some behind›
    rw [List.length_cons]
    omega
  · exact Nat.lt_succ_self _
  · exact Nat.lt_succ_self _

theorem withoutMarkup_cons_of_ne {c : Char} (hc : c ≠ escapeMark) (rest : List Char) :
    withoutMarkup (c :: rest) = c :: withoutMarkup rest := by
  rw [withoutMarkup, if_neg hc]

/-- Text without the first character of a sequence stays. -/
theorem withoutMarkup_append {text : List Char} (h : escapeMark ∉ text) (rest : List Char) :
    withoutMarkup (text ++ rest) = text ++ withoutMarkup rest := by
  induction text with
  | nil => rfl
  | cons c text ih =>
    rw [List.mem_cons, not_or] at h
    rw [List.cons_append, withoutMarkup_cons_of_ne (Ne.symm h.1), ih h.2, List.cons_append]

/-! ### Sequences -/

theorem behindSequence?_code {code : List Char} (hcode : ∀ c ∈ code, isCodeChar c) (rest : List Char) :
    behindSequence? ('[' :: (code ++ 'm' :: rest)) = some rest := by
  have hdrop : (code ++ 'm' :: rest).dropWhile isCodeChar = 'm' :: rest := by
    rw [List.dropWhile_append_of_pos hcode]
    rfl
  simp only [behindSequence?, hdrop]

/-- **A sequence is removed**, whatever follows. -/
theorem withoutMarkup_escapeSequence {code : String} (hcode : ∀ c ∈ code.toList, isCodeChar c)
    (rest : List Char) : withoutMarkup ((escapeSequence code).toList ++ rest) = withoutMarkup rest := by
  have htext : (escapeSequence code).toList ++ rest =
      escapeMark :: '[' :: (code.toList ++ 'm' :: rest) := by
    simp [escapeSequence, escapeMark]
  have hbehind := behindSequence?_code hcode rest
  rw [htext, withoutMarkup, if_pos rfl]
  split
  · rename_i behind hfound
    cases hfound.symm.trans hbehind
    rfl
  · rename_i hnone
    cases hnone.symm.trans hbehind

theorem isCodeChar_repr (n : Nat) : ∀ c ∈ (Nat.repr n).toList, isCodeChar c := by
  intro c hc
  unfold isCodeChar
  rw [Text.isDigit_of_mem_repr n c hc, Bool.true_or]

/-- The code of a colour consists of numbers and semicolons. -/
theorem isCodeChar_colour (red green blue : Nat) :
    ∀ c ∈ ("38;2;" ++ Nat.repr red ++ ";" ++ Nat.repr green ++ ";" ++ Nat.repr blue).toList,
      isCodeChar c := by
  have hhead : ∀ c ∈ "38;2;".toList, isCodeChar c := List.all_eq_true.1 (by decide)
  have hsemicolon : ∀ c ∈ ";".toList, isCodeChar c := List.all_eq_true.1 (by decide)
  simp only [String.toList_append, List.forall_mem_append]
  exact ⟨⟨⟨⟨⟨hhead, isCodeChar_repr red⟩, hsemicolon⟩, isCodeChar_repr green⟩, hsemicolon⟩,
    isCodeChar_repr blue⟩

/-! ### Pieces -/

/-- In any ink a text is the text between sequences. -/
theorem withoutMarkup_apply (ink : Ink) {text : String} (h : escapeMark ∉ text.toList)
    (rest : List Char) :
    withoutMarkup ((ink.apply text).toList ++ rest) = text.toList ++ withoutMarkup rest := by
  have hcolour := isCodeChar_colour ink.red ink.green ink.blue
  have hreset : ∀ c ∈ "39".toList, isCodeChar c := List.all_eq_true.1 (by decide)
  have hbold : ∀ c ∈ "1".toList, isCodeChar c := List.all_eq_true.1 (by decide)
  have hnormal : ∀ c ∈ "0".toList, isCodeChar c := List.all_eq_true.1 (by decide)
  unfold Ink.apply
  simp only
  split
  · rw [String.toList_append, String.toList_append, String.toList_append, String.toList_append]
    simp only [List.append_assoc]
    rw [withoutMarkup_escapeSequence hbold, withoutMarkup_escapeSequence hcolour,
      withoutMarkup_append h, withoutMarkup_escapeSequence hreset, withoutMarkup_escapeSequence hnormal]
  · rw [String.toList_append, String.toList_append]
    simp only [List.append_assoc]
    rw [withoutMarkup_escapeSequence hcolour, withoutMarkup_append h,
      withoutMarkup_escapeSequence hreset]

/-- **A piece in a terminal style is the piece between sequences.** -/
theorem withoutMarkup_terminal (role : Role) {text : String} (h : escapeMark ∉ text.toList)
    (rest : List Char) :
    withoutMarkup ((terminal role text).toList ++ rest) = text.toList ++ withoutMarkup rest := by
  unfold terminal
  split
  · exact withoutMarkup_apply _ h rest
  · exact withoutMarkup_append h rest

end Style

namespace Writer

open Style

variable {writer : Writer} {forest : Forest} {handle : Handle} {text : String}

/-- Pieces in a terminal style one after another are the pieces, and markup. -/
theorem withoutMarkup_join (parts : List (Role × String)) (h : escapeMark ∉ (joined parts).toList) :
    withoutMarkup (String.join (parts.map fun (role, text) => terminal role text)).toList =
      (joined parts).toList := by
  induction parts with
  | nil => simp [joined, withoutMarkup]
  | cons part rest ih =>
    obtain ⟨role, text⟩ := part
    have hjoined : (joined ((role, text) :: rest)).toList = text.toList ++ (joined rest).toList := by
      simp [joined]
    rw [hjoined, List.mem_append, not_or] at h
    rw [List.map_cons, String.join_cons, String.toList_append, withoutMarkup_terminal role h.1, ih h.2,
      hjoined]

/-- **Highlighting adds markup and nothing else.** A text without the first character of an escape
sequence is what is left of its highlighted form when the sequences are removed. -/
theorem highlight_adds_markup (h : writer.render forest handle = .ok text)
    (hplain : escapeMark ∉ text.toList) :
    ∃ styled, writer.highlight forest .terminal handle = .ok styled ∧
      withoutMarkup styled.toList = text.toList := by
  rw [render_eq_tagged] at h
  obtain ⟨parts, hparts, rfl⟩ := map_eq_ok_iff.1 h
  refine ⟨_, ?_, withoutMarkup_join parts hplain⟩
  unfold highlight
  rw [hparts]
  rfl

/-- The first name looks like the rest of a sequence, and the second is empty. -/
theorem highlight_adds_markup_names :
    ∃ (forest : Forest) (styled : String),
      Forest.ofNodes [.identifier "[0m", .memberAccess 0 ""] = .ok forest ∧
      (Writer.standard {}).render forest 1 = .ok "[0m." ∧
      (Writer.standard {}).highlight forest .terminal 1 = .ok styled ∧
      styled = "\x1b[38;2;114;159;207m[0m\x1b[39m\x1b[1m\x1b[38;2;153;153;153m.\x1b[39m\x1b[0m" ++
        "\x1b[38;2;96;152;154m\x1b[39m" ∧
      withoutMarkup styled.toList = "[0m.".toList := by
  have hforest : Forest.ofNodes [.identifier "[0m", .memberAccess 0 ""] =
      .ok ⟨#[⟨.identifier "[0m", some 1, []⟩, ⟨.memberAccess 0 "", none, [0]⟩]⟩ := rfl
  have hrender : (Writer.standard {}).render
      ⟨#[⟨.identifier "[0m", some 1, []⟩, ⟨.memberAccess 0 "", none, [0]⟩]⟩ 1 = .ok "[0m." := rfl
  obtain ⟨styled, hstyled, hplain⟩ := highlight_adds_markup hrender (by decide)
  refine ⟨_, styled, hforest, hrender, hstyled, ?_, hplain⟩
  cases hstyled
  decide +kernel

end Writer

end SolText
