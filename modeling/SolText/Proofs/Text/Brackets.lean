import SolText.Proofs.Text.Literal

/-!
# Balanced brackets

Round, square and curly brackets nest in each other, and every other character is of no account. To
read a text is to keep the closing brackets that are due, innermost first.

* `Balanced`: brackets are properly nested.
* `scan`: the closing brackets that are due behind a text.
* `balanced_iff_scan`: **a text is balanced exactly if it leaves nothing due**, so that balance can be
  decided.
* `balanced_iff_neutral`: a balanced text changes nothing, whatever was due before it.
* `scan_escape`: an escaped value has the brackets of the value.
-/

namespace SolText.Text

/-- What opens a bracket, with what closes it. -/
def brackets : List (Char × Char) := [('(', ')'), ('[', ']'), ('\x7b', '\x7d')]

/-- Whether a character opens or closes a bracket. -/
def isBracket (c : Char) : Bool := brackets.any fun bracket => bracket.1 == c || bracket.2 == c

/-- Brackets are properly nested. -/
inductive Balanced : List Char → Prop where
  | nil : Balanced []
  | plain {c : Char} {rest : List Char} : isBracket c = false → Balanced rest → Balanced (c :: rest)
  | enclosed {opening closing : Char} {inner rest : List Char} : (opening, closing) ∈ brackets →
      Balanced inner → Balanced rest → Balanced (opening :: (inner ++ closing :: rest))

/-! ### Reading brackets -/

/-- The closing brackets that are due behind one more character. There are none if it closes what is
not due. -/
def scanChar (due : List Char) (c : Char) : Option (List Char) :=
  match brackets.lookup c with
  | some closing => some (closing :: due)
  | none =>
    if isBracket c then
      match due with
      | next :: outer => if next = c then some outer else none
      | [] => none
    else some due

/-- The closing brackets that are due behind a text. -/
def scan (due : List Char) (text : String) : Option (List Char) := text.toList.foldlM scanChar due

variable {due outer rest text : List Char} {c closing : Char} {a b value : String}

theorem scanChar_plain (h : isBracket c = false) (due : List Char) : scanChar due c = some due := by
  have hopening : brackets.lookup c = none := by
    rw [List.lookup_eq_none_iff]
    intro bracket hbracket
    unfold isBracket at h
    have hne := List.any_eq_false.1 h bracket hbracket
    simp only [Bool.or_eq_true, not_or, beq_iff_eq] at hne
    simpa using Ne.symm hne.1
  unfold scanChar
  rw [hopening, h]
  rfl

theorem scanChar_opening (h : (c, closing) ∈ brackets) (due : List Char) :
    scanChar due c = some (closing :: due) := by
  unfold brackets at h
  simp only [List.mem_cons, Prod.mk.injEq, List.not_mem_nil, or_false] at h
  rcases h with ⟨rfl, rfl⟩ | ⟨rfl, rfl⟩ | ⟨rfl, rfl⟩ <;> rfl

theorem scanChar_closing (h : (c, closing) ∈ brackets) (due : List Char) :
    scanChar (closing :: due) closing = some due := by
  unfold brackets at h
  simp only [List.mem_cons, Prod.mk.injEq, List.not_mem_nil, or_false] at h
  rcases h with ⟨rfl, rfl⟩ | ⟨rfl, rfl⟩ | ⟨rfl, rfl⟩ <;> rfl

/-- What one character can do: nothing, open a bracket, or close the one that is due. -/
theorem scanChar_cases {next : List Char} (h : scanChar due c = some next) :
    (isBracket c = false ∧ next = due) ∨
      (∃ closing, (c, closing) ∈ brackets ∧ next = closing :: due) ∨ due = c :: next := by
  unfold scanChar at h
  split at h
  · rename_i closing hopening
    obtain ⟨before, after, hbrackets, -⟩ := List.lookup_eq_some_iff.1 hopening
    cases h
    exact Or.inr (Or.inl ⟨closing, hbrackets ▸ List.mem_append_right _ List.mem_cons_self, rfl⟩)
  · split at h
    · split at h
      · split at h
        · rename_i heq
          cases h
          exact Or.inr (Or.inr (by rw [heq]))
        · cases h
      · cases h
    · rename_i hplain
      cases h
      exact Or.inl ⟨by simpa using hplain, rfl⟩

/-! ### Balance can be decided -/

/-- Behind the text nothing is due: it closes what was due, in turn, with balanced text between. -/
def Settles : (due : List Char) → List Char → Prop
  | [], text => Balanced text
  | next :: outer, text => ∃ inner rest, text = inner ++ next :: rest ∧ Balanced inner ∧ Settles outer rest

theorem Settles.plain (hc : isBracket c = false) (h : Settles due rest) : Settles due (c :: rest) := by
  cases due with
  | nil => exact .plain hc h
  | cons next outer =>
    obtain ⟨inner, behind, rfl, hinner, houter⟩ := h
    exact ⟨c :: inner, behind, rfl, .plain hc hinner, houter⟩

theorem Settles.opening (hc : (c, closing) ∈ brackets) (h : Settles (closing :: due) rest) :
    Settles due (c :: rest) := by
  obtain ⟨inner, behind, rfl, hinner, hbehind⟩ := h
  cases due with
  | nil => exact .enclosed hc hinner hbehind
  | cons next outer =>
    obtain ⟨middle, behind, rfl, hmiddle, houter⟩ := hbehind
    refine ⟨c :: (inner ++ closing :: middle), behind, ?_, .enclosed hc hinner hmiddle, houter⟩
    simp

theorem settles_of_scan (h : text.foldlM scanChar due = some []) : Settles due text := by
  induction text generalizing due with
  | nil =>
    cases h
    exact .nil
  | cons c rest ih =>
    rw [List.foldlM_cons] at h
    obtain ⟨next, hnext, hrest⟩ := Option.bind_eq_some_iff.1 h
    have hsettled := ih hrest
    rcases scanChar_cases hnext with ⟨hplain, rfl⟩ | ⟨closing, hopening, rfl⟩ | rfl
    · exact hsettled.plain hplain
    · exact hsettled.opening hopening
    · exact ⟨[], rest, rfl, .nil, hsettled⟩

/-- A balanced text changes nothing about what is due. -/
theorem Balanced.scan_eq (h : Balanced text) (due : List Char) :
    text.foldlM scanChar due = some due := by
  induction h generalizing due with
  | nil => rfl
  | plain hc _ ih =>
    rw [List.foldlM_cons, scanChar_plain hc]
    exact ih due
  | @enclosed opening closing inner rest hbracket _ _ ihinner ihrest =>
    calc (opening :: (inner ++ closing :: rest)).foldlM scanChar due
        = (inner ++ closing :: rest).foldlM scanChar (closing :: due) := by
          rw [List.foldlM_cons, scanChar_opening hbracket]; rfl
      _ = (closing :: rest).foldlM scanChar (closing :: due) := by
          rw [List.foldlM_append, ihinner]; rfl
      _ = rest.foldlM scanChar due := by
          rw [List.foldlM_cons, scanChar_closing hbracket]; rfl
      _ = some due := ihrest due

/-- **A text is balanced exactly if it leaves nothing due.** -/
theorem balanced_iff_scan : Balanced text ↔ text.foldlM scanChar [] = some [] :=
  ⟨fun h => h.scan_eq [], settles_of_scan⟩

instance (text : List Char) : Decidable (Balanced text) :=
  decidable_of_iff (text.foldlM scanChar [] = some []) balanced_iff_scan.symm

/-! ### Texts put together -/

/-- A text that changes nothing about what is due. -/
def Neutral (text : String) : Prop := ∀ due, scan due text = some due

theorem Neutral.scan_eq (h : Neutral a) (due : List Char) : scan due a = some due := h due

/-- **To be balanced is to change nothing about what is due.** -/
theorem balanced_iff_neutral : Balanced a.toList ↔ Neutral a :=
  ⟨fun h due => h.scan_eq due, fun h => balanced_iff_scan.2 (h [])⟩

theorem scan_append (due : List Char) (a b : String) :
    scan due (a ++ b) = (scan due a).bind (scan · b) := by
  unfold scan
  rw [String.toList_append, List.foldlM_append]
  rfl

theorem Neutral.append (ha : Neutral a) (hb : Neutral b) : Neutral (a ++ b) := by
  intro due
  rw [scan_append, ha.scan_eq]
  exact hb due

theorem neutral_empty : Neutral "" := fun _ => rfl

theorem neutral_blank : Neutral " " := fun _ => rfl

/-- A closing bracket closes the opening one of its kind. -/
theorem scan_round (due : List Char) : (scan due "(").bind (scan · ")") = some due := rfl

theorem scan_square (due : List Char) : (scan due "[").bind (scan · "]") = some due := rfl

theorem scan_curly (due : List Char) : (scan due "\x7b").bind (scan · "\x7d") = some due := rfl

theorem neutral_join {texts : List String} (h : ∀ text ∈ texts, Neutral text) :
    Neutral (String.join texts) := by
  induction texts with
  | nil => exact neutral_empty
  | cons first rest ih =>
    obtain ⟨hfirst, hrest⟩ := List.forall_mem_cons.1 h
    rw [String.join_cons]
    exact hfirst.append (ih hrest)

theorem neutral_intercalate {separator : String} (hseparator : Neutral separator)
    {texts : List String} (h : ∀ text ∈ texts, Neutral text) :
    Neutral (separator.intercalate texts) := by
  induction texts with
  | nil => simpa using neutral_empty
  | cons first rest ih =>
    obtain ⟨hfirst, hrest⟩ := List.forall_mem_cons.1 h
    cases rest with
    | nil => simpa using hfirst
    | cons second rest =>
      rw [String.intercalate_cons_cons]
      exact (hfirst.append hseparator).append (ih hrest)

/-- Text without brackets is of no account. -/
theorem foldlM_scanChar_plain (h : ∀ c ∈ text, isBracket c = false) (due : List Char) :
    text.foldlM scanChar due = some due := by
  induction text with
  | nil => rfl
  | cons c rest ih =>
    obtain ⟨hc, hrest⟩ := List.forall_mem_cons.1 h
    rw [List.foldlM_cons, scanChar_plain hc]
    exact ih hrest

theorem neutral_replicate (h : isBracket c = false) (count : Nat) :
    Neutral (String.ofList (List.replicate count c)) := by
  intro due
  unfold scan
  rw [String.toList_ofList]
  refine foldlM_scanChar_plain (fun d hd => ?_) due
  rw [List.eq_of_mem_replicate hd]
  exact h

/-! ### Escaped values -/

/-- A bracket is spelled by itself, and other spellings have no brackets. -/
theorem scan_escapeChar (due : List Char) (c : Char) :
    (escapeChar c).foldlM scanChar due = scanChar due c := by
  cases hc : isBracket c with
  | false =>
    have hspelling : ∀ d ∈ escapeChar c, isBracket d = false :=
      forall_mem_escapeChar (by simp [escapeMarks, isBracket, brackets]) (by decide) fun _ => hc
    rw [foldlM_scanChar_plain hspelling, scanChar_plain hc]
  | true =>
    have hself : escapeChar c = [c] := by
      unfold isBracket brackets at hc
      simp only [List.any_cons, List.any_nil, Bool.or_eq_true, beq_iff_eq, Bool.or_false] at hc
      rcases hc with (rfl | rfl) | (rfl | rfl) | rfl | rfl <;> decide
    rw [hself, List.foldlM_cons]
    cases scanChar due c <;> rfl

/-- **An escaped value has the brackets of the value.** -/
theorem scan_escape (due : List Char) (value : String) : scan due (escape value) = scan due value := by
  unfold scan
  rw [toList_escape]
  induction value.toList generalizing due with
  | nil => rfl
  | cons c rest ih =>
    rw [List.flatMap_cons, List.foldlM_append, scan_escapeChar, List.foldlM_cons]
    exact congrArg (Option.bind (scanChar due c)) (funext ih)

theorem Neutral.escape (h : Neutral value) : Neutral (escape value) := by
  intro due
  rw [scan_escape]
  exact h due

end SolText.Text
