import Mathlib.Data.List.Basic
import SolText.SourceMap.Range
import SolText.Text.Bytes

/-!
# Occurrences of texts in texts

Positions count bytes, so an occurrence is told by the number of bytes in front of it.

* `OccursAt`: one text stands in another at a byte position.
* `firstOccurrenceFrom_eq_some_iff`: **the search from a position finds the leftmost occurrence at or
  after it.**
* `firstOccurrenceFrom_eq_none_iff`: it fails exactly if there is none.
* `OccursAt.trans`: an occurrence inside an occurrence.
* `OccursAt.eq_of_isValid`: no position lies inside a character.
* `OccursAt.isValid_covered`: the covered part of an occurrence ends where a character ends.
-/

namespace SolText.Text

variable {fragment text inner middle outer : String} {offset start index i j : Nat}

/-- One text stands in another behind the given number of bytes. -/
def OccursAt (fragment text : String) (offset : Nat) : Prop :=
  ∃ before after : String, text = before ++ fragment ++ after ∧ before.utf8ByteSize = offset

/-! ### Bytes of strings -/

theorem byteLength_toList (text : String) : byteLength text.toList = text.utf8ByteSize := by
  have key : ∀ l : List Char, byteLength l = (String.ofList l).utf8ByteSize := by
    intro l
    induction l with
    | nil => rfl
    | cons c l ih => rw [byteLength_cons, ih, String.ofList_cons, String.utf8ByteSize_append]; simp
  rw [key, String.ofList_toList]

/-- What is left behind the first bytes of a text. -/
theorem dropBytes_eq_some_iff {rest : List Char} :
    dropBytes start text.toList = some rest ↔
      ∃ before : String, text = before ++ String.ofList rest ∧ before.utf8ByteSize = start := by
  constructor
  · intro h
    obtain ⟨before, htext, hlen⟩ := exists_of_dropBytes h
    refine ⟨String.ofList before, ?_, ?_⟩
    · rw [← String.ofList_append, ← htext, String.ofList_toList]
    · rw [← byteLength_toList, String.toList_ofList, hlen]
  · rintro ⟨before, rfl, rfl⟩
    rw [String.toList_append, String.toList_ofList, ← byteLength_toList]
    exact dropBytes_append _ _

theorem isValid_iff : (⟨offset⟩ : String.Pos.Raw).IsValid text ↔
    ∃ before after : String, text = before ++ after ∧ before.utf8ByteSize = offset := by
  rw [String.Pos.Raw.isValid_iff_exists_append]
  constructor
  · rintro ⟨before, after, htext, hpos⟩
    exact ⟨before, after, htext, (congrArg String.Pos.Raw.byteIdx hpos).symm⟩
  · rintro ⟨before, after, htext, hpos⟩
    exact ⟨before, after, htext, by rw [← hpos]; rfl⟩

/-- Of two ways to cut a text in two, the later cut lies in the second part of the earlier. -/
theorem exists_of_append_eq {a b c d : String} (h : a ++ b = c ++ d)
    (hsize : a.utf8ByteSize ≤ c.utf8ByteSize) : ∃ m, c = a ++ m ∧ b = m ++ d := by
  have hlist := congrArg String.toList h
  rw [String.toList_append, String.toList_append] at hlist
  rcases List.append_eq_append_iff.1 hlist with ⟨m, hc, hb⟩ | ⟨m, ha, hd⟩
  · refine ⟨String.ofList m, ?_, ?_⟩
    · rw [← String.toList_inj, String.toList_append, String.toList_ofList, hc]
    · rw [← String.toList_inj, String.toList_append, String.toList_ofList, hb]
  · -- then nothing lies between the cuts
    have ha' : a = c ++ String.ofList m := by
      rw [← String.toList_inj, String.toList_append, String.toList_ofList, ha]
    have hd' : d = String.ofList m ++ b := by
      rw [← String.toList_inj, String.toList_append, String.toList_ofList, hd]
    have hm : String.ofList m = "" := by
      rw [ha', String.utf8ByteSize_append] at hsize
      exact String.utf8ByteSize_eq_zero_iff.1 (by omega)
    rw [hm] at ha' hd'
    exact ⟨"", by rw [ha']; simp, by rw [hd']; simp⟩

/-! ### Occurrences -/

theorem OccursAt.self (text : String) : OccursAt text text 0 :=
  ⟨"", "", by simp, rfl⟩

/-- **An occurrence inside an occurrence.** -/
theorem OccursAt.trans (h : OccursAt inner middle i) (h' : OccursAt middle outer j) :
    OccursAt inner outer (j + i) := by
  obtain ⟨b, a, rfl, rfl⟩ := h
  obtain ⟨b', a', rfl, rfl⟩ := h'
  refine ⟨b' ++ b, a ++ a', ?_, by rw [String.utf8ByteSize_append]⟩
  simp only [String.append_assoc]

theorem OccursAt.add_size_le (h : OccursAt fragment text offset) :
    offset + fragment.utf8ByteSize ≤ text.utf8ByteSize := by
  obtain ⟨b, a, rfl, rfl⟩ := h
  rw [String.utf8ByteSize_append, String.utf8ByteSize_append]
  omega

theorem OccursAt.isValid (h : OccursAt fragment text offset) :
    (⟨offset⟩ : String.Pos.Raw).IsValid text := by
  obtain ⟨b, a, htext, hb⟩ := h
  exact isValid_iff.2 ⟨b, fragment ++ a, by rw [htext, String.append_assoc], hb⟩

/-- Where a text stands, its first part does. -/
theorem OccursAt.left {first rest : String} (h : OccursAt (first ++ rest) text offset) :
    OccursAt first text offset := by
  obtain ⟨b, a, rfl, hb⟩ := h
  exact ⟨b, rest ++ a, by simp only [String.append_assoc], hb⟩

/-- Where a text stands, its last part stands behind its first. -/
theorem OccursAt.right {first rest : String} (h : OccursAt (first ++ rest) text offset) :
    OccursAt rest text (offset + first.utf8ByteSize) := by
  obtain ⟨b, a, rfl, rfl⟩ := h
  exact ⟨b ++ first, a, by simp only [String.append_assoc], by rw [String.utf8ByteSize_append]⟩

/-- No position lies inside a character. -/
theorem OccursAt.eq_of_isValid {c : Char} (h : OccursAt (String.singleton c) text i)
    (hj : (⟨j⟩ : String.Pos.Raw).IsValid text) (hlt : i < j) (hle : j ≤ i + c.utf8Size) :
    j = i + c.utf8Size := by
  obtain ⟨before, after, htext, rfl⟩ := h
  obtain ⟨x, y, hxy, rfl⟩ := isValid_iff.1 hj
  rw [htext, String.append_assoc] at hxy
  -- what lies between the two positions is a first part of the character, and not empty
  obtain ⟨m, rfl, hm⟩ := exists_of_append_eq hxy (by omega)
  rw [String.utf8ByteSize_append] at hlt hle ⊢
  obtain ⟨rest, hc, -⟩ := exists_of_append_eq hm.symm (by rw [String.utf8ByteSize_singleton]; omega)
  have hlist : [c] = m.toList ++ rest.toList := by
    rw [← String.toList_append, ← hc, String.toList_singleton]
  have hne : m.toList ≠ [] := by
    intro hnil
    have hempty : m = "" := String.toList_eq_nil_iff.1 hnil
    rw [hempty, String.utf8ByteSize_empty] at hlt
    omega
  have hrest : rest.toList = [] := by
    cases hml : m.toList with
    | nil => exact absurd hml hne
    | cons d l =>
      rw [hml, List.cons_append, List.cons.injEq] at hlist
      exact (List.append_eq_nil_iff.1 hlist.2.symm).2
  have hsize : (String.singleton c).utf8ByteSize = m.utf8ByteSize := by
    rw [hc, String.toList_eq_nil_iff.1 hrest, String.append_empty]
  rw [String.utf8ByteSize_singleton] at hsize
  omega

/-- The bytes at an occurrence are those of the text that occurs. -/
theorem OccursAt.extract_eq (h : OccursAt fragment text offset) :
    text.toByteArray.extract offset (offset + fragment.utf8ByteSize) = fragment.toByteArray := by
  obtain ⟨b, a, rfl, rfl⟩ := h
  rw [String.toByteArray_append, String.toByteArray_append, ByteArray.append_assoc,
    ← String.size_toByteArray, ← String.size_toByteArray]
  have h0 := ByteArray.extract_append_size_add (a := b.toByteArray)
    (b := fragment.toByteArray ++ a.toByteArray) (i := 0) (j := fragment.toByteArray.size)
  rw [Nat.add_zero] at h0
  rw [h0, ByteArray.extract_append_eq_left rfl]

/-! ### Searching -/

/-- The search finds the leftmost place at which a text stands. -/
theorem firstOccurrence_eq_some_iff {fragment text : List Char} :
    firstOccurrence fragment text = some index ↔
      (∃ before after, text = before ++ fragment ++ after ∧ byteLength before = index) ∧
        ∀ before after, text = before ++ fragment ++ after → index ≤ byteLength before := by
  induction text generalizing index with
  | nil =>
    cases fragment with
    | nil => simp [firstOccurrence, eq_comm]
    | cons c fragment => simp [firstOccurrence]
  | cons c text ih =>
    rw [firstOccurrence]
    by_cases hp : fragment.isPrefixOf (c :: text) = true
    · -- it stands at the very start
      rw [if_pos hp]
      obtain ⟨after, hafter⟩ := List.isPrefixOf_iff_prefix.1 hp
      constructor
      · intro h
        cases h
        exact ⟨⟨[], after, by simp [hafter], rfl⟩, fun _ _ _ => Nat.zero_le _⟩
      · rintro ⟨-, hleast⟩
        have := hleast [] after (by simp [hafter])
        simp only [byteLength_nil, Nat.le_zero] at this
        rw [this]
    · rw [if_neg hp]
      -- every occurrence has the first character in front of it
      have hcons : ∀ before after, c :: text = before ++ fragment ++ after →
          ∃ before', before = c :: before' ∧ text = before' ++ fragment ++ after := by
        intro before after h
        cases before with
        | nil =>
          exact absurd (List.isPrefixOf_iff_prefix.2 ⟨after, by simpa using h.symm⟩) hp
        | cons d before =>
          rw [List.cons_append, List.cons_append, List.cons.injEq] at h
          exact ⟨before, by rw [h.1], h.2⟩
      rw [Option.map_eq_some_iff]
      constructor
      · rintro ⟨index, hi, rfl⟩
        obtain ⟨⟨before, after, htext, hb⟩, hleast⟩ := ih.1 hi
        refine ⟨⟨c :: before, after, by rw [htext]; simp, by rw [byteLength_cons, hb]⟩, ?_⟩
        intro b a h
        obtain ⟨b', rfl, htext'⟩ := hcons b a h
        have := hleast b' a htext'
        rw [byteLength_cons]; omega
      · rintro ⟨⟨before, after, htext, hb⟩, hleast⟩
        obtain ⟨before, rfl, htext'⟩ := hcons before after htext
        refine ⟨byteLength before, ih.2 ⟨⟨before, after, htext', rfl⟩, ?_⟩, by rw [← hb, byteLength_cons]⟩
        intro b a h
        have := hleast (c :: b) a (by rw [h]; simp)
        rw [← hb, byteLength_cons, byteLength_cons] at this
        omega

/-- A search fails when the text stands nowhere. -/
theorem firstOccurrence_eq_none {fragment text : List Char} (h : firstOccurrence fragment text = none) :
    ∀ before after, text ≠ before ++ fragment ++ after := by
  induction text with
  | nil =>
    intro before after ht
    cases fragment with
    | nil => simp [firstOccurrence] at h
    | cons c fragment => simp at ht
  | cons c text ih =>
    rw [firstOccurrence] at h
    by_cases hp : fragment.isPrefixOf (c :: text) = true
    · rw [if_pos hp] at h; cases h
    · rw [if_neg hp, Option.map_eq_none_iff] at h
      intro before after ht
      cases before with
      | nil => exact hp (List.isPrefixOf_iff_prefix.2 ⟨after, by simpa using ht.symm⟩)
      | cons d before =>
        rw [List.cons_append, List.cons_append, List.cons.injEq] at ht
        exact ih h before after ht.2

/-- Occurrences behind the first bytes of a text are occurrences in the rest. -/
theorem occursAt_rest {before rest : String} :
    OccursAt fragment (before ++ rest) (before.utf8ByteSize + i) ↔ OccursAt fragment rest i := by
  constructor
  · rintro ⟨b, a, htext, hb⟩
    rw [String.append_assoc] at htext
    obtain ⟨m, rfl, hrest⟩ := exists_of_append_eq htext (by omega)
    rw [String.utf8ByteSize_append] at hb
    exact ⟨m, a, by rw [hrest, String.append_assoc], by omega⟩
  · rintro ⟨b, a, rfl, rfl⟩
    exact ⟨before ++ b, a, by simp only [String.append_assoc], by rw [String.utf8ByteSize_append]⟩

/-- **The search from a position finds the leftmost occurrence at or after it.** -/
theorem firstOccurrenceFrom_eq_some_iff :
    firstOccurrenceFrom start fragment text = some index ↔
      (⟨start⟩ : String.Pos.Raw).IsValid text ∧ OccursAt fragment text (start + index) ∧
        ∀ other, start ≤ other → OccursAt fragment text other → start + index ≤ other := by
  unfold firstOccurrenceFrom
  rw [Option.bind_eq_some_iff]
  constructor
  · rintro ⟨rest, hdrop, hfirst⟩
    obtain ⟨before, rfl, rfl⟩ := dropBytes_eq_some_iff.1 hdrop
    obtain ⟨⟨b, a, hrest, hb⟩, hleast⟩ := firstOccurrence_eq_some_iff.1 hfirst
    refine ⟨isValid_iff.2 ⟨before, _, rfl, rfl⟩, occursAt_rest.2 ⟨String.ofList b, String.ofList a, ?_, ?_⟩, ?_⟩
    · rw [hrest, String.ofList_append, String.ofList_append, String.ofList_toList]
    · rw [← byteLength_toList, String.toList_ofList, hb]
    · intro other hle hocc
      obtain ⟨k, rfl⟩ := Nat.exists_eq_add_of_le hle
      obtain ⟨b', a', hrest', hb'⟩ := occursAt_rest.1 hocc
      have hlist : rest = b'.toList ++ fragment.toList ++ a'.toList := by
        rw [← String.toList_append, ← String.toList_append, ← hrest', String.toList_ofList]
      have := hleast _ _ hlist
      rw [byteLength_toList] at this
      omega
  · rintro ⟨hvalid, hocc, hleast⟩
    obtain ⟨before, after, rfl, rfl⟩ := isValid_iff.1 hvalid
    refine ⟨after.toList, dropBytes_eq_some_iff.2 ⟨before, by rw [String.ofList_toList], rfl⟩, ?_⟩
    obtain ⟨b, a, rfl, rfl⟩ := occursAt_rest.1 hocc
    refine firstOccurrence_eq_some_iff.2 ⟨⟨b.toList, a.toList, ?_, byteLength_toList b⟩, ?_⟩
    · rw [String.toList_append, String.toList_append]
    · intro b' a' h
      have hocc' : OccursAt fragment (before ++ (b ++ fragment ++ a)) (before.utf8ByteSize + byteLength b') := by
        refine occursAt_rest.2 ⟨String.ofList b', String.ofList a', ?_, ?_⟩
        · rw [← String.toList_inj, h, String.toList_append, String.toList_append, String.toList_ofList,
            String.toList_ofList]
        · rw [← byteLength_toList, String.toList_ofList]
      have := hleast _ (Nat.le_add_right _ _) hocc'
      omega

/-- A search from a place before an occurrence succeeds, no later than there. -/
theorem exists_firstOccurrenceFrom (hvalid : (⟨start⟩ : String.Pos.Raw).IsValid text)
    (hocc : OccursAt fragment text offset) (hle : start ≤ offset) :
    ∃ index, firstOccurrenceFrom start fragment text = some index ∧ start + index ≤ offset := by
  cases hfind : firstOccurrenceFrom start fragment text with
  | some index => exact ⟨index, rfl, (firstOccurrenceFrom_eq_some_iff.1 hfind).2.2 offset hle hocc⟩
  | none =>
    obtain ⟨before, after, rfl, rfl⟩ := isValid_iff.1 hvalid
    obtain ⟨k, rfl⟩ := Nat.exists_eq_add_of_le hle
    obtain ⟨b, a, rfl, -⟩ := occursAt_rest.1 hocc
    have hdrop : dropBytes before.utf8ByteSize (before ++ (b ++ fragment ++ a)).toList =
        some (b ++ fragment ++ a).toList :=
      dropBytes_eq_some_iff.2 ⟨before, by rw [String.ofList_toList], rfl⟩
    unfold firstOccurrenceFrom at hfind
    rw [hdrop, Option.bind_some] at hfind
    exact absurd (by rw [String.toList_append, String.toList_append])
      (firstOccurrence_eq_none hfind b.toList a.toList)

/-- **The search fails exactly if there is no occurrence** at or after its start. -/
theorem firstOccurrenceFrom_eq_none_iff (hvalid : (⟨start⟩ : String.Pos.Raw).IsValid text) :
    firstOccurrenceFrom start fragment text = none ↔
      ∀ offset, start ≤ offset → ¬OccursAt fragment text offset := by
  constructor
  · intro h offset hle hocc
    obtain ⟨index, hfind, -⟩ := exists_firstOccurrenceFrom hvalid hocc hle
    rw [h] at hfind
    cases hfind
  · intro h
    cases hfind : firstOccurrenceFrom start fragment text with
    | none => rfl
    | some index =>
      obtain ⟨-, hocc, -⟩ := firstOccurrenceFrom_eq_some_iff.1 hfind
      exact absurd hocc (h (start + index) (Nat.le_add_right start index))

/-- Nothing stands wherever a character ends. -/
theorem occursAt_empty_iff : OccursAt "" text offset ↔ (⟨offset⟩ : String.Pos.Raw).IsValid text := by
  constructor
  · exact OccursAt.isValid
  · intro h
    obtain ⟨before, after, rfl, hsize⟩ := isValid_iff.1 h
    exact ⟨before, after, by rw [String.append_empty], hsize⟩

/-- Nothing is found at once. -/
theorem eq_zero_of_firstOccurrenceFrom (h : firstOccurrenceFrom start "" text = some index) :
    index = 0 := by
  obtain ⟨hvalid, -, hleast⟩ := firstOccurrenceFrom_eq_some_iff.1 h
  have := hleast start (Nat.le_refl _) (occursAt_empty_iff.2 hvalid)
  omega

/-! ### Covered lengths -/

variable {kind : Kind} {terminator : Option Char}

/-- The covered part of a text is the text, or the text without its last character. -/
theorem coveredLength_cases (kind : Kind) (text : String) (terminator : Option Char) :
    coveredLength kind text terminator = text.utf8ByteSize ∨
      ∃ covered c, terminator = some c ∧ text = covered ++ String.singleton c ∧
        coveredLength kind text terminator = covered.utf8ByteSize := by
  unfold coveredLength
  cases terminator with
  | none => exact Or.inl rfl
  | some c =>
    simp only
    split
    · rename_i hlast
      simp only [Bool.and_eq_true, beq_iff_eq] at hlast
      obtain ⟨covered, hcov⟩ := List.getLast?_eq_some_iff.1 hlast.2
      have htext : text = String.ofList covered ++ String.singleton c := by
        rw [← String.toList_inj, hcov]; simp
      refine Or.inr ⟨String.ofList covered, c, rfl, htext, ?_⟩
      rw [htext, String.utf8ByteSize_append, String.utf8ByteSize_singleton, Nat.add_sub_cancel]
    · exact Or.inl rfl

theorem coveredLength_le (kind : Kind) (text : String) (terminator : Option Char) :
    coveredLength kind text terminator ≤ text.utf8ByteSize := by
  rcases coveredLength_cases kind text terminator with h | ⟨covered, c, -, htext, h⟩
  · exact Nat.le_of_eq h
  · rw [h, htext, String.utf8ByteSize_append]; omega

/-- How far the covered part of a text can stop short of it. -/
def terminatorSize : Option Char → Nat
  | some c => c.utf8Size
  | none => 0

theorem size_le_coveredLength (kind : Kind) (text : String) (terminator : Option Char) :
    text.utf8ByteSize ≤ coveredLength kind text terminator + terminatorSize terminator := by
  rcases coveredLength_cases kind text terminator with h | ⟨covered, c, rfl, htext, h⟩
  · omega
  · rw [h, htext, String.utf8ByteSize_append, String.utf8ByteSize_singleton]
    exact Nat.le_refl _

@[simp] theorem coveredLength_empty (kind : Kind) (terminator : Option Char) :
    coveredLength kind "" terminator = 0 := by
  have := coveredLength_le kind "" terminator
  simpa using this

/-- The covered part of an occurrence ends where a character ends. -/
theorem OccursAt.isValid_covered (h : OccursAt fragment text offset) (kind : Kind)
    (terminator : Option Char) :
    (⟨offset + coveredLength kind fragment terminator⟩ : String.Pos.Raw).IsValid text := by
  obtain ⟨before, after, rfl, rfl⟩ := h
  rcases coveredLength_cases kind fragment terminator with hlen | ⟨covered, c, -, hfrag, hlen⟩
  · exact isValid_iff.2 ⟨before ++ fragment, after, rfl, by rw [String.utf8ByteSize_append, hlen]⟩
  · refine isValid_iff.2 ⟨before ++ covered, String.singleton c ++ after, ?_, ?_⟩
    · rw [hfrag]; simp only [String.append_assoc]
    · rw [String.utf8ByteSize_append, hlen]

end SolText.Text
