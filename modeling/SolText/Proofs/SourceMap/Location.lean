import SolText.Proofs.Text.Numeral
import SolText.SourceMap.Location

/-!
# The notation of locations

A location is written as three parts with colons between them. More is read than is ever written: a
part may have a plus sign and leading zeros.

* `Location.Spells`: a text in the notation and its location.
* `Location.parse_eq_ok_iff`: **the texts in the notation are read, and no others**, each as the location
  that it spells.
* `Location.parse_inverts_text`: **a location of words reads back from its text**, and so does every
  location that was read.
-/

namespace SolText

namespace Location

open Text

/-- The part stands for the index of a source, or for none. -/
def SpellsSource (part : List Char) : Option Nat → Prop
  | some index => Denotes part index
  | none => part = ['-', '1']

/-- The text is a location in the notation: three parts between two colons. -/
def Spells (text : String) (location : Location) : Prop :=
  ∃ offset length source, text.toList = offset ++ ':' :: (length ++ ':' :: source) ∧
    Denotes offset location.offset ∧ Denotes length location.length ∧
    SpellsSource source location.source

/-- The numbers of a location are words. -/
def Representable (location : Location) : Prop :=
  location.offset < 2 ^ 64 ∧ location.length < 2 ^ 64 ∧ ∀ index ∈ location.source, index < 2 ^ 64

theorem parseSource_eq_some_iff {part : List Char} {source : Option Nat} :
    parseSource part = some source ↔ SpellsSource part source := by
  unfold parseSource
  split
  · rename_i hnone
    cases source with
    | none => exact ⟨fun _ => hnone, fun _ => rfl⟩
    | some index =>
      constructor
      · intro h
        cases h
      · intro h
        exact absurd (hnone ▸ List.mem_cons_self) (h.not_mem (c := '-') (by decide) (by decide))
  · rename_i hnumber
    cases source with
    | none =>
      constructor
      · intro h
        obtain ⟨index, -, h⟩ := Option.map_eq_some_iff.1 h
        cases h
      · intro h
        exact absurd h hnumber
    | some index =>
      rw [Option.map_eq_some_iff]
      constructor
      · rintro ⟨found, hfound, h⟩
        cases h
        exact readWord_eq_some_iff.1 hfound
      · intro h
        exact ⟨index, readWord_eq_some_iff.2 h, rfl⟩

theorem SpellsSource.not_mem {part : List Char} {source : Option Nat} (h : SpellsSource part source) :
    ':' ∉ part := by
  cases source with
  | some index => exact Denotes.not_mem h (by decide) (by decide)
  | none =>
    rw [show part = ['-', '1'] from h]
    decide

theorem parse?_eq_some_iff {text : List Char} {location : Location} :
    parse? text = some location ↔
      ∃ offset length source, splitAll ':' text = [offset, length, source] ∧
        Denotes offset location.offset ∧ Denotes length location.length ∧
        SpellsSource source location.source := by
  constructor
  · intro h
    unfold parse? at h
    split at h
    · rename_i offset length source hsplit
      simp only [bind, Option.bind_eq_some_iff, pure, Option.some.injEq] at h
      obtain ⟨start, hstart, size, hsize, index, hindex, rfl⟩ := h
      exact ⟨offset, length, source, hsplit, readWord_eq_some_iff.1 hstart,
        readWord_eq_some_iff.1 hsize, parseSource_eq_some_iff.1 hindex⟩
    · cases h
  · rintro ⟨offset, length, source, hsplit, hoffset, hlength, hsource⟩
    unfold parse?
    rw [hsplit]
    simp [readWord_eq_some_iff.2 hoffset, readWord_eq_some_iff.2 hlength,
      parseSource_eq_some_iff.2 hsource]

/-- **The texts in the notation are read, and no others**, each as the location that it spells. -/
theorem parse_eq_ok_iff {text : String} {location : Location} :
    parse text = .ok location ↔ Spells text location := by
  have hparse : parse text = .ok location ↔ parse? text.toList = some location := by
    unfold parse
    cases parse? text.toList with
    | none => simp
    | some found => simp
  rw [hparse, parse?_eq_some_iff]
  constructor
  · rintro ⟨offset, length, source, hsplit, hoffset, hlength, hsource⟩
    exact ⟨offset, length, source, eq_of_splitAll hsplit, hoffset, hlength, hsource⟩
  · rintro ⟨offset, length, source, htext, hoffset, hlength, hsource⟩
    refine ⟨offset, length, source, ?_, hoffset, hlength, hsource⟩
    rw [htext]
    exact splitAll_eq_three (hoffset.not_mem (by decide) (by decide))
      (hlength.not_mem (by decide) (by decide)) hsource.not_mem

/-- The text of a location spells it, if its numbers are words. -/
theorem Representable.spells {location : Location} (h : location.Representable) :
    Spells location.text location := by
  obtain ⟨offset, length, source⟩ := location
  obtain ⟨hoffset, hlength, hsource⟩ := h
  cases source with
  | none =>
    refine ⟨_, _, _, ?_, denotes_repr hoffset, denotes_repr hlength, rfl⟩
    simp [text]
  | some index =>
    have hindex := hsource index rfl
    refine ⟨_, _, _, ?_, denotes_repr hoffset, denotes_repr hlength, denotes_repr hindex⟩
    simp [text]

theorem Spells.representable {text : String} {location : Location} (h : Spells text location) :
    location.Representable := by
  obtain ⟨_, _, part, -, hoffset, hlength, hsource⟩ := h
  have hword : ∀ {part : List Char} {value : Nat}, Denotes part value → value < 2 ^ 64 :=
    fun ⟨_, _, _, _, _, hlt⟩ => hlt
  refine ⟨hword hoffset, hword hlength, fun index hindex => ?_⟩
  rw [Option.mem_def.1 hindex] at hsource
  exact hword hsource

/-- **Reading inverts writing.** A location reads back from its text if its numbers are words. What is
read are the texts in the notation and no others, each as what it spells. So the text of a location that
was read gives the same location again. -/
theorem parse_inverts_text (text : String) (location : Location) :
    (parse location.text = .ok location ↔ location.Representable) ∧
      (parse text = .ok location ↔ Spells text location) ∧
      (parse text = .ok location → parse location.text = .ok location) := by
  have hback : location.Representable → parse location.text = .ok location :=
    fun h => parse_eq_ok_iff.2 h.spells
  refine ⟨⟨fun h => (parse_eq_ok_iff.1 h).representable, hback⟩, parse_eq_ok_iff, fun h => ?_⟩
  exact hback (parse_eq_ok_iff.1 h).representable

/-- A plus sign and leading zeros are read and not written again. -/
theorem parse_inverts_text_signed :
    parse "+007:18446744073709551615:-1" = .ok ⟨7, 2 ^ 64 - 1, none⟩ ∧
      parse "7:18446744073709551615:-1" = .ok ⟨7, 2 ^ 64 - 1, none⟩ := by
  have hread : parse "+007:18446744073709551615:-1" = .ok ⟨7, 2 ^ 64 - 1, none⟩ := by rfl
  exact ⟨hread, (parse_inverts_text _ _).2.2 hread⟩

end Location

end SolText
