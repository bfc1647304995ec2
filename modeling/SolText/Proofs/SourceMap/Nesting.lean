import SolText.Proofs.Forest.Ancestry
import SolText.Proofs.SourceMap.Recorded

/-!
# Nested and in order

Ranges of a tree lie within one another or follow one another. It is enough to know that of parents
and children and of siblings, and both ways of mapping give it: the search up to the terminator that a
range stops short of, the record without exception.

* `SourceMap.Nested`: children lie within their parents, and behind their elder siblings.
* `SourceMap.Nested.pair`: **any two nodes are nested or in order.**
* `SourceMap.Located.nested`, `SourceMap.Tracked.nested`: found ranges are nested, and recorded ones.
* `SourceMap.reconstruct_nested`: **what the search finds is nested or in order, up to a terminator.**
* `SourceMap.live_nested`: **what is recorded is nested or in order.**
-/

namespace SolText.SourceMap

open Text

/-- Children lie within their parents, and behind their elder siblings but for some bytes. A node
without a range has no child with one. -/
structure Nested (forest : Forest) (root : Handle) (ranges : RangeMap) (text : Handle → String)
    (slack : Nat) : Prop where
  within : ∀ parent ∈ forest.walk root, ∀ child ∈ forest.children parent, ∀ inner : Range,
    ranges[child]? = some inner → ∃ outer, ranges[parent]? = some outer ∧
      outer.offset ≤ inner.offset ∧
      inner.offset + (text child).utf8ByteSize ≤ outer.offset + (text parent).utf8ByteSize
  apart : ∀ parent ∈ forest.walk root, ∀ elder child younger,
    forest.children parent = elder ++ child :: younger → ∀ sibling ∈ elder, ∀ first second : Range,
    ranges[sibling]? = some first → ranges[child]? = some second →
    first.offset + (text sibling).utf8ByteSize ≤ second.offset + slack

variable {writer : Writer} {terminator : Option Char} {forest : Forest} {root parent top : Nat}
  {fragments : FragmentMap} {ranges relative live : RangeMap} {first second : Range} {slack : Nat}
  {text : Handle → String} {before after : List Nat} {earlier later : Nat}

/-! ### Any two nodes -/

/-- What is beneath a node lies within it. -/
theorem Nested.above (hs : forest.Sound) (hn : Nested forest root ranges text slack)
    (htop : top ∈ forest.walk root) : ∀ node ∈ forest.walk top, ∀ inner : Range,
      ranges[node]? = some inner → ∃ outer, ranges[top]? = some outer ∧
        outer.offset ≤ inner.offset ∧
        inner.offset + (text node).utf8ByteSize ≤ outer.offset + (text top).utf8ByteSize := by
  refine hs.walk_induction ?_ ?_
  · intro inner hinner
    exact ⟨inner, hinner, Nat.le_refl _, Nat.le_refl _⟩
  · intro p hp ih c hc inner hinner
    have hproot := hs.mem_walk_trans htop hp
    obtain ⟨middle, hmiddle, hstart, hstop⟩ := hn.within p hproot c hc inner hinner
    obtain ⟨outer, houter, hstart', hstop'⟩ := ih middle hmiddle
    exact ⟨outer, houter, by omega, by omega⟩

/-- **Any two nodes are nested or in order.** -/
theorem Nested.pair (hs : forest.Sound) (hn : Nested forest root ranges text slack)
    (hw : forest.walk root = before ++ later :: after) (hu : earlier ∈ before)
    (hfirst : ranges[earlier]? = some first) (hsecond : ranges[later]? = some second) :
    (earlier ∈ forest.ancestors later ∧ first.offset ≤ second.offset ∧
      second.offset + (text later).utf8ByteSize ≤ first.offset + (text earlier).utf8ByteSize) ∨
    (earlier ∉ forest.ancestors later ∧
      first.offset + (text earlier).utf8ByteSize ≤ second.offset + slack) := by
  have hearlier : earlier ∈ forest.walk root := hw ▸ List.mem_append_left _ hu
  by_cases habove : earlier ∈ forest.ancestors later
  · left
    have hwalk := ((hs.mem_ancestors_iff later earlier).1 habove).2
    obtain ⟨outer, houter, hstart, hstop⟩ := hn.above hs hearlier later hwalk second hsecond
    rw [hfirst] at houter
    cases houter
    exact ⟨habove, hstart, hstop⟩
  · right
    refine ⟨habove, ?_⟩
    rcases hs.above_or_apart root before after later hw earlier hu with
      hwalk | ⟨p, hp, elder, b, younger, hch, hvb, a, ha, hua⟩
    · have hne : later ≠ earlier := fun he => hs.not_mem_before hw (he ▸ hu)
      exact absurd ((hs.mem_ancestors_iff later earlier).2 ⟨hne, hwalk⟩) habove
    · -- the earlier node ends with the elder child, and the later begins with the younger
      have hbp : b ∈ forest.children p := hch ▸ List.mem_append_right _ List.mem_cons_self
      have hap : a ∈ forest.children p := hch ▸ List.mem_append_left _ ha
      have hbw := hs.child_mem_walk root p hp b hbp
      have haw := hs.child_mem_walk root p hp a hap
      obtain ⟨ra, hra, -, hstop⟩ := hn.above hs haw earlier hua first hfirst
      obtain ⟨rb, hrb, hstart, -⟩ := hn.above hs hbw later hvb second hsecond
      have hsiblings := hn.apart p hp elder b younger hch a ha ra rb hra hrb
      omega

/-! ### Ranges that were found -/

section
variable (hs : forest.Sound) (hl : Located terminator forest root fragments (forest.walk root) ranges)
include hs hl

/-- The search for a child starts behind its elder siblings, so the child is found there. -/
theorem Located.elder_le (hp : parent ∈ forest.walk root) (elder : List Nat) :
    ∀ (child : Nat) (younger : List Nat), forest.children parent = elder ++ child :: younger →
      ∀ sibling ∈ elder, ∀ first second : Range, ranges[sibling]? = some first →
        ranges[child]? = some second → first.stop ≤ second.offset := by
  induction elder using List.reverseRecOn with
  | nil =>
    intro c younger _ sibling hsib
    exact absurd hsib List.not_mem_nil
  | append_singleton elder s ih =>
    intro c younger hch sibling hsib first second hfirst hsecond
    have hc : c ∈ forest.children parent := hch ▸ List.mem_append_right _ List.mem_cons_self
    obtain ⟨kind, outer, start, index, -, -, hstart, -, rfl⟩ :=
      hl.child_eq hs hc (hs.ne_root hp hc) hsecond
    rw [List.append_assoc, List.singleton_append] at hch
    obtain ⟨previous, hprevious, hstop⟩ := anchor_behind hs hch hstart
    have hlast : previous.stop ≤ outer.offset + start + index := by omega
    rcases List.mem_append.1 hsib with helder | hself
    · -- an older sibling ends before the last one begins
      have hbefore := ih s (c :: younger) hch sibling helder first previous hfirst hprevious
      have hself : previous.offset ≤ previous.stop := Nat.le_add_right _ _
      exact Nat.le_trans hbefore (Nat.le_trans hself hlast)
    · rw [List.mem_singleton.1 hself, hprevious] at hfirst
      cases hfirst
      exact hlast

/-- Found ranges are nested, and in order but for the terminator of an elder sibling. -/
theorem Located.nested : Nested forest root ranges fragments.text (terminatorSize terminator) := by
  refine ⟨?_, ?_⟩
  · intro p hp c hc inner hinner
    obtain ⟨kind, outer, start, index, -, hout, -, hfind, rfl⟩ :=
      hl.child_eq hs hc (hs.ne_root hp hc) hinner
    have hsize := (firstOccurrenceFrom_eq_some_iff.1 hfind).2.1.add_size_le
    refine ⟨outer, hout, ?_, ?_⟩
    · show outer.offset ≤ outer.offset + start + index
      omega
    · show outer.offset + start + index + _ ≤ _
      omega
  · intro p hp elder c younger hch s hmem first second hfirst hsecond
    have hle := hl.elder_le hs hp elder c younger hch s hmem first second hfirst hsecond
    have hsc : s ∈ forest.children p := hch ▸ List.mem_append_left _ hmem
    obtain ⟨kind, value, -, hvalue, hlen, -⟩ :=
      hl.occursAt hs s (hs.child_mem_walk root p hp s hsc)
    cases hfirst.symm.trans hvalue
    have hcovered := size_le_coveredLength kind (fragments.text s) terminator
    unfold Range.stop at hle
    omega

/-- A range that ends behind that of a node above it ends with the terminator which that one stops
short of. -/
theorem Located.stop_eq (hearlier : earlier ∈ forest.walk root) (hlater : later ∈ forest.walk root)
    (hfirst : ranges[earlier]? = some first) (hsecond : ranges[later]? = some second)
    (hlt : first.stop < second.stop)
    (hle : second.stop ≤ first.offset + (fragments.text earlier).utf8ByteSize) :
    second.stop = first.offset + (fragments.text earlier).utf8ByteSize := by
  obtain ⟨kind, value, -, hvalue, hlen, hocc⟩ := hl.occursAt hs earlier hearlier
  cases hfirst.symm.trans hvalue
  obtain ⟨kind', value', -, hvalue', hlen', hocc'⟩ := hl.occursAt hs later hlater
  cases hsecond.symm.trans hvalue'
  have hvalid := hocc'.isValid_covered kind' terminator
  rw [← hlen'] at hvalid
  unfold Range.stop at hlt hle ⊢
  rcases coveredLength_cases kind (fragments.text earlier) terminator with
    hall | ⟨covered, c, -, htext, hcut⟩
  · omega
  · -- between the two ends there is one character, and no position inside it
    rw [htext] at hocc
    have hchar := hocc.right
    have hsize : (fragments.text earlier).utf8ByteSize = covered.utf8ByteSize + c.utf8Size := by
      rw [htext, String.utf8ByteSize_append, String.utf8ByteSize_singleton]
    have hend := hchar.eq_of_isValid hvalid (by omega) (by omega)
    omega

end

/-- **What the search finds is nested or in order, up to a terminator**, whatever the texts. -/
theorem reconstruct_nested (hb : forest.Built)
    (h : reconstruct terminator forest root fragments = .ok ranges)
    (hw : forest.walk root = before ++ later :: after) (hu : earlier ∈ before) :
    ∃ first second, ranges[earlier]? = some first ∧ ranges[later]? = some second ∧
      (earlier ∈ forest.ancestors later →
        first.offset ≤ second.offset ∧
        second.stop ≤ first.offset + (fragments.text earlier).utf8ByteSize ∧
        (first.length = (fragments.text earlier).utf8ByteSize → second.stop ≤ first.stop) ∧
        (first.length < (fragments.text earlier).utf8ByteSize → first.stop < second.stop →
          second.stop = first.offset + (fragments.text earlier).utf8ByteSize)) ∧
      (forest.parent earlier = forest.parent later → first.stop ≤ second.offset) ∧
      (earlier ∉ forest.ancestors later →
        first.stop ≤ second.offset + terminatorSize terminator) := by
  have hs := hb.sound
  have hl := Located.of_reconstruct hs h
  have hearlier : earlier ∈ forest.walk root := hw ▸ List.mem_append_left _ hu
  have hlater : later ∈ forest.walk root := hw ▸ List.mem_append_right _ List.mem_cons_self
  obtain ⟨kind, first, -, hfirst, hlen, -⟩ := hl.occursAt hs earlier hearlier
  obtain ⟨kind', second, -, hsecond, hlen', -⟩ := hl.occursAt hs later hlater
  have hpair := (hl.nested hs).pair hs hw hu hfirst hsecond
  have hcovered := coveredLength_le kind (fragments.text earlier) terminator
  have hcovered' := coveredLength_le kind' (fragments.text later) terminator
  have hstop : first.stop = first.offset + first.length := rfl
  have hstop' : second.stop = second.offset + second.length := rfl
  refine ⟨first, second, hfirst, hsecond, ?_, ?_, ?_⟩
  · intro habove
    obtain ⟨-, hstart, hend⟩ := hpair.resolve_right fun hapart => hapart.1 habove
    have hle : second.stop ≤ first.offset + (fragments.text earlier).utf8ByteSize := by omega
    refine ⟨hstart, hle, fun hall => by omega, fun _ hlt => ?_⟩
    exact hl.stop_eq hs hearlier hlater hfirst hsecond hlt hle
  · intro hparent
    obtain ⟨p, hp, hlc⟩ := hs.exists_parent hlater (hs.ne_root_of_before hw hu)
    rw [hs.parent_eq_iff.2 hlc] at hparent
    have hec := hs.parent_eq_iff.1 hparent
    obtain ⟨elder, younger, hch, hmem⟩ := hs.elder_of_before hw hu hec hlc
    exact hl.elder_le hs hp elder later younger hch earlier hmem first second hfirst hsecond
  · intro hnot
    obtain ⟨-, hend⟩ := hpair.resolve_left fun habove => hnot habove.1
    omega

/-- Texts that overlap by a terminator of two bytes: the name in the first statement takes the
terminator with it, and the second statement begins there. -/
theorem reconstruct_nested_overlap :
    ∃ (forest : Forest) (ranges : RangeMap),
      Forest.ofNodes [.identifier "x", .expressionStatement 0, .identifier "y",
        .expressionStatement 2, .block [1, 3]] = .ok forest ∧
      reconstruct (some 'é') forest 4
        (.ofList [(0, "xé"), (1, "xé"), (2, "y"), (3, "éy"), (4, "xéy")]) = .ok ranges ∧
      (∃ first second : Range, ranges[1]? = some first ∧ ranges[0]? = some second ∧
        first.stop < second.stop ∧ second.stop = first.offset + 3) ∧
      (∃ first second : Range, ranges[1]? = some first ∧ ranges[3]? = some second ∧
        first.stop ≤ second.offset) ∧
      ∃ first second : Range, ranges[0]? = some first ∧ ranges[3]? = some second ∧
        second.offset < first.stop ∧ first.stop ≤ second.offset + 2 := by
  have hforest : Forest.ofNodes [.identifier "x", .expressionStatement 0, .identifier "y",
      .expressionStatement 2, .block [1, 3]] =
        .ok ⟨#[⟨.identifier "x", some 1, []⟩, ⟨.expressionStatement 0, some 4, [0]⟩,
          ⟨.identifier "y", some 3, []⟩, ⟨.expressionStatement 2, some 4, [2]⟩,
          ⟨.block [1, 3], none, [1, 3]⟩]⟩ := rfl
  have hb := Forest.Built.ofNodes hforest
  have hpairs := fun before after earlier later => @reconstruct_nested (some 'é') _ 4
    (.ofList [(0, "xé"), (1, "xé"), (2, "y"), (3, "éy"), (4, "xéy")])
    ((((((∅ : RangeMap).insert 4 ⟨0, 4⟩).insert 1 ⟨0, 1⟩).insert 0 ⟨0, 3⟩).insert 3 ⟨1, 3⟩).insert
      2 ⟨3, 1⟩) before after earlier later hb rfl
  refine ⟨_, _, hforest, rfl, ?_, ?_, ?_⟩
  · obtain ⟨first, second, hfirst, hsecond, habove, -⟩ := hpairs [4, 1] [3, 2] 1 0 rfl (by decide)
    cases hfirst
    cases hsecond
    obtain ⟨-, -, -, htrimmed⟩ := habove (by decide)
    exact ⟨_, _, rfl, rfl, by decide, htrimmed (by decide) (by decide)⟩
  · obtain ⟨first, second, hfirst, hsecond, -, hsiblings, -⟩ :=
      hpairs [4, 1, 0] [2] 1 3 rfl (by decide)
    exact ⟨first, second, hfirst, hsecond, hsiblings rfl⟩
  · obtain ⟨first, second, hfirst, hsecond, -, -, hapart⟩ :=
      hpairs [4, 1, 0] [2] 0 3 rfl (by decide)
    cases hfirst
    cases hsecond
    exact ⟨_, _, rfl, rfl, by decide, hapart (by decide)⟩

/-! ### Ranges that were recorded -/

/-- Recorded ranges are nested, and in order over the whole texts. -/
theorem Tracked.nested {written : String} (t : Tracked writer forest root written relative live) :
    Nested forest root live (writer.textOf forest) 0 := by
  have hs := t.sound
  refine ⟨?_, ?_⟩
  · intro p hp c hc inner hinner
    obtain ⟨outer, rel, hout, -, hstands, rfl⟩ := t.child_eq hp hc hinner
    have hsize := (hstands.occursAt hs t.faithful ⟨_, t.render_walk hp⟩).add_size_le
    refine ⟨outer, hout, Nat.le_add_right _ _, ?_⟩
    show outer.offset + rel.offset + _ ≤ _
    omega
  · intro p hp elder c younger hch s hmem first second hfirst hsecond
    have hc : c ∈ forest.children p := hch ▸ List.mem_append_right _ List.mem_cons_self
    have hsc : s ∈ forest.children p := hch ▸ List.mem_append_left _ hmem
    obtain ⟨outer, rel, hout, -, hstands, rfl⟩ := t.child_eq hp hsc hfirst
    obtain ⟨outer', rel', hout', -, hstands', rfl⟩ := t.child_eq hp hc hsecond
    rw [hout] at hout'
    cases hout'
    have hle := hstands.elder_le hs t.faithful hch hmem hstands'
    show outer.offset + rel.offset + _ ≤ outer.offset + rel'.offset + 0
    omega

/-- **What is recorded is nested or in order**: of two recorded nodes, the earlier is above the later
and its text holds that of the later, or its text ends before that of the later begins. -/
theorem live_nested (hb : forest.Built) {options : Options} {written : String}
    (h : (Writer.standard options).renderRecorded forest root ∅ = (.ok written, relative)) :
    ∃ live, absolute forest root relative = .ok live ∧
      ∀ before later after, forest.walk root = before ++ later :: after → ∀ earlier ∈ before,
        earlier ∈ relative → later ∈ relative →
        ∃ first second outer inner, live[earlier]? = some first ∧ live[later]? = some second ∧
          (Writer.standard options).render forest earlier = .ok outer ∧
          (Writer.standard options).render forest later = .ok inner ∧
          (earlier ∈ forest.ancestors later ∧ first.offset ≤ second.offset ∧
              second.offset + inner.utf8ByteSize ≤ first.offset + outer.utf8ByteSize ∨
            first.offset + outer.utf8ByteSize ≤ second.offset) ∧
          first.offset ≤ second.offset := by
  have hs := hb.sound
  obtain ⟨live, hlive, t⟩ := exists_tracked hs (Writer.standard_faithful hs options) h
  refine ⟨live, hlive, ?_⟩
  intro before later after hw earlier hu hearlier hlater
  have hew : earlier ∈ forest.walk root := hw ▸ List.mem_append_left _ hu
  have hlw : later ∈ forest.walk root := hw ▸ List.mem_append_right _ List.mem_cons_self
  obtain ⟨first, hfirst⟩ := t.exists_range hew hearlier
  obtain ⟨second, hsecond⟩ := t.exists_range hlw hlater
  refine ⟨first, second, _, _, hfirst, hsecond, t.render_walk hew, t.render_walk hlw, ?_⟩
  rcases t.nested.pair hs hw hu hfirst hsecond with ⟨habove, hstart, hend⟩ | ⟨-, hend⟩
  · exact ⟨Or.inl ⟨habove, hstart, hend⟩, hstart⟩
  · have hstart : first.offset ≤ second.offset := by omega
    exact ⟨Or.inr hend, hstart⟩

/-- A statement ends with its terminator before the next one begins, though its range does not. -/
theorem live_nested_block :
    ∃ (forest : Forest) (relative live : RangeMap),
      Forest.ofNodes [.identifier "x", .expressionStatement 0, .identifier "y",
        .returnStatement (some 2), .block [1, 3]] = .ok forest ∧
      (Writer.standard {}).renderRecorded forest 4 ∅ =
        (.ok "\x7b\n    x;\n    return y;\n\x7d", relative) ∧
      absolute forest 4 relative = .ok live ∧
      (∃ first second : Range, live[1]? = some first ∧ live[2]? = some second ∧ first.length = 1 ∧
        first.offset + 2 ≤ second.offset) ∧
      ∃ first second : Range, live[3]? = some first ∧ live[2]? = some second ∧
        first.offset ≤ second.offset ∧ second.offset + 1 ≤ first.offset + 9 := by
  have hforest : Forest.ofNodes [.identifier "x", .expressionStatement 0, .identifier "y",
      .returnStatement (some 2), .block [1, 3]] =
        .ok ⟨#[⟨.identifier "x", some 1, []⟩, ⟨.expressionStatement 0, some 4, [0]⟩,
          ⟨.identifier "y", some 3, []⟩, ⟨.returnStatement (some 2), some 4, [2]⟩,
          ⟨.block [1, 3], none, [1, 3]⟩]⟩ := rfl
  obtain ⟨live, hlive, hpairs⟩ := @live_nested _ 4 _ (Forest.Built.ofNodes hforest) {} _ rfl
  refine ⟨_, _, live, hforest, rfl, hlive, ?_, ?_⟩
  · obtain ⟨first, second, outer, inner, hfirst, hsecond, houter, hinner, horder, -⟩ :=
      hpairs [4, 1, 0, 3] 2 [] rfl 1 (by decide) (by decide) (by decide)
    cases houter
    cases hinner
    rcases horder with ⟨habove, -⟩ | hend
    · exact absurd habove (by decide)
    · cases hlive
      cases hfirst
      exact ⟨_, second, rfl, hsecond, rfl, hend⟩
  · obtain ⟨first, second, outer, inner, hfirst, hsecond, houter, hinner, horder, hstart⟩ :=
      hpairs [4, 1, 0, 3] 2 [] rfl 3 (by decide) (by decide) (by decide)
    cases houter
    cases hinner
    rcases horder with ⟨-, -, hend⟩ | hend
    · exact ⟨first, second, hfirst, hsecond, hstart, hend⟩
    · cases hlive
      cases hfirst
      cases hsecond
      exact absurd hend (by decide)

end SolText.SourceMap
