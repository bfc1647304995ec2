import SolText.Proofs.SourceMap.Absolute
import SolText.Proofs.SourceMap.Search
import SolText.Proofs.Write.Faithful

/-!
# Searching in written texts

A child's text is known to stand in its parent's, but the search may take an earlier occurrence for
it. That does no harm to the siblings that follow: **the search for a node never starts behind the
place where the node stands**, so it finds something.

* `SourceMap.Written`: the texts of a tree that a faithful writer has written.
* `SourceMap.Written.start_le`: the invariant along the children of a node.
* `SourceMap.Written.exists_reconstruct`: **the search succeeds in written texts**, whatever it takes
  for a terminator.
* `SourceMap.views_succeed_together`: **a tree that can be written can be mapped, in both ways.**
-/

namespace SolText.SourceMap

open Text

/-- The texts of a tree that was written. -/
structure Written (writer : Writer) (forest : Forest) (root : Handle) (fragments : FragmentMap) :
    Prop where
  sound : forest.Sound
  faithful : writer.Faithful forest
  render : ∀ node ∈ forest.walk root, ∃ text, writer.render forest node = .ok text
  text_eq : ∀ node ∈ forest.walk root, fragments.text node = writer.textOf forest node

variable {writer : Writer} {terminator : Option Char} {forest : Forest}
  {root node child parent : Nat} {fragments : FragmentMap} {computed ranges relative : RangeMap}
  {range outer : Range} {start : Nat} {visited : List Nat} {pieces : List Piece} {text : String}

theorem Written.of_fragments (hs : forest.Sound) (hf : writer.Faithful forest)
    (hroot : writer.render forest root = .ok text) :
    ∃ fragments, writer.fragments forest root = .ok fragments ∧
      Written writer forest root fragments := by
  obtain ⟨fragments, hok, htext⟩ := hf.exists_fragments hs hroot
  exact ⟨fragments, hok, hs, hf, hf.render_walk hs hroot, htext⟩

theorem Written.child_text_eq (hw : Written writer forest root fragments)
    (hp : parent ∈ forest.walk root) (hc : child ∈ forest.children parent) :
    fragments.text child = writer.textOf forest child :=
  hw.text_eq child (hw.sound.child_mem_walk root parent hp child hc)

/-! ### Along the children of a node -/

section
variable (hw : Written writer forest root fragments)
  (hl : Located terminator forest root fragments visited computed)
include hw hl

/-- The search for a child starts where a character starts, and at or before every place that has all
written elder siblings in front of it. -/
theorem Written.start_le (hp : parent ∈ forest.walk root) (hout : computed[parent]? = some outer)
    (hpieces : writer.pieces forest parent = .ok pieces)
    (htext : fragments.text parent = writer.flat forest pieces) (elder : List Nat) :
    ∀ (child : Nat) (younger : List Nat) (start : Nat),
      forest.children parent = elder ++ child :: younger →
      anchor forest computed child parent outer.offset = .ok start →
      (⟨start⟩ : String.Pos.Raw).IsValid (fragments.text parent) ∧
        ∀ before after, pieces = before ++ after →
          (∀ sibling ∈ elder, sibling ∈ Piece.handles pieces → sibling ∈ Piece.handles before) →
          start ≤ (writer.flat forest before).utf8ByteSize := by
  have hs := hw.sound
  have hf := hw.faithful
  induction elder using List.reverseRecOn with
  | nil =>
    intro c younger start hch hstart
    rw [anchor_first hs hch hstart]
    exact ⟨isValid_iff.2 ⟨"", _, by rw [String.empty_append], rfl⟩, fun _ _ _ _ => Nat.zero_le _⟩
  | append_singleton elder s ih =>
    intro c younger start hch hstart
    rw [List.append_assoc, List.singleton_append] at hch
    have hsc : s ∈ forest.children parent := hch ▸ List.mem_append_right _ List.mem_cons_self
    have hst := hw.child_text_eq hp hsc
    obtain ⟨kind, start', index, -, hstart', hfind, rfl⟩ := hl.anchor_next hs hp hout hch hstart
    obtain ⟨hvalid, hbound⟩ := ih s (c :: younger) start' hch hstart'
    obtain ⟨-, hocc, hleast⟩ := firstOccurrenceFrom_eq_some_iff.1 hfind
    refine ⟨hocc.isValid_covered kind terminator, ?_⟩
    intro before after hsplit hbefore
    by_cases hmem : s ∈ Piece.handles pieces
    · -- a written sibling stands in front, and was found no later than there
      obtain ⟨b, a, rfl⟩ := Piece.exists_of_mem_handles (hbefore s (by simp) hmem)
      have hsplit' : pieces = b ++ .node s :: (a ++ after) := by rw [hsplit]; simp
      have hfront := hbound b _ hsplit' fun sibling hsib hw' =>
        hf.mem_before hs hch (hsplit' ▸ hpieces) hsib (hsplit' ▸ hw')
      have hstands : OccursAt (fragments.text s) (fragments.text parent)
          (writer.flat forest b).utf8ByteSize := by
        rw [hst, htext, hsplit']
        exact Writer.occursAt_flat b (a ++ after) s
      have hfound := hleast _ hfront hstands
      have hcovered := coveredLength_le kind (fragments.text s) terminator
      rw [hst] at hcovered ⊢
      rw [Writer.flat_append, Writer.flat, String.utf8ByteSize_append, String.utf8ByteSize_append]
      omega
    · -- a sibling that is left out has no text, and the search stays where it is
      have hempty : fragments.text s = "" := hst.trans (hf.textOf_omitted hs hpieces hsc hmem)
      rw [hempty] at hfind
      have hindex := eq_zero_of_firstOccurrenceFrom hfind
      rw [hempty, coveredLength_empty, hindex]
      exact hbound before after hsplit fun sibling hsib => hbefore sibling (by simp [hsib])

/-- **The search for a node never starts behind the place where the node stands.** -/
theorem Written.anchor_le (hp : parent ∈ forest.walk root) (hout : computed[parent]? = some outer)
    (hc : child ∈ forest.children parent)
    (hstart : anchor forest computed child parent outer.offset = .ok start) :
    (⟨start⟩ : String.Pos.Raw).IsValid (fragments.text parent) ∧
      ∀ range, writer.Stands forest parent child range → start ≤ range.offset := by
  obtain ⟨elder, younger, hch⟩ := List.append_of_mem hc
  obtain ⟨pieces, hpieces, htext⟩ := hw.faithful.exists_pieces hw.sound (hw.render parent hp)
  obtain ⟨hvalid, hbound⟩ := hw.start_le hl hp hout hpieces
    ((hw.text_eq parent hp).trans htext) elder child younger start hch hstart
  refine ⟨hvalid, ?_⟩
  rintro range ⟨before, after, kind, hpieces', -, rfl⟩
  cases hpieces.symm.trans hpieces'
  exact hbound before _ rfl fun sibling hsib => hw.faithful.mem_before hw.sound hch hpieces hsib

/-- What is found is found no later than where the node stands. -/
theorem Written.found_le (hp : parent ∈ forest.walk root) (hout : computed[parent]? = some outer)
    (hstands : writer.Stands forest parent child range) {index : Nat}
    (hstart : anchor forest computed child parent outer.offset = .ok start)
    (hfind : firstOccurrenceFrom start (fragments.text child) (fragments.text parent) = some index) :
    start + index ≤ range.offset := by
  have hc := hstands.mem_children hw.faithful
  have hle := (hw.anchor_le hl hp hout hc hstart).2 range hstands
  have hocc := hstands.occursAt hw.sound hw.faithful (hw.render parent hp)
  rw [← hw.text_eq parent hp, ← hw.child_text_eq hp hc] at hocc
  exact (firstOccurrenceFrom_eq_some_iff.1 hfind).2.2 range.offset hle hocc

/-- Something is found. -/
theorem Written.exists_found (hp : parent ∈ forest.walk root) (hout : computed[parent]? = some outer)
    (hc : child ∈ forest.children parent)
    (hstart : anchor forest computed child parent outer.offset = .ok start) :
    ∃ index, firstOccurrenceFrom start (fragments.text child) (fragments.text parent) = some index := by
  obtain ⟨hvalid, hle⟩ := hw.anchor_le hl hp hout hc hstart
  obtain ⟨pieces, hpieces, -⟩ := hw.faithful.exists_pieces hw.sound (hw.render parent hp)
  have hct := hw.child_text_eq hp hc
  by_cases hmem : child ∈ Piece.handles pieces
  · obtain ⟨range, hstands⟩ := hw.faithful.exists_stands hw.sound hpieces hmem
    have hocc := hstands.occursAt hw.sound hw.faithful (hw.render parent hp)
    rw [← hw.text_eq parent hp, ← hct] at hocc
    obtain ⟨index, hfind, -⟩ := exists_firstOccurrenceFrom hvalid hocc (hle range hstands)
    exact ⟨index, hfind⟩
  · rw [hct, hw.faithful.textOf_omitted hw.sound hpieces hc hmem]
    obtain ⟨index, hfind, -⟩ :=
      exists_firstOccurrenceFrom hvalid (occursAt_empty_iff.2 hvalid) (Nat.le_refl start)
    exact ⟨index, hfind⟩

end

/-! ### The whole tree -/

/-- **The search succeeds in written texts.** -/
theorem Written.exists_reconstruct (hw : Written writer forest root fragments)
    (terminator : Option Char) :
    ∃ ranges, reconstruct terminator forest root fragments = .ok ranges ∧
      Located terminator forest root fragments (forest.walk root) ranges := by
  have hs := hw.sound
  -- a step fails only for want of a range that the walk has passed, or of an occurrence
  refine exists_foldlM_eq_ok (Located terminator forest root fragments) .nil ?_
  intro before node after computed hwalk hl
  have hnode : node ∈ forest.walk root := hwalk ▸ List.mem_append_right _ List.mem_cons_self
  obtain ⟨text, hrender⟩ := hw.render node hnode
  obtain ⟨kind, hk⟩ := Writer.exists_kind_of_render hrender
  obtain ⟨range, hplace⟩ : ∃ range,
      place terminator forest root fragments computed node = .ok range := by
    by_cases hroot : node = root
    · subst hroot
      exact ⟨_, place_root_eq_ok_iff.2 ⟨kind, hk, rfl⟩⟩
    · obtain ⟨⟨p, hp, hc⟩, hprev⟩ := hs.visited_before root before after node hwalk hroot
      have hpw : p ∈ forest.walk root := hwalk ▸ List.mem_append_left _ hp
      obtain ⟨outer, hout⟩ := Option.isSome_iff_exists.1 ((hl.isSome_iff p).2 hp)
      obtain ⟨start, hstart⟩ := hl.exists_anchor hs hpw hout hc hprev
      obtain ⟨index, hfind⟩ := hw.exists_found hl hpw hout hc hstart
      rw [place_child hroot]
      exact ⟨_, (locate_eq_ok_iff (hs.parent_eq_iff.2 hc)).2
        ⟨kind, outer, start, index, hk, hout, hstart, hfind, rfl⟩⟩
  exact ⟨_, bind_eq_ok_iff.2 ⟨range, hplace, rfl⟩, hl.insert (hs.not_mem_before hwalk) hplace⟩

/-- Offsets can be added up over a tree that was written. -/
theorem exists_live (hs : forest.Sound) (hf : writer.Faithful forest)
    (h : writer.renderRecorded forest root ∅ = (.ok text, relative)) :
    ∃ live, absolute forest root relative = .ok live ∧
      Summed forest root relative (forest.walk root) live :=
  exists_absolute hs fun _ hp _ hc _ => hf.isSome_relative_parent hs h hp hc

/-- **A tree that can be written can be mapped, in both ways.** Writing in a style, searching in the
texts and recording either fail with one error, or all succeed, the search whatever terminator it
takes. -/
theorem views_succeed_together (hb : forest.Built) (root : Handle) (options : Options) :
    (∃ error,
      (∀ style, (Writer.standard options).highlight forest style root = .error error) ∧
      (Writer.standard options).fragments forest root = .error error ∧
      (Writer.standard options).renderRecorded forest root ∅ = (.error error, ∅)) ∨
    ((∀ style, ∃ styled, (Writer.standard options).highlight forest style root = .ok styled) ∧
      (∃ fragments, (Writer.standard options).fragments forest root = .ok fragments ∧
        ∀ terminator, ∃ ranges, reconstruct terminator forest root fragments = .ok ranges) ∧
      ∃ text relative live,
        (Writer.standard options).renderRecorded forest root ∅ = (.ok text, relative) ∧
        absolute forest root relative = .ok live) := by
  have hs := hb.sound
  have hf := Writer.standard_faithful hs options
  cases hr : (Writer.standard options).render forest root with
  | error error =>
    exact Or.inl ⟨error, fun style => Writer.highlight_eq_error style hr,
      Writer.fragments_eq_error hs hr, Writer.renderRecorded_eq_error hr ∅⟩
  | ok text =>
    refine Or.inr ⟨fun style => Writer.exists_highlight style hr, ?_, ?_⟩
    · obtain ⟨fragments, hfrag, hw⟩ := Written.of_fragments hs hf hr
      refine ⟨fragments, hfrag, fun terminator => ?_⟩
      obtain ⟨ranges, hranges, -⟩ := hw.exists_reconstruct terminator
      exact ⟨ranges, hranges⟩
    · obtain ⟨kind, hk⟩ := Writer.exists_kind_of_render hr
      have hrec := Writer.renderRecorded_eq hr hk ∅
      obtain ⟨live, hlive, -⟩ := exists_live hs hf hrec
      exact ⟨text, _, live, hrec, hlive⟩

/-- A function that returns nothing, with a block in it that old compilers do not know. -/
theorem views_succeed_together_function :
    ∃ (forest : Forest) (fragments : FragmentMap) (ranges relative live : RangeMap) (old : Options),
      Forest.ofNodes [.parameterList [], .parameterList [], .uncheckedBlock [], .block [2],
        .functionDefinition "f" .publicly .pure 0 1 (some 3)] = .ok forest ∧
      (∀ style, ∃ styled, (Writer.standard {}).highlight forest style 4 = .ok styled) ∧
      (Writer.standard {}).highlight forest .plain 4 =
        .ok "function f() public pure \x7b\n    unchecked \x7b\x7d\n\x7d" ∧
      (Writer.standard {}).fragments forest 4 = .ok fragments ∧
      fragments[2]? = some "unchecked \x7b\x7d" ∧ fragments[1]? = some "" ∧
      (∀ terminator, ∃ ranges, reconstruct terminator forest 4 fragments = .ok ranges) ∧
      reconstruct (some ';') forest 4 fragments = .ok ranges ∧
      ranges[2]? = some ⟨31, 12⟩ ∧ ranges[1]? = some ⟨0, 0⟩ ∧
      (Writer.standard {}).renderRecorded forest 4 ∅ =
        (.ok "function f() public pure \x7b\n    unchecked \x7b\x7d\n\x7d", relative) ∧
      relative[2]? = some ⟨6, 12⟩ ∧ relative[1]? = none ∧
      absolute forest 4 relative = .ok live ∧ live[2]? = some ⟨31, 12⟩ ∧
      old.target = { major := 0, minor := 7, patch := 6 } ∧
      ∃ error, error = .unavailable .uncheckedBlock old.target (forest.dump 2) ∧
        (∀ style, (Writer.standard old).highlight forest style 4 = .error error) ∧
        (Writer.standard old).fragments forest 4 = .error error ∧
        (Writer.standard old).renderRecorded forest 4 ∅ = (.error error, ∅) := by
  have hforest : Forest.ofNodes [.parameterList [], .parameterList [], .uncheckedBlock [],
      .block [2], .functionDefinition "f" .publicly .pure 0 1 (some 3)] =
        .ok ⟨#[⟨.parameterList [], some 4, []⟩, ⟨.parameterList [], some 4, []⟩,
          ⟨.uncheckedBlock [], some 3, []⟩, ⟨.block [2], some 4, [2]⟩,
          ⟨.functionDefinition "f" .publicly .pure 0 1 (some 3), none, [0, 1, 3]⟩]⟩ := rfl
  have hb := Forest.Built.ofNodes hforest
  rcases views_succeed_together hb 4 {} with ⟨error, -, hfail, -⟩ |
    ⟨hstyles, ⟨fragments, hfragments, hsearch⟩, text, relative, live, hrecorded, hlive⟩
  · cases hfail
  rcases views_succeed_together hb 4 { target := { major := 0, minor := 7, patch := 6 } } with
    ⟨error, hstyles', hfragments', hrecorded'⟩ | ⟨-, ⟨fragments', hok, -⟩, -⟩
  · obtain ⟨ranges, hranges⟩ := hsearch (some ';')
    cases hfragments
    cases hranges
    cases hrecorded
    cases hlive
    cases hfragments'
    exact ⟨_, _, _, _, _, _, hforest, hstyles, rfl, rfl, rfl, rfl, hsearch, rfl, rfl, rfl, rfl, rfl, rfl,
      rfl, rfl, rfl, _, rfl, hstyles', rfl, hrecorded'⟩
  · cases hok

end SolText.SourceMap
