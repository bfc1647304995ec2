import SolText.Proofs.Except
import SolText.Proofs.Forest.Order
import SolText.Proofs.Map
import SolText.Proofs.Text.Occurrence

/-!
# Where the search puts nodes

The search goes through a tree once, and ranges that it has found stay. So at its end every range is
where the search puts the node among all the others.

* `SourceMap.place_eq_ok_iff`: where a node is put, given its parent and its previous sibling.
* `SourceMap.Located`: the visited nodes have ranges, each where the search puts it.
* `SourceMap.Located.of_searched`: the ranges at every point of the search.
* `SourceMap.Located.of_reconstruct`: **the ranges of a whole tree.**
* `SourceMap.Located.occursAt`: every node has its text in that of the root, at its range.
* `SourceMap.reconstruct_positions`: **whatever the texts, ranges that are found fit them.**
-/

namespace SolText.SourceMap

open Text

variable {terminator : Option Char} {forest : Forest} {root node child parent handle : Nat}
  {fragments : FragmentMap} {computed computed' ranges : RangeMap} {range outer : Range}
  {start : Nat} {visited : List Nat} {kind : Kind}

/-! ### One node -/

theorem lengthOf_eq_ok_iff {length : Nat} :
    lengthOf terminator forest fragments handle = .ok length ↔
      ∃ kind, forest.kind handle = .ok kind ∧
        length = coveredLength kind (fragments.text handle) terminator := by
  unfold lengthOf
  cases forest.kind handle with
  | error e => simp
  | ok kind => simp [eq_comm]

/-- The search for a node starts at the start of its parent, or behind its previous sibling. -/
theorem anchor_eq_ok_iff {offset : Nat} :
    anchor forest computed handle parent offset = .ok start ↔
      (forest.previousSibling handle = none ∧ start = 0) ∨
        ∃ sibling previous, forest.previousSibling handle = some sibling ∧
          computed[sibling]? = some previous ∧ previous.stop = offset + start := by
  unfold anchor
  cases hsib : forest.previousSibling handle with
  | none => simp [eq_comm]
  | some sibling =>
    cases hprev : computed[sibling]? with
    | none => simp [hprev]
    | some previous =>
      by_cases hle : offset ≤ previous.stop
      · simp [hprev, hle]; omega
      · simp [hprev, hle]; omega

/-- Where a child is found, given its parent and its previous sibling. -/
theorem locate_eq_ok_iff (hp : forest.parent handle = some parent) :
    locate terminator forest fragments computed handle = .ok range ↔
      ∃ kind outer start index, forest.kind handle = .ok kind ∧ computed[parent]? = some outer ∧
        anchor forest computed handle parent outer.offset = .ok start ∧
        firstOccurrenceFrom start (fragments.text handle) (fragments.text parent) = some index ∧
        range = ⟨outer.offset + start + index,
          coveredLength kind (fragments.text handle) terminator⟩ := by
  unfold locate
  rw [bind_eq_ok_iff]
  constructor
  · rintro ⟨length, hlen, h⟩
    obtain ⟨kind, hk, rfl⟩ := lengthOf_eq_ok_iff.1 hlen
    simp only [hp] at h
    cases hout : computed[parent]? with
    | none => simp only [hout] at h; cases h
    | some outer =>
      simp only [hout] at h
      obtain ⟨start, hstart, h⟩ := bind_eq_ok_iff.1 h
      cases hfind : firstOccurrenceFrom start (fragments.text handle) (fragments.text parent) with
      | none => simp only [hfind] at h; cases h
      | some index =>
        simp only [hfind] at h
        cases h
        exact ⟨kind, outer, start, index, hk, rfl, hstart, hfind, rfl⟩
  · rintro ⟨kind, outer, start, index, hk, hout, hstart, hfind, rfl⟩
    refine ⟨_, lengthOf_eq_ok_iff.2 ⟨kind, hk, rfl⟩, ?_⟩
    rw [hp]
    simp only [hout, hstart, bind, Except.bind, hfind]
    rfl

theorem place_root_eq_ok_iff :
    place terminator forest root fragments computed root = .ok range ↔
      ∃ kind, forest.kind root = .ok kind ∧
        range = ⟨0, coveredLength kind (fragments.text root) terminator⟩ := by
  unfold place
  rw [if_pos rfl, map_eq_ok_iff]
  constructor
  · rintro ⟨length, hlen, rfl⟩
    obtain ⟨kind, hk, rfl⟩ := lengthOf_eq_ok_iff.1 hlen
    exact ⟨kind, hk, rfl⟩
  · rintro ⟨kind, hk, rfl⟩
    exact ⟨_, lengthOf_eq_ok_iff.2 ⟨kind, hk, rfl⟩, rfl⟩

theorem place_child (h : handle ≠ root) :
    place terminator forest root fragments computed handle =
      locate terminator forest fragments computed handle :=
  if_neg h

/-! ### Ranges that stay -/

theorem anchor_mono (hext : Map.Within computed computed') {offset : Nat}
    (h : anchor forest computed handle parent offset = .ok start) :
    anchor forest computed' handle parent offset = .ok start := by
  rw [anchor_eq_ok_iff] at h ⊢
  rcases h with hfirst | ⟨sibling, previous, hsib, hprev, hstop⟩
  · exact Or.inl hfirst
  · exact Or.inr ⟨sibling, previous, hsib, hext _ _ hprev, hstop⟩

/-- Further ranges do not change where a node is put. -/
theorem place_mono (hext : Map.Within computed computed')
    (h : place terminator forest root fragments computed handle = .ok range) :
    place terminator forest root fragments computed' handle = .ok range := by
  by_cases hroot : handle = root
  · subst hroot
    rw [place_root_eq_ok_iff] at h ⊢
    exact h
  · rw [place_child hroot] at h ⊢
    cases hp : forest.parent handle with
    | none =>
      unfold locate at h ⊢
      simp only [hp] at h ⊢
      exact h
    | some parent =>
      obtain ⟨kind, outer, start, index, hk, hout, hstart, hfind, hrange⟩ := (locate_eq_ok_iff hp).1 h
      exact (locate_eq_ok_iff hp).2
        ⟨kind, outer, start, index, hk, hext _ _ hout, anchor_mono hext hstart, hfind, hrange⟩

/-- The visited nodes have ranges, each where the search puts it. -/
structure Located (terminator : Option Char) (forest : Forest) (root : Handle)
    (fragments : FragmentMap) (visited : List Nat) (computed : RangeMap) : Prop where
  isSome_iff : ∀ node : Nat, (computed[node]?).isSome ↔ node ∈ visited
  place_eq : ∀ (node : Nat) (range : Range), computed[node]? = some range →
    place terminator forest root fragments computed node = .ok range

theorem Located.nil : Located terminator forest root fragments [] ∅ := by
  constructor
  · intro node
    rw [Std.TreeMap.getElem?_emptyc]; simp
  · intro node range h
    rw [Std.TreeMap.getElem?_emptyc] at h; cases h

/-- One step of the search. -/
theorem Located.insert (hl : Located terminator forest root fragments visited computed)
    (hnew : node ∉ visited)
    (hplace : place terminator forest root fragments computed node = .ok range) :
    Located terminator forest root fragments (visited ++ [node]) (computed.insert node range) := by
  have hnone : computed[node]? = none := by
    rw [← Option.not_isSome_iff_eq_none, hl.isSome_iff]
    exact hnew
  have hext : Map.Within computed (computed.insert node range) := Map.within_insert hnone
  constructor
  · intro key
    rw [Map.getElem?_insert, List.mem_append, List.mem_singleton, ← hl.isSome_iff]
    by_cases he : key = node <;> simp [he]
  · intro key value h
    rw [Map.getElem?_insert] at h
    by_cases he : key = node
    · rw [if_pos he] at h
      cases h
      rw [he]
      exact place_mono hext hplace
    · rw [if_neg he] at h
      exact place_mono hext (hl.place_eq key value h)

/-- The search as far as the given nodes, the first of a walk. -/
def searched (terminator : Option Char) (forest : Forest) (root : Handle) (fragments : FragmentMap)
    (visited : List Handle) : Except PlacementError RangeMap :=
  visited.foldlM
    (fun computed handle => do
      return computed.insert handle (← place terminator forest root fragments computed handle))
    ∅

/-- At every point of the search the nodes that were visited are where it puts them. -/
theorem Located.of_searched (hs : forest.Sound) {rest : List Nat}
    (hwalk : forest.walk root = visited ++ rest)
    (h : searched terminator forest root fragments visited = .ok computed) :
    Located terminator forest root fragments visited computed := by
  refine foldlM_invariant (Located terminator forest root fragments) .nil ?_ h
  intro before node after computed next hvisited hl hstep
  obtain ⟨range, hplace, hnext⟩ := bind_eq_ok_iff.1 hstep
  cases hnext
  rw [hvisited, List.append_assoc, List.cons_append] at hwalk
  exact hl.insert (hs.not_mem_before hwalk) hplace

/-- **The ranges of a whole tree** are where the search puts the nodes among all the others. -/
theorem Located.of_reconstruct (hs : forest.Sound)
    (h : reconstruct terminator forest root fragments = .ok ranges) :
    Located terminator forest root fragments (forest.walk root) ranges :=
  Located.of_searched hs (List.append_nil _).symm h

/-! ### Ranges and texts -/

theorem Located.root_eq (hl : Located terminator forest root fragments visited computed)
    (h : computed[root]? = some range) : ∃ kind, forest.kind root = .ok kind ∧
      range = ⟨0, coveredLength kind (fragments.text root) terminator⟩ :=
  place_root_eq_ok_iff.1 (hl.place_eq root range h)

/-- A child that has a range was found in its parent. -/
theorem Located.child_eq (hs : forest.Sound)
    (hl : Located terminator forest root fragments visited computed)
    (hc : child ∈ forest.children parent) (hne : child ≠ root) (h : computed[child]? = some range) :
    ∃ kind outer start index, forest.kind child = .ok kind ∧ computed[parent]? = some outer ∧
      anchor forest computed child parent outer.offset = .ok start ∧
      firstOccurrenceFrom start (fragments.text child) (fragments.text parent) = some index ∧
      range = ⟨outer.offset + start + index, coveredLength kind (fragments.text child) terminator⟩ := by
  have hplace := hl.place_eq child range h
  rw [place_child hne] at hplace
  exact (locate_eq_ok_iff (hs.parent_eq_iff.2 hc)).1 hplace

/-- The search for a first child starts with its parent. -/
theorem anchor_first (hs : forest.Sound) {younger : List Nat} {offset : Nat}
    (hch : forest.children parent = child :: younger)
    (hstart : anchor forest computed child parent offset = .ok start) : start = 0 := by
  have hprev : forest.previousSibling child = none :=
    hs.previousSibling_eq (show forest.children parent = [] ++ child :: younger from hch)
  rcases anchor_eq_ok_iff.1 hstart with ⟨-, h⟩ | ⟨sibling, -, hsome, -⟩
  · exact h
  · rw [hprev] at hsome; cases hsome

/-- The search for a further child starts where the range of the sibling before it stops. -/
theorem anchor_behind (hs : forest.Sound) {elder younger : List Nat} {sibling offset : Nat}
    (hch : forest.children parent = elder ++ sibling :: child :: younger)
    (hstart : anchor forest computed child parent offset = .ok start) :
    ∃ previous, computed[sibling]? = some previous ∧ previous.stop = offset + start := by
  have hprev := hs.previousSibling_next hch
  rcases anchor_eq_ok_iff.1 hstart with ⟨hnone, -⟩ | ⟨s, previous, hsome, hprevious, hstop⟩
  · rw [hprev] at hnone; cases hnone
  · cases hprev.symm.trans hsome
    exact ⟨previous, hprevious, hstop⟩

/-- The search for a further child starts where the one for its elder sibling ended, behind what the
sibling covers. -/
theorem Located.anchor_next (hs : forest.Sound)
    (hl : Located terminator forest root fragments visited computed)
    (hp : parent ∈ forest.walk root) (hout : computed[parent]? = some outer)
    {elder younger : List Nat} {sibling : Nat}
    (hch : forest.children parent = elder ++ sibling :: child :: younger)
    (hstart : anchor forest computed child parent outer.offset = .ok start) :
    ∃ kind start' index, forest.kind sibling = .ok kind ∧
      anchor forest computed sibling parent outer.offset = .ok start' ∧
      firstOccurrenceFrom start' (fragments.text sibling) (fragments.text parent) = some index ∧
      start = start' + index + coveredLength kind (fragments.text sibling) terminator := by
  have hmem : sibling ∈ forest.children parent := hch ▸ List.mem_append_right _ List.mem_cons_self
  obtain ⟨previous, hprevious, hstop⟩ := anchor_behind hs hch hstart
  obtain ⟨kind, outer', start', index, hk, hout', hstart', hfind, rfl⟩ :=
    hl.child_eq hs hmem (hs.ne_root hp hmem) hprevious
  cases hout.symm.trans hout'
  refine ⟨kind, start', index, hk, hstart', hfind, ?_⟩
  unfold Range.stop at hstop
  simp only at hstop
  omega

/-- The search knows where to start once the parent and the elder siblings have ranges. -/
theorem Located.exists_anchor (hs : forest.Sound)
    (hl : Located terminator forest root fragments visited computed)
    (hp : parent ∈ forest.walk root) (hout : computed[parent]? = some outer)
    (hc : child ∈ forest.children parent)
    (hprev : ∀ sibling, forest.previousSibling child = some sibling → sibling ∈ visited) :
    ∃ start, anchor forest computed child parent outer.offset = .ok start := by
  cases hsib : forest.previousSibling child with
  | none => exact ⟨0, anchor_eq_ok_iff.2 (Or.inl ⟨hsib, rfl⟩)⟩
  | some s =>
    obtain ⟨previous, hprevious⟩ := Option.isSome_iff_exists.1 ((hl.isSome_iff s).2 (hprev s hsib))
    -- the sibling has the same parent, so it begins at or after the parent's start
    have hsc := hs.previousSibling_mem hc hsib
    obtain ⟨kind, outer', start', index, -, hout', -, -, hrange⟩ :=
      hl.child_eq hs hsc (hs.ne_root hp hsc) hprevious
    cases hout.symm.trans hout'
    have hle : outer.offset ≤ previous.stop := by
      rw [hrange]
      show outer.offset ≤ outer.offset + start' + index + _
      omega
    exact ⟨previous.stop - outer.offset,
      anchor_eq_ok_iff.2 (Or.inr ⟨s, previous, hsib, hprevious, by omega⟩)⟩

/-- **Every node has its text in that of the root**, where its range says. -/
theorem Located.occursAt (hs : forest.Sound)
    (hl : Located terminator forest root fragments (forest.walk root) ranges) :
    ∀ node ∈ forest.walk root, ∃ kind range, forest.kind node = .ok kind ∧
      ranges[node]? = some range ∧
      range.length = coveredLength kind (fragments.text node) terminator ∧
      OccursAt (fragments.text node) (fragments.text root) range.offset := by
  have hsome : ∀ node ∈ forest.walk root, ∃ range, ranges[node]? = some range := fun node hn =>
    Option.isSome_iff_exists.1 ((hl.isSome_iff node).2 hn)
  refine hs.walk_induction ?_ ?_
  · obtain ⟨range, hrange⟩ := hsome root (hs.root_mem_walk root)
    obtain ⟨kind, hk, rfl⟩ := hl.root_eq hrange
    exact ⟨kind, _, hk, hrange, rfl, OccursAt.self _⟩
  · rintro p hp ⟨-, outer, -, houter, -, hocc⟩ c hc
    obtain ⟨range, hrange⟩ := hsome c (hs.child_mem_walk root p hp c hc)
    obtain ⟨kind, outer', start, index, hk, houter', -, hfind, rfl⟩ :=
      hl.child_eq hs hc (hs.ne_root hp hc) hrange
    cases houter.symm.trans houter'
    refine ⟨kind, _, hk, hrange, rfl, ?_⟩
    rw [Nat.add_assoc]
    exact (firstOccurrenceFrom_eq_some_iff.1 hfind).2.1.trans hocc

/-- A range that fits a node's text and the text around it. -/
structure Fits (terminator : Option Char) (kind : Kind) (fragment text : String) (range : Range) :
    Prop where
  /-- The length is that of the text, without the terminator of a statement. -/
  length_eq : range.length = coveredLength kind fragment terminator
  /-- Both ends lie between characters. -/
  isValid_offset : (⟨range.offset⟩ : String.Pos.Raw).IsValid text
  isValid_stop : (⟨range.stop⟩ : String.Pos.Raw).IsValid text
  /-- The bytes from the start of the range on are those of the node's text. -/
  add_size_le : range.offset + fragment.utf8ByteSize ≤ text.utf8ByteSize
  extract_eq : text.toByteArray.extract range.offset (range.offset + fragment.utf8ByteSize) =
    fragment.toByteArray
  /-- The bytes of the range are those of the node's text without what was cut off. -/
  extract_covered : ∃ covered : String,
    (fragment = covered ∨ ∃ c, terminator = some c ∧ fragment = covered ++ String.singleton c) ∧
    text.toByteArray.extract range.offset range.stop = covered.toByteArray

/-- A range at which a text stands fits it. -/
theorem Fits.of_occursAt {fragment text : String}
    (hlen : range.length = coveredLength kind fragment terminator)
    (h : OccursAt fragment text range.offset) : Fits terminator kind fragment text range := by
  refine ⟨hlen, h.isValid, ?_, h.add_size_le, h.extract_eq, ?_⟩
  · have hstop := h.isValid_covered kind terminator
    rw [← hlen] at hstop
    exact hstop
  · unfold Range.stop
    rw [hlen]
    rcases coveredLength_cases kind fragment terminator with hall | ⟨covered, c, ht, htext, hcut⟩
    · rw [hall]
      exact ⟨fragment, Or.inl rfl, h.extract_eq⟩
    · rw [hcut]
      exact ⟨covered, Or.inr ⟨c, ht, htext⟩, (htext ▸ h).left.extract_eq⟩

/-- **Whatever the texts, ranges that are found fit them**: every node of the tree has one and no
other node has, and each fits the node's text and that of the root. -/
theorem reconstruct_positions (hb : forest.Built)
    (h : reconstruct terminator forest root fragments = .ok ranges) :
    (∀ node : Handle, node ∈ ranges ↔ node ∈ forest.walk root) ∧
      ∀ node ∈ forest.walk root, ∃ kind range, forest.kind node = .ok kind ∧
        ranges[node]? = some range ∧
        Fits terminator kind (fragments.text node) (fragments.text root) range := by
  have hl := Located.of_reconstruct hb.sound h
  refine ⟨fun node => ?_, fun node hn => ?_⟩
  · rw [← Std.TreeMap.isSome_getElem?_iff_mem]
    exact hl.isSome_iff node
  · obtain ⟨kind, range, hk, hrange, hlen, hocc⟩ := hl.occursAt hb.sound node hn
    exact ⟨kind, range, hk, hrange, .of_occursAt hlen hocc⟩

/-- Texts that no rule writes, and a node without one. -/
theorem reconstruct_positions_foreign :
    ∃ forest ranges,
      Forest.ofNodes [.identifier "x", .identifier "y", .binaryOperation "+" 0 1,
        .expressionStatement 2] = .ok forest ∧
      reconstruct (some ';') forest 3 (.ofList [(0, "ü"), (2, "ü+ü"), (3, "é: ü+ü;")]) = .ok ranges ∧
      (∀ node : Handle, node ∈ ranges ↔ node ∈ [3, 2, 0, 1]) ∧
      Fits (some ';') .expressionStatement "é: ü+ü;" "é: ü+ü;" ⟨0, 9⟩ ∧
      Fits (some ';') .identifier "ü" "é: ü+ü;" ⟨4, 2⟩ ∧
      Fits (some ';') .identifier "" "é: ü+ü;" ⟨6, 0⟩ := by
  have hforest : Forest.ofNodes [.identifier "x", .identifier "y", .binaryOperation "+" 0 1,
      .expressionStatement 2] = .ok ⟨#[⟨.identifier "x", some 2, []⟩, ⟨.identifier "y", some 2, []⟩,
        ⟨.binaryOperation "+" 0 1, some 3, [0, 1]⟩, ⟨.expressionStatement 2, none, [2]⟩]⟩ := rfl
  refine ⟨_, ((((∅ : RangeMap).insert 3 ⟨0, 9⟩).insert 2 ⟨4, 5⟩).insert 0 ⟨4, 2⟩).insert 1 ⟨6, 0⟩,
    hforest, rfl, ?_⟩
  obtain ⟨hkeys, hall⟩ := @reconstruct_positions (some ';') _ 3
    (.ofList [(0, "ü"), (2, "ü+ü"), (3, "é: ü+ü;")]) _ (Forest.Built.ofNodes hforest) rfl
  refine ⟨hkeys, ?_, ?_, ?_⟩
  · obtain ⟨kind, range, hk, hrange, hfits⟩ := hall 3 (by decide)
    cases hk; cases hrange
    exact hfits
  · obtain ⟨kind, range, hk, hrange, hfits⟩ := hall 0 (by decide)
    cases hk; cases hrange
    exact hfits
  · obtain ⟨kind, range, hk, hrange, hfits⟩ := hall 1 (by decide)
    cases hk; cases hrange
    exact hfits

end SolText.SourceMap
