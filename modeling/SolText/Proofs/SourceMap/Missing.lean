import SolText.Proofs.SourceMap.Local

/-!
# Missing texts

Texts may be taken out of a map whose search succeeds, if with a node everything beneath it is taken
out. A node without a text is found at once, where the search for it starts. So the search for each
sibling behind it starts no later than before, and a text that is still there is found no later.

* `FragmentMap.without`: the texts that are left.
* `SourceMap.FoundAt.exists_earlier`: a search that starts earlier finds its text no later.
* `SourceMap.SearchStart.exists_without`: **no search starts later than before.**
* `SourceMap.FoundIn.offset_le`: no child lies further behind in its parent.
* `SourceMap.reconstruct_without`: **missing texts never spoil the rest.**
-/

namespace SolText

/-- The texts that are left when those of some nodes are taken out. -/
def FragmentMap.without (fragments : FragmentMap) (dropped : List Handle) : FragmentMap :=
  dropped.foldl (fun left handle => left.erase handle) fragments

namespace FragmentMap

variable {fragments : FragmentMap} {dropped : List Handle} {node : Handle}

theorem getElem?_without :
    (fragments.without dropped)[node]? = if node ∈ dropped then none else fragments[node]? := by
  induction dropped generalizing fragments with
  | nil => simp [without]
  | cons handle dropped ih =>
    show (FragmentMap.without (fragments.erase handle) dropped)[node]? = _
    rw [ih, Map.getElem?_erase]
    by_cases hd : node ∈ dropped
    · simp [hd]
    · simp [hd, List.mem_cons]

theorem text_without_of_mem (h : node ∈ dropped) : (fragments.without dropped).text node = "" := by
  unfold text
  rw [getElem?_without, if_pos h]
  rfl

theorem text_without_of_not_mem (h : node ∉ dropped) :
    (fragments.without dropped).text node = fragments.text node := by
  unfold text
  rw [getElem?_without, if_neg h]

end FragmentMap

namespace SourceMap

open Text FragmentMap

/-- Nodes of which everything beneath them is one too. -/
def ClosedBelow (forest : Forest) (dropped : List Handle) : Prop :=
  ∀ parent ∈ dropped, ∀ child ∈ forest.children parent, child ∈ dropped

/-- A node begins where its previous sibling ends, or with its parent if it is a first child. -/
inductive Follows (forest : Forest) (ranges : RangeMap) (node : Handle) (offset : Nat) : Prop where
  | first {parent : Handle} {outer : Range} : forest.previousSibling node = none →
      forest.parent node = some parent → ranges[parent]? = some outer → offset = outer.offset →
      Follows forest ranges node offset
  | behind {sibling : Handle} {previous : Range} : forest.previousSibling node = some sibling →
      ranges[sibling]? = some previous → offset = previous.stop → Follows forest ranges node offset

variable {terminator : Option Char} {forest : Forest} {root node child parent : Nat}
  {fragments : FragmentMap} {dropped : List Nat} {ranges ranges' : RangeMap} {range inner inner' : Range}
  {start start' found : Nat} {kind : Kind}

/-! ### One search -/

/-- The empty text is found where the search starts. -/
theorem foundAt_empty {text : String} (h : (⟨start⟩ : String.Pos.Raw).IsValid text) :
    FoundAt "" text start start :=
  ⟨Nat.le_refl start, occursAt_empty_iff.2 h, fun _ hle _ => hle⟩

/-- A search that starts earlier finds its text no later. -/
theorem FoundAt.exists_earlier {fragment text : String} (h : FoundAt fragment text start found)
    (hvalid : (⟨start'⟩ : String.Pos.Raw).IsValid text) (hle : start' ≤ start) :
    ∃ found', FoundAt fragment text start' found' ∧ found' ≤ found := by
  obtain ⟨index, hfind, hindex⟩ :=
    exists_firstOccurrenceFrom hvalid h.occursAt (Nat.le_trans hle h.start_le)
  exact ⟨start' + index, .of_firstOccurrenceFrom hfind, hindex⟩

theorem coveredLength_without_le (kind : Kind) (node : Handle) :
    coveredLength kind ((fragments.without dropped).text node) terminator ≤
      coveredLength kind (fragments.text node) terminator := by
  by_cases h : node ∈ dropped
  · rw [text_without_of_mem h, coveredLength_empty]
    exact Nat.zero_le _
  · exact Nat.le_of_eq (by rw [text_without_of_not_mem h])

section
variable (hclosed : ClosedBelow forest dropped)
include hclosed

/-- A child that is searched for from no later on is found no later, be its text there or not. -/
theorem FoundAt.exists_without (hc : child ∈ forest.children parent)
    (h : FoundAt (fragments.text child) (fragments.text parent) start found)
    (hvalid : (⟨start'⟩ : String.Pos.Raw).IsValid ((fragments.without dropped).text parent))
    (hle : start' ≤ start) :
    ∃ found', FoundAt ((fragments.without dropped).text child) ((fragments.without dropped).text parent)
      start' found' ∧ found' ≤ found := by
  by_cases hmem : child ∈ dropped
  · rw [text_without_of_mem hmem]
    exact ⟨start', foundAt_empty hvalid, Nat.le_trans hle h.start_le⟩
  · -- the text of the parent is there as well, since the child would be dropped with it
    have hparent : parent ∉ dropped := fun hp => hmem (hclosed parent hp child hc)
    rw [text_without_of_not_mem hparent] at hvalid ⊢
    rw [text_without_of_not_mem hmem]
    exact h.exists_earlier hvalid hle

/-- **No search starts later than before.** -/
theorem SearchStart.exists_without (hs : forest.Sound)
    (h : SearchStart terminator forest fragments parent child start)
    (hc : child ∈ forest.children parent) :
    ∃ start', SearchStart terminator forest (fragments.without dropped) parent child start' ∧
      start' ≤ start := by
  -- along the elder siblings: each is found no later, and covers no more than before
  induction h with
  | first hnone => exact ⟨0, .first hnone, Nat.le_refl 0⟩
  | @behind child sibling start found kind hsome _ hfound hkind ih =>
    have hsibling := hs.previousSibling_mem hc hsome
    obtain ⟨start', hstart', hle⟩ := ih hsibling
    obtain ⟨found', hfound', hle'⟩ := hfound.exists_without hclosed hsibling hstart'.isValid hle
    refine ⟨_, .behind hsome hstart' hfound' hkind, ?_⟩
    exact Nat.add_le_add hle' (coveredLength_without_le kind sibling)

/-- A child that is found in its parent is found there no later. -/
theorem FoundIn.exists_without (hs : forest.Sound) (hc : child ∈ forest.children parent)
    (h : FoundIn terminator forest fragments parent child inner) :
    ∃ inner', FoundIn terminator forest (fragments.without dropped) parent child inner' ∧
      inner'.offset ≤ inner.offset := by
  obtain ⟨⟨start, hstart, hfound⟩, ⟨kind, hk, -⟩⟩ := h
  obtain ⟨start', hstart', hle⟩ := hstart.exists_without hclosed hs hc
  obtain ⟨found', hfound', hle'⟩ := hfound.exists_without hclosed hc hstart'.isValid hle
  exact ⟨⟨found', _⟩, ⟨⟨start', hstart', hfound'⟩, ⟨kind, hk, rfl⟩⟩, hle'⟩

/-- No child lies further behind in its parent. -/
theorem FoundIn.offset_le (hs : forest.Sound) (hc : child ∈ forest.children parent)
    (h : FoundIn terminator forest fragments parent child inner)
    (h' : FoundIn terminator forest (fragments.without dropped) parent child inner') :
    inner'.offset ≤ inner.offset := by
  obtain ⟨inner'', h'', hle⟩ := h.exists_without hclosed hs hc
  rwa [h'.unique h'']

/-! ### The whole search -/

/-- The search succeeds without the texts of nodes that are dropped with all beneath them. -/
theorem exists_reconstruct_without (hs : forest.Sound) (hroot : root < forest.size)
    (h : reconstruct terminator forest root fragments = .ok ranges) :
    ∃ ranges', reconstruct terminator forest root (fragments.without dropped) = .ok ranges' := by
  have hl := Located.of_reconstruct hs h
  refine (exists_reconstruct_iff hs hroot).2 fun node hnode hne parent start hlost => ?_
  obtain ⟨p, hp, hc⟩ := hs.exists_parent hnode hne
  cases (hs.parent_eq_iff.2 hc).symm.trans hlost.parent_eq
  -- the node was found, so it is found now from where the search starts
  obtain ⟨range, hrange⟩ := Option.isSome_iff_exists.1 ((hl.isSome_iff node).2 hnode)
  obtain ⟨outer, inner, -, hfound, -⟩ := hl.composed hs parent hp node hc range hrange
  obtain ⟨inner', ⟨⟨start', hstart', hfound'⟩, -⟩, -⟩ := hfound.exists_without hclosed hs hc
  cases hlost.searchStart.unique hstart'
  exact hlost.absent _ hfound'.start_le hfound'.occursAt

/-- No node lies further behind. -/
theorem Located.offset_le (hs : forest.Sound)
    (hl : Located terminator forest root fragments (forest.walk root) ranges)
    (hl' : Located terminator forest root (fragments.without dropped) (forest.walk root) ranges') :
    ∀ node ∈ forest.walk root, ∀ before after : Range, ranges[node]? = some before →
      ranges'[node]? = some after → after.offset ≤ before.offset := by
  refine hs.walk_induction ?_ ?_
  · intro before after hbefore hafter
    obtain ⟨kind, -, rfl⟩ := hl.root_eq hbefore
    obtain ⟨kind', -, rfl⟩ := hl'.root_eq hafter
    exact Nat.le_refl 0
  · intro parent hp ih child hc before after hbefore hafter
    obtain ⟨outer, inner, houter, hin, rfl⟩ := hl.composed hs parent hp child hc before hbefore
    obtain ⟨outer', inner', houter', hin', rfl⟩ := hl'.composed hs parent hp child hc after hafter
    exact Nat.add_le_add (ih outer outer' houter houter') (hin.offset_le hclosed hs hc hin')

end

/-- A node without a text begins where the search for it starts. -/
theorem Located.follows (hs : forest.Sound)
    (hl : Located terminator forest root fragments (forest.walk root) ranges)
    (hnode : node ∈ forest.walk root) (hne : node ≠ root) (htext : fragments.text node = "")
    (hrange : ranges[node]? = some range) : Follows forest ranges node range.offset := by
  obtain ⟨parent, hp, hc⟩ := hs.exists_parent hnode hne
  obtain ⟨kind, outer, start, index, -, hout, hstart, hfind, rfl⟩ := hl.child_eq hs hc hne hrange
  -- the empty text is found at the very start
  rw [htext] at hfind
  have hindex := eq_zero_of_firstOccurrenceFrom hfind
  subst hindex
  rcases anchor_eq_ok_iff.1 hstart with ⟨hnone, rfl⟩ | ⟨sibling, previous, hsome, hprevious, hstop⟩
  · exact .first hnone (hs.parent_eq_iff.2 hc) hout rfl
  · exact .behind hsome hprevious hstop.symm

/-- A search that succeeds has a root to begin with. -/
theorem lt_size_of_reconstruct (hs : forest.Sound)
    (h : reconstruct terminator forest root fragments = .ok ranges) : root < forest.size := by
  by_contra hsize
  rw [reconstruct_unknown hs (Nat.le_of_not_lt hsize)] at h
  cases h

/-- **Missing texts never spoil the rest.** Of a tree whose nodes are all found, take out the texts of
nodes with everything beneath them. The nodes are still found. Those that have lost their texts cover
nothing, and follow their previous siblings or begin with their parents; the others cover what they did;
and none has moved to the right. -/
theorem reconstruct_without (hb : forest.Built) (hclosed : ClosedBelow forest dropped)
    (h : reconstruct terminator forest root fragments = .ok ranges) :
    ∃ ranges', reconstruct terminator forest root (fragments.without dropped) = .ok ranges' ∧
      ∀ node ∈ forest.walk root, ∃ before after : Range,
        ranges[node]? = some before ∧ ranges'[node]? = some after ∧
        after.offset ≤ before.offset ∧
        (node ∉ dropped → after.length = before.length) ∧
        (node ∈ dropped → after.length = 0 ∧ (node = root → after.offset = 0) ∧
          (node ≠ root → Follows forest ranges' node after.offset)) := by
  have hs := hb.sound
  obtain ⟨ranges', h'⟩ := exists_reconstruct_without hclosed hs (lt_size_of_reconstruct hs h) h
  have hl := Located.of_reconstruct hs h
  have hl' := Located.of_reconstruct hs h'
  refine ⟨ranges', h', fun node hnode => ?_⟩
  obtain ⟨kind, before, hk, hbefore, hlength, -⟩ := hl.occursAt hs node hnode
  obtain ⟨kind', after, hk', hafter, hlength', -⟩ := hl'.occursAt hs node hnode
  cases hk.symm.trans hk'
  refine ⟨before, after, hbefore, hafter, ?_, ?_, ?_⟩
  · exact hl.offset_le hclosed hs hl' node hnode before after hbefore hafter
  · intro hmem
    rw [hlength', hlength, text_without_of_not_mem hmem]
  · intro hmem
    have htext : (fragments.without dropped).text node = "" := text_without_of_mem hmem
    refine ⟨?_, ?_, ?_⟩
    · rw [hlength', htext, coveredLength_empty]
    · rintro rfl
      obtain ⟨-, -, rfl⟩ := hl'.root_eq hafter
      rfl
    · intro hne
      exact hl'.follows hs hnode hne htext hafter

/-- Without the call between them, the second name is found where the argument of the call was. -/
theorem reconstruct_without_call :
    ∃ (forest : Forest) (ranges ranges' : RangeMap) (fragments : FragmentMap),
      Forest.ofNodes [.identifier "a", .identifier "g", .identifier "a", .functionCall 1 [2],
        .identifier "a", .tupleExpression [some 0, some 3, some 4] false] = .ok forest ∧
      fragments = .ofList [(0, "a"), (1, "g"), (2, "a"), (3, "g(a)"), (4, "a"), (5, "(a, g(a), a)")] ∧
      ClosedBelow forest [3, 1, 2] ∧
      reconstruct (some ';') forest 5 fragments = .ok ranges ∧ ranges[4]? = some ⟨10, 1⟩ ∧
      reconstruct (some ';') forest 5 (fragments.without [3, 1, 2]) = .ok ranges' ∧
      ranges'[4]? = some ⟨6, 1⟩ ∧ ranges'[3]? = some ⟨2, 0⟩ ∧ Follows forest ranges' 3 2 ∧
      Follows forest ranges' 2 2 := by
  have hforest : Forest.ofNodes [.identifier "a", .identifier "g", .identifier "a", .functionCall 1 [2],
      .identifier "a", .tupleExpression [some 0, some 3, some 4] false] =
      .ok ⟨#[⟨.identifier "a", some 5, []⟩, ⟨.identifier "g", some 3, []⟩,
        ⟨.identifier "a", some 3, []⟩, ⟨.functionCall 1 [2], some 5, [1, 2]⟩,
        ⟨.identifier "a", some 5, []⟩,
        ⟨.tupleExpression [some 0, some 3, some 4] false, none, [0, 3, 4]⟩]⟩ := rfl
  have hclosed : ClosedBelow ⟨#[⟨.identifier "a", some 5, []⟩, ⟨.identifier "g", some 3, []⟩,
    ⟨.identifier "a", some 3, []⟩, ⟨.functionCall 1 [2], some 5, [1, 2]⟩,
    ⟨.identifier "a", some 5, []⟩,
    ⟨.tupleExpression [some 0, some 3, some 4] false, none, [0, 3, 4]⟩]⟩ [3, 1, 2] := by
    unfold ClosedBelow
    decide
  obtain ⟨ranges', h', hall⟩ := @reconstruct_without (some ';') _ 5
    (.ofList [(0, "a"), (1, "g"), (2, "a"), (3, "g(a)"), (4, "a"), (5, "(a, g(a), a)")]) [3, 1, 2] _
    (Forest.Built.ofNodes hforest) hclosed rfl
  have hranges : ranges' = (((((((∅ : RangeMap).insert 5 ⟨0, 12⟩).insert 0 ⟨1, 1⟩).insert 3
      ⟨2, 0⟩).insert 1 ⟨2, 0⟩).insert 2 ⟨2, 0⟩).insert 4 ⟨6, 1⟩) := Except.ok.inj (h'.symm.trans rfl)
  subst hranges
  obtain ⟨_, after, -, hafter, -, -, hcall⟩ := hall 3 (by decide)
  cases hafter
  obtain ⟨_, after, -, hafter, -, -, hargument⟩ := hall 2 (by decide)
  cases hafter
  exact ⟨_, _, _, _, hforest, rfl, hclosed, rfl, rfl, h', rfl, rfl,
    (hcall (by decide)).2.2 (by decide), (hargument (by decide)).2.2 (by decide)⟩

end SourceMap

end SolText
