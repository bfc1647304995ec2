import SolText.Proofs.Forest.Ancestry
import SolText.Proofs.SourceMap.Failure
import SolText.Proofs.SourceMap.Recorded

/-!
# The map of a part of a tree

Where a child lies in its parent does not depend on where the map begins: the search tells it by the
texts of the two, the record by the pieces of the parent. So the map of what is beneath a node is a map
of its own, moved by the offset of the node.

* `SourceMap.FoundIn`: where the search finds a child in its parent, told by the texts alone.
* `SourceMap.Composed`: ranges that are put together from those of children in their parents.
* `SourceMap.Composed.eq_moved`: **two such maps differ by the offset of the node where one begins.**
* `SourceMap.Located.composed`, `SourceMap.Tracked.composed`: both ways of mapping give such maps.
* `SourceMap.mapping_local`: **what is beneath a node is mapped as if the node were the root**, both by
  searching and by recording.
-/

namespace SolText

/-- A range that begins further on. -/
def Range.moved (distance : Nat) (range : Range) : Range := ⟨distance + range.offset, range.length⟩

namespace SourceMap

open Text

/-- Where the search finds a child in the text of its parent, and what the child covers there. -/
structure FoundIn (terminator : Option Char) (forest : Forest) (fragments : FragmentMap)
    (parent child : Handle) (range : Range) : Prop where
  found : ∃ start, SearchStart terminator forest fragments parent child start ∧
    FoundAt (fragments.text child) (fragments.text parent) start range.offset
  covered : ∃ kind, forest.kind child = .ok kind ∧
    range.length = coveredLength kind (fragments.text child) terminator

/-- Ranges that are put together on the way down: a child lies in its parent as `within` says, and its
offset is added to that of the parent. -/
def Composed (forest : Forest) (root : Handle) (within : Handle → Handle → Range → Prop)
    (ranges : RangeMap) : Prop :=
  ∀ parent ∈ forest.walk root, ∀ child ∈ forest.children parent, ∀ range : Range,
    ranges[child]? = some range → ∃ outer inner, ranges[parent]? = some outer ∧
      within parent child inner ∧ range = inner.moved outer.offset

/-- The ranges beneath `top` are those of a map that begins there, moved by a distance. -/
structure MovedBeneath (forest : Forest) (top : Handle) (distance : Nat) (own ranges : RangeMap) :
    Prop where
  mem_walk : ∀ node : Handle, node ∈ own → node ∈ forest.walk top
  eq_moved : ∀ node ∈ forest.walk top, ranges[node]? = (own[node]?).map (Range.moved distance)

variable {writer : Writer} {terminator : Option Char} {forest : Forest} {root top node : Nat}
  {fragments : FragmentMap} {ranges own relative live relative' live' : RangeMap} {range base : Range}
  {visited : List Nat} {text text' : String} {within : Handle → Handle → Range → Prop}

/-! ### Maps that are put together -/

/-- **Two maps that are put together in the same way differ by the offset of the node where one
begins.** -/
theorem Composed.eq_moved (hs : forest.Sound)
    (hunique : ∀ parent child a b, within parent child a → within parent child b → a = b)
    (h : Composed forest root within ranges) (h' : Composed forest top within own)
    (htop : top ∈ forest.walk root) (hbase : ranges[top]? = some base)
    (hown : own[top]? = some ⟨0, base.length⟩) :
    ∀ node ∈ forest.walk top, ∀ a b : Range, ranges[node]? = some a → own[node]? = some b →
      a = b.moved base.offset := by
  refine hs.walk_induction ?_ ?_
  · intro a b ha hb
    rw [hbase] at ha
    rw [hown] at hb
    cases ha
    cases hb
    rfl
  · intro parent hp ih child hc a b ha hb
    obtain ⟨outer, inner, houter, hin, rfl⟩ := h parent (hs.mem_walk_trans htop hp) child hc a ha
    obtain ⟨outer', inner', houter', hin', rfl⟩ := h' parent hp child hc b hb
    have hinner := hunique parent child inner inner' hin hin'
    have hparent := ih outer outer' houter houter'
    subst hinner
    subst hparent
    unfold Range.moved
    rw [Nat.add_assoc]

/-- Two maps that have ranges for the same nodes beneath a node differ by its offset. -/
theorem Composed.movedBeneath (hs : forest.Sound)
    (hunique : ∀ parent child a b, within parent child a → within parent child b → a = b)
    (h : Composed forest root within ranges) (h' : Composed forest top within own)
    (htop : top ∈ forest.walk root) (hbase : ranges[top]? = some base)
    (hown : own[top]? = some ⟨0, base.length⟩)
    (hmem : ∀ node : Handle, node ∈ own ↔ node ∈ forest.walk top ∧ node ∈ ranges) :
    MovedBeneath forest top base.offset own ranges := by
  refine ⟨fun node hnode => ((hmem node).1 hnode).1, fun node hnode => ?_⟩
  have hiff : (own[node]?).isSome ↔ (ranges[node]?).isSome := by
    rw [Std.TreeMap.isSome_getElem?_iff_mem, Std.TreeMap.isSome_getElem?_iff_mem, hmem]
    exact and_iff_right hnode
  cases ha : ranges[node]? with
  | none =>
    rw [ha] at hiff
    rw [Option.not_isSome_iff_eq_none.1 (hiff.not.2 (by simp))]
    rfl
  | some a =>
    rw [ha] at hiff
    obtain ⟨b, hb⟩ := Option.isSome_iff_exists.1 (hiff.2 rfl)
    rw [hb, h.eq_moved hs hunique h' htop hbase hown node hnode a b ha hb]
    rfl

/-! ### By searching -/

theorem FoundIn.unique {parent child : Handle} {range' : Range}
    (h : FoundIn terminator forest fragments parent child range)
    (h' : FoundIn terminator forest fragments parent child range') : range = range' := by
  obtain ⟨⟨start, hstart, hfound⟩, ⟨kind, hk, hlen⟩⟩ := h
  obtain ⟨⟨start', hstart', hfound'⟩, ⟨kind', hk', hlen'⟩⟩ := h'
  cases hk.symm.trans hk'
  cases hstart.unique hstart'
  have hoffset := hfound.unique hfound'
  obtain ⟨offset, length⟩ := range
  obtain ⟨offset', length'⟩ := range'
  simp only at hoffset hlen hlen'
  rw [hoffset, hlen, hlen']

/-- **What the search finds is put together from where it finds children in their parents.** -/
theorem Located.composed (hs : forest.Sound)
    (hl : Located terminator forest root fragments visited ranges) :
    Composed forest root (FoundIn terminator forest fragments) ranges := by
  intro parent hp child hc range hrange
  obtain ⟨kind, outer, start, index, hk, hout, hstart, hfind, rfl⟩ :=
    hl.child_eq hs hc (hs.ne_root hp hc) hrange
  obtain ⟨elder, younger, hch⟩ := List.append_of_mem hc
  have hsearch := hl.searchStart hs hp hout elder child younger start hch hstart
  refine ⟨outer, ⟨start + index, coveredLength kind (fragments.text child) terminator⟩, hout,
    ⟨⟨start, hsearch, .of_firstOccurrenceFrom hfind⟩, ⟨kind, hk, rfl⟩⟩, ?_⟩
  unfold Range.moved
  rw [Nat.add_assoc]

/-- A search that succeeds succeeds from every node on, and finds the same places. -/
theorem exists_reconstruct_beneath (hs : forest.Sound) (hroot : root < forest.size)
    (h : reconstruct terminator forest root fragments = .ok ranges) (htop : top ∈ forest.walk root) :
    ∃ own base, reconstruct terminator forest top fragments = .ok own ∧ ranges[top]? = some base ∧
      (∀ node ∈ forest.walk top, node ∈ own) ∧ MovedBeneath forest top base.offset own ranges := by
  have hno := (exists_reconstruct_iff hs hroot).1 ⟨ranges, h⟩
  -- whether a text is lost does not depend on the root
  obtain ⟨own, hown⟩ : ∃ own, reconstruct terminator forest top fragments = .ok own := by
    refine (exists_reconstruct_iff hs (hs.lt_size_of_mem_walk hroot htop)).2 fun node hnode hne => ?_
    exact hno node (hs.mem_walk_trans htop hnode) (hs.ne_root_beneath htop hnode hne)
  have hl := Located.of_reconstruct hs h
  have hl' := Located.of_reconstruct hs hown
  obtain ⟨kind, base, hk, hbase, hlen, -⟩ := hl.occursAt hs top htop
  obtain ⟨start, hstart⟩ := Option.isSome_iff_exists.1 ((hl'.isSome_iff top).2 (hs.root_mem_walk top))
  obtain ⟨kind', hk', rfl⟩ := hl'.root_eq hstart
  cases hk.symm.trans hk'
  rw [← hlen] at hstart
  have hmem : ∀ node : Handle, node ∈ ranges ↔ node ∈ forest.walk root := fun node => by
    rw [← Std.TreeMap.isSome_getElem?_iff_mem]
    exact hl.isSome_iff node
  have hmem' : ∀ node : Handle, node ∈ own ↔ node ∈ forest.walk top := fun node => by
    rw [← Std.TreeMap.isSome_getElem?_iff_mem]
    exact hl'.isSome_iff node
  refine ⟨own, base, hown, hbase, fun node hnode => (hmem' node).2 hnode, ?_⟩
  refine (hl.composed hs).movedBeneath hs (fun _ _ _ _ h h' => h.unique h') (hl'.composed hs) htop hbase
    hstart fun node => ?_
  rw [hmem, hmem']
  exact ⟨fun hnode => ⟨hnode, hs.mem_walk_trans htop hnode⟩, fun hnode => hnode.1⟩

/-! ### By recording -/

/-- What was recorded is put together from where children stand in their parents. -/
theorem Tracked.composed (t : Tracked writer forest root text relative live) :
    Composed forest root (writer.Stands forest) live := by
  intro parent hp child hc range hlive
  obtain ⟨outer, inner, hout, -, hstands, rfl⟩ := t.child_eq hp hc hlive
  exact ⟨outer, inner, hout, hstands, rfl⟩

/-- A recorded node covers its text as its kind says. -/
theorem Tracked.length_eq (t : Tracked writer forest root text relative live)
    (hnode : node ∈ forest.walk root) (hlive : live[node]? = some range) :
    ∃ kind, forest.kind node = .ok kind ∧
      range.length = coveredLength kind (writer.textOf forest node) writer.options.terminator := by
  by_cases hne : node = root
  · subst hne
    obtain ⟨kind, hk, -, hroot⟩ := t.root_eq
    cases hlive.symm.trans hroot
    exact ⟨kind, hk, by rw [Writer.textOf_eq t.render_eq]⟩
  · obtain ⟨p, hp, hc⟩ := t.sound.exists_parent hnode hne
    obtain ⟨outer, inner, -, -, ⟨before, after, kind, -, hk, rfl⟩, rfl⟩ := t.child_eq hp hc hlive
    exact ⟨kind, hk, rfl⟩

/-- Beneath a node the same ranges are recorded, whether writing begins there or further up. -/
theorem relative_eq_beneath (hs : forest.Sound) (hf : writer.Faithful forest)
    (h : writer.renderRecorded forest root ∅ = (.ok text, relative))
    (h' : writer.renderRecorded forest top ∅ = (.ok text', relative'))
    (htop : top ∈ forest.walk root) (hnode : node ∈ forest.walk top) (hne : node ≠ top) :
    relative'[node]? = relative[node]? := by
  have hne' := hs.ne_root_beneath htop hnode hne
  obtain ⟨p, hp, hc⟩ := hs.exists_parent hnode hne
  -- both are where the node stands in its parent
  have hrel : ∀ range : Range, relative'[node]? = some range ↔ relative[node]? = some range := by
    intro range
    rw [hf.getElem?_relative_iff hs h' hne, hf.getElem?_relative_iff hs h hne']
    constructor
    · rintro ⟨p', hp', hstands⟩
      exact ⟨p', hs.mem_walk_trans htop hp', hstands⟩
    · rintro ⟨p', -, hstands⟩
      cases hs.parent_unique hc (hstands.mem_children hf)
      exact ⟨p, hp, hstands⟩
  exact Option.ext hrel

/-- A node that was recorded is recorded again when writing begins there, and all beneath it is where
it was. -/
theorem Tracked.exists_beneath (t : Tracked writer forest root text relative live)
    (htop : top ∈ forest.walk root) (hrel : top ∈ relative) :
    ∃ text' relative' live' base, writer.renderRecorded forest top ∅ = (.ok text', relative') ∧
      absolute forest top relative' = .ok live' ∧ live[top]? = some base ∧
      MovedBeneath forest top base.offset live' live := by
  have hs := t.sound
  have hf := t.faithful
  have hrender := t.render_walk htop
  obtain ⟨kind, hk⟩ := Writer.exists_kind_of_render hrender
  have hrec := Writer.renderRecorded_eq hrender hk ∅
  obtain ⟨live', hlive', t'⟩ := exists_tracked hs hf hrec
  obtain ⟨base, hbase⟩ := t.exists_range htop hrel
  obtain ⟨kind₁, hk₁, hlen⟩ := t.length_eq htop hbase
  obtain ⟨kind₂, hk₂, hrel', hown⟩ := t'.root_eq
  cases hk₁.symm.trans hk₂
  rw [← hlen] at hown
  refine ⟨_, _, live', base, hrec, hlive', hbase, ?_⟩
  refine t.composed.movedBeneath hs (fun _ _ _ _ h h' => h.unique hs hf h') t'.composed htop hbase hown
    fun node => ?_
  rw [t.mem_live_iff, t'.mem_live_iff]
  by_cases hne : node = top
  · subst hne
    have hmem : node ∈ (∅ : RangeMap).insertMany ((writer.recorded forest node).insert node
        ⟨0, coveredLength kind (writer.textOf forest node) writer.options.terminator⟩) := by
      rw [← Std.TreeMap.isSome_getElem?_iff_mem, hrel']
      rfl
    exact iff_of_true ⟨hs.root_mem_walk node, hmem⟩ ⟨hs.root_mem_walk node, htop, hrel⟩
  · rw [← Std.TreeMap.isSome_getElem?_iff_mem, ← Std.TreeMap.isSome_getElem?_iff_mem]
    constructor
    · rintro ⟨hnode, hsome⟩
      rw [relative_eq_beneath hs hf t.recorded hrec htop hnode hne] at hsome
      exact ⟨hnode, hs.mem_walk_trans htop hnode, hsome⟩
    · rintro ⟨hnode, -, hsome⟩
      rw [← relative_eq_beneath hs hf t.recorded hrec htop hnode hne] at hsome
      exact ⟨hnode, hsome⟩

/-! ### Both ways -/

/-- **What is beneath a node is mapped as if the node were the root**, and moved by the node's offset:
by the search whatever the texts, and by the record of a tree that was written. -/
theorem mapping_local (hb : forest.Built) (root : Handle) :
    (∀ terminator fragments ranges, reconstruct terminator forest root fragments = .ok ranges →
      ∀ top ∈ forest.walk root, ∃ own base,
        reconstruct terminator forest top fragments = .ok own ∧ ranges[top]? = some base ∧
        (∀ node ∈ forest.walk top, node ∈ own) ∧
        MovedBeneath forest top base.offset own ranges) ∧
    ∀ options text relative,
      (Writer.standard options).renderRecorded forest root ∅ = (.ok text, relative) →
      ∃ live, absolute forest root relative = .ok live ∧
        ∀ top : Handle, top ∈ relative → ∃ text' relative' live' base,
          (Writer.standard options).renderRecorded forest top ∅ = (.ok text', relative') ∧
          absolute forest top relative' = .ok live' ∧ live[top]? = some base ∧
          MovedBeneath forest top base.offset live' live := by
  have hs := hb.sound
  refine ⟨?_, ?_⟩
  · intro terminator fragments ranges h top htop
    have hroot : root < forest.size := by
      by_contra hge
      rw [reconstruct_unknown hs (Nat.le_of_not_lt hge)] at h
      cases h
    exact exists_reconstruct_beneath hs hroot h htop
  · intro options text relative h
    obtain ⟨live, hlive, t⟩ := exists_tracked hs (Writer.standard_faithful hs options) h
    refine ⟨live, hlive, fun top hrel => ?_⟩
    exact t.exists_beneath ((mem_recorded_iff hs h).1 hrel).1 hrel

/-- A loop in a block. The block inside the loop is written as deep as it stands in the tree, and the
last part of the loop's header has no terminator, also where writing begins with them. The texts for the
search are ones that no rule writes. -/
theorem mapping_local_loop :
    ∃ (forest : Forest) (fragments : FragmentMap) (ranges own relative live : RangeMap),
      Forest.ofNodes [.identifier "i", .unaryOperation "++" false 0, .expressionStatement 1,
        .identifier "x", .expressionStatement 3, .block [4], .forStatement none none (some 2) 5,
        .block [6]] = .ok forest ∧
      fragments = .ofList [(2, "x;"), (3, "x"), (4, "x;"), (5, "x;"), (6, "x;x;"), (7, "a x;x;")] ∧
      reconstruct (some ';') forest 7 fragments = .ok ranges ∧
      reconstruct (some ';') forest 6 fragments = .ok own ∧
      own[4]? = some ⟨2, 1⟩ ∧ ranges[4]? = some ⟨4, 1⟩ ∧ MovedBeneath forest 6 2 own ranges ∧
      (Writer.standard {}).renderRecorded forest 7 ∅ =
        (.ok "\x7b\n    for (;; i++) \x7b\n        x;\n    \x7d\n\x7d", relative) ∧
      absolute forest 7 relative = .ok live ∧
      (∃ relative' live', (Writer.standard {}).renderRecorded forest 5 ∅ =
          (.ok "\x7b\n        x;\n    \x7d", relative') ∧
        absolute forest 5 relative' = .ok live' ∧
        live'[4]? = some ⟨10, 1⟩ ∧ live[4]? = some ⟨29, 1⟩ ∧ MovedBeneath forest 5 19 live' live) ∧
      ∃ relative' live', (Writer.standard {}).renderRecorded forest 2 ∅ = (.ok "i++", relative') ∧
        absolute forest 2 relative' = .ok live' ∧
        live'[2]? = some ⟨0, 3⟩ ∧ live[2]? = some ⟨14, 3⟩ ∧ MovedBeneath forest 2 14 live' live := by
  have hforest : Forest.ofNodes [.identifier "i", .unaryOperation "++" false 0, .expressionStatement 1,
      .identifier "x", .expressionStatement 3, .block [4], .forStatement none none (some 2) 5,
      .block [6]] =
        .ok ⟨#[⟨.identifier "i", some 1, []⟩, ⟨.unaryOperation "++" false 0, some 2, [0]⟩,
          ⟨.expressionStatement 1, some 6, [1]⟩, ⟨.identifier "x", some 4, []⟩,
          ⟨.expressionStatement 3, some 5, [3]⟩, ⟨.block [4], some 6, [4]⟩,
          ⟨.forStatement none none (some 2) 5, some 7, [2, 5]⟩, ⟨.block [6], none, [6]⟩]⟩ := rfl
  obtain ⟨hsearch, hrecord⟩ := mapping_local (Forest.Built.ofNodes hforest) 7
  obtain ⟨own, base, hown, hbase, -, hmoved⟩ := hsearch (some ';')
    (.ofList [(2, "x;"), (3, "x"), (4, "x;"), (5, "x;"), (6, "x;x;"), (7, "a x;x;")]) _ rfl 6 (by decide)
  obtain ⟨live, hlive, hbeneath⟩ := hrecord {} _ _ rfl
  refine ⟨_, _, _, own, _, live, hforest, rfl, rfl, hown, ?_, rfl, ?_, rfl, hlive, ?_, ?_⟩
  · cases hown
    rfl
  · cases hbase
    exact hmoved
  · obtain ⟨text', relative', live', base', hrec', hlive', hbase', hmoved'⟩ := hbeneath 5 (by decide)
    cases hlive
    cases hrec'
    cases hlive'
    cases hbase'
    exact ⟨_, _, rfl, rfl, rfl, rfl, hmoved'⟩
  · obtain ⟨text', relative', live', base', hrec', hlive', hbase', hmoved'⟩ := hbeneath 2 (by decide)
    cases hlive
    cases hrec'
    cases hlive'
    cases hbase'
    exact ⟨_, _, rfl, rfl, rfl, rfl, hmoved'⟩

end SourceMap

end SolText
