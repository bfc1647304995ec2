import SolText.Proofs.SourceMap.Written
import SolText.Proofs.Write.Views

/-!
# What is recorded while writing

Ranges are recorded as a tree is written, each in the text around it. They are exact: nothing is left
to a search.

* `SourceMap.Tracked`: a tree that was written, with the ranges recorded and added up.
* `SourceMap.Tracked.child_eq`: a child in both maps, by its parent.
* `SourceMap.Tracked.occursAt`: **every node has its text where its added-up range says.**
* `SourceMap.mem_recorded_iff`: **all nodes are recorded but for empty lists of returned values.**
* `SourceMap.recorded_exact`: **the recorded ranges are exact.**
-/

namespace SolText.SourceMap

open Text

/-- A tree that was written, with the ranges that were recorded and those with the offsets added up. -/
structure Tracked (writer : Writer) (forest : Forest) (root : Handle) (text : String)
    (relative live : RangeMap) : Prop where
  sound : forest.Sound
  faithful : writer.Faithful forest
  recorded : writer.renderRecorded forest root ∅ = (.ok text, relative)
  summed : Summed forest root relative (forest.walk root) live

variable {writer : Writer} {forest : Forest} {root node child parent : Nat}
  {relative live : RangeMap} {range : Range} {text : String}

theorem exists_tracked (hs : forest.Sound) (hf : writer.Faithful forest)
    (h : writer.renderRecorded forest root ∅ = (.ok text, relative)) :
    ∃ live, absolute forest root relative = .ok live ∧
      Tracked writer forest root text relative live := by
  obtain ⟨live, hlive, hsum⟩ := exists_live hs hf h
  exact ⟨live, hlive, hs, hf, h, hsum⟩

section
variable (t : Tracked writer forest root text relative live)
include t

/-! ### Both maps -/

theorem Tracked.render_eq : writer.render forest root = .ok text :=
  Writer.render_of_renderRecorded t.recorded

theorem Tracked.render_walk (h : node ∈ forest.walk root) :
    writer.render forest node = .ok (writer.textOf forest node) :=
  Writer.render_eq_textOf (t.faithful.render_walk t.sound t.render_eq node h)

/-- What was recorded has its offsets added up, and nothing else has. -/
theorem Tracked.mem_live_iff : node ∈ live ↔ node ∈ forest.walk root ∧ node ∈ relative := by
  rw [← Std.TreeMap.isSome_getElem?_iff_mem, ← Std.TreeMap.isSome_getElem?_iff_mem]
  exact t.summed.isSome_iff node

theorem Tracked.exists_range (hwalk : node ∈ forest.walk root) (hrel : node ∈ relative) :
    ∃ range, live[node]? = some range :=
  Option.isSome_iff_exists.1 (Std.TreeMap.isSome_getElem?_iff_mem.2 (t.mem_live_iff.2 ⟨hwalk, hrel⟩))

/-- The root is at the start of both maps. -/
theorem Tracked.root_eq : ∃ kind, forest.kind root = .ok kind ∧
    relative[root]? = some ⟨0, coveredLength kind text writer.options.terminator⟩ ∧
    live[root]? = some ⟨0, coveredLength kind text writer.options.terminator⟩ := by
  obtain ⟨kind, hk, hrel⟩ := Writer.getElem?_relative_root t.recorded
  have hsome : (live[root]?).isSome :=
    (t.summed.isSome_iff root).2 ⟨t.sound.root_mem_walk root, by rw [hrel]; rfl⟩
  obtain ⟨value, hlive⟩ := Option.isSome_iff_exists.1 hsome
  have hvalue := t.summed.root_eq value hlive
  rw [hrel] at hvalue
  exact ⟨kind, hk, hrel, by rw [hlive, hvalue]⟩

/-- A child stands in its parent where it was recorded, and its offset is added to that of the
parent. -/
theorem Tracked.child_eq (hp : parent ∈ forest.walk root) (hc : child ∈ forest.children parent)
    (hlive : live[child]? = some range) :
    ∃ outer inner, live[parent]? = some outer ∧ relative[child]? = some inner ∧
      writer.Stands forest parent child inner ∧
      range = ⟨outer.offset + inner.offset, inner.length⟩ := by
  have hne := t.sound.ne_root hp hc
  obtain ⟨p, outer, inner, hparent, hout, hinner, hrange⟩ :=
    t.summed.child_eq child range hne hlive
  rw [t.sound.parent_eq_iff.2 hc] at hparent
  cases hparent
  have hstands := t.faithful.stands_of_relative t.sound t.recorded hp hc hinner
  exact ⟨outer, inner, hout, hinner, hstands, hrange⟩

/-- **Every node has its text where its added-up range says.** -/
theorem Tracked.occursAt : ∀ node ∈ forest.walk root, ∀ range : Range, live[node]? = some range →
    OccursAt (writer.textOf forest node) text range.offset := by
  refine t.sound.walk_induction ?_ ?_
  · intro range hlive
    obtain ⟨kind, -, -, hroot⟩ := t.root_eq
    rw [hroot] at hlive
    cases hlive
    rw [Writer.textOf_eq t.render_eq]
    exact OccursAt.self text
  · intro p hp ih c hc range hlive
    obtain ⟨outer, inner, hout, -, hstands, rfl⟩ := t.child_eq hp hc hlive
    have hparent := ih outer hout
    have hchild := hstands.occursAt t.sound t.faithful ⟨_, t.render_walk hp⟩
    exact hchild.trans hparent

/-- A recorded node other than the root stands behind what its parent's description has in front of
it, and the description names it once. -/
theorem Tracked.exists_segment (hne : node ≠ root) (hrel : relative[node]? = some range) :
    ∃ parent kind own front inner back, forest.parent node = some parent ∧
      forest.kind node = .ok kind ∧ writer.render forest node = .ok own ∧
      writer.describe forest parent = .ok (front ++ .node node inner :: back) ∧
      (∀ other, Segment.node node other ∉ front ++ back) ∧
      range = ⟨(Segment.flatten front).utf8ByteSize,
        coveredLength kind own writer.options.terminator⟩ := by
  have hs := t.sound
  obtain ⟨p, hp, hstands⟩ := (t.faithful.getElem?_relative_iff hs t.recorded hne).1 hrel
  have hc := hstands.mem_children t.faithful
  obtain ⟨before, after, kind, hpieces, hk, rfl⟩ := hstands
  obtain ⟨front, inner, back, hdescribe, hflatten, hfront, hback⟩ :=
    Writer.exists_describe_split hs t.faithful.descends hpieces (t.render_walk hp)
  refine ⟨p, kind, _, front, inner, back, hs.parent_eq_iff.2 hc, hk,
    t.render_walk (hs.child_mem_walk root p hp node hc), hdescribe, ?_, by rw [hflatten]⟩
  -- the pieces of the parent name each child once
  have hnd := (t.faithful.sublist hpieces).nodup (hs.nodup p)
  rw [Piece.handles_append, Piece.handles_node, List.nodup_append, List.nodup_cons] at hnd
  obtain ⟨-, ⟨hafter, -⟩, hbefore⟩ := hnd
  intro other hmem
  rcases List.mem_append.1 hmem with h | h
  · have hnode := Segment.mem_handles h
    rw [hfront] at hnode
    exact hbefore node hnode node List.mem_cons_self rfl
  · have hnode := Segment.mem_handles h
    rw [hback] at hnode
    exact hafter hnode

end

/-! ### The rules of all kinds -/

/-- **All nodes of a tree are recorded but for empty lists of returned values.** -/
theorem mem_recorded_iff (hs : forest.Sound) {options : Options}
    (h : (Writer.standard options).renderRecorded forest root ∅ = (.ok text, relative)) :
    node ∈ relative ↔ node ∈ forest.walk root ∧ ¬(node ≠ root ∧ forest.IsEmptyReturns node) := by
  have hf := Writer.standard_faithful hs options
  have hr := Writer.render_of_renderRecorded h
  rw [← Std.TreeMap.isSome_getElem?_iff_mem]
  by_cases hne : node = root
  · obtain ⟨kind, -, hroot⟩ := Writer.getElem?_relative_root h
    rw [hne, hroot]
    simp [hs.root_mem_walk root]
  · have hkey : (relative[node]?).isSome ↔
        ∃ parent ∈ forest.walk root, ∃ range, (Writer.standard options).Stands forest parent node range := by
      rw [Option.isSome_iff_exists]
      constructor
      · rintro ⟨range, hrange⟩
        obtain ⟨p, hp, hstands⟩ := (hf.getElem?_relative_iff hs h hne).1 hrange
        exact ⟨p, hp, range, hstands⟩
      · rintro ⟨p, hp, range, hstands⟩
        exact ⟨range, (hf.getElem?_relative_iff hs h hne).2 ⟨p, hp, hstands⟩⟩
    rw [hkey]
    constructor
    · rintro ⟨p, hp, range, hstands⟩
      have hc := hstands.mem_children hf
      obtain ⟨before, after, -, hpieces, -⟩ := hstands
      have hmem := Piece.mem_handles_node before after node
      rw [handles_standard_pieces hs hpieces, List.mem_filter] at hmem
      refine ⟨hs.child_mem_walk root p hp node hc, ?_⟩
      rintro ⟨-, hempty⟩
      have homits := (omits_iff hs hc).2 hempty
      rw [homits] at hmem
      exact absurd hmem.2 (by decide)
    · rintro ⟨hwalk, hnot⟩
      obtain ⟨p, hp, hc⟩ := hs.exists_parent hwalk hne
      obtain ⟨pieces, hpieces, -⟩ := hf.exists_pieces hs (hf.render_walk hs hr p hp)
      have homits : forest.omits p node = false := by
        rw [← Bool.not_eq_true, omits_iff hs hc]
        exact fun hempty => hnot ⟨hne, hempty⟩
      have hmem : node ∈ Piece.handles pieces := by
        rw [handles_standard_pieces hs hpieces, List.mem_filter]
        exact ⟨hc, by rw [homits]; rfl⟩
      obtain ⟨range, hstands⟩ := hf.exists_stands hs hpieces hmem
      exact ⟨p, hp, range, hstands⟩

/-- Ranges that say exactly where the nodes of a written tree lie. -/
structure Exact (writer : Writer) (forest : Forest) (root : Handle) (text : String)
    (relative live : RangeMap) : Prop where
  /-- All nodes have a range but for the empty lists of returned values beneath the root. -/
  mem_iff : ∀ node : Handle,
    node ∈ relative ↔ node ∈ forest.walk root ∧ ¬(node ≠ root ∧ forest.IsEmptyReturns node)
  /-- The root begins its own text. -/
  root_eq : ∃ kind, forest.kind root = .ok kind ∧
    relative[root]? = some ⟨0, coveredLength kind text writer.options.terminator⟩
  /-- Any other node begins behind what stands before it in the description of its parent. -/
  child_eq : ∀ (node : Handle) (range : Range), node ≠ root → relative[node]? = some range →
    ∃ parent kind own front inner back, forest.parent node = some parent ∧
      forest.kind node = .ok kind ∧ writer.render forest node = .ok own ∧
      writer.describe forest parent = .ok (front ++ .node node inner :: back) ∧
      (∀ other, Segment.node node other ∉ front ++ back) ∧
      range = ⟨(Segment.flatten front).utf8ByteSize,
        coveredLength kind own writer.options.terminator⟩
  /-- With the offsets added up, the bytes from there on are those of the node's text. -/
  extract_eq : ∀ node : Handle, node ∈ relative → ∃ range own, live[node]? = some range ∧
    writer.render forest node = .ok own ∧
    text.toByteArray.extract range.offset (range.offset + own.utf8ByteSize) = own.toByteArray

/-- **The recorded ranges are exact.** -/
theorem recorded_exact (hb : forest.Built) {options : Options}
    (h : (Writer.standard options).renderRecorded forest root ∅ = (.ok text, relative)) :
    ∃ live, absolute forest root relative = .ok live ∧
      Exact (Writer.standard options) forest root text relative live := by
  have hs := hb.sound
  obtain ⟨live, hlive, t⟩ := exists_tracked hs (Writer.standard_faithful hs options) h
  refine ⟨live, hlive, fun node => mem_recorded_iff hs h, Writer.getElem?_relative_root h,
    fun node range hne hrel => t.exists_segment hne hrel, fun node hrel => ?_⟩
  have hwalk := ((mem_recorded_iff hs h).1 hrel).1
  obtain ⟨range, hrange⟩ := t.exists_range hwalk hrel
  have hocc := t.occursAt node hwalk range hrange
  exact ⟨range, _, hrange, t.render_walk hwalk, hocc.extract_eq⟩

/-- A function that returns nothing: its list of returned values is in the tree and not in the map. -/
theorem recorded_exact_function :
    ∃ (forest : Forest) (relative live : RangeMap),
      Forest.ofNodes [.parameterList [], .parameterList [], .identifier "é", .expressionStatement 2,
        .identifier "x", .expressionStatement 4, .block [3, 5],
        .functionDefinition "f" .unspecified .nonpayable 0 1 (some 6)] = .ok forest ∧
      (Writer.standard {}).renderRecorded forest 7 ∅ =
        (.ok "function f() \x7b\n    é;\n    x;\n\x7d", relative) ∧
      absolute forest 7 relative = .ok live ∧
      Exact (Writer.standard {}) forest 7 "function f() \x7b\n    é;\n    x;\n\x7d" relative live ∧
      1 ∈ forest.walk 7 ∧ 1 ∉ relative ∧ relative[5]? = some ⟨14, 1⟩ ∧ live[5]? = some ⟨27, 1⟩ := by
  have hforest : Forest.ofNodes [.parameterList [], .parameterList [], .identifier "é",
      .expressionStatement 2, .identifier "x", .expressionStatement 4, .block [3, 5],
      .functionDefinition "f" .unspecified .nonpayable 0 1 (some 6)] =
        .ok ⟨#[⟨.parameterList [], some 7, []⟩, ⟨.parameterList [], some 7, []⟩,
          ⟨.identifier "é", some 3, []⟩, ⟨.expressionStatement 2, some 6, [2]⟩,
          ⟨.identifier "x", some 5, []⟩, ⟨.expressionStatement 4, some 6, [4]⟩,
          ⟨.block [3, 5], some 7, [3, 5]⟩,
          ⟨.functionDefinition "f" .unspecified .nonpayable 0 1 (some 6), none, [0, 1, 6]⟩]⟩ := rfl
  obtain ⟨live, hlive, hexact⟩ := @recorded_exact _ 7 _ _ (Forest.Built.ofNodes hforest) {} rfl
  refine ⟨_, _, live, hforest, rfl, hlive, hexact, by decide, ?_, rfl, ?_⟩
  · rw [hexact.mem_iff]
    rintro ⟨-, hnot⟩
    exact hnot ⟨by decide, rfl, 7, _, _, _, _, _, rfl⟩
  · cases hlive
    rfl

end SolText.SourceMap
