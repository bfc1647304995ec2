import Mathlib.Data.Prod.Basic
import SolText.Proofs.SourceMap.Recorded

/-!
# Writing into a map that is shared

The ranges that are recorded while writing go into a map of the caller, who may hand over the same map
again. Writing itself keeps what is there. A whole render puts its ranges over those there, or leaves
the map alone if it fails.

* `Writer.AddsTo`: a computation puts ranges beside those of a map, and does not look at these.
* `Writer.write_adds_only`: **what is written does not depend on the map, and the map is only added
  to**, also by a failure half-way.
* `Writer.recordAll`: the map after several renders.
* `Writer.exists_of_recordAll`: every range in it is one that a render of its own would record.
* `SourceMap.Summed.within`: ranges that others are put beside are added up as before.
* `SourceMap.shared_map_agrees`: **renders that share a map do not spoil one another's ranges.**
-/

namespace SolText

namespace Writer

variable {writer : Writer} {forest : Forest} {root handle key : Nat} {ranges relative : RangeMap}
  {range : Range} {text : String} {pieces : List Piece} {error : WriteError}

/-! ### Writing -/

/-- Started from a map, a computation gives what it gives when started from the empty one. Afterwards
the map has the ranges it had, and those that are recorded from the empty map under other keys. -/
structure AddsTo {α : Type} (computation : Recording α) (ranges : RangeMap) : Prop where
  result_eq : (computation.run ranges).1 = (computation.run ∅).1
  kept : ∀ (key : Handle) (range : Range), ranges[key]? = some range →
    (computation.run ranges).2[key]? = some range
  added : ∀ key : Handle, key ∉ ranges →
    (computation.run ranges).2[key]? = (computation.run ∅).2[key]?

theorem Accrues.addsTo {α : Type} {computation : Recording α} (h : Accrues computation)
    (ranges : RangeMap) : AddsTo computation ranges := by
  obtain ⟨hresult, hmap⟩ := h ranges
  refine ⟨hresult, fun key range hkey => ?_, fun key hkey => ?_⟩
  · rw [hmap, hkey]
    rfl
  · rw [← Std.TreeMap.isSome_getElem?_iff_mem, Option.not_isSome_iff_eq_none] at hkey
    rw [hmap, hkey]
    rfl

/-- Pieces cannot be written only where a rule fails, at a node among them or beneath one. -/
theorem exists_pieces_eq_error_of_writeAll (hs : forest.Sound) (hd : writer.Descends forest)
    (h : ((writer.writeAll forest pieces).run ranges).1 = .error error) :
    ∃ node, writer.pieces forest node = .error error := by
  have hwrite : ∀ handle ranges, ((writer.write forest handle).run ranges).1 =
      (writer.tagged forest handle).map joined := by
    intro handle ranges
    rw [fst_write, render_eq_tagged]
  have hknown : ∀ handle parts, writer.tagged forest handle = .ok parts →
      ∃ kind, forest.kind handle = .ok kind := by
    intro handle parts ht
    have hr : writer.render forest handle = .ok (joined parts) := by
      rw [render_eq_tagged, ht]
      rfl
    exact exists_kind_of_render hr
  unfold writeAll at h
  rw [fst_writePieces hwrite hknown] at h
  cases hm : pieces.mapM (taggedPiece (writer.tagged forest)) with
  | ok parts => rw [hm] at h; cases h
  | error e =>
    rw [hm] at h
    cases h
    obtain ⟨piece, -, hpiece⟩ := mapM_eq_error hm
    cases piece with
    | absent | text role content => cases hpiece
    | node child =>
      have hr : writer.render forest child = .error error := by
        rw [render_eq_tagged, show writer.tagged forest child = .error error from hpiece]
        rfl
      obtain ⟨node, -, hnode⟩ := exists_pieces_eq_error hs hd hr
      exact ⟨node, hnode⟩

/-- **What is written does not depend on the map, and the map is only added to.** So it is for a node
and for pieces of any kind, and for success and failure alike, where the error is that of a rule. -/
theorem write_adds_only (hb : forest.Built) (hrules : Rules.WriteChildren writer.rules)
    (ranges : RangeMap) :
    (∀ handle, AddsTo (writer.write forest handle) ranges ∧
      ∀ error, ((writer.write forest handle).run ranges).1 = .error error →
        ∃ node, writer.pieces forest node = .error error) ∧
    ∀ pieces, AddsTo (writer.writeAll forest pieces) ranges ∧
      ∀ error, ((writer.writeAll forest pieces).run ranges).1 = .error error →
        ∃ node, writer.pieces forest node = .error error := by
  have hs := hb.sound
  have hd := descends_of_rules hb hrules
  refine ⟨fun handle => ⟨(accrues_write handle).addsTo ranges, fun error h => ?_⟩,
    fun pieces => ⟨?_, fun error h => ?_⟩⟩
  · rw [fst_write] at h
    obtain ⟨node, -, hnode⟩ := exists_pieces_eq_error hs hd h
    exact ⟨node, hnode⟩
  · have haccrues : Accrues (writer.writeAll forest pieces) := accrues_writePieces accrues_write pieces ""
    exact haccrues.addsTo ranges
  · exact exists_pieces_eq_error_of_writeAll hs hd h

/-- The rules write an operand twice and know no literals. Writing fails behind two nodes, one of which
the map has already, and what was recorded up to there stays. -/
theorem write_adds_only_halfway :
    ∃ (forest : Forest) (writer : Writer) (ranges recorded : RangeMap),
      Forest.ofNodes [.identifier "a", .literal .number "1", .binaryOperation "+" 0 1,
        .identifier "b", .unaryOperation "!" true 3] = .ok forest ∧
      writer.rules = (standardRules.erase .literal).insert .unaryOperation childrenTwice ∧
      ranges = ((∅ : RangeMap).insert 3 ⟨9, 9⟩).insert 7 ⟨5, 5⟩ ∧
      (writer.writeAll forest [.node 4, .node 4, .node 2]).run ranges =
        (.error (.noRule .literal (forest.dump 1)), recorded) ∧
      recorded[3]? = some ⟨9, 9⟩ ∧ recorded[7]? = some ⟨5, 5⟩ ∧ recorded[4]? = some ⟨0, 2⟩ ∧
      recorded[0]? = some ⟨0, 1⟩ ∧ recorded[2]? = none ∧
      ∃ node, writer.pieces forest node = .error (.noRule .literal (forest.dump 1)) := by
  have hforest : Forest.ofNodes [.identifier "a", .literal .number "1", .binaryOperation "+" 0 1,
      .identifier "b", .unaryOperation "!" true 3] =
        .ok ⟨#[⟨.identifier "a", some 2, []⟩, ⟨.literal .number "1", some 2, []⟩,
          ⟨.binaryOperation "+" 0 1, none, [0, 1]⟩, ⟨.identifier "b", some 4, []⟩,
          ⟨.unaryOperation "!" true 3, none, [3]⟩]⟩ := rfl
  have hadapted := (Rules.Adapted.standard.erase .literal).insert .unaryOperation
    childrenTwice_writesChildren
  obtain ⟨-, hall⟩ := @write_adds_only
    ⟨(standard {}).toSetting, (standardRules.erase .literal).insert .unaryOperation childrenTwice⟩ _
    (Forest.Built.ofNodes hforest) hadapted.writeChildren
    (((∅ : RangeMap).insert 3 ⟨9, 9⟩).insert 7 ⟨5, 5⟩)
  obtain ⟨⟨hresult, hkept, hadded⟩, herror⟩ := hall [.node 4, .node 4, .node 2]
  have hfailed := hresult.trans (show _ = .error (.noRule .literal _) from rfl)
  exact ⟨_, _, _, _, hforest, rfl, rfl, Prod.fst_eq_iff.1 hfailed, hkept 3 ⟨9, 9⟩ rfl,
    hkept 7 ⟨5, 5⟩ rfl, (hadded 4 (by decide)).trans rfl, (hadded 0 (by decide)).trans rfl,
    (hadded 2 (by decide)).trans rfl, herror _ hfailed⟩

/-! ### Renders -/

/-- The map after renders of the given nodes, one after another, that began with no ranges. -/
def recordAll (writer : Writer) (forest : Forest) (handles : List Handle) : RangeMap :=
  handles.foldl (fun ranges handle => (writer.renderRecorded forest handle ranges).2) ∅

theorem recordAll_concat (handles : List Handle) (handle : Handle) :
    writer.recordAll forest (handles ++ [handle]) =
      (writer.renderRecorded forest handle (writer.recordAll forest handles)).2 := by
  unfold recordAll
  rw [List.foldl_append]
  rfl

/-- A render that succeeds puts the ranges of a render of its own over those there. -/
theorem getElem?_renderRecorded (hr : writer.render forest handle = .ok text) (ranges : RangeMap) :
    ∃ relative, writer.renderRecorded forest handle ∅ = (.ok text, relative) ∧
      ∀ key : Handle, (writer.renderRecorded forest handle ranges).2[key]? =
        (relative[key]?).or ranges[key]? := by
  obtain ⟨kind, hk⟩ := exists_kind_of_render hr
  refine ⟨_, renderRecorded_eq hr hk ∅, fun key => ?_⟩
  rw [renderRecorded_eq hr hk ranges, Map.getElem?_insertMany, Map.getElem?_insertMany,
    Std.TreeMap.getElem?_emptyc, Option.or_none]

/-- **Every range in a shared map is one that a render of its own would record.** -/
theorem exists_of_recordAll (handles : List Handle) (key : Handle) (range : Range)
    (h : (writer.recordAll forest handles)[key]? = some range) :
    ∃ handle ∈ handles, ∃ text relative,
      writer.renderRecorded forest handle ∅ = (.ok text, relative) ∧ relative[key]? = some range := by
  induction handles using List.reverseRecOn with
  | nil =>
    have hnone : (∅ : RangeMap)[key]? = some range := h
    rw [Std.TreeMap.getElem?_emptyc] at hnone
    cases hnone
  | append_singleton handles handle ih =>
    rw [recordAll_concat] at h
    cases hr : writer.render forest handle with
    | error e =>
      rw [renderRecorded_eq_error hr] at h
      obtain ⟨earlier, hmem, hrest⟩ := ih h
      exact ⟨earlier, List.mem_append_left _ hmem, hrest⟩
    | ok text =>
      obtain ⟨relative, hrec, hkeys⟩ := getElem?_renderRecorded hr (writer.recordAll forest handles)
      rw [hkeys, Option.or_eq_some_iff] at h
      rcases h with hown | ⟨-, hbefore⟩
      · exact ⟨handle, List.mem_append_right _ List.mem_cons_self, text, relative, hrec, hown⟩
      · obtain ⟨earlier, hmem, hrest⟩ := ih hbefore
        exact ⟨earlier, List.mem_append_left _ hmem, hrest⟩

end Writer

namespace SourceMap

variable {writer : Writer} {forest : Forest} {root : Nat} {relative shared live live' : RangeMap}
  {text : String}

/-- **Ranges that others are put beside are added up as before.** -/
theorem Summed.within (hs : forest.Sound) (hrel : Map.Within relative shared)
    (h : Summed forest root relative (forest.walk root) live)
    (h' : Summed forest root shared (forest.walk root) live') : Map.Within live live' := by
  have key : ∀ node ∈ forest.walk root, ∀ range : Range,
      live[node]? = some range → live'[node]? = some range := by
    -- a range is added to that of the parent, so the two maps agree from the root down
    have hsome : ∀ node ∈ forest.walk root, ∀ inner : Range, relative[node]? = some inner →
        ∃ value, live'[node]? = some value := by
      intro node hnode inner hinner
      have hmem : (shared[node]?).isSome := by
        rw [hrel node inner hinner]
        rfl
      exact Option.isSome_iff_exists.1 ((h'.isSome_iff node).2 ⟨hnode, hmem⟩)
    refine hs.walk_induction ?_ ?_
    · intro range hlive
      have hroot := h.root_eq range hlive
      obtain ⟨value, hvalue⟩ := hsome root (hs.root_mem_walk root) range hroot
      have hroot' := h'.root_eq value hvalue
      cases (hrel root range hroot).symm.trans hroot'
      exact hvalue
    · intro p hp ih c hc range hlive
      have hne := hs.ne_root hp hc
      have hparent := hs.parent_eq_iff.2 hc
      obtain ⟨p₁, outer, inner, hp₁, hout, hinner, rfl⟩ := h.child_eq c range hne hlive
      cases hparent.symm.trans hp₁
      obtain ⟨value, hvalue⟩ := hsome c (hs.child_mem_walk root p hp c hc) inner hinner
      obtain ⟨p₂, outer', inner', hp₂, hout', hinner', rfl⟩ := h'.child_eq c value hne hvalue
      cases hparent.symm.trans hp₂
      cases (ih outer hout).symm.trans hout'
      cases (hrel c inner hinner).symm.trans hinner'
      exact hvalue
  intro node range hlive
  have hwalk := ((h.isSome_iff node).1 (by rw [hlive]; rfl)).1
  exact key node hwalk range hlive

/-- What was recorded can be added up also when other ranges are put beside it, and comes to the
same. -/
theorem Tracked.exists_shared (t : Tracked writer forest root text relative live)
    (hrel : Map.Within relative shared) :
    ∃ live', absolute forest root shared = .ok live' ∧ Map.Within live live' := by
  obtain ⟨live', hlive', hsum⟩ : ∃ live', absolute forest root shared = .ok live' ∧
      Summed forest root shared (forest.walk root) live' := by
    -- every node with a child is recorded, whatever else is there
    refine exists_absolute t.sound fun parent hp child hc _ => ?_
    have hparent := t.faithful.isSome_relative_parent t.sound t.recorded hp hc
    obtain ⟨outer, houter⟩ := Option.isSome_iff_exists.1 hparent
    rw [hrel parent outer houter]
    rfl
  exact ⟨live', hlive', t.summed.within t.sound hrel hsum⟩

/-- **Renders that share a map do not spoil one another's ranges.** A render that fails leaves the map
as it was, and every range there is one that some render would record on its own. After a render of
`root` the ranges that it would record on its own are those in the map. They can be added up there, and
come to the same. -/
theorem shared_map_agrees (hb : forest.Built) {options : Options} (calls : List Handle)
    (h : (Writer.standard options).renderRecorded forest root
      ((Writer.standard options).recordAll forest calls) = (.ok text, shared)) :
    (∀ before handle after error, calls = before ++ handle :: after →
      ((Writer.standard options).renderRecorded forest handle
        ((Writer.standard options).recordAll forest before)).1 = .error error →
      (Writer.standard options).recordAll forest (before ++ [handle]) =
        (Writer.standard options).recordAll forest before) ∧
    (∀ (key : Handle) (range : Range),
      ((Writer.standard options).recordAll forest calls)[key]? = some range →
      ∃ handle ∈ calls, ∃ text relative,
        (Writer.standard options).renderRecorded forest handle ∅ = (.ok text, relative) ∧
        relative[key]? = some range) ∧
    ∃ fresh live live',
      (Writer.standard options).renderRecorded forest root ∅ = (.ok text, fresh) ∧
      (∀ (node : Handle) (range : Range), fresh[node]? = some range → shared[node]? = some range) ∧
      absolute forest root fresh = .ok live ∧ absolute forest root shared = .ok live' ∧
      ∀ node : Handle, node ∈ fresh →
        ∃ range, live[node]? = some range ∧ live'[node]? = some range := by
  have hs := hb.sound
  refine ⟨?_, fun key range => Writer.exists_of_recordAll calls key range, ?_⟩
  · intro before handle after error _ hfail
    rw [Writer.fst_renderRecorded] at hfail
    rw [Writer.recordAll_concat, Writer.renderRecorded_eq_error hfail]
  · have hr := Writer.render_of_renderRecorded h
    obtain ⟨fresh, hfresh, hkeys⟩ := Writer.getElem?_renderRecorded hr
      ((Writer.standard options).recordAll forest calls)
    rw [h] at hkeys
    have hwithin : Map.Within fresh shared := by
      intro node range hnode
      rw [hkeys, hnode]
      rfl
    obtain ⟨live, hlive, t⟩ := exists_tracked hs (Writer.standard_faithful hs options) hfresh
    obtain ⟨live', hlive', hagree⟩ := t.exists_shared hwithin
    refine ⟨fresh, live, live', hfresh, hwithin, hlive, hlive', fun node hnode => ?_⟩
    have hwalk := ((mem_recorded_iff hs hfresh).1 hnode).1
    obtain ⟨range, hrange⟩ := t.exists_range hwalk hnode
    exact ⟨range, hrange, hagree node range hrange⟩

/-- Before a function its parts are rendered into the same map: the empty list of what it returns, which
the function does not write, a block that old compilers do not know, and its body. -/
theorem shared_map_agrees_function :
    ∃ (forest : Forest) (old : Options) (shared fresh live live' : RangeMap),
      Forest.ofNodes [.parameterList [], .parameterList [], .identifier "x", .expressionStatement 2,
        .block [3], .functionDefinition "f" .unspecified .nonpayable 0 1 (some 4),
        .uncheckedBlock []] = .ok forest ∧
      old = { target := { major := 0, minor := 7, patch := 6 } } ∧
      (Writer.standard old).recordAll forest [1, 6] = (Writer.standard old).recordAll forest [1] ∧
      ((Writer.standard old).recordAll forest [1, 6, 4])[4]? = some ⟨0, 10⟩ ∧
      (Writer.standard old).renderRecorded forest 5 ((Writer.standard old).recordAll forest [1, 6, 4]) =
        (.ok "function f() \x7b\n    x;\n\x7d", shared) ∧
      (Writer.standard old).renderRecorded forest 5 ∅ =
        (.ok "function f() \x7b\n    x;\n\x7d", fresh) ∧
      fresh[1]? = none ∧ shared[1]? = some ⟨0, 0⟩ ∧ fresh[4]? = some ⟨13, 10⟩ ∧
      shared[4]? = some ⟨13, 10⟩ ∧
      absolute forest 5 fresh = .ok live ∧ absolute forest 5 shared = .ok live' ∧
      ∃ range, live[3]? = some range ∧ live'[3]? = some range ∧ range = ⟨19, 1⟩ := by
  have hforest : Forest.ofNodes [.parameterList [], .parameterList [], .identifier "x",
      .expressionStatement 2, .block [3], .functionDefinition "f" .unspecified .nonpayable 0 1 (some 4),
      .uncheckedBlock []] =
        .ok ⟨#[⟨.parameterList [], some 5, []⟩, ⟨.parameterList [], some 5, []⟩,
          ⟨.identifier "x", some 3, []⟩, ⟨.expressionStatement 2, some 4, [2]⟩,
          ⟨.block [3], some 5, [3]⟩,
          ⟨.functionDefinition "f" .unspecified .nonpayable 0 1 (some 4), none, [0, 1, 4]⟩,
          ⟨.uncheckedBlock [], none, []⟩]⟩ := rfl
  obtain ⟨hfailed, -, fresh, live, live', hfresh, hwithin, hlive, hlive', hagree⟩ :=
    @shared_map_agrees _ 5 _ _ (Forest.Built.ofNodes hforest)
      { target := { major := 0, minor := 7, patch := 6 } } [1, 6, 4] rfl
  refine ⟨_, _, _, fresh, live, live', hforest, rfl, hfailed [1] 6 [4] _ rfl rfl, rfl, rfl, hfresh, ?_⟩
  cases hfresh
  obtain ⟨range, hrange, hrange'⟩ := hagree 3 (by decide)
  refine ⟨rfl, rfl, rfl, hwithin 4 _ rfl, hlive, hlive', range, hrange, hrange', ?_⟩
  cases hlive
  cases hrange
  rfl

end SourceMap

end SolText
