import SolText.Proofs.Forest.Ancestry
import SolText.Proofs.SourceMap.Absolute

/-!
# Offsets along a path

The relative ranges may be any at all. Adding them up fails at the first node that has one while its
parent has none, and fails for nothing else. Where it succeeds, every node on the way from a node with
a range up to the root has one, and the offset of the node is the sum of theirs.

* `SourceMap.Summed.offset_eq`: **an offset is the sum of the offsets on the path.**
* `SourceMap.absolute_eq_error_iff`: adding up fails at the first detached node.
* `SourceMap.absolute_sums_paths`: **adding up succeeds exactly if no node is detached**, and then keeps
  the nodes, their lengths and the sums of their offsets.
-/

namespace SolText

namespace SourceMap

variable {forest : Forest} {root node parent handle : Nat} {relative placed live : RangeMap}
  {range : Range} {visited rest path : List Nat} {error : PlacementError}

/-- The offsets of the ranges on a path, added up. -/
def offsetAlong (relative : RangeMap) (path : List Handle) : Nat :=
  (path.filterMap (relative[·]?)).foldr (fun range sum => range.offset + sum) 0

theorem offsetAlong_cons (h : relative[handle]? = some range) :
    offsetAlong relative (handle :: path) = range.offset + offsetAlong relative path := by
  unfold offsetAlong
  rw [List.filterMap_cons_some h, List.foldr_cons]

/-- **An offset is the sum of the offsets on the path** up to the root, on which every node has a
range. -/
theorem Summed.offset_eq (hs : forest.Sound)
    (hsum : Summed forest root relative (forest.walk root) live) :
    ∀ node ∈ forest.walk root, ∀ range, live[node]? = some range →
      (∀ handle ∈ forest.pathTo root node, (relative[handle]?).isSome) ∧
        range.offset = offsetAlong relative (forest.pathTo root node) := by
  -- a range is added to that of the parent, and the path grows by the node in the same step
  refine hs.walk_induction ?_ ?_
  · intro range hrange
    have hrel := hsum.root_eq range hrange
    rw [Forest.pathTo_root, offsetAlong_cons hrel]
    exact ⟨fun handle hmem => by rw [List.mem_singleton.1 hmem, hrel]; rfl, rfl⟩
  · intro parent hp ih child hc range hrange
    obtain ⟨p, outer, inner, hparent, hout, hinner, rfl⟩ :=
      hsum.child_eq child range (hs.ne_root hp hc) hrange
    cases (hs.parent_eq_iff.2 hc).symm.trans hparent
    obtain ⟨hsome, hoffset⟩ := ih outer hout
    rw [hs.pathTo_child hp hc, offsetAlong_cons hinner, ← hoffset]
    refine ⟨?_, Nat.add_comm _ _⟩
    intro handle hmem
    rcases List.mem_cons.1 hmem with rfl | hmem
    · rw [hinner]
      rfl
    · exact hsome handle hmem

/-- A node keeps the length of its relative range. -/
theorem Summed.length_eq (hsum : Summed forest root relative visited live)
    (hrange : live[node]? = some range) :
    ∃ inner, relative[node]? = some inner ∧ range.length = inner.length := by
  by_cases hne : node = root
  · subst hne
    exact ⟨range, hsum.root_eq range hrange, rfl⟩
  · obtain ⟨-, -, inner, -, -, hinner, rfl⟩ := hsum.child_eq node range hne hrange
    exact ⟨inner, hinner, rfl⟩

/-! ### The first detached node -/

/-- The complaint about the first detached node on a walk. -/
def FirstDetached (forest : Forest) (root : Handle) (relative : RangeMap) (error : PlacementError) :
    Prop :=
  ∃ before node after parent, forest.walk root = before ++ node :: after ∧
    Detached forest root relative node parent ∧
    error = .parentUnplaced node parent (forest.dump node) ∧
    ∀ earlier ∈ before, ∀ parent, ¬Detached forest root relative earlier parent

/-- What has been added up on a part of a walk. -/
theorem Summed.of_foldlM (hs : forest.Sound) (hwalk : forest.walk root = visited ++ rest)
    (h : visited.foldlM (addUp Nat.add forest root relative) ∅ = .ok placed) :
    Summed forest root relative visited placed := by
  refine foldlM_invariant (Summed forest root relative) .nil ?_ h
  rintro before node after placed next rfl hsum hstep
  rw [List.append_assoc, List.cons_append] at hwalk
  exact hsum.step (hs.not_mem_before hwalk) hstep

/-- Adding up fails at the first detached node. -/
theorem absolute_eq_error_iff (hs : forest.Sound) :
    absolute forest root relative = .error error ↔ FirstDetached forest root relative error := by
  rw [absolute_eq, foldlM_eq_error_iff]
  constructor
  · rintro ⟨before, node, after, placed, hwalk, hbefore, hstep⟩
    have hsum := Summed.of_foldlM hs hwalk hbefore
    obtain ⟨parent, hd, rfl⟩ := (hsum.addUp_eq_error_iff hs hwalk).1 hstep
    exact ⟨before, node, after, parent, hwalk, hd, rfl, fun _ hmem _ => hsum.not_detached hmem⟩
  · -- up to a first detached node everything can be added up
    rintro ⟨before, node, after, parent, hwalk, hd, rfl, hfirst⟩
    obtain ⟨placed, hbefore, hsum⟩ := exists_foldlM_addUp hs hwalk hfirst
    exact ⟨before, node, after, placed, hwalk, hbefore,
      (hsum.addUp_eq_error_iff hs hwalk).2 ⟨parent, hd, rfl⟩⟩

/-- Adding up succeeds if every node with a range hangs on a parent with one, and only then. -/
theorem exists_absolute_iff (hs : forest.Sound) :
    (∃ live, absolute forest root relative = .ok live) ↔
      ∀ node ∈ forest.walk root, node ≠ root → (relative[node]?).isSome →
        ∃ parent, forest.parent node = some parent ∧ (relative[parent]?).isSome := by
  constructor
  · rintro ⟨live, hlive⟩ node hnode hne hsome
    have hsum := Summed.of_foldlM hs (List.append_nil _).symm hlive
    obtain ⟨parent, -, hc⟩ := hs.exists_parent hnode hne
    refine ⟨parent, hs.parent_eq_iff.2 hc, ?_⟩
    by_contra hnone
    exact hsum.not_detached hnode
      ⟨hne, hsome, hs.parent_eq_iff.2 hc, Option.not_isSome_iff_eq_none.1 hnone⟩
  · intro hall
    have hno : ∀ node ∈ forest.walk root, ∀ parent, ¬Detached forest root relative node parent := by
      intro node hnode parent hd
      obtain ⟨p, hp, hsome⟩ := hall node hnode hd.ne_root hd.isSome
      cases hp.symm.trans hd.parent_eq
      rw [hd.none_eq] at hsome
      cases hsome
    obtain ⟨live, hlive, -⟩ := exists_foldlM_addUp hs (List.append_nil _).symm hno
    exact ⟨live, hlive⟩

/-- **Any relative ranges can be added up exactly if every node that has one hangs on a parent that has
one.** Then the nodes that have ranges keep them and their lengths, and an offset is the sum of the
offsets on the path up to the root. Otherwise the complaint is about the first node whose parent has no
range; no node is unknown. -/
theorem absolute_sums_paths (hb : forest.Built) (root : Nat) (relative : RangeMap) :
    ((∃ live, absolute forest root relative = .ok live) ↔
        ∀ node ∈ forest.walk root, node ≠ root → (relative[node]?).isSome →
          ∃ parent, forest.parent node = some parent ∧ (relative[parent]?).isSome) ∧
      (∀ live, absolute forest root relative = .ok live →
        (∀ node : Nat, (live[node]?).isSome ↔ node ∈ forest.walk root ∧ (relative[node]?).isSome) ∧
        ∀ node ∈ forest.walk root, ∀ inner, relative[node]? = some inner →
          (∀ handle ∈ forest.pathTo root node, (relative[handle]?).isSome) ∧
          live[node]? = some ⟨offsetAlong relative (forest.pathTo root node), inner.length⟩) ∧
      (∀ error, absolute forest root relative = .error error ↔
        FirstDetached forest root relative error) ∧
      ∀ handle, absolute forest root relative ≠ .error (.forest (.unknown handle)) := by
  have hs := hb.sound
  refine ⟨exists_absolute_iff hs, ?_, fun error => absolute_eq_error_iff hs, ?_⟩
  · intro live hlive
    have hsum := Summed.of_foldlM hs (List.append_nil _).symm hlive
    refine ⟨hsum.isSome_iff, ?_⟩
    intro node hnode inner hinner
    have hsome := (hsum.isSome_iff node).2 ⟨hnode, by rw [hinner]; rfl⟩
    obtain ⟨range, hrange⟩ := Option.isSome_iff_exists.1 hsome
    obtain ⟨hpath, hoffset⟩ := hsum.offset_eq hs node hnode range hrange
    obtain ⟨inner', hinner', hlength⟩ := hsum.length_eq hrange
    cases hinner.symm.trans hinner'
    refine ⟨hpath, ?_⟩
    rw [hrange, ← hoffset, ← hlength]
  · intro handle herror
    have hfirst := (absolute_eq_error_iff hs).1 herror
    obtain ⟨_, _, _, _, -, -, hparent, -⟩ := hfirst
    cases hparent

end SourceMap

end SolText
