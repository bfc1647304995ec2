import SolText.Proofs.Except
import SolText.Proofs.Forest.Order
import SolText.Proofs.Map
import SolText.SourceMap.Absolute

/-!
# Adding up offsets

Offsets are added up from the root down. A range is added to that of the parent, which stays as it is
from then on. What can stop this is a node that has a range while its parent has none.

* `SourceMap.Summed`: the visited nodes have their offsets added up.
* `SourceMap.Detached`: a node that has a range while its parent has none.
* `SourceMap.Summed.addUp_eq_error_iff`: a step fails at a detached node only.
* `SourceMap.exists_absolute`: **offsets can be added up over a whole tree** when no node has a range
  without its parent.
-/

namespace SolText.SourceMap

variable {forest : Forest} {root node parent handle : Nat} {relative placed next live : RangeMap}
  {range inner outer : Range} {visited after : List Nat} {error : PlacementError}

theorem absolute_eq : absolute forest root relative =
    (forest.walk root).foldlM (addUp Nat.add forest root relative) ∅ := rfl

/-- What one step does. -/
theorem addUp_eq_ok_iff : addUp Nat.add forest root relative placed handle = .ok next ↔
    (relative[handle]? = none ∧ next = placed) ∨
    (∃ inner, relative[handle]? = some inner ∧ handle = root ∧ next = placed.insert handle inner) ∨
    ∃ inner parent outer, relative[handle]? = some inner ∧ handle ≠ root ∧
      forest.parent handle = some parent ∧ placed[parent]? = some outer ∧
      next = placed.insert handle ⟨outer.offset + inner.offset, inner.length⟩ := by
  unfold addUp
  cases relative[handle]? with
  | none => simp [eq_comm]
  | some inner =>
    by_cases hroot : handle = root
    · simp [hroot, eq_comm]
    · cases hp : forest.parent handle with
      | none => simp [hroot]
      | some parent =>
        cases hout : placed[parent]? with
        | none => simp [hroot, hout]
        | some outer => simp [hroot, hout, eq_comm]

/-- The visited nodes that have ranges have them with the offsets added up. -/
structure Summed (forest : Forest) (root : Handle) (relative : RangeMap) (visited : List Nat)
    (placed : RangeMap) : Prop where
  isSome_iff : ∀ node : Nat, (placed[node]?).isSome ↔ node ∈ visited ∧ (relative[node]?).isSome
  root_eq : ∀ range, placed[root]? = some range → relative[root]? = some range
  child_eq : ∀ (node : Nat) (range : Range), node ≠ root → placed[node]? = some range →
    ∃ parent outer inner, forest.parent node = some parent ∧ placed[parent]? = some outer ∧
      relative[node]? = some inner ∧ range = ⟨outer.offset + inner.offset, inner.length⟩

theorem Summed.nil : Summed forest root relative [] ∅ := by
  refine ⟨fun node => ?_, fun range h => ?_, fun node range _ h => ?_⟩
  · rw [Std.TreeMap.getElem?_emptyc]; simp
  · rw [Std.TreeMap.getElem?_emptyc] at h; cases h
  · rw [Std.TreeMap.getElem?_emptyc] at h; cases h

/-- A new range leaves the others as they are. -/
theorem Summed.insert (hsum : Summed forest root relative visited placed) (hnew : node ∉ visited)
    (hrel : (relative[node]?).isSome) (hroot : node = root → relative[node]? = some range)
    (hchild : node ≠ root → ∃ parent outer inner, forest.parent node = some parent ∧
      placed[parent]? = some outer ∧ relative[node]? = some inner ∧
      range = ⟨outer.offset + inner.offset, inner.length⟩) :
    Summed forest root relative (visited ++ [node]) (placed.insert node range) := by
  have hnone : placed[node]? = none := by
    rw [← Option.not_isSome_iff_eq_none, hsum.isSome_iff]
    exact fun h => hnew h.1
  have hext : Map.Within placed (placed.insert node range) := Map.within_insert hnone
  refine ⟨fun key => ?_, fun value h => ?_, fun key value hne h => ?_⟩
  · rw [Map.getElem?_insert, List.mem_append, List.mem_singleton]
    by_cases he : key = node
    · simp [he, hrel]
    · simp only [he, or_false]
      exact hsum.isSome_iff key
  · rw [Map.getElem?_insert] at h
    by_cases he : root = node
    · rw [if_pos he] at h
      cases h
      rw [he]
      exact hroot he.symm
    · rw [if_neg he] at h
      exact hsum.root_eq value h
  · rw [Map.getElem?_insert] at h
    by_cases he : key = node
    · rw [if_pos he] at h
      cases h
      obtain ⟨p, outer, inner, hp, hout, hinner, hrange⟩ := hchild (he ▸ hne)
      exact ⟨p, outer, inner, he ▸ hp, hext p outer hout, he ▸ hinner, hrange⟩
    · rw [if_neg he] at h
      obtain ⟨p, outer, inner, hp, hout, hinner, hrange⟩ := hsum.child_eq key value hne h
      exact ⟨p, outer, inner, hp, hext p outer hout, hinner, hrange⟩

/-- One step keeps the offsets added up. -/
theorem Summed.step (hsum : Summed forest root relative visited placed) (hnew : node ∉ visited)
    (h : addUp Nat.add forest root relative placed node = .ok next) :
    Summed forest root relative (visited ++ [node]) next := by
  rcases addUp_eq_ok_iff.1 h with ⟨hnone, rfl⟩ | ⟨inner, hinner, hroot, rfl⟩ |
    ⟨inner, p, outer, hinner, hne, hp, hout, rfl⟩
  · refine ⟨fun key => ?_, hsum.root_eq, hsum.child_eq⟩
    rw [hsum.isSome_iff, List.mem_append, List.mem_singleton]
    constructor
    · rintro ⟨hmem, hsome⟩
      exact ⟨Or.inl hmem, hsome⟩
    · rintro ⟨hmem | rfl, hsome⟩
      · exact ⟨hmem, hsome⟩
      · rw [hnone] at hsome; cases hsome
  · exact hsum.insert hnew (by rw [hinner]; rfl) (fun _ => hinner) (fun hne => absurd hroot hne)
  · exact hsum.insert hnew (by rw [hinner]; rfl) (fun he => absurd he hne)
      (fun _ => ⟨p, outer, inner, hp, hout, hinner, rfl⟩)

/-! ### Nodes without a parent to add to -/

/-- A node has a range, and its parent has none. -/
structure Detached (forest : Forest) (root : Handle) (relative : RangeMap) (node parent : Handle) :
    Prop where
  ne_root : node ≠ root
  isSome : (relative[node]?).isSome
  parent_eq : forest.parent node = some parent
  none_eq : relative[parent]? = none

theorem addUp_eq_error_iff : addUp Nat.add forest root relative placed handle = .error error ↔
    (relative[handle]?).isSome ∧ handle ≠ root ∧
      ((forest.parent handle = none ∧ error = .forest (.unknown handle)) ∨
        ∃ parent, forest.parent handle = some parent ∧ placed[parent]? = none ∧
          error = .parentUnplaced handle parent (forest.dump handle)) := by
  unfold addUp
  cases relative[handle]? with
  | none => simp
  | some inner =>
    by_cases hroot : handle = root
    · simp [hroot]
    · cases hp : forest.parent handle with
      | none => simp [hroot, eq_comm]
      | some parent =>
        simp only [hroot, if_false, ne_eq, not_false_eq_true, Option.some.injEq, exists_eq_left']
        cases placed[parent]? with
        | none => simp [eq_comm]
        | some outer => simp

/-- **A step fails at a detached node only.** A node of a walk other than the root has a parent, which
was visited before. -/
theorem Summed.addUp_eq_error_iff (hs : forest.Sound)
    (hsum : Summed forest root relative visited placed)
    (hwalk : forest.walk root = visited ++ node :: after) :
    addUp Nat.add forest root relative placed node = .error error ↔
      ∃ parent, Detached forest root relative node parent ∧
        error = .parentUnplaced node parent (forest.dump node) := by
  rw [SourceMap.addUp_eq_error_iff]
  constructor
  · rintro ⟨hsome, hne, herror⟩
    obtain ⟨⟨p, hp, hc⟩, -⟩ := hs.visited_before root visited after node hwalk hne
    rcases herror with ⟨hnone, -⟩ | ⟨parent, hparent, hplaced, rfl⟩
    · rw [hs.parent_eq_iff.2 hc] at hnone
      cases hnone
    · cases (hs.parent_eq_iff.2 hc).symm.trans hparent
      have hrel : ¬(relative[p]?).isSome := by
        intro hrel
        have hsome := (hsum.isSome_iff p).2 ⟨hp, hrel⟩
        rw [hplaced] at hsome
        cases hsome
      exact ⟨p, ⟨hne, hsome, hparent, Option.not_isSome_iff_eq_none.1 hrel⟩, rfl⟩
  · rintro ⟨parent, hd, rfl⟩
    refine ⟨hd.isSome, hd.ne_root, Or.inr ⟨parent, hd.parent_eq, ?_, rfl⟩⟩
    rw [← Option.not_isSome_iff_eq_none, hsum.isSome_iff, hd.none_eq]
    simp

/-- A node whose offset has been added up is not detached. -/
theorem Summed.not_detached (hsum : Summed forest root relative visited placed) (h : node ∈ visited) :
    ¬Detached forest root relative node parent := by
  intro hd
  obtain ⟨range, hrange⟩ := Option.isSome_iff_exists.1 ((hsum.isSome_iff node).2 ⟨h, hd.isSome⟩)
  obtain ⟨p, outer, inner, hp, hout, -, -⟩ := hsum.child_eq node range hd.ne_root hrange
  cases hp.symm.trans hd.parent_eq
  have hrel := ((hsum.isSome_iff parent).1 (by rw [hout]; rfl)).2
  rw [hd.none_eq] at hrel
  cases hrel

/-- Offsets can be added up as far as no node is detached. -/
theorem exists_foldlM_addUp (hs : forest.Sound) (hwalk : forest.walk root = visited ++ after)
    (hno : ∀ node ∈ visited, ∀ parent, ¬Detached forest root relative node parent) :
    ∃ placed, visited.foldlM (addUp Nat.add forest root relative) ∅ = .ok placed ∧
      Summed forest root relative visited placed := by
  refine exists_foldlM_eq_ok (Summed forest root relative) .nil ?_
  rintro before node rest placed rfl hsum
  rw [List.append_assoc, List.cons_append] at hwalk
  cases hstep : addUp Nat.add forest root relative placed node with
  | ok next => exact ⟨next, rfl, hsum.step (hs.not_mem_before hwalk) hstep⟩
  | error error =>
    obtain ⟨parent, hd, -⟩ := (hsum.addUp_eq_error_iff hs hwalk).1 hstep
    exact absurd hd (hno node (List.mem_append_right _ List.mem_cons_self) parent)

/-- **Offsets can be added up** over a whole tree when no node has a range without its parent. -/
theorem exists_absolute (hs : forest.Sound)
    (hclosed : ∀ parent ∈ forest.walk root, ∀ child ∈ forest.children parent,
      (relative[child]?).isSome → (relative[parent]?).isSome) :
    ∃ live, absolute forest root relative = .ok live ∧
      Summed forest root relative (forest.walk root) live := by
  refine exists_foldlM_addUp hs (List.append_nil _).symm ?_
  intro node hnode parent hd
  obtain ⟨p, hp, hc⟩ := hs.exists_parent hnode hd.ne_root
  cases (hs.parent_eq_iff.2 hc).symm.trans hd.parent_eq
  have hsome := hclosed parent hp node hc hd.isSome
  rw [hd.none_eq] at hsome
  cases hsome

end SolText.SourceMap
