import Mathlib.Logic.Function.Iterate
import SolText.Proofs.Forest.Ancestry

/-!
# A walk round by round

A walk is a loop over a list of pending nodes. Each round visits the first of them and puts its children
in front of the others, and nothing but an empty list ends the loop. What has been visited and what
remains to be visited beneath the pending nodes is the same in each round, so the loop ends, after one
round for each node of the walk.

* `Tour.step`: one round.
* `Sound.whole_step`: **a round keeps the walk as a whole** and moves one node of it from what remains
  to what has been visited.
* `Sound.whole_rounds`: the same of any number of rounds.
* `visited_rounds`: a visit with fuel is this loop, cut off.
* `Built.rounds_end_with_walk`: **the loop ends, and gives the walk by recursion over the tree**, which
  visits the root and what the root is above, each node once.
-/

namespace SolText.Forest

/-- A walk on its way: the nodes it has visited, in order, and those that are pending. -/
structure Tour where
  visited : List Handle
  pending : List Handle
  deriving DecidableEq

namespace Tour

/-- A walk that is about to visit its root. -/
def start (root : Handle) : Tour := { visited := [], pending := [root] }

/-- One round of the loop. There is none if no node is pending. -/
def step (forest : Forest) : Tour → Tour
  | ⟨visited, []⟩ => ⟨visited, []⟩
  | ⟨visited, handle :: pending⟩ => ⟨visited ++ [handle], forest.children handle ++ pending⟩

/-- The nodes that are still to be visited. -/
def remaining (forest : Forest) (tour : Tour) : List Handle := tour.pending.flatMap forest.walk

/-- All nodes of the walk: those that have been visited and those that remain. -/
def whole (forest : Forest) (tour : Tour) : List Handle := tour.visited ++ tour.remaining forest

end Tour

open Tour

variable {forest : Forest} {root : Nat} {tour : Tour}

theorem Sound.remaining_eq_nil_iff (hs : forest.Sound) :
    tour.remaining forest = [] ↔ tour.pending = [] := by
  unfold remaining
  cases tour.pending with
  | nil => simp
  | cons handle pending =>
    rw [List.flatMap_cons, hs.walk_eq handle]
    simp

/-- **A round keeps the walk as a whole.** -/
theorem Sound.whole_step (hs : forest.Sound) (tour : Tour) :
    (tour.step forest).whole forest = tour.whole forest := by
  obtain ⟨visited, pending⟩ := tour
  cases pending with
  | nil => rfl
  | cons handle pending =>
    simp only [whole, remaining, step]
    rw [List.flatMap_append, List.flatMap_cons, hs.walk_eq handle]
    simp

/-- A round visits one node as long as there is one. -/
theorem length_visited_step (h : tour.pending ≠ []) :
    (tour.step forest).visited.length = tour.visited.length + 1 := by
  obtain ⟨visited, pending⟩ := tour
  cases pending with
  | nil => exact absurd rfl h
  | cons handle pending => simp [step]

theorem step_eq_self (h : tour.pending = []) : tour.step forest = tour := by
  obtain ⟨visited, pending⟩ := tour
  cases h
  rfl

theorem Sound.whole_rounds (hs : forest.Sound) (root rounds : Nat) :
    ((step forest)^[rounds] (start root)).whole forest = forest.walk root := by
  induction rounds with
  | zero => simp [whole, remaining, start]
  | succ rounds ih => rw [Function.iterate_succ_apply', hs.whole_step, ih]

/-- A visit with fuel is the loop, cut off after as many rounds. -/
theorem visited_rounds (forest : Forest) (rounds : Nat) (visited pending : List Nat) :
    ((step forest)^[rounds] ⟨visited, pending⟩).visited = visited ++ forest.visit rounds pending := by
  induction rounds generalizing visited pending with
  | zero => cases pending <;> simp [visit]
  | succ rounds ih =>
    rw [Function.iterate_succ_apply]
    cases pending with
    | nil =>
      rw [step, ih]
      cases rounds <;> rfl
    | cons handle pending =>
      rw [step, ih, visit]
      simp

/-- As long as the loop goes on, it has visited one node in each round. -/
theorem length_visited_rounds (forest : Forest) (root rounds : Nat) :
    ((step forest)^[rounds] (start root)).visited.length ≤ rounds ∧
      (((step forest)^[rounds] (start root)).pending ≠ [] →
        ((step forest)^[rounds] (start root)).visited.length = rounds) := by
  induction rounds with
  | zero => simp [start]
  | succ rounds ih =>
    rw [Function.iterate_succ_apply']
    generalize (step forest)^[rounds] (start root) = tour at ih ⊢
    by_cases h : tour.pending = []
    · rw [step_eq_self h]
      exact ⟨Nat.le_succ_of_le ih.1, fun hne => absurd h hne⟩
    · have hlength := ih.2 h
      rw [length_visited_step h]
      exact ⟨by omega, fun _ => by omega⟩

/-- Once no node is pending, the walk is complete. -/
theorem Sound.visited_eq_walk (hs : forest.Sound) {rounds : Nat}
    (h : ((step forest)^[rounds] (start root)).pending = []) :
    ((step forest)^[rounds] (start root)).visited = forest.walk root := by
  have hwhole := hs.whole_rounds root rounds
  unfold whole at hwhole
  rwa [hs.remaining_eq_nil_iff.2 h, List.append_nil] at hwhole

/-- The loop takes one round for each node of the walk. -/
theorem Sound.pending_eq_nil_iff (hs : forest.Sound) (root rounds : Nat) :
    ((step forest)^[rounds] (start root)).pending = [] ↔ (forest.walk root).length ≤ rounds := by
  obtain ⟨hle, heq⟩ := length_visited_rounds forest root rounds
  constructor
  · intro h
    rwa [hs.visited_eq_walk h] at hle
  · intro hrounds
    -- a pending node remains to be visited, after one node for each round
    by_contra hpending
    have hremaining := List.length_pos_of_ne_nil (mt hs.remaining_eq_nil_iff.1 hpending)
    have hlength := congrArg List.length (hs.whole_rounds root rounds)
    rw [whole, List.length_append, heq hpending] at hlength
    omega

theorem Sound.length_walk_le (hs : forest.Sound) (hroot : root < forest.size) :
    (forest.walk root).length ≤ forest.size := by
  have hsub : forest.walk root ⊆ List.range forest.size := by
    intro node hnode
    exact List.mem_range.2 (hs.lt_size_of_mem_walk hroot hnode)
  simpa using (List.subperm_of_subset (hs.nodup_walk root) hsub).length_le

/-- A walk visits its root and what the root is above. -/
theorem Sound.mem_walk_iff_ancestors (hs : forest.Sound) {node : Nat} :
    node ∈ forest.walk root ↔ node = root ∨ root ∈ forest.ancestors node := by
  rw [hs.mem_ancestors_iff]
  by_cases he : node = root
  · simp [he, hs.root_mem_walk]
  · simp [he]

/-- **The loop of a walk ends**, after as many rounds as there are nodes to visit and no more than the
forest has nodes. What it has visited then is the root and the walks from its children in order, no node
twice, and of all nodes these are the root and those that the root is above. -/
theorem Built.rounds_end_with_walk (hb : forest.Built) (hroot : root < forest.size) :
    (∀ rounds, ((step forest)^[rounds] (start root)).visited = forest.visit rounds [root]) ∧
      (∀ rounds, ((step forest)^[rounds] (start root)).pending = [] ↔
        (forest.walk root).length ≤ rounds) ∧
      (∀ rounds, ((step forest)^[rounds] (start root)).pending = [] →
        ((step forest)^[rounds] (start root)).visited = forest.walk root) ∧
      (forest.walk root).length ≤ forest.size ∧
      forest.walk root = root :: (forest.children root).flatMap forest.walk ∧
      (forest.walk root).Nodup ∧
      ∀ node : Nat, node ∈ forest.walk root ↔ node = root ∨ root ∈ forest.ancestors node := by
  have hs := hb.sound
  exact ⟨fun rounds => visited_rounds forest rounds [] [root], hs.pending_eq_nil_iff root,
    fun _ h => hs.visited_eq_walk h, hs.length_walk_le hroot, hs.walk_eq root, hs.nodup_walk root,
    fun _ => hs.mem_walk_iff_ancestors⟩

/-- A loop over two statements takes six rounds, and the statement beside them is not visited. -/
theorem rounds_end_with_walk_block :
    ∃ forest, Forest.ofNodes [.identifier "a", .identifier "b", .binaryOperation "+" 0 1,
        .expressionStatement 2, .breakStatement, .block [3, 4], .continueStatement,
        .block [5, 6]] = .ok forest ∧
      forest.walk 5 = [5, 3, 2, 0, 1, 4] ∧
      ((step forest)^[3] (start 5)) = ⟨[5, 3, 2], [0, 1, 4]⟩ ∧
      ((step forest)^[5] (start 5)).pending ≠ [] ∧ ((step forest)^[6] (start 5)).pending = [] ∧
      ((step forest)^[6] (start 5)).visited = forest.walk 5 ∧
      (forest.walk 5).Nodup ∧ 5 ∈ forest.ancestors 0 ∧ 5 ∉ forest.ancestors 6 := by
  have hforest : Forest.ofNodes [.identifier "a", .identifier "b", .binaryOperation "+" 0 1,
      .expressionStatement 2, .breakStatement, .block [3, 4], .continueStatement, .block [5, 6]] =
      .ok ⟨#[⟨.identifier "a", some 2, []⟩, ⟨.identifier "b", some 2, []⟩,
        ⟨.binaryOperation "+" 0 1, some 3, [0, 1]⟩, ⟨.expressionStatement 2, some 5, [2]⟩,
        ⟨.breakStatement, some 5, []⟩, ⟨.block [3, 4], some 7, [3, 4]⟩,
        ⟨.continueStatement, some 7, []⟩, ⟨.block [5, 6], none, [5, 6]⟩]⟩ := rfl
  obtain ⟨-, hends, hvisited, -, -, hnodup, habove⟩ :=
    @Built.rounds_end_with_walk _ 5 (Forest.Built.ofNodes hforest) (by decide)
  have hsix := (hends 6).2 (by decide)
  refine ⟨_, hforest, rfl, rfl, mt (hends 5).1 (by decide), hsix, hvisited 6 hsix, hnodup, ?_, ?_⟩
  · exact ((habove 0).1 (by decide)).resolve_left (by decide)
  · exact fun hmem => absurd ((habove 6).2 (Or.inr hmem)) (by decide)

end SolText.Forest
