import SolText.Proofs.Forest.Order

/-!
# Above and apart

Of two nodes that a walk visits one after the other, the first is above the second or the two are
apart: then they are beneath two children of one node, in the order of these children.

* `Sound.ancestors_eq`: the nodes above a child are its parent and those above its parent.
* `Sound.mem_ancestors_iff`: **a node is above another exactly if its walk goes on to it.**
* `pathTo`: a node and the nodes above it, up to the root of a walk.
* `Sound.above_or_apart`: **two nodes of a walk are above one another or apart.**
* `Sound.elder_of_before`: siblings are visited in their order.
-/

namespace SolText.Forest

variable {forest : Forest} {root handle child parent node : Nat}

/-! ### Upward -/

/-- What holds of a node if it holds of its parent holds of every node. -/
theorem Sound.upward_induction (hs : forest.Sound) {P : Nat → Prop}
    (step : ∀ node : Nat, (∀ parent : Nat, node ∈ forest.children parent → P parent) → P node) :
    ∀ node, P node := by
  -- a parent is larger than its children, and no parent lies beyond the forest
  intro node
  induction hd : forest.size - node using Nat.strongRecOn generalizing node with
  | _ d ih =>
    apply step node
    intro parent hmem
    have hlt := hs.child_lt hmem
    have hsize := lt_size_of_mem_children hmem
    exact ih (forest.size - parent) (by omega) parent rfl

theorem lineage_none (fuel : Nat) : forest.lineage fuel none = [] := by
  cases fuel <;> rfl

/-- Fuel for every node from a handle on is enough. -/
theorem Sound.lineage_eq (hs : forest.Sound) :
    ∀ handle a b : Nat, handle < forest.size → forest.size - handle ≤ a → forest.size - handle ≤ b →
      forest.lineage a (some handle) = forest.lineage b (some handle) := by
  refine hs.upward_induction fun handle ih a b hsize ha hb => ?_
  obtain ⟨a, rfl⟩ : ∃ a', a = a' + 1 := ⟨a - 1, by omega⟩
  obtain ⟨b, rfl⟩ : ∃ b', b = b' + 1 := ⟨b - 1, by omega⟩
  rw [lineage, lineage]
  cases hp : forest.parent handle with
  | none => rw [lineage_none, lineage_none]
  | some parent =>
    have hmem := hs.parent_eq_iff.1 hp
    have hlt := hs.child_lt hmem
    have hsize' := lt_size_of_mem_children hmem
    rw [ih parent hmem a b hsize' (by omega) (by omega)]

/-- The nodes above a child are its parent and those above its parent. -/
theorem Sound.ancestors_eq (hs : forest.Sound) (h : child ∈ forest.children parent) :
    forest.ancestors child = parent :: forest.ancestors parent := by
  have hsize := lt_size_of_mem_children h
  obtain ⟨fuel, hfuel⟩ : ∃ fuel, forest.size = fuel + 1 := ⟨forest.size - 1, by omega⟩
  unfold ancestors
  rw [hs.parent_eq_iff.2 h, hfuel, lineage]
  congr 1
  cases hp : forest.parent parent with
  | none => rw [lineage_none, lineage_none]
  | some next =>
    have hmem := hs.parent_eq_iff.1 hp
    have hlt := hs.child_lt hmem
    exact hs.lineage_eq next _ _ (lt_size_of_mem_children hmem) (by omega) (by omega)

theorem ancestors_eq_nil (h : forest.parent handle = none) : forest.ancestors handle = [] := by
  unfold ancestors
  rw [h, lineage_none]

/-- **A node is above another exactly if its walk goes on to it.** -/
theorem Sound.mem_ancestors_iff (hs : forest.Sound) :
    ∀ node top : Nat, top ∈ forest.ancestors node ↔ node ≠ top ∧ node ∈ forest.walk top := by
  refine hs.upward_induction fun node ih top => ?_
  cases hp : forest.parent node with
  | none =>
    rw [ancestors_eq_nil hp]
    constructor
    · intro h
      exact absurd h List.not_mem_nil
    · rintro ⟨hne, hwalk⟩
      obtain ⟨p, -, hmem⟩ := hs.exists_parent hwalk hne
      rw [hs.parent_eq_iff.2 hmem] at hp
      cases hp
  | some p =>
    have hmem := hs.parent_eq_iff.1 hp
    have hlt := hs.child_lt hmem
    rw [hs.ancestors_eq hmem, List.mem_cons, ih p hmem, hs.child_mem_walk_iff hmem]
    constructor
    · intro h
      have hwalk : p ∈ forest.walk top := by
        rcases h with rfl | ⟨-, hwalk⟩
        · exact hs.root_mem_walk top
        · exact hwalk
      have hle := hs.le_of_mem_walk hwalk
      exact ⟨by omega, Or.inr hwalk⟩
    · rintro ⟨hne, hself | hwalk⟩
      · exact absurd hself hne
      · by_cases htop : top = p
        · exact Or.inl htop
        · exact Or.inr ⟨Ne.symm htop, hwalk⟩

/-- What is beneath a visited node is visited. -/
theorem Sound.mem_walk_trans (hs : forest.Sound) {top : Nat} (htop : top ∈ forest.walk root)
    (h : node ∈ forest.walk top) : node ∈ forest.walk root :=
  hs.walk_induction htop (fun p _ hp c hc => hs.child_mem_walk root p hp c hc) node h

/-- The root is beneath no other visited node. -/
theorem Sound.ne_root_beneath (hs : forest.Sound) {top : Nat} (htop : top ∈ forest.walk root)
    (h : node ∈ forest.walk top) (hne : node ≠ top) : node ≠ root := by
  have hle := hs.le_of_mem_walk htop
  have hle' := hs.le_of_mem_walk h
  omega

/-! ### Paths -/

/-- A node and the nodes above it, from the node up to `root`. -/
def pathTo (forest : Forest) (root node : Handle) : List Handle :=
  (node :: forest.ancestors node).takeWhile (· ≠ root) ++ [root]

theorem pathTo_root (forest : Forest) (root : Handle) : forest.pathTo root root = [root] := by
  simp [pathTo]

/-- The path of a child is that of its parent, with the child in front. -/
theorem Sound.pathTo_child (hs : forest.Sound) (hp : parent ∈ forest.walk root)
    (hc : child ∈ forest.children parent) :
    forest.pathTo root child = child :: forest.pathTo root parent := by
  have hne := hs.ne_root hp hc
  unfold pathTo
  rw [hs.ancestors_eq hc, List.takeWhile_cons_of_pos (by simpa using hne), List.cons_append]

/-! ### Pairs of nodes -/

/-- **Two nodes of a walk are above one another or apart.** Nodes that are apart are beneath two
children of one node, the earlier beneath the elder. -/
theorem Sound.above_or_apart (hs : forest.Sound) :
    ∀ (root : Nat) (before after : List Nat) (v : Nat), forest.walk root = before ++ v :: after →
      ∀ u ∈ before, v ∈ forest.walk u ∨
        ∃ parent ∈ forest.walk root, ∃ elder b younger, forest.children parent = elder ++ b :: younger ∧
          v ∈ forest.walk b ∧ ∃ a ∈ elder, u ∈ forest.walk a := by
  refine hs.induction fun root ih before after v hw u hu => ?_
  have hv : v ∈ forest.walk root := hw ▸ List.mem_append_right _ List.mem_cons_self
  rw [hs.walk_eq] at hw
  cases before with
  | nil => exact absurd hu List.not_mem_nil
  | cons first before =>
    rw [List.cons_append, List.cons.injEq] at hw
    obtain ⟨rfl, hw⟩ := hw
    -- the later node is beneath one child, and the earlier one is the root itself, beneath an elder
    -- child or beneath the same child
    obtain ⟨l₁, c, l₂, middle, rest, hch, hwc, rfl⟩ := exists_of_flatMap_eq hw
    have hc : c ∈ forest.children root := hch ▸ List.mem_append_right _ List.mem_cons_self
    have hvc : v ∈ forest.walk c := hwc ▸ List.mem_append_right _ List.mem_cons_self
    rcases List.mem_cons.1 hu with rfl | hu
    · exact Or.inl hv
    rcases List.mem_append.1 hu with helder | hmiddle
    · obtain ⟨a, ha, hua⟩ := List.mem_flatMap.1 helder
      exact Or.inr ⟨root, hs.root_mem_walk root, l₁, c, l₂, hch, hvc, a, ha, hua⟩
    · rcases ih c hc middle rest v hwc u hmiddle with habove | ⟨p, hp, hrest⟩
      · exact Or.inl habove
      · have hpr : p ∈ forest.walk root := hs.mem_walk_iff.2 (Or.inr ⟨c, hc, hp⟩)
        exact Or.inr ⟨p, hpr, hrest⟩

/-- A node that is visited later than another is not the root. -/
theorem Sound.ne_root_of_before (hs : forest.Sound) {before after : List Nat} {u v : Nat}
    (hw : forest.walk root = before ++ v :: after) (hu : u ∈ before) : v ≠ root := by
  intro hv
  rw [hs.walk_eq] at hw
  cases before with
  | nil => exact absurd hu List.not_mem_nil
  | cons first before =>
    rw [List.cons_append, List.cons.injEq] at hw
    have hmem : v ∈ (forest.children root).flatMap forest.walk :=
      hw.2 ▸ List.mem_append_right _ List.mem_cons_self
    obtain ⟨c, hc, hvc⟩ := List.mem_flatMap.1 hmem
    have hlt := hs.child_lt hc
    have hle := hs.le_of_mem_walk hvc
    omega

/-- **Siblings are visited in their order.** -/
theorem Sound.elder_of_before (hs : forest.Sound) {before after : List Nat} {u v : Nat}
    (hw : forest.walk root = before ++ v :: after) (hu : u ∈ before)
    (hup : u ∈ forest.children parent) (hvp : v ∈ forest.children parent) :
    ∃ elder younger, forest.children parent = elder ++ v :: younger ∧ u ∈ elder := by
  have hltu := hs.child_lt hup
  rcases hs.above_or_apart root before after v hw u hu with
    habove | ⟨p, -, elder, b, younger, hch, hvb, a, ha, hua⟩
  · -- a sibling above the other would be above their parent
    rcases (hs.child_mem_walk_iff hvp).1 habove with rfl | hpu
    · exact absurd hu (hs.not_mem_before hw)
    · have hle := hs.le_of_mem_walk hpu
      omega
  · have hbp : b ∈ forest.children p := hch ▸ List.mem_append_right _ List.mem_cons_self
    have hap : a ∈ forest.children p := hch ▸ List.mem_append_left _ ha
    have hab : a ≠ b := by
      have hnd := hs.nodup p
      rw [hch] at hnd
      exact (List.nodup_append.1 hnd).2.2 a ha b List.mem_cons_self
    have hdisj : ∀ n : Nat, n ∈ forest.walk a → n ∉ forest.walk b := by
      intro n hna
      rw [hs.walk_eq_preorder] at hna ⊢
      exact hs.preorder_disjoint hap hbp hab hna
    -- with their parent beneath one child, both siblings would be
    rcases (hs.child_mem_walk_iff hup).1 hua with rfl | hpa
    · have hpp : parent = p := hs.parent_unique hup hap
      subst hpp
      rcases (hs.child_mem_walk_iff hvp).1 hvb with rfl | hpb
      · exact ⟨elder, younger, hch, ha⟩
      · have hle := hs.le_of_mem_walk hpb
        have hltb := hs.child_lt hbp
        omega
    · exact absurd hvb (hdisj v (hs.child_mem_walk a parent hpa v hvp))

end SolText.Forest
