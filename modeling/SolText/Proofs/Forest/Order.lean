import Mathlib.Data.List.Induction
import Mathlib.Data.List.Perm.Subperm
import SolText.Forest.Walk
import SolText.Proofs.Forest.Shape

/-!
# The order of a walk

A walk keeps the nodes that are still to be visited in a list. In a sound forest that comes to the
same as visiting a node and then walking from each of its children in turn.

* `Sound.walk_eq`: a walk by recursion over the tree.
* `Sound.nodup_walk`: **no node is visited twice.**
* `Sound.walk_induction`: what holds of the root and passes from parents to children holds of every
  node of a walk.
* `Sound.visited_before`: parents and previous siblings are visited earlier.
-/

namespace SolText.Forest

variable {forest : Forest} {root handle child parent node : Nat}

/-- What holds of a node if it holds of its children holds of every node. -/
theorem Sound.induction (hs : forest.Sound) {P : Nat → Prop}
    (step : ∀ handle : Nat, (∀ child ∈ forest.children handle, P child) → P handle) :
    ∀ handle, P handle := by
  intro handle
  induction handle using Nat.strongRecOn with
  | _ handle ih => exact step handle fun child hc => ih child (hs.child_lt hc)

/-- What holds of a child if it holds of its elder siblings holds of every child. -/
theorem children_induction {P : Nat → Prop}
    (step : ∀ elder child younger, forest.children parent = elder ++ child :: younger →
      (∀ sibling ∈ elder, P sibling) → P child) : ∀ child ∈ forest.children parent, P child := by
  have key : ∀ elder younger, forest.children parent = elder ++ younger → ∀ s ∈ elder, P s := by
    intro elder
    induction elder using List.reverseRecOn with
    | nil => intro _ _ s hs; exact absurd hs List.not_mem_nil
    | append_singleton elder c ih =>
      intro younger hch s hs
      rw [List.append_assoc, List.singleton_append] at hch
      have helder := ih (c :: younger) hch
      rcases List.mem_append.1 hs with hs | hs
      · exact helder s hs
      · rw [List.mem_singleton.1 hs]
        exact step elder c younger hch helder
  exact key _ [] (List.append_nil _).symm

/-! ### Recursion over the tree -/

/-- A node and what is beneath it, down to `depth` levels. -/
def preorderWithin (forest : Forest) : (depth : Nat) → Handle → List Handle
  | 0, _ => []
  | depth + 1, handle => handle :: (forest.children handle).flatMap (preorderWithin forest depth)

theorem Sound.preorderWithin_eq (hs : forest.Sound) :
    ∀ handle a b : Nat, handle < a → handle < b →
      forest.preorderWithin a handle = forest.preorderWithin b handle := by
  refine hs.induction fun handle ih a b ha hb => ?_
  obtain ⟨a, rfl⟩ : ∃ a', a = a' + 1 := ⟨a - 1, by omega⟩
  obtain ⟨b, rfl⟩ : ∃ b', b = b' + 1 := ⟨b - 1, by omega⟩
  unfold preorderWithin
  congr 1
  apply List.flatMap_congr
  intro c hc
  have hlt := hs.child_lt hc
  exact ih c hc a b (by omega) (by omega)

/-- A node and everything beneath it. A node has fewer levels beneath it than its handle says. -/
def preorder (forest : Forest) (handle : Handle) : List Handle :=
  forest.preorderWithin (handle + 1) handle

theorem Sound.preorder_eq (hs : forest.Sound) (handle : Nat) :
    forest.preorder handle = handle :: (forest.children handle).flatMap forest.preorder := by
  unfold preorder
  rw [preorderWithin]
  congr 1
  apply List.flatMap_congr
  intro c hc
  have hlt := hs.child_lt hc
  exact hs.preorderWithin_eq c _ _ hlt (by omega)

/-- Fuel cuts a visit short and does nothing else. -/
theorem Sound.visit_eq (hs : forest.Sound) (fuel : Nat) (pending : List Nat) :
    forest.visit fuel pending = (pending.flatMap forest.preorder).take fuel := by
  induction fuel generalizing pending with
  | zero => cases pending <;> simp [visit]
  | succ fuel ih =>
    cases pending with
    | nil => simp [visit]
    | cons handle pending =>
      rw [visit, ih, List.flatMap_cons, hs.preorder_eq handle, List.flatMap_append]
      simp only [List.cons_append, List.take_succ_cons]

theorem Sound.le_of_mem_preorder (hs : forest.Sound) :
    ∀ handle node : Nat, node ∈ forest.preorder handle → node ≤ handle := by
  refine hs.induction fun handle ih node hn => ?_
  rw [hs.preorder_eq, List.mem_cons, List.mem_flatMap] at hn
  rcases hn with rfl | ⟨c, hc, hn⟩
  · exact Nat.le_refl _
  · exact Nat.le_of_lt (Nat.lt_of_le_of_lt (ih c hc node hn) (hs.child_lt hc))

/-- A node beneath another has its parent there too. -/
theorem Sound.parent_mem_preorder (hs : forest.Sound) :
    ∀ root node : Nat, node ∈ forest.preorder root → node ≠ root →
      ∃ parent : Nat, parent ∈ forest.preorder root ∧ node ∈ forest.children parent := by
  refine hs.induction fun root ih node hn hne => ?_
  rw [hs.preorder_eq, List.mem_cons, List.mem_flatMap] at hn
  obtain ⟨c, hc, hn⟩ := hn.resolve_left hne
  rw [hs.preorder_eq]
  by_cases hnc : node = c
  · exact ⟨root, List.mem_cons_self, hnc ▸ hc⟩
  · obtain ⟨p, hp, hmem⟩ := ih c hc node hn hnc
    exact ⟨p, List.mem_cons_of_mem _ (List.mem_flatMap.2 ⟨c, hc, hp⟩), hmem⟩

/-- A node is beneath one child only: going up from it, the two ways would meet at the parent of
both children, which is beneath neither. -/
theorem Sound.preorder_disjoint (hs : forest.Sound) {a b : Nat} (ha : a ∈ forest.children parent)
    (hb : b ∈ forest.children parent) (hab : a ≠ b) {node : Nat} (hna : node ∈ forest.preorder a) :
    node ∉ forest.preorder b := by
  have hla := hs.child_lt ha
  have hlb := hs.child_lt hb
  -- a step up goes to a larger handle, and handles beneath `a` are at most `a`
  induction hd : a - node using Nat.strongRecOn generalizing node with
  | _ d ih =>
    intro hnb
    have hle := hs.le_of_mem_preorder a node hna
    by_cases hnea : node = a
    · obtain ⟨p, hp, hmem⟩ := hs.parent_mem_preorder b node hnb (hnea ▸ hab)
      have hpp : parent = p := hs.parent_unique ha (hnea ▸ hmem)
      have := hs.le_of_mem_preorder b p hp
      omega
    · obtain ⟨p, hp, hmem⟩ := hs.parent_mem_preorder a node hna hnea
      have hpa := hs.le_of_mem_preorder a p hp
      have hlt := hs.child_lt hmem
      by_cases hneb : node = b
      · have hpp : parent = p := hs.parent_unique hb (hneb ▸ hmem)
        omega
      · obtain ⟨p', hp', hmem'⟩ := hs.parent_mem_preorder b node hnb hneb
        have hpp : p = p' := hs.parent_unique hmem hmem'
        exact ih (a - p) (by omega) hp rfl (hpp ▸ hp')

theorem Sound.nodup_preorder (hs : forest.Sound) : ∀ root : Nat, (forest.preorder root).Nodup := by
  refine hs.induction fun root ih => ?_
  rw [hs.preorder_eq, List.nodup_cons]
  constructor
  · intro hmem
    obtain ⟨c, hc, hn⟩ := List.mem_flatMap.1 hmem
    have hle := hs.le_of_mem_preorder c root hn
    have hlt := hs.child_lt hc
    omega
  · rw [List.nodup_flatMap]
    refine ⟨ih, ?_⟩
    apply (hs.nodup root).imp_of_mem
    intro a b ha hb hab node hna hnb
    exact hs.preorder_disjoint ha hb hab hna hnb

theorem Sound.length_preorder_le (hs : forest.Sound) (root : Nat) :
    (forest.preorder root).length ≤ forest.size + 1 := by
  rcases Nat.lt_or_ge root forest.size with hr | hr
  · have hsub : forest.preorder root ⊆ List.range forest.size := by
      intro n hn
      have hle := hs.le_of_mem_preorder root n hn
      rw [List.mem_range]
      omega
    have hlen := (List.subperm_of_subset (hs.nodup_preorder root) hsub).length_le
    rw [List.length_range] at hlen
    omega
  · rw [hs.preorder_eq, children_eq_nil hr]
    simp

/-! ### Walks -/

/-- The size of the forest is enough fuel. -/
theorem Sound.walk_eq_preorder (hs : forest.Sound) (root : Nat) :
    forest.walk root = forest.preorder root := by
  unfold walk
  rw [hs.visit_eq, List.flatMap_singleton, List.take_of_length_le (hs.length_preorder_le root)]

/-- **A walk by recursion over the tree.** -/
theorem Sound.walk_eq (hs : forest.Sound) (root : Nat) :
    forest.walk root = root :: (forest.children root).flatMap forest.walk := by
  rw [hs.walk_eq_preorder, hs.preorder_eq]
  congr 1
  apply List.flatMap_congr
  intro c _
  exact (hs.walk_eq_preorder c).symm

/-- **No node is visited twice.** -/
theorem Sound.nodup_walk (hs : forest.Sound) (root : Nat) : (forest.walk root).Nodup := by
  rw [hs.walk_eq_preorder]
  exact hs.nodup_preorder root

theorem Sound.not_mem_before (hs : forest.Sound) {before after : List Nat}
    (h : forest.walk root = before ++ node :: after) : node ∉ before := by
  have hnd := hs.nodup_walk root
  rw [h] at hnd
  exact fun hmem => (List.nodup_append.1 hnd).2.2 node hmem node List.mem_cons_self rfl

theorem Sound.mem_walk_iff (hs : forest.Sound) :
    node ∈ forest.walk root ↔ node = root ∨ ∃ child ∈ forest.children root, node ∈ forest.walk child := by
  rw [hs.walk_eq, List.mem_cons, List.mem_flatMap]

theorem Sound.root_mem_walk (hs : forest.Sound) (root : Nat) : root ∈ forest.walk root :=
  hs.mem_walk_iff.2 (Or.inl rfl)

theorem Sound.le_of_mem_walk (hs : forest.Sound) (h : node ∈ forest.walk root) : node ≤ root := by
  rw [hs.walk_eq_preorder] at h
  exact hs.le_of_mem_preorder root node h

theorem Sound.lt_size_of_mem_walk (hs : forest.Sound) (hroot : root < forest.size)
    (h : node ∈ forest.walk root) : node < forest.size :=
  Nat.lt_of_le_of_lt (hs.le_of_mem_walk h) hroot

/-- The children of a visited node are visited. -/
theorem Sound.child_mem_walk (hs : forest.Sound) :
    ∀ root : Nat, ∀ parent ∈ forest.walk root, ∀ child ∈ forest.children parent,
      child ∈ forest.walk root := by
  refine hs.induction fun root ih p hp c hc => ?_
  rw [hs.mem_walk_iff] at hp ⊢
  rcases hp with rfl | ⟨d, hd, hp⟩
  · exact Or.inr ⟨c, hc, hs.root_mem_walk c⟩
  · exact Or.inr ⟨d, hd, ih d hd p hp c hc⟩

/-- The root is not a child of a visited node. -/
theorem Sound.ne_root (hs : forest.Sound) (hp : parent ∈ forest.walk root)
    (hc : child ∈ forest.children parent) : child ≠ root := by
  have hlt := hs.child_lt hc
  have hle := hs.le_of_mem_walk hp
  omega

/-- The parent of a visited node is visited, unless the walk starts at the node. -/
theorem Sound.exists_parent (hs : forest.Sound) (h : node ∈ forest.walk root) (hne : node ≠ root) :
    ∃ parent : Nat, parent ∈ forest.walk root ∧ node ∈ forest.children parent := by
  rw [hs.walk_eq_preorder] at h ⊢
  exact hs.parent_mem_preorder root node h hne

/-- The nodes above a child are those above its parent. -/
theorem Sound.child_mem_walk_iff (hs : forest.Sound) (hc : child ∈ forest.children parent) :
    child ∈ forest.walk handle ↔ child = handle ∨ parent ∈ forest.walk handle := by
  constructor
  · intro h
    by_cases he : child = handle
    · exact Or.inl he
    · obtain ⟨p, hp, hmem⟩ := hs.exists_parent h he
      exact Or.inr (hs.parent_unique hc hmem ▸ hp)
  · rintro (rfl | hp)
    · exact hs.root_mem_walk _
    · exact hs.child_mem_walk handle parent hp child hc

/-- **Induction from the root down.** -/
theorem Sound.walk_induction (hs : forest.Sound) {P : Nat → Prop} (hroot : P root)
    (hstep : ∀ parent ∈ forest.walk root, P parent → ∀ child ∈ forest.children parent, P child) :
    ∀ node ∈ forest.walk root, P node := by
  -- a parent is larger than its children, and all are at most the root
  intro node hn
  induction hd : root - node using Nat.strongRecOn generalizing node with
  | _ d ih =>
    by_cases hne : node = root
    · exact hne ▸ hroot
    · obtain ⟨p, hp, hmem⟩ := hs.exists_parent hn hne
      have hlt := hs.child_lt hmem
      have hle := hs.le_of_mem_walk hp
      exact hstep p hp (ih (root - p) (by omega) p hp rfl) node hmem

/-! ### What comes earlier -/

/-- A member of two lists put together stands in the first, or in the second behind all of the
first. -/
theorem append_eq_append_cons {α : Type} {a b before after : List α} {x : α}
    (h : a ++ b = before ++ x :: after) :
    (∃ rest, a = before ++ x :: rest) ∨ ∃ middle, before = a ++ middle ∧ b = middle ++ x :: after := by
  rcases List.append_eq_append_iff.1 h with ⟨middle, hb, hc⟩ | ⟨rest, ha, hc⟩
  · exact Or.inr ⟨middle, hb, hc⟩
  · cases rest with
    | nil =>
      refine Or.inr ⟨[], ?_, ?_⟩
      · rw [ha, List.append_nil, List.append_nil]
      · rw [List.nil_append] at hc ⊢
        exact hc.symm
    | cons y rest =>
      rw [List.cons_append, List.cons.injEq] at hc
      exact Or.inl ⟨rest, by rw [ha, hc.1]⟩

/-- A node met while walking from several nodes in turn is met in the walk from one of them, behind
the walks from those before it. -/
theorem exists_of_flatMap_eq {α β : Type} {f : α → List β} {l : List α} {before after : List β} {x : β}
    (h : l.flatMap f = before ++ x :: after) :
    ∃ l₁ a l₂ middle rest, l = l₁ ++ a :: l₂ ∧ f a = middle ++ x :: rest ∧
      before = l₁.flatMap f ++ middle := by
  induction l generalizing before with
  | nil => simp at h
  | cons a l ih =>
    rw [List.flatMap_cons] at h
    rcases append_eq_append_cons h with ⟨rest, hfa⟩ | ⟨middle, rfl, htail⟩
    · exact ⟨[], a, l, before, rest, rfl, hfa, by simp⟩
    · obtain ⟨l₁, a', l₂, mid, rest, rfl, hfa, rfl⟩ := ih htail
      exact ⟨a :: l₁, a', l₂, mid, rest, rfl, hfa, by simp⟩

/-- Before a node its parent was visited, and so was its previous sibling. -/
theorem Sound.visited_before (hs : forest.Sound) :
    ∀ (root : Nat) (before after : List Nat) (node : Nat),
      forest.walk root = before ++ node :: after → node ≠ root →
      (∃ parent ∈ before, node ∈ forest.children parent) ∧
        ∀ sibling, forest.previousSibling node = some sibling → sibling ∈ before := by
  refine hs.induction fun root ih before after node hw hne => ?_
  rw [hs.walk_eq] at hw
  cases before with
  | nil =>
    rw [List.nil_append, List.cons.injEq] at hw
    exact absurd hw.1.symm hne
  | cons first before =>
    rw [List.cons_append, List.cons.injEq] at hw
    obtain ⟨rfl, hw⟩ := hw
    obtain ⟨l₁, c, l₂, middle, rest, hch, hwc, rfl⟩ := exists_of_flatMap_eq hw
    have hc : c ∈ forest.children root := hch ▸ List.mem_append_right _ List.mem_cons_self
    by_cases hnc : node = c
    · subst hnc
      refine ⟨⟨root, List.mem_cons_self, hc⟩, ?_⟩
      intro s hsib
      rw [hs.previousSibling_eq hch] at hsib
      have hmem : s ∈ l₁ := List.mem_of_getLast? hsib
      exact List.mem_cons_of_mem _ (List.mem_append_left _
        (List.mem_flatMap.2 ⟨s, hmem, hs.root_mem_walk s⟩))
    · obtain ⟨⟨p, hp, hmem⟩, hsib⟩ := ih c hc middle rest node hwc hnc
      exact ⟨⟨p, List.mem_cons_of_mem _ (List.mem_append_right _ hp), hmem⟩,
        fun s h => List.mem_cons_of_mem _ (List.mem_append_right _ (hsib s h))⟩

end SolText.Forest
