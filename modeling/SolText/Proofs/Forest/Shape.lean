import Mathlib.Data.List.Nodup
import SolText.Forest.Basic
import SolText.Proofs.Except

/-!
# The shape of a built forest

Adding a node checks its children, then writes the new handle into their entries and keeps the list of
them in its own. So what the nodes refer to, the lists of children and the links upward stay three views
of one tree.

* `snd_checkChildren`: the check changes nothing, wherever it stops.
* `add_eq_ok_iff`, `add_eq_error`: when a node can be added, and what the forest is afterwards.
* `getElem?_add`: what adding a node changes, and what not.
* `Sound`: children are those that the node refers to, come before it, once, and name it as their parent.
* `Built.sound`: **every forest that comes about by adding nodes is sound.**
-/

namespace SolText.Forest

variable {forest next : Forest} {node : Node} {handle child parent : Nat}

/-- The lists of children of a forest hold what its nodes refer to, the links upward agree with them, and
handles decrease on the way down. -/
structure Sound (forest : Forest) : Prop where
  children_eq : ∀ {handle : Nat} {node : Node}, forest.node? handle = some node →
    forest.children handle = node.children
  child_lt : ∀ {child parent : Nat}, child ∈ forest.children parent → child < parent
  parent_eq_iff : ∀ {child parent : Nat},
    forest.parent child = some parent ↔ child ∈ forest.children parent
  nodup : ∀ parent : Nat, (forest.children parent).Nodup

/-! ### Lookups -/

theorem node?_eq_none (h : forest.size ≤ handle) : forest.node? handle = none := by
  unfold node?
  rw [Array.getElem?_eq_none h]; rfl

theorem node?_isSome (h : handle < forest.size) : ∃ node, forest.node? handle = some node := by
  unfold node?
  rw [Array.getElem?_eq_getElem h]
  exact ⟨_, rfl⟩

theorem children_eq_nil (h : forest.size ≤ handle) : forest.children handle = [] := by
  unfold children
  rw [Array.getElem?_eq_none h]

theorem lt_size_of_mem_children (h : child ∈ forest.children parent) : parent < forest.size := by
  by_contra hlt
  rw [children_eq_nil (by omega)] at h
  exact absurd h List.not_mem_nil

theorem kind_eq_ok (h : forest.node? handle = some node) : forest.kind handle = .ok node.kind := by
  unfold kind Forest.node
  rw [h]; rfl

theorem lt_size_of_kind {kind : Kind} (h : forest.kind handle = .ok kind) : handle < forest.size := by
  by_contra hge
  unfold Forest.kind Forest.node at h
  rw [node?_eq_none (Nat.le_of_not_lt hge)] at h
  cases h

/-! ### Adding one node -/

/-- A change goes on from the forest that the one before has left, unless that was refused. -/
theorem run_bind {α β : Type} (x : Growth α) (f : α → Growth β) (forest : Forest) :
    (x >>= f).run forest =
      match x.run forest with
      | (.ok a, next) => (f a).run next
      | (.error error, next) => (.error error, next) := by
  show (match x.run forest with
    | (result, next) => ExceptT.bindCont f result next) = _
  rcases x.run forest with ⟨_ | _, next⟩ <;> rfl

theorem childFault?_eq_none_iff {seen : List Nat} : forest.childFault? seen child = none ↔
    child < forest.size ∧ forest.parent child = none ∧ child ∉ seen := by
  unfold childFault? Forest.parent
  rcases Nat.lt_or_ge child forest.size with hlt | hge
  · obtain ⟨entry, hentry⟩ : ∃ entry, forest.entries[child]? = some entry :=
      ⟨_, Array.getElem?_eq_getElem hlt⟩
    rw [hentry]
    cases hp : entry.parent with
    | some parent => simp [hp]
    | none => simp [hp, hlt]
  · have hentry : forest.entries[child]? = none := Array.getElem?_eq_none hge
    rw [hentry]
    simp [Nat.not_lt.2 hge]

theorem run_checkChildren_cons (seen rest : List Nat) :
    (checkChildren seen (child :: rest)).run forest =
      match forest.childFault? seen child with
      | some fault => (.error fault, forest)
      | none => (checkChildren (child :: seen) rest).run forest := by
  rw [checkChildren, run_bind]
  show ((match forest.childFault? seen child with
    | some fault => throw fault
    | none => checkChildren (child :: seen) rest : Growth Unit)).run forest = _
  cases forest.childFault? seen child <;> rfl

/-- **The check changes nothing**, wherever it stops. -/
theorem snd_checkChildren (forest : Forest) (seen children : List Nat) :
    ((checkChildren seen children).run forest).2 = forest := by
  induction children generalizing seen with
  | nil => rfl
  | cons child rest ih =>
    rw [run_checkChildren_cons]
    cases forest.childFault? seen child with
    | some fault => rfl
    | none => exact ih (child :: seen)

/-- The children of a new node pass the check when they are known, have no parent, and are neither
repeated nor seen before. -/
theorem checkChildren_eq_ok_iff {seen children : List Nat} :
    ((checkChildren seen children).run forest).1 = .ok () ↔
      (∀ c ∈ children, c < forest.size ∧ forest.parent c = none ∧ c ∉ seen) ∧ children.Nodup := by
  induction children generalizing seen with
  | nil => exact iff_of_true rfl ⟨fun _ h => absurd h List.not_mem_nil, List.nodup_nil⟩
  | cons c rest ih =>
    rw [run_checkChildren_cons, List.nodup_cons, List.forall_mem_cons, ← childFault?_eq_none_iff]
    cases forest.childFault? seen c with
    | some fault => simp
    | none =>
      simp only [ih, List.mem_cons, not_or, true_and]
      constructor
      · rintro ⟨hrest, hnd⟩
        refine ⟨fun a ha => ?_, fun hmem => (hrest c hmem).2.2.1 rfl, hnd⟩
        obtain ⟨hlt, hparent, -, hseen⟩ := hrest a ha
        exact ⟨hlt, hparent, hseen⟩
      · rintro ⟨hrest, hnotin, hnd⟩
        refine ⟨fun a ha => ?_, hnd⟩
        obtain ⟨hlt, hparent, hseen⟩ := hrest a ha
        exact ⟨hlt, hparent, fun hac => hnotin (hac ▸ ha), hseen⟩

@[simp] theorem size_adopt (entries : Array Entry) (children : List Nat) :
    (adopt parent entries children).size = entries.size := by
  unfold adopt
  induction children generalizing entries with
  | nil => rfl
  | cons c rest ih => rw [List.foldl_cons, ih, Array.size_modify]

/-- Adoption changes the parents of the children and nothing else. -/
theorem getElem?_adopt (entries : Array Entry) (children : List Nat) :
    (adopt parent entries children)[handle]? =
      entries[handle]?.map fun entry =>
        if handle ∈ children then { entry with parent := some parent } else entry := by
  unfold adopt
  induction children generalizing entries with
  | nil => simp
  | cons c rest ih =>
    rw [List.foldl_cons, ih, Array.getElem?_modify]
    by_cases hc : c = handle
    · subst hc
      rw [if_pos rfl, Option.map_map]
      congr 1
      funext entry
      by_cases hr : c ∈ rest <;> simp [hr]
    · rw [if_neg hc]
      congr 1
      funext entry
      simp [Ne.symm hc]

/-- The new node comes in when its children have passed the check; else the forest is as it was. -/
theorem add_eq : forest.add node =
    match ((checkChildren [] node.children).run forest).1 with
    | .ok _ => (.ok forest.size, ⟨(adopt forest.size forest.entries node.children).push
        { node, parent := none, children := node.children }⟩)
    | .error error => (.error error, forest) := by
  have hsame := snd_checkChildren forest [] node.children
  have hget : (get : Growth Forest).run forest = (.ok forest, forest) := rfl
  rw [add, grow, run_bind, hget]
  simp only [run_bind]
  rcases hrun : (checkChildren [] node.children).run forest with ⟨result, after⟩
  rw [hrun] at hsame
  cases hsame
  cases result <;> rfl

/-- A node can be added when its children are known, distinct and without a parent. The forest
afterwards has the node at its end, as the parent of those children. -/
theorem add_eq_ok_iff :
    forest.add node = (.ok handle, next) ↔
      ((∀ c ∈ node.children, c < forest.size ∧ forest.parent c = none) ∧ node.children.Nodup) ∧
        next = ⟨(adopt forest.size forest.entries node.children).push
          { node, parent := none, children := node.children }⟩ ∧
        handle = forest.size := by
  have hpass : ((checkChildren [] node.children).run forest).1 = .ok () ↔
      (∀ c ∈ node.children, c < forest.size ∧ forest.parent c = none) ∧ node.children.Nodup := by
    rw [checkChildren_eq_ok_iff]
    simp
  rw [← hpass, add_eq]
  cases ((checkChildren [] node.children).run forest).1 with
  | error error => simp
  | ok _ => simp [eq_comm, and_comm]

/-- **A node that is refused changes nothing.** -/
theorem add_eq_error {error : ForestError} (h : forest.add node = (.error error, next)) :
    next = forest := by
  rw [add_eq] at h
  cases hcheck : ((checkChildren [] node.children).run forest).1 with
  | error _ => rw [hcheck] at h; cases h; rfl
  | ok _ => rw [hcheck] at h; cases h

theorem extend_eq_ok_iff :
    forest.extend node = .ok next ↔ ∃ handle, forest.add node = (.ok handle, next) := by
  unfold extend
  cases hadd : forest.add node with
  | mk result after => cases result <;> simp

/-- **The entries after one more node was added**: the node itself at the end, and it has become the
parent of its children. -/
theorem getElem?_add (h : forest.add node = (.ok handle, next)) (other : Nat) :
    next.entries[other]? =
      if other = forest.size then some { node, parent := none, children := node.children }
      else forest.entries[other]?.map fun entry =>
        if other ∈ node.children then { entry with parent := some forest.size } else entry := by
  obtain ⟨-, rfl, -⟩ := add_eq_ok_iff.1 h
  unfold size
  rw [Array.getElem?_push, size_adopt, getElem?_adopt]

/-- The nodes after one more was added. -/
theorem node?_add (h : forest.add node = (.ok handle, next)) (other : Nat) :
    next.node? other = if other = forest.size then some node else forest.node? other := by
  unfold node?
  rw [getElem?_add h]
  by_cases ho : other = forest.size
  · rw [if_pos ho, if_pos ho]; rfl
  · rw [if_neg ho, if_neg ho, Option.map_map]
    congr 1
    funext entry
    by_cases hm : other ∈ node.children <;> simp [hm]

/-- The lists of children after one more node was added. -/
theorem children_add (h : forest.add node = (.ok handle, next)) (other : Nat) :
    next.children other = if other = forest.size then node.children else forest.children other := by
  unfold children
  rw [getElem?_add h]
  by_cases ho : other = forest.size
  · rw [if_pos ho, if_pos ho]
  · rw [if_neg ho, if_neg ho]
    cases forest.entries[other]? with
    | none => rfl
    | some entry => by_cases hm : other ∈ node.children <;> simp [hm]

/-- The parents after one more node was added. -/
theorem parent_add (h : forest.add node = (.ok handle, next)) (other : Nat) :
    next.parent other = if other ∈ node.children then some forest.size else forest.parent other := by
  obtain ⟨⟨hknown, -⟩, -⟩ := add_eq_ok_iff.1 h
  unfold Forest.parent
  rw [getElem?_add h]
  by_cases ho : other = forest.size
  · have hm : other ∉ node.children := fun hm => by
      have hlt : other < forest.size := (hknown other hm).1
      omega
    rw [if_pos ho, if_neg hm, Array.getElem?_eq_none (Nat.le_of_eq ho.symm)]; rfl
  · rw [if_neg ho]
    by_cases hm : other ∈ node.children
    · have hlt : other < forest.entries.size := (hknown other hm).1
      rw [if_pos hm, Array.getElem?_eq_getElem hlt]
      simp [hm]
    · rw [if_neg hm]
      simp [hm]

/-! ### Built forests -/

theorem sound_empty : Sound {} where
  children_eq h := by simp [node?] at h
  child_lt h := by simp [children] at h
  parent_eq_iff := by simp [children, Forest.parent]
  nodup parent := by simp [children]

/-- Adding a node keeps a forest sound. -/
theorem Sound.add (hs : forest.Sound) (h : forest.add node = (.ok handle, next)) : next.Sound := by
  obtain ⟨⟨hknown, hnd⟩, -, -⟩ := add_eq_ok_iff.1 h
  refine ⟨?_, ?_, ?_, ?_⟩
  · intro other found hn
    rw [node?_add h] at hn
    rw [children_add h]
    by_cases ho : other = forest.size
    · rw [if_pos ho] at hn ⊢
      cases hn
      rfl
    · rw [if_neg ho] at hn ⊢
      exact hs.children_eq hn
  · intro c p hc
    rw [children_add h] at hc
    by_cases hp : p = forest.size
    · rw [if_pos hp] at hc
      rw [hp]; exact (hknown c hc).1
    · rw [if_neg hp] at hc
      exact hs.child_lt hc
  · intro c p
    rw [parent_add h, children_add h]
    by_cases hc : c ∈ node.children
    · rw [if_pos hc]
      by_cases hp : p = forest.size
      · simp [hp, hc]
      · rw [if_neg hp]
        -- the child had no parent before, so it is in no other list
        have hno : c ∉ forest.children p := fun hmem => by
          rw [← hs.parent_eq_iff, (hknown c hc).2] at hmem; cases hmem
        simp [hno, Ne.symm hp]
    · rw [if_neg hc]
      by_cases hp : p = forest.size
      · rw [if_pos hp, hs.parent_eq_iff, hp, children_eq_nil (Nat.le_refl _)]
        simp [hc]
      · rw [if_neg hp, hs.parent_eq_iff]
  · intro p
    rw [children_add h]
    by_cases hp : p = forest.size
    · rw [if_pos hp]; exact hnd
    · rw [if_neg hp]; exact hs.nodup p

/-- **Every forest that comes about by adding nodes is sound.** -/
theorem Built.sound (h : forest.Built) : forest.Sound := by
  induction h with
  | empty => exact sound_empty
  | add _ hadd ih => exact ih.add hadd

theorem Built.ofNodes {nodes : List Node} (h : ofNodes nodes = .ok forest) : forest.Built := by
  refine foldlM_invariant (fun _ forest => forest.Built) .empty ?_ h
  intro _ node _ forest next _ hb hstep
  obtain ⟨handle, hadd⟩ := extend_eq_ok_iff.1 hstep
  exact hb.add hadd

theorem Sound.parent_unique (hs : forest.Sound) {other : Nat} (h : child ∈ forest.children parent)
    (h' : child ∈ forest.children other) : parent = other := by
  have hparent := hs.parent_eq_iff.2 h
  rw [hs.parent_eq_iff.2 h'] at hparent
  exact (Option.some.inj hparent).symm

theorem Sound.lt_size (hs : forest.Sound) (h : child ∈ forest.children parent) :
    child < forest.size :=
  Nat.lt_trans (hs.child_lt h) (lt_size_of_mem_children h)

/-- In a list without repetitions, the predecessor of a member is the last one before it. -/
theorem predecessor_eq {before after : List Nat} (hnd : (before ++ handle :: after).Nodup) :
    predecessor handle (before ++ handle :: after) = before.getLast? := by
  induction before with
  | nil => cases after <;> simp [predecessor]
  | cons first before ih =>
    have hne : first ≠ handle := fun he => by simp [he] at hnd
    cases before with
    | nil => simp [predecessor, hne]
    | cons second before =>
      have hne' : second ≠ handle := fun he => by simp [he] at hnd
      have ih' := ih (List.Nodup.of_cons hnd)
      rw [List.cons_append] at ih'
      rw [List.cons_append, List.cons_append, predecessor, if_neg hne, if_neg hne', ih',
        List.getLast?_cons_cons]

/-- The previous sibling of a child is the last of the children before it. -/
theorem Sound.previousSibling_eq (hs : forest.Sound) {before after : List Nat}
    (h : forest.children parent = before ++ child :: after) :
    forest.previousSibling child = before.getLast? := by
  have hp : forest.parent child = some parent :=
    hs.parent_eq_iff.2 (h ▸ List.mem_append_right _ List.mem_cons_self)
  unfold previousSibling
  rw [hp, Option.bind_some, h]
  exact predecessor_eq (h ▸ hs.nodup parent)

theorem Sound.previousSibling_next (hs : forest.Sound) {elder younger : List Nat} {sibling : Nat}
    (h : forest.children parent = elder ++ sibling :: child :: younger) :
    forest.previousSibling child = some sibling := by
  rw [← List.singleton_append, ← List.append_assoc] at h
  rw [hs.previousSibling_eq h, List.getLast?_concat]

/-- The previous sibling of a child has the same parent. -/
theorem Sound.previousSibling_mem (hs : forest.Sound) {sibling : Nat}
    (hc : child ∈ forest.children parent) (h : forest.previousSibling child = some sibling) :
    sibling ∈ forest.children parent := by
  obtain ⟨elder, younger, hch⟩ := List.append_of_mem hc
  rw [hs.previousSibling_eq hch] at h
  rw [hch]
  exact List.mem_append_left _ (List.mem_of_getLast? h)

end SolText.Forest
