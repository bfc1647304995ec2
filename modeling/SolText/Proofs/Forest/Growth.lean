import SolText.Proofs.Forest.Ancestry

/-!
# Growing a forest

A forest grows by nodes that are offered to it one after another. Some are refused, and what such an
offer leaves behind is again the forest before it. Each entry keeps its own list of children and a link
upward; whatever was offered, these say the same as the references in the nodes.

* `offer`, `offerAll`: the forest after one offer, and after many.
* `Linked`: what can be read off the links of a forest, downward, sideways and upward.
* `Sound.linked`: a sound forest is linked.
* `offerAll_linked`: **after any offers the forest is linked, and the next node is taken in exactly if
  its children are known, distinct and without a parent.**
-/

namespace SolText.Forest

variable {forest next : Forest} {node : Node} {handle child parent root : Nat}

/-- The forest that is left after a node was offered to it, whether it was added or refused. -/
def offer (forest : Forest) (node : Node) : Forest := (forest.add node).2

/-- The forest after the given nodes were offered to the empty one, in turn. -/
def offerAll (nodes : List Node) : Forest := nodes.foldl offer {}

theorem offerAll_concat (nodes : List Node) (node : Node) :
    offerAll (nodes ++ [node]) = (offerAll nodes).offer node := by
  unfold offerAll
  rw [List.foldl_append, List.foldl_cons, List.foldl_nil]

theorem Built.offer (h : forest.Built) (node : Node) : (forest.offer node).Built := by
  unfold Forest.offer
  rcases hadd : forest.add node with ⟨error | handle, next⟩
  · rw [add_eq_error hadd]
    exact h
  · exact h.add hadd

/-- Offers build a forest, whether or not they are refused. -/
theorem built_offerAll (nodes : List Node) : (offerAll nodes).Built := by
  induction nodes using List.reverseRecOn with
  | nil => exact .empty
  | append_singleton nodes node ih =>
    rw [offerAll_concat]
    exact ih.offer node

/-! ### Sideways -/

/-- The previous sibling of a child is the one with the index before. -/
theorem Sound.previousSibling_getElem? (hs : forest.Sound) {index : Nat}
    (h : (forest.children parent)[index]? = some child) :
    forest.previousSibling child =
      if index = 0 then none else (forest.children parent)[index - 1]? := by
  obtain ⟨hlt, hchild⟩ := List.getElem?_eq_some_iff.1 h
  have hsplit : forest.children parent = (forest.children parent).take index ++
      child :: (forest.children parent).drop (index + 1) := by
    rw [← hchild, ← List.drop_eq_getElem_cons hlt, List.take_append_drop]
  rw [hs.previousSibling_eq hsplit, List.getLast?_take]
  by_cases h0 : index = 0
  · rw [if_pos h0, if_pos h0]
  · have hprev : (forest.children parent)[index - 1]? =
        some ((forest.children parent)[index - 1]) := List.getElem?_eq_getElem (by omega)
    rw [if_neg h0, if_neg h0, hprev]
    rfl

/-! ### Upward -/

theorem Sound.parent_eq_none_iff (hs : forest.Sound) :
    forest.parent handle = none ↔ ∀ parent : Nat, handle ∉ forest.children parent := by
  rw [Option.eq_none_iff_forall_ne_some]
  constructor
  · intro h p hmem
    exact h p (hs.parent_eq_iff.2 hmem)
  · intro h p hp
    exact h p (hs.parent_eq_iff.1 hp)

/-- The roots are the nodes that are no child. -/
theorem Sound.mem_roots_iff (hs : forest.Sound) :
    root ∈ forest.roots ↔ root < forest.size ∧ ∀ parent : Nat, root ∉ forest.children parent := by
  unfold roots
  rw [List.mem_filter, List.mem_range, Option.isNone_iff_eq_none, hs.parent_eq_none_iff]

theorem roots_increasing (forest : Forest) : forest.roots.Pairwise (· < ·) :=
  List.Pairwise.filter _ List.pairwise_lt_range

/-- From a node upward, each is the parent of the one before. -/
theorem Sound.isChain_ancestors (hs : forest.Sound) : ∀ node : Nat,
    (node :: forest.ancestors node).IsChain (fun lower upper => forest.parent lower = some upper) := by
  refine hs.upward_induction fun node ih => ?_
  cases hp : forest.parent node with
  | none =>
    rw [ancestors_eq_nil hp]
    exact .singleton node
  | some p =>
    have hmem := hs.parent_eq_iff.1 hp
    rw [hs.ancestors_eq hmem]
    exact List.isChain_cons_cons.2 ⟨hp, ih p hmem⟩

theorem Sound.ancestors_increasing (hs : forest.Sound) (node : Nat) :
    (node :: forest.ancestors node).Pairwise (· < ·) := by
  rw [← List.isChain_iff_pairwise]
  refine (hs.isChain_ancestors node).imp fun lower upper h => ?_
  exact hs.child_lt (hs.parent_eq_iff.1 h)

/-- The way up from a node ends at a root. -/
theorem Sound.getLast?_ancestors (hs : forest.Sound) : ∀ node : Nat, node < forest.size →
    ∃ root ∈ forest.roots, (node :: forest.ancestors node).getLast? = some root := by
  refine hs.upward_induction fun node ih hlt => ?_
  cases hp : forest.parent node with
  | none =>
    have hroot : node ∈ forest.roots := hs.mem_roots_iff.2 ⟨hlt, hs.parent_eq_none_iff.1 hp⟩
    exact ⟨node, hroot, by rw [ancestors_eq_nil hp]; rfl⟩
  | some p =>
    have hmem := hs.parent_eq_iff.1 hp
    obtain ⟨root, hroot, hlast⟩ := ih p hmem (lt_size_of_mem_children hmem)
    refine ⟨root, hroot, ?_⟩
    rw [hs.ancestors_eq hmem, List.getLast?_cons_cons]
    exact hlast

/-! ### All links -/

/-- What can be read off the links of a forest. -/
structure Linked (forest : Forest) : Prop where
  /-- The children kept for a node are those that it refers to, each once and added earlier. -/
  children_eq : ∀ {handle : Nat} {node : Node}, forest.node? handle = some node →
    forest.children handle = node.children
  nodup : ∀ handle : Nat, (forest.children handle).Nodup
  child_lt : ∀ {child parent : Nat}, child ∈ forest.children parent → child < parent
  /-- Links upward and downward agree, and a node has one parent at most. -/
  parent_eq_iff : ∀ {child parent : Nat},
    forest.parent child = some parent ↔ child ∈ forest.children parent
  parent_unique : ∀ {child parent other : Nat}, child ∈ forest.children parent →
    child ∈ forest.children other → parent = other
  /-- Before a child comes the child with the index before, and nothing before the first. -/
  previousSibling_first : ∀ {child parent : Nat}, (forest.children parent)[0]? = some child →
    forest.previousSibling child = none
  previousSibling_next : ∀ {child parent index : Nat},
    (forest.children parent)[index + 1]? = some child →
    forest.previousSibling child = (forest.children parent)[index]?
  /-- The roots are the nodes that are no child, in increasing order. -/
  roots_increasing : forest.roots.Pairwise (· < ·)
  mem_roots_iff : ∀ {root : Nat}, root ∈ forest.roots ↔
    root < forest.size ∧ ∀ parent : Nat, root ∉ forest.children parent
  /-- The way up from a node leads from parent to parent, with increasing handles, to a root. -/
  isChain_ancestors : ∀ node : Nat,
    (node :: forest.ancestors node).IsChain (fun lower upper => forest.parent lower = some upper)
  ancestors_increasing : ∀ node : Nat, (node :: forest.ancestors node).Pairwise (· < ·)
  getLast?_ancestors : ∀ node : Nat, node < forest.size →
    ∃ root ∈ forest.roots, (node :: forest.ancestors node).getLast? = some root

/-- **A sound forest is linked.** -/
theorem Sound.linked (hs : forest.Sound) : forest.Linked where
  children_eq := hs.children_eq
  nodup := hs.nodup
  child_lt := hs.child_lt
  parent_eq_iff := hs.parent_eq_iff
  parent_unique := hs.parent_unique
  previousSibling_first h := by rw [hs.previousSibling_getElem? h, if_pos rfl]
  previousSibling_next h := by
    rw [hs.previousSibling_getElem? h, if_neg (Nat.succ_ne_zero _), Nat.add_sub_cancel]
  roots_increasing := forest.roots_increasing
  mem_roots_iff := hs.mem_roots_iff
  isChain_ancestors := hs.isChain_ancestors
  ancestors_increasing := hs.ancestors_increasing
  getLast?_ancestors := hs.getLast?_ancestors

/-- The forest can take in a node: its children are known, distinct and without a parent. -/
def Admits (forest : Forest) (node : Node) : Prop :=
  (∀ child ∈ node.children, child < forest.size ∧ forest.parent child = none) ∧ node.children.Nodup

theorem exists_add_iff :
    (∃ handle next, forest.add node = (.ok handle, next)) ↔ forest.Admits node := by
  constructor
  · rintro ⟨handle, next, h⟩
    exact (add_eq_ok_iff.1 h).1
  · intro h
    exact ⟨_, _, add_eq_ok_iff.2 ⟨h, rfl, rfl⟩⟩

/-- **After any offers the forest is linked, and the next node is taken in exactly if its children are
known, distinct and without a parent.** Then it gets the next handle and becomes the parent of its
children, and no other entry changes. The forest that a refused node leaves is the one it was offered
to. -/
theorem offerAll_linked (nodes : List Node) :
    (offerAll nodes).Linked ∧ ∀ node : Node,
      ((∃ handle next, (offerAll nodes).add node = (.ok handle, next)) ↔
        (offerAll nodes).Admits node) ∧
      (∀ handle next, (offerAll nodes).add node = (.ok handle, next) →
        handle = (offerAll nodes).size ∧ offerAll (nodes ++ [node]) = next ∧
        ∀ other : Nat, next.entries[other]? =
          if other = handle then some { node, parent := none, children := node.children }
          else (offerAll nodes).entries[other]?.map fun entry =>
            if other ∈ node.children then { entry with parent := some handle } else entry) ∧
      ∀ error next, (offerAll nodes).add node = (.error error, next) →
        next = offerAll nodes ∧ offerAll (nodes ++ [node]) = offerAll nodes := by
  refine ⟨(built_offerAll nodes).sound.linked, fun node => ⟨exists_add_iff, ?_, ?_⟩⟩
  · intro handle next h
    have hhandle : handle = (offerAll nodes).size := (add_eq_ok_iff.1 h).2.2
    refine ⟨hhandle, ?_, fun other => ?_⟩
    · rw [offerAll_concat, offer, h]
    · rw [hhandle]
      exact getElem?_add h other
  · intro error next h
    have hnext : next = offerAll nodes := add_eq_error h
    refine ⟨hnext, ?_⟩
    rw [offerAll_concat, offer, h]
    exact hnext

/-- Three nodes are refused on the way: the child of the first has a parent, that of the second occurs
twice, and that of the third is unknown. A block that is refused for its second child leaves the first
one a root. -/
theorem offerAll_linked_refused :
    ∃ nodes : List Node, nodes = [.identifier "a", .expressionStatement 0, .returnStatement (some 0),
        .binaryOperation "*" 1 1, .emitStatement 7] ∧
      (offerAll nodes).Linked ∧ (offerAll nodes).size = 2 ∧ (offerAll nodes).roots = [1] ∧
      (offerAll nodes).children 1 = [0] ∧ ¬(offerAll nodes).Admits (.block [1, 0]) ∧
      (offerAll nodes).add (.block [1, 0]) = (.error (.adopted 0 1), offerAll nodes) ∧
      offerAll (nodes ++ [.block [1, 0]]) = offerAll nodes ∧
      (offerAll nodes).Admits (.block [1]) ∧ (offerAll (nodes ++ [.block [1]])).parent 1 = some 2 ∧
      (offerAll (nodes ++ [.block [1]])).children 2 = [1] := by
  obtain ⟨hlinked, hoffer⟩ := offerAll_linked [.identifier "a", .expressionStatement 0,
    .returnStatement (some 0), .binaryOperation "*" 1 1, .emitStatement 7]
  obtain ⟨hrefused, -, hleft⟩ := hoffer (.block [1, 0])
  obtain ⟨htaken, hnext, -⟩ := hoffer (.block [1])
  obtain ⟨hsame, hagain⟩ := hleft (.adopted 0 1) _ rfl
  obtain ⟨-, hblock, -⟩ := hnext _ _ rfl
  refine ⟨_, rfl, hlinked, rfl, rfl, rfl, ?_, ?_, hagain, htaken.1 ⟨_, _, rfl⟩, ?_, ?_⟩
  · intro hadmits
    obtain ⟨handle, next, hadd⟩ := hrefused.2 hadmits
    cases hadd
  · exact congrArg (Prod.mk _) hsame
  · rw [hblock]
    rfl
  · rw [hblock]
    rfl

end SolText.Forest
