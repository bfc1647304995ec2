import SolText.Forest.Dump
import SolText.Proofs.Forest.Ancestry

/-!
# Dumps line by line

A dump goes down the tree and counts the levels on the way. A walk has no levels: how far in a node
stands is then to be read off the links upward.

* `Sound.pathTo_beneath`: a path beneath a child goes on from the child to its parent.
* `Sound.dumpWithin_eq`: **the recursion of a dump gives the lines of a walk**, each as far in as its
  path is long.
* `IsEntry`: the entry of a node, by the nodes above it.
* `Built.dump_lists_walk`: **a dump has one entry for each node of a walk, in its order.**
-/

namespace SolText.Forest

variable {forest : Forest} {root child parent node : Nat}

/-! ### Paths -/

/-- A path beneath a child goes on from the child to its parent. -/
theorem Sound.pathTo_beneath (hs : forest.Sound) (hc : child ∈ forest.children parent) :
    ∀ node ∈ forest.walk child, forest.pathTo parent node = forest.pathTo child node ++ [parent] := by
  have hparent := hs.root_mem_walk parent
  have hchild := hs.child_mem_walk parent parent hparent child hc
  refine hs.walk_induction ?_ ?_
  · rw [hs.pathTo_child hparent hc, pathTo_root, pathTo_root, List.singleton_append]
  · intro above habove ih node hnode
    rw [hs.pathTo_child (hs.mem_walk_trans hchild habove) hnode, hs.pathTo_child habove hnode, ih,
      List.cons_append]

/-- A path is the first part of the way up from its node. -/
theorem Sound.pathTo_prefix (hs : forest.Sound) :
    ∀ node ∈ forest.walk root, forest.pathTo root node <+: node :: forest.ancestors node := by
  refine hs.walk_induction ?_ ?_
  · rw [pathTo_root]
    exact ⟨_, List.singleton_append⟩
  · intro parent hp ih child hc
    rw [hs.pathTo_child hp hc, hs.ancestors_eq hc]
    exact (List.prefix_cons_inj child).2 ih

/-- How many levels beneath `root` a node is. -/
def levels (forest : Forest) (root node : Handle) : Nat := (forest.pathTo root node).length - 1

theorem levels_root (forest : Forest) (root : Handle) : forest.levels root root = 0 := by
  rw [levels, pathTo_root, List.length_singleton]

theorem Sound.levels_beneath (hs : forest.Sound) (hc : child ∈ forest.children parent)
    (hnode : node ∈ forest.walk child) :
    forest.levels parent node = forest.levels child node + 1 := by
  have hpos : 0 < (forest.pathTo child node).length := by simp [pathTo]
  unfold levels
  rw [hs.pathTo_beneath hc node hnode, List.length_append, List.length_singleton]
  omega

/-! ### Lines -/

theorem join_flatMap {α : Type} (f : α → List String) (items : List α) :
    String.join (items.flatMap f) = String.join (items.map fun item => String.join (f item)) := by
  induction items with
  | nil => rfl
  | cons item rest ih =>
    rw [List.flatMap_cons, String.join_append, ih, List.map_cons, String.join_cons]

/-- **The recursion of a dump gives the lines of a walk.** The depth that it carries downward is the
length of the way back up. -/
theorem Sound.dumpWithin_eq (hs : forest.Sound) :
    ∀ handle fuel depth : Nat, handle < fuel →
      forest.dumpWithin fuel depth handle = String.join ((forest.walk handle).map fun node =>
        forest.dumpLine (depth + forest.levels handle node) node) := by
  refine hs.induction fun handle ih fuel depth hfuel => ?_
  obtain ⟨fuel, rfl⟩ : ∃ fuel', fuel = fuel' + 1 := ⟨fuel - 1, by omega⟩
  have hchildren : (forest.children handle).map (forest.dumpWithin fuel (depth + 1)) =
      (forest.children handle).map fun child => String.join ((forest.walk child).map fun node =>
        forest.dumpLine (depth + forest.levels handle node) node) := by
    apply List.map_congr_left
    intro child hc
    have hlt := hs.child_lt hc
    rw [ih child hc fuel (depth + 1) (by omega)]
    refine congrArg String.join (List.map_congr_left fun node hnode => ?_)
    rw [hs.levels_beneath hc hnode, Nat.add_assoc, Nat.add_comm 1]
  rw [dumpWithin, hs.walk_eq handle, List.map_cons, String.join_cons, levels_root, List.map_flatMap,
    join_flatMap, hchildren]
  rfl

/-- The entry of a node beneath the given ones: four spaces for each of them, the kind, the handle, and
the summary in brackets if there is one. -/
def entryBeneath (above : List Handle) (handle : Handle) (node : Node) : String :=
  String.join (above.map fun _ => "    ") ++ node.kind.name ++ " #" ++ Nat.repr handle ++
    (match node.summary with
    | some summary => " (" ++ summary ++ ")"
    | none => "") ++ "\n"

/-- The given nodes are those above `node` up to and including `root`, which itself has none. -/
def UpTo (forest : Forest) (root node : Handle) (above : List Handle) : Prop :=
  above <+: forest.ancestors node ∧ if node = root then above = [] else above.getLast? = some root

/-- The text is the entry of a node in a dump of `root`. -/
def IsEntry (forest : Forest) (root handle : Handle) (entry : String) : Prop :=
  ∃ above node, forest.UpTo root handle above ∧ forest.node? handle = some node ∧
    entry = entryBeneath above handle node

/-- There are as many nodes above a node as it is levels beneath the root. -/
theorem Sound.exists_upTo (hs : forest.Sound) (hnode : node ∈ forest.walk root) :
    ∃ above, forest.UpTo root node above ∧ above.length = forest.levels root node := by
  by_cases hne : node = root
  · refine ⟨[], ⟨List.nil_prefix, ?_⟩, ?_⟩
    · rw [if_pos hne]
    · rw [hne, levels_root, List.length_nil]
  · obtain ⟨parent, hparent, hc⟩ := hs.exists_parent hnode hne
    refine ⟨forest.pathTo root parent, ⟨?_, ?_⟩, ?_⟩
    · rw [hs.ancestors_eq hc]
      exact hs.pathTo_prefix parent hparent
    · rw [if_neg hne, pathTo, List.getLast?_concat]
    · rw [levels, hs.pathTo_child hparent hc, List.length_cons, Nat.add_sub_cancel]

theorem join_map_spaces (above : List Handle) :
    String.join (above.map fun _ => "    ") = String.ofList (List.replicate (4 * above.length) ' ') := by
  induction above with
  | nil => rfl
  | cons first rest ih =>
    rw [List.map_cons, String.join_cons, ih, List.length_cons, Nat.mul_add, Nat.add_comm,
      List.replicate_add, String.ofList_append]
    rfl

theorem dumpLine_eq_entryBeneath {content : Node} (above : List Handle)
    (h : forest.node? node = some content) :
    forest.dumpLine above.length node = entryBeneath above node content := by
  have hhandle : ∀ rest : String, " " ++ (Handle.text node ++ rest) = " #" ++ (Nat.repr node ++ rest) := by
    intro rest
    rw [Handle.text, ← String.append_assoc, ← String.append_assoc, ← String.append_assoc]
    rfl
  unfold dumpLine entryBeneath
  rw [h, join_map_spaces]
  cases hsummary : content.summary with
  | none => simp only [String.append_assoc, hhandle, hsummary]
  | some summary => simp only [String.append_assoc, hhandle, hsummary]

/-- **A dump has one entry for each node of a walk, in its order.** All of these nodes are known. -/
theorem Built.dump_lists_walk (hb : forest.Built) (hroot : root < forest.size) :
    ∃ entries, forest.dump root = String.join entries ∧
      List.Forall₂ (forest.IsEntry root) (forest.walk root) entries := by
  have hs := hb.sound
  refine ⟨_, hs.dumpWithin_eq root (forest.size + 1) 0 (by omega), ?_⟩
  rw [List.forall₂_map_right_iff, List.forall₂_same]
  intro node hnode
  obtain ⟨content, hcontent⟩ := node?_isSome (hs.lt_size_of_mem_walk hroot hnode)
  obtain ⟨above, habove, hlength⟩ := hs.exists_upTo hnode
  refine ⟨above, content, habove, hcontent, ?_⟩
  rw [Nat.zero_add, ← hlength, dumpLine_eq_entryBeneath above hcontent]

/-- A statement with a summary beneath it and one beside it, inside a block that is not dumped. -/
theorem dump_lists_walk_block :
    ∃ forest entries, Forest.ofNodes [.identifier "a", .literal .number "1", .binaryOperation "+" 0 1,
        .expressionStatement 2, .breakStatement, .block [3, 4], .block [5]] = .ok forest ∧
      forest.walk 5 = [5, 3, 2, 0, 1, 4] ∧ forest.ancestors 0 = [2, 3, 5, 6] ∧
      forest.dump 5 = String.join entries ∧
      List.Forall₂ (forest.IsEntry 5) [5, 3, 2, 0, 1, 4] entries ∧
      forest.dump 5 = "Block #5\n    ExpressionStatement #3\n" ++
        "        BinaryOperation #2 (operator: \"+\")\n            Identifier #0 (name: \"a\")\n" ++
        "            Literal #1 (kind: Number, value: \"1\")\n    Break #4\n" := by
  have hforest : Forest.ofNodes [.identifier "a", .literal .number "1", .binaryOperation "+" 0 1,
      .expressionStatement 2, .breakStatement, .block [3, 4], .block [5]] =
      .ok ⟨#[⟨.identifier "a", some 2, []⟩, ⟨.literal .number "1", some 2, []⟩,
        ⟨.binaryOperation "+" 0 1, some 3, [0, 1]⟩, ⟨.expressionStatement 2, some 5, [2]⟩,
        ⟨.breakStatement, some 5, []⟩, ⟨.block [3, 4], some 6, [3, 4]⟩,
        ⟨.block [5], none, [5]⟩]⟩ := rfl
  obtain ⟨entries, hdump, hentries⟩ :=
    @Built.dump_lists_walk _ 5 (Forest.Built.ofNodes hforest) (by decide)
  exact ⟨_, entries, hforest, rfl, rfl, hdump, hentries, by decide +kernel⟩

end SolText.Forest
