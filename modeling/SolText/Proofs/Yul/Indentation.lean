import SolText.Proofs.Yul.Parallel

/-!
# Assembly further in

A node is written at the depth of the line that it starts on. Further in it is the same text with a
wider margin: every line but the first moves, and nothing else changes.

* `Text.indentLines`: a text with a margin behind every line break.
* `Layout.margin_add`: margins add up.
* `Yul.Parallel.shifted`: the texts of a layout beside those some levels further in.
* `Yul.Writer.renderAtDepth_indented`: **writing a node further in indents its lines.**
-/

namespace SolText

namespace Text

/-- The text with a margin behind every line break. -/
def indentLines (margin text : String) : String :=
  String.ofList (text.toList.flatMap fun c => if c = '\n' then '\n' :: margin.toList else [c])

theorem indentLines_append (margin a b : String) :
    indentLines margin (a ++ b) = indentLines margin a ++ indentLines margin b := by
  unfold indentLines
  rw [String.toList_append, List.flatMap_append, String.ofList_append]

/-- A text without line breaks stays as it is. -/
theorem indentLines_inline (margin : String) {text : String} (h : '\n' ∉ text.toList) :
    indentLines margin text = text := by
  have hchars : ∀ chars : List Char, '\n' ∉ chars →
      (chars.flatMap fun c => if c = '\n' then '\n' :: margin.toList else [c]) = chars := by
    intro chars hno
    induction chars with
    | nil => rfl
    | cons c rest ih =>
      obtain ⟨hc, hrest⟩ := not_or.1 (mt List.mem_cons.2 hno)
      rw [List.flatMap_cons, if_neg (Ne.symm hc), ih hrest]
      rfl
  unfold indentLines
  rw [hchars text.toList h, String.ofList_toList]

theorem indentLines_newline (margin : String) : indentLines margin "\n" = "\n" ++ margin := by
  unfold indentLines
  apply String.toList_inj.1
  rw [String.toList_ofList, String.toList_append]
  simp

end Text

namespace Layout

/-- Margins add up. -/
theorem margin_add (layout : Layout) (d e : Nat) :
    layout.margin (d + e) = layout.margin d ++ layout.margin e := by
  unfold margin
  split
  · rw [Nat.mul_add, ← String.ofList_append, List.replicate_append_replicate]
  · rw [← String.ofList_append, List.replicate_append_replicate]

theorem newline_not_mem_margin (layout : Layout) (depth : Nat) : '\n' ∉ (layout.margin depth).toList := by
  unfold margin
  split
  · rw [String.toList_ofList]
    intro hmem
    exact absurd (List.eq_of_mem_replicate hmem) (by decide)
  · rw [String.toList_ofList]
    intro hmem
    exact absurd (List.eq_of_mem_replicate hmem) (by decide)

end Layout

namespace Yul

/-- The texts of a layout beside those `depth` levels further in. -/
def Parallel.shifted (indent : Indent) (depth : Nat) : Parallel ⟨indent, "\n"⟩ ⟨indent, "\n"⟩ where
  levels d e := d = depth + e
  texts a b := a = Text.indentLines (Layout.margin ⟨indent, "\n"⟩ depth) b
  deeper := by
    rintro d e rfl
    rfl
  inline := fun h => (Text.indentLines_inline _ h).symm
  line := by
    rintro d e rfl
    have hmargin := Layout.newline_not_mem_margin ⟨indent, "\n"⟩ e
    rw [Text.indentLines_append, Text.indentLines_newline, Text.indentLines_inline _ hmargin,
      Layout.margin_add, String.append_assoc]
  append := by
    rintro a b a' b' rfl rfl
    rw [Text.indentLines_append]

/-- **Writing a node further in indents its lines**: it succeeds where writing the node at the left
margin does, fails with the same error otherwise, and has a wider margin behind every line break. -/
theorem Writer.renderAtDepth_indented {node : Node} (hnode : ∀ text ∈ node.strings, '\n' ∉ text.toList)
    (indent : Indent) (depth : Nat) :
    (Writer.standard ⟨indent, "\n"⟩).renderAtDepth node depth =
      ((Writer.standard ⟨indent, "\n"⟩).renderAtDepth node 0).map
        (Text.indentLines (Layout.margin ⟨indent, "\n"⟩ depth)) := by
  have htexts : ∀ text ∈ node.strings, (Parallel.shifted indent depth).texts text text :=
    fun text htext => (Text.indentLines_inline _ (hnode text htext)).symm
  have hlevels : (Parallel.shifted indent depth).levels depth 0 := rfl
  exact agree_eq_iff.1 ((Parallel.shifted indent depth).agree_renderAtDepth htexts hlevels)

/-- A block in the branch of a conditional in a block, one level further in. -/
theorem Writer.renderAtDepth_indented_branch :
    ∃ node : Node, node.tag = "YulBlock" ∧ (∀ text ∈ node.strings, '\n' ∉ text.toList) ∧
      (Writer.standard ⟨.spaces 2, "\n"⟩).renderAtDepth node 0 =
        .ok "\x7b\n  if c \x7b\n    leave\n  \x7d\n\x7d" ∧
      (Writer.standard ⟨.spaces 2, "\n"⟩).renderAtDepth node 1 =
        .ok "\x7b\n    if c \x7b\n      leave\n    \x7d\n  \x7d" := by
  have hshifted : ∀ node : Node, (∀ text ∈ node.strings, '\n' ∉ text.toList) →
      (Writer.standard ⟨.spaces 2, "\n"⟩).renderAtDepth node 0 =
        .ok "\x7b\n  if c \x7b\n    leave\n  \x7d\n\x7d" →
      (Writer.standard ⟨.spaces 2, "\n"⟩).renderAtDepth node 1 =
        .ok "\x7b\n    if c \x7b\n      leave\n    \x7d\n  \x7d" := by
    intro node hnode hmargin
    rw [renderAtDepth_indented hnode, hmargin]
    rfl
  refine ⟨⟨"YulBlock", { members := [("statements", .arr [.obj [
    ("body", .obj [("nodeType", .str "YulBlock"),
      ("statements", .arr [.obj [("nodeType", .str "YulLeave")]])]),
    ("condition", .obj [("name", .str "c"), ("nodeType", .str "YulIdentifier")]),
    ("nodeType", .str "YulIf")]])] }⟩, rfl, ?_, ?_, ?_⟩
  · decide
  · rfl
  · exact hshifted _ (by decide) rfl

end Yul

end SolText
