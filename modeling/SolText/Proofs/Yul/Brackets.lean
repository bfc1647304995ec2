import SolText.Proofs.Text.Brackets
import SolText.Proofs.Yul.Parallel

/-!
# Brackets in assembly

The rules of the assembly dialect close every bracket that they open. What else they write are texts of
the node and texts of the nodes nested in it.

* `Balances`: balanced text for every node whose own texts are balanced.
* `balances_of_get?`: **every rule balances its brackets**, if what writes the nested nodes does.
* `Writer.neutral_renderAtDepth`: **assembly is balanced if its texts are.**
-/

namespace SolText

open Text

theorem Layout.neutral_margin (layout : Layout) (depth : Nat) : Neutral (layout.margin depth) := by
  unfold Layout.margin
  split
  · exact neutral_replicate (by decide) _
  · exact neutral_replicate (by decide) _

namespace Yul

/-- What is written for a node is balanced if the node's own texts are. -/
def Balances (render : Render) : Prop :=
  ∀ (node : Node) (depth : Nat) (text : String), (∀ own ∈ node.strings, Neutral own) →
    render node depth = .ok text → Neutral text

variable {layout : Layout} {render : Render} {node child : Node} {children : List Node}
  {depth : Nat} {field text : String}

namespace Balances

theorem ofChild (h : Balances render) (hnode : ∀ own ∈ node.strings, Neutral own)
    (hchild : node.child field = .ok child) (htext : render child depth = .ok text) : Neutral text :=
  h child depth text (fun own hown => hnode own (Node.mem_strings_of_child hchild hown)) htext

theorem ofChildren (h : Balances render) (hnode : ∀ own ∈ node.strings, Neutral own)
    (hchildren : node.children field = .ok children) (hmem : child ∈ children)
    (htext : render child depth = .ok text) : Neutral text :=
  h child depth text (fun own hown => hnode own (Node.mem_strings_of_children hchildren hmem hown)) htext

theorem joined (h : Balances render) (hnode : ∀ own ∈ node.strings, Neutral own)
    (hchildren : node.children field = .ok children)
    (htext : renderJoined render children depth ", " = .ok text) : Neutral text := by
  obtain ⟨texts, htexts, htext⟩ := bind_eq_ok_iff.1 htext
  cases htext
  refine neutral_intercalate (fun _ => rfl) fun text hmem => ?_
  obtain ⟨child, hchild, hrender⟩ := exists_of_mem_mapM htexts hmem
  exact h.ofChildren hnode hchildren hchild hrender

end Balances

/-! ### The rules -/

theorem balances_block (hnewline : Neutral layout.newline) (h : Balances render) :
    Balances fun node depth => Rule.block layout render node depth := by
  intro node depth text hnode htext
  obtain ⟨statements, hstatements, htext⟩ := bind_eq_ok_iff.1 htext
  cases statements with
  | nil =>
    cases htext
    exact fun _ => rfl
  | cons first rest =>
    obtain ⟨lines, hlines, htext⟩ := bind_eq_ok_iff.1 htext
    cases htext
    have hjoined : Neutral (String.join lines) := by
      refine neutral_join fun line hline => ?_
      obtain ⟨statement, hmem, hline⟩ := exists_of_mem_mapM hlines hline
      obtain ⟨code, hcode, hline⟩ := bind_eq_ok_iff.1 hline
      cases hline
      have hstatement := h.ofChildren hnode hstatements hmem hcode
      exact ((layout.neutral_margin (depth + 1)).append hstatement).append hnewline
    have hmargin := layout.neutral_margin depth
    intro due
    simp only [scan_append, hnewline.scan_eq, hjoined.scan_eq, hmargin.scan_eq, Option.bind_fun_some]
    rfl

theorem balances_literal : Balances fun node _ => Rule.literal node := by
  intro node depth text hnode htext
  have hquote : Neutral "\"" := fun _ => rfl
  rcases Parallel.literal_cases htext with ⟨value, hvalue, rfl⟩ | ⟨value, hvalue, rfl | rfl⟩
  · have hhex : Neutral "hex\"" := fun _ => rfl
    exact (hhex.append (hnode value (Node.mem_strings_of_text hvalue))).append hquote
  · exact (hquote.append (hnode value (Node.mem_strings_of_text hvalue)).escape).append hquote
  · exact hnode text (Node.mem_strings_of_text hvalue)

theorem balances_identifier : Balances fun node _ => Rule.identifier node := by
  intro node depth text hnode htext
  exact hnode text (Node.mem_strings_of_text htext)

theorem balances_typedName : Balances fun node _ => Rule.typedName node := by
  intro node depth text hnode htext
  obtain ⟨name, hname, htext⟩ := bind_eq_ok_iff.1 htext
  have hnamed := hnode name (Node.mem_strings_of_text hname)
  cases htype : node.text "type" with
  | error _ =>
    rw [htype] at htext
    cases htext
    exact hnamed
  | ok type =>
    rw [htype] at htext
    cases htext
    have htyped := hnode type (Node.mem_strings_of_text htype)
    have hcolon : Neutral ":" := fun _ => rfl
    split
    · exact hnamed
    · exact (hnamed.append hcolon).append htyped

theorem balances_functionCall (h : Balances render) :
    Balances fun node depth => Rule.functionCall render node depth := by
  intro node depth text hnode htext
  obtain ⟨callee, hcallee, htext⟩ := bind_eq_ok_iff.1 htext
  obtain ⟨function, hfunction, htext⟩ := bind_eq_ok_iff.1 htext
  obtain ⟨children, hchildren, htext⟩ := bind_eq_ok_iff.1 htext
  obtain ⟨arguments, harguments, htext⟩ := bind_eq_ok_iff.1 htext
  cases htext
  have hcalled := h.ofChild hnode hcallee hfunction
  have hinner := h.joined hnode hchildren harguments
  intro due
  simp only [scan_append, hcalled.scan_eq, hinner.scan_eq, Option.bind_fun_some]
  rfl

theorem balances_variableDeclaration (h : Balances render) :
    Balances fun node depth => Rule.variableDeclaration render node depth := by
  intro node depth text hnode htext
  obtain ⟨children, hchildren, htext⟩ := bind_eq_ok_iff.1 htext
  obtain ⟨names, hnames, htext⟩ := bind_eq_ok_iff.1 htext
  obtain ⟨value, hvalue, htext⟩ := bind_eq_ok_iff.1 htext
  have hlet : Neutral "let " := fun _ => rfl
  have hdeclared := hlet.append (h.joined hnode hchildren hnames)
  cases value with
  | none =>
    cases htext
    exact hdeclared
  | some value =>
    obtain ⟨code, hcode, htext⟩ := bind_eq_ok_iff.1 htext
    cases htext
    have hassign : Neutral " := " := fun _ => rfl
    have hnested : ∀ own ∈ value.strings, Neutral own :=
      fun own hown => hnode own (Node.mem_strings_of_child? hvalue hown)
    exact (hdeclared.append hassign).append (h value depth code hnested hcode)

theorem balances_assignment (h : Balances render) :
    Balances fun node depth => Rule.assignment render node depth := by
  intro node depth text hnode htext
  obtain ⟨children, hchildren, htext⟩ := bind_eq_ok_iff.1 htext
  obtain ⟨names, hnames, htext⟩ := bind_eq_ok_iff.1 htext
  obtain ⟨child, hchild, htext⟩ := bind_eq_ok_iff.1 htext
  obtain ⟨value, hvalue, htext⟩ := bind_eq_ok_iff.1 htext
  cases htext
  have hassign : Neutral " := " := fun _ => rfl
  exact ((h.joined hnode hchildren hnames).append hassign).append (h.ofChild hnode hchild hvalue)

theorem balances_expressionStatement (h : Balances render) :
    Balances fun node depth => Rule.expressionStatement render node depth := by
  intro node depth text hnode htext
  obtain ⟨child, hchild, htext⟩ := bind_eq_ok_iff.1 htext
  exact h.ofChild hnode hchild htext

theorem balances_ifStatement (h : Balances render) :
    Balances fun node depth => Rule.ifStatement render node depth := by
  intro node depth text hnode htext
  obtain ⟨first, hfirst, htext⟩ := bind_eq_ok_iff.1 htext
  obtain ⟨condition, hcondition, htext⟩ := bind_eq_ok_iff.1 htext
  obtain ⟨second, hsecond, htext⟩ := bind_eq_ok_iff.1 htext
  obtain ⟨body, hbody, htext⟩ := bind_eq_ok_iff.1 htext
  cases htext
  have hif : Neutral "if " := fun _ => rfl
  have hhead := hif.append (h.ofChild hnode hfirst hcondition)
  exact (hhead.append neutral_blank).append (h.ofChild hnode hsecond hbody)

theorem balances_switch (hnewline : Neutral layout.newline) (h : Balances render) :
    Balances fun node depth => Rule.switch layout render node depth := by
  intro node depth text hnode htext
  obtain ⟨child, hchild, htext⟩ := bind_eq_ok_iff.1 htext
  obtain ⟨expression, hexpression, htext⟩ := bind_eq_ok_iff.1 htext
  obtain ⟨children, hchildren, htext⟩ := bind_eq_ok_iff.1 htext
  obtain ⟨lines, hlines, htext⟩ := bind_eq_ok_iff.1 htext
  cases htext
  have hswitch : Neutral "switch " := fun _ => rfl
  refine (hswitch.append (h.ofChild hnode hchild hexpression)).append (neutral_join fun line hline => ?_)
  obtain ⟨case, hmem, hline⟩ := exists_of_mem_mapM hlines hline
  obtain ⟨code, hcode, hline⟩ := bind_eq_ok_iff.1 hline
  cases hline
  exact (hnewline.append (layout.neutral_margin depth)).append (h.ofChildren hnode hchildren hmem hcode)

theorem balances_switchCase (h : Balances render) :
    Balances fun node depth => Rule.switchCase render node depth := by
  intro node depth text hnode htext
  obtain ⟨first, hfirst, htext⟩ := bind_eq_ok_iff.1 htext
  obtain ⟨body, hbody, htext⟩ := bind_eq_ok_iff.1 htext
  have hwritten := h.ofChild hnode hfirst hbody
  split at htext
  · cases htext
    have hdefault : Neutral "default " := fun _ => rfl
    exact hdefault.append hwritten
  · obtain ⟨second, hsecond, htext⟩ := bind_eq_ok_iff.1 htext
    obtain ⟨value, hvalue, htext⟩ := bind_eq_ok_iff.1 htext
    cases htext
    have hcase : Neutral "case " := fun _ => rfl
    exact ((hcase.append (h.ofChild hnode hsecond hvalue)).append neutral_blank).append hwritten

theorem balances_forLoop (h : Balances render) :
    Balances fun node depth => Rule.forLoop render node depth := by
  intro node depth text hnode htext
  obtain ⟨first, hfirst, htext⟩ := bind_eq_ok_iff.1 htext
  obtain ⟨pre, hpre, htext⟩ := bind_eq_ok_iff.1 htext
  obtain ⟨second, hsecond, htext⟩ := bind_eq_ok_iff.1 htext
  obtain ⟨condition, hcondition, htext⟩ := bind_eq_ok_iff.1 htext
  obtain ⟨third, hthird, htext⟩ := bind_eq_ok_iff.1 htext
  obtain ⟨post, hpost, htext⟩ := bind_eq_ok_iff.1 htext
  obtain ⟨fourth, hfourth, htext⟩ := bind_eq_ok_iff.1 htext
  obtain ⟨body, hbody, htext⟩ := bind_eq_ok_iff.1 htext
  cases htext
  have hfor : Neutral "for " := fun _ => rfl
  have hopened := (hfor.append (h.ofChild hnode hfirst hpre)).append neutral_blank
  have hchecked := (hopened.append (h.ofChild hnode hsecond hcondition)).append neutral_blank
  have hhead := (hchecked.append (h.ofChild hnode hthird hpost)).append neutral_blank
  exact hhead.append (h.ofChild hnode hfourth hbody)

theorem balances_functionDefinition (h : Balances render) :
    Balances fun node depth => Rule.functionDefinition render node depth := by
  intro node depth text hnode htext
  obtain ⟨name, hname, htext⟩ := bind_eq_ok_iff.1 htext
  obtain ⟨children, hchildren, htext⟩ := bind_eq_ok_iff.1 htext
  obtain ⟨parameters, hparameters, htext⟩ := bind_eq_ok_iff.1 htext
  obtain ⟨returns, hreturns, htext⟩ := bind_eq_ok_iff.1 htext
  obtain ⟨child, hchild, htext⟩ := bind_eq_ok_iff.1 htext
  obtain ⟨body, hbody, htext⟩ := bind_eq_ok_iff.1 htext
  have hnamed := hnode name (Node.mem_strings_of_text hname)
  have hinner := h.joined hnode hchildren hparameters
  have hwritten := h.ofChild hnode hchild hbody
  have hhead : Neutral ("function " ++ name ++ "(" ++ parameters ++ ")") := by
    intro due
    simp only [scan_append, hnamed.scan_eq, hinner.scan_eq, Option.bind_fun_some]
    rfl
  cases returns with
  | nil =>
    cases htext
    exact (hhead.append neutral_blank).append hwritten
  | cons first rest =>
    obtain ⟨outputs, houtputs, htext⟩ := bind_eq_ok_iff.1 htext
    cases htext
    have harrow : Neutral " -> " := fun _ => rfl
    have hreturned := (hhead.append harrow).append (h.joined hnode hreturns houtputs)
    exact (hreturned.append neutral_blank).append hwritten

/-- A word that stands for itself. -/
theorem balances_word {word : String} (h : Neutral word) : Balances fun _ _ => .ok word := by
  intro node depth text hnode htext
  cases htext
  exact h

/-! ### Nodes of any depth -/

/-- **Every rule balances its brackets**, if what writes the nested nodes does. -/
theorem balances_of_get? {tag : String} {rule : Rule} (hnewline : Neutral layout.newline)
    (h : Balances render) (hrule : standardRules.get? tag = some rule) : Balances (rule layout render) := by
  have hmem := Table.mem_of_get?_ofList hrule
  refine List.forall_iff_forall_mem.1
    (?_ : List.Forall (fun entry => Balances (entry.2 layout render)) _) _ hmem
  exact ⟨balances_block hnewline h, balances_literal, balances_identifier, balances_typedName,
    balances_functionCall h, balances_variableDeclaration h, balances_assignment h,
    balances_expressionStatement h, balances_ifStatement h, balances_switch hnewline h,
    balances_switchCase h, balances_forLoop h, balances_functionDefinition h,
    balances_word fun _ => rfl, balances_word fun _ => rfl, balances_word fun _ => rfl⟩

theorem balances_renderWithin (hnewline : Neutral layout.newline) (fuel : Nat) :
    Balances ((Writer.standard layout).renderWithin fuel) := by
  induction fuel with
  | zero =>
    intro node depth text _ htext
    cases htext
  | succ fuel ih =>
    intro node depth text hnode htext
    rw [Writer.renderWithin] at htext
    cases hrule : (Writer.standard layout).rules.get? node.tag with
    | none =>
      rw [hrule] at htext
      cases htext
    | some rule =>
      rw [hrule] at htext
      exact balances_of_get? hnewline ih hrule node depth text hnode htext

/-- **Assembly is balanced if its texts are.** -/
theorem Writer.neutral_renderAtDepth (hnewline : Neutral layout.newline)
    (hnode : ∀ own ∈ node.strings, Neutral own)
    (h : (Writer.standard layout).renderAtDepth node depth = .ok text) : Neutral text :=
  balances_renderWithin hnewline node.height node depth text hnode h

end Yul

end SolText
