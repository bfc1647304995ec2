import SolText.Proofs.Forest.Ancestry
import SolText.Proofs.Write.Text

/-!
# Margins and braces

How far in a node is written is counted along the nodes above it, while the braces around it are
written on the way down to it. Both count the same scopes, at every place of the text: a line starts
as many levels in as there are braces open, and the line of a closing brace one level less.

* `Laid`: text with balanced braces, whose margins and assembly are as deep as the braces say.
* `Placed`, `Laid.placed`: **what stands at a place of such text follows from the braces before it.**
* `Piece.LaidAt`, `laidAt_pieces`: the rules give pieces of such text.
* `Writer.tagged_indented`: **the text of every node is laid out by its braces.**
-/

namespace SolText

/-- The text that opens a scope. -/
def opening : Role × String := (.punctuation, "\x7b")

/-- The text that closes a scope. -/
def closing : Role × String := (.punctuation, "\x7d")

/-- How many more braces a text opens than it closes. -/
def openBraces (fragments : List (Role × String)) : Int :=
  fragments.count opening - fragments.count closing

theorem openBraces_append (a b : List (Role × String)) :
    openBraces (a ++ b) = openBraces a + openBraces b := by
  unfold openBraces
  rw [List.count_append, List.count_append]
  omega

theorem openBraces_opening (fragments : List (Role × String)) :
    openBraces (opening :: fragments) = openBraces fragments + 1 := by
  have hne : closing ≠ opening := by decide
  unfold openBraces
  rw [List.count_cons_self, List.count_cons_of_ne hne.symm]
  omega

/-- Text that neither opens nor closes a scope and does not depend on how far in it stands. -/
def Inert (fragment : Role × String) : Prop :=
  fragment.1 ≠ .indent ∧ fragment.1 ≠ .assembly ∧ fragment ≠ opening ∧ fragment ≠ closing

instance (fragment : Role × String) : Decidable (Inert fragment) :=
  inferInstanceAs (Decidable (_ ∧ _))

theorem Inert.openBraces_eq {fragment : Role × String} (h : Inert fragment) :
    openBraces [fragment] = 0 := by
  unfold openBraces
  rw [List.count_singleton, List.count_singleton]
  simp [h.2.2.1, h.2.2.2]

variable {forest : Forest} {layout : Layout} {depth opened : Nat} {nodes nodes' : List Handle}
  {before after rest fragments : List (Role × String)} {fragment : Role × String}

/-! ### Balanced text -/

/-- Text that starts `depth` levels in and has balanced braces. Margins and assembly are as deep as
the braces say, and the assembly is that of the given nodes, in order. -/
inductive Laid (forest : Forest) (layout : Layout) :
    (depth : Nat) → (nodes : List Handle) → List (Role × String) → Prop where
  | nil {depth : Nat} : Laid forest layout depth [] []
  | inert {depth : Nat} {fragment : Role × String} : Inert fragment →
      Laid forest layout depth [] [fragment]
  | margin {depth : Nat} : Laid forest layout depth [] [(.indent, layout.margin depth)]
  | assembly {depth : Nat} {node : Handle} {ast : Yul.Node} {code : String} :
      forest.node? node = some (.inlineAssembly ast) →
      (Yul.Writer.standard layout).renderAtDepth ast depth = .ok code →
      Laid forest layout depth [node] [(.assembly, code)]
  | scope {depth : Nat} {nodes : List Handle} {inner : List (Role × String)} :
      Laid forest layout (depth + 1) nodes inner →
      Laid forest layout depth nodes
        (opening :: (inner ++ [(.indent, layout.margin depth), closing]))
  | append {depth : Nat} {nodes nodes' : List Handle} {a b : List (Role × String)} :
      Laid forest layout depth nodes a → Laid forest layout depth nodes' b →
      Laid forest layout depth (nodes ++ nodes') (a ++ b)

namespace Laid

theorem openBraces_eq (h : Laid forest layout depth nodes fragments) : openBraces fragments = 0 := by
  induction h with
  | nil => rfl
  | inert hinert => exact hinert.openBraces_eq
  | margin => rfl
  | assembly _ _ => rfl
  | scope _ ih =>
    rw [openBraces_opening, openBraces_append, ih]
    rfl
  | append _ _ iha ihb => rw [openBraces_append, iha, ihb]; rfl

theorem countP_assembly (h : Laid forest layout depth nodes fragments) :
    fragments.countP (·.1 = .assembly) = nodes.length := by
  induction h with
  | nil => rfl
  | inert hinert => simp [hinert.2.1]
  | margin => rfl
  | assembly _ _ => rfl
  | scope _ ih =>
    rw [List.countP_cons, List.countP_append, ih]
    rfl
  | append _ _ iha ihb => rw [List.countP_append, List.length_append, iha, ihb]

/-- What is closed was opened before. -/
theorem head?_ne (h : Laid forest layout depth nodes fragments) : fragments.head? ≠ some closing := by
  induction h with
  | nil => simp
  | inert hinert => simpa using hinert.2.2.2
  | margin => simp [closing]
  | assembly _ _ => simp [closing]
  | scope _ _ => simp [opening, closing]
  | @append _ _ _ a b _ _ iha ihb =>
    cases a with
    | nil => simpa using ihb
    | cons first a => simpa using iha

end Laid

/-! ### Places in a text -/

/-- What stands between `before` and `after` follows from the braces before it, in a text that starts
`depth` levels in. A margin is as wide as they say, one level less in front of a closing brace, and
assembly is written as deep. It comes from the node whose turn it is among `nodes`. -/
def Placed (forest : Forest) (layout : Layout) (depth : Nat) (nodes : List Handle)
    (before : List (Role × String)) (fragment : Role × String) (after : List (Role × String)) : Prop :=
  ∃ opened : Nat, openBraces before = opened ∧
    (fragment.1 = .indent →
      if after.head? = some closing then
        ∃ outer, depth + opened = outer + 1 ∧ fragment.2 = layout.margin outer
      else fragment.2 = layout.margin (depth + opened)) ∧
    (fragment.1 = .assembly → ∃ node ast, nodes[before.countP (·.1 = .assembly)]? = some node ∧
      forest.node? node = some (.inlineAssembly ast) ∧
      (Yul.Writer.standard layout).renderAtDepth ast (depth + opened) = .ok fragment.2)

namespace Placed

theorem of_role (hopened : openBraces before = opened) (hindent : fragment.1 ≠ .indent)
    (hassembly : fragment.1 ≠ .assembly) : Placed forest layout depth nodes before fragment after :=
  ⟨opened, hopened, fun h => absurd h hindent, fun h => absurd h hassembly⟩

/-- Text behind, unless it closes a scope. -/
theorem append_right (h : Placed forest layout depth nodes before fragment after)
    (hrest : rest.head? ≠ some closing) :
    Placed forest layout depth (nodes ++ nodes') before fragment (after ++ rest) := by
  obtain ⟨opened, hopened, hmargin, hcode⟩ := h
  have hhead : (after ++ rest).head? = some closing ↔ after.head? = some closing := by
    cases after with
    | nil => simpa using hrest
    | cons first after => simp
  refine ⟨opened, hopened, ?_, fun hrole => ?_⟩
  · simpa only [hhead] using hmargin
  · obtain ⟨node, ast, hnode, hast⟩ := hcode hrole
    obtain ⟨hlt, -⟩ := List.getElem?_eq_some_iff.1 hnode
    exact ⟨node, ast, by rw [List.getElem?_append_left hlt, hnode], hast⟩

/-- Balanced text in front. -/
theorem append_left {first : List (Role × String)} (hfirst : Laid forest layout depth nodes first)
    (h : Placed forest layout depth nodes' before fragment after) :
    Placed forest layout depth (nodes ++ nodes') (first ++ before) fragment after := by
  obtain ⟨opened, hopened, hmargin, hcode⟩ := h
  refine ⟨opened, ?_, hmargin, fun hrole => ?_⟩
  · rw [openBraces_append, hfirst.openBraces_eq, hopened, Int.zero_add]
  · obtain ⟨node, ast, hnode, hast⟩ := hcode hrole
    refine ⟨node, ast, ?_, hast⟩
    rw [List.countP_append, hfirst.countP_assembly, List.getElem?_append_right (Nat.le_add_right _ _),
      Nat.add_sub_cancel_left, hnode]

/-- A scope around the text. -/
theorem scope (h : Placed forest layout (depth + 1) nodes before fragment after) :
    Placed forest layout depth nodes (opening :: before) fragment after := by
  obtain ⟨opened, hopened, hmargin, hcode⟩ := h
  have hdepth : depth + (opened + 1) = depth + 1 + opened := by omega
  refine ⟨opened + 1, ?_, ?_, ?_⟩
  · rw [openBraces_opening, hopened]
    rfl
  · rw [hdepth]
    exact hmargin
  · rw [hdepth]
    exact hcode

end Placed

/-- **What stands at a place of balanced text follows from the braces before it.** -/
theorem Laid.placed (h : Laid forest layout depth nodes fragments) :
    ∀ before fragment after, fragments = before ++ fragment :: after →
      Placed forest layout depth nodes before fragment after := by
  have hsingle : ∀ {x fragment : Role × String} {before after : List (Role × String)},
      [x] = before ++ fragment :: after → before = [] ∧ fragment = x ∧ after = [] := by
    intro x fragment before after hsplit
    cases before with
    | nil => simpa [eq_comm] using hsplit
    | cons _ _ => simp at hsplit
  induction h with
  | nil =>
    intro before fragment after hsplit
    simp at hsplit
  | inert hinert =>
    intro before fragment after hsplit
    obtain ⟨rfl, rfl, rfl⟩ := hsingle hsplit
    exact .of_role rfl hinert.1 hinert.2.1
  | margin =>
    intro before fragment after hsplit
    obtain ⟨rfl, rfl, rfl⟩ := hsingle hsplit
    exact ⟨0, rfl, fun _ => rfl, nofun⟩
  | assembly hnode hcode =>
    intro before fragment after hsplit
    obtain ⟨rfl, rfl, rfl⟩ := hsingle hsplit
    exact ⟨0, rfl, nofun, fun _ => ⟨_, _, rfl, hnode, hcode⟩⟩
  | @scope depth nodes inner hinner ih =>
    intro before fragment after hsplit
    cases before with
    | nil =>
      obtain ⟨rfl, -⟩ := List.cons.inj hsplit
      exact .of_role rfl (by decide) (by decide)
    | cons first before =>
      rw [List.cons_append, List.cons.injEq] at hsplit
      obtain ⟨rfl, htail⟩ := hsplit
      -- inside the scope, or at its last margin and brace
      rcases Forest.append_eq_append_cons htail with ⟨rest, rfl⟩ | ⟨middle, rfl, hend⟩
      · rw [List.append_assoc, List.append_cancel_left_eq, List.cons_append, List.cons.injEq] at htail
        obtain ⟨-, rfl⟩ := htail
        have hrest : [(Role.indent, layout.margin depth), closing].head? ≠ some closing := by
          simp [closing]
        rw [← List.append_nil nodes]
        exact ((ih before fragment rest rfl).append_right hrest).scope
      · have hopened : openBraces (opening :: inner) = 1 := by
          rw [openBraces_opening, hinner.openBraces_eq]
          rfl
        match middle, hend with
        | [], hend =>
          -- the margin of the closing brace, which stands one level further out
          cases hend
          rw [List.append_nil]
          exact ⟨1, hopened, fun _ => ⟨depth, rfl, rfl⟩, nofun⟩
        | [_], hend =>
          cases hend
          have hclosed :
              openBraces (opening :: (inner ++ [(.indent, layout.margin depth)])) = (1 : Nat) := by
            rw [← List.cons_append, openBraces_append, hopened]
            rfl
          exact .of_role hclosed (by decide) (by decide)
        | _ :: _ :: _, hend => simp at hend
  | append ha hb iha ihb =>
    intro before fragment after hsplit
    rcases Forest.append_eq_append_cons hsplit with ⟨rest, rfl⟩ | ⟨middle, rfl, htail⟩
    · rw [List.append_assoc, List.append_cancel_left_eq, List.cons_append, List.cons.injEq] at hsplit
      obtain ⟨-, rfl⟩ := hsplit
      exact (iha before fragment rest rfl).append_right hb.head?_ne
    · exact (ihb middle fragment after htail).append_left ha

/-! ### Scopes and assembly in a tree -/

namespace Forest

variable {parent child handle : Nat} {node : Node}

/-- The children of a scope are one level further in than the scope, other children are not. -/
theorem Sound.nesting_child (hs : forest.Sound) (hn : forest.node? parent = some node)
    (hc : child ∈ forest.children parent) :
    forest.nesting child = forest.nesting parent + if node.kind.isScope then 1 else 0 := by
  unfold nesting
  rw [hs.ancestors_eq hc, List.countP_cons, hn]

/-- Whether a node is assembly. -/
def isAssembly (forest : Forest) (handle : Handle) : Bool :=
  (forest.node? handle).map Node.kind == some .inlineAssembly

/-- The assembly beneath a node, in the order in which it is visited. -/
def assemblies (forest : Forest) (root : Handle) : List Handle :=
  (forest.walk root).filter forest.isAssembly

theorem Sound.assemblies_eq (hs : forest.Sound) (handle : Nat) :
    forest.assemblies handle =
      [handle].filter forest.isAssembly ++ (forest.children handle).flatMap forest.assemblies := by
  unfold assemblies
  rw [hs.walk_eq, ← List.singleton_append, List.filter_append, List.filter_flatMap]

/-- Assembly has nothing beneath it. -/
theorem Sound.assemblies_of_assembly (hs : forest.Sound) {ast : Yul.Node}
    (hn : forest.node? handle = some (.inlineAssembly ast)) : forest.assemblies handle = [handle] := by
  rw [hs.assemblies_eq, hs.children_eq hn]
  simp [isAssembly, hn, Node.kind, Node.children]

/-- A child that is left out has no assembly beneath it. -/
theorem Sound.assemblies_of_omits (hs : forest.Sound) (h : forest.omits parent child = true) :
    forest.assemblies child = [] := by
  have hn := node?_of_omits h
  rw [hs.assemblies_eq, hs.children_eq hn]
  simp [isAssembly, hn, Node.kind, Node.children]

/-- The assembly beneath another node is that beneath the children that are written. -/
theorem Sound.assemblies_of_written (hs : forest.Sound) (hn : forest.node? handle = some node)
    (hkind : node.kind ≠ .inlineAssembly) :
    forest.assemblies handle =
      ((forest.children handle).filter fun c => !forest.omits handle c).flatMap forest.assemblies := by
  have hself : forest.isAssembly handle = false := by simpa [isAssembly, hn] using hkind
  rw [hs.assemblies_eq, List.filter_singleton, hself]
  induction forest.children handle with
  | nil => rfl
  | cons c rest ih =>
    by_cases ho : forest.omits handle c
    · simpa [ho, hs.assemblies_of_omits ho] using ih
    · simpa [ho] using ih

end Forest

/-! ### Pieces -/

namespace Piece

open Writer

variable {tagged : Handle → Except WriteError (List (Role × String))} {a b pieces : List Piece}

/-- Pieces that become balanced text once the nodes among them have their tagged text. -/
def LaidAt (forest : Forest) (layout : Layout)
    (tagged : Handle → Except WriteError (List (Role × String))) (depth : Nat) (pieces : List Piece) :
    Prop :=
  ∀ parts, pieces.mapM (taggedPiece tagged) = .ok parts →
    Laid forest layout depth ((handles pieces).flatMap forest.assemblies) parts.flatten

theorem LaidAt.nil : LaidAt forest layout tagged depth [] := by
  intro parts h
  cases h
  exact .nil

theorem LaidAt.append (ha : LaidAt forest layout tagged depth a)
    (hb : LaidAt forest layout tagged depth b) : LaidAt forest layout tagged depth (a ++ b) := by
  intro parts h
  rw [List.mapM_append] at h
  obtain ⟨first, hfirst, h⟩ := bind_eq_ok_iff.1 h
  obtain ⟨second, hsecond, h⟩ := bind_eq_ok_iff.1 h
  cases h
  rw [handles_append, List.flatMap_append, List.flatten_append]
  exact (ha first hfirst).append (hb second hsecond)

theorem LaidAt.text {role : Role} {content : String}
    (h : Laid forest layout depth [] [(role, content)]) :
    LaidAt forest layout tagged depth [.text role content] := by
  intro parts hparts
  cases hparts
  exact h

theorem LaidAt.absent : LaidAt forest layout tagged depth [.absent] := by
  intro parts hparts
  cases hparts
  exact .nil

theorem LaidAt.margin : LaidAt forest layout tagged depth [Piece.margin layout depth] := .text .margin

theorem LaidAt.node {child : Handle} (h : ∀ fragments, tagged child = .ok fragments →
      Laid forest layout depth (forest.assemblies child) fragments) :
    LaidAt forest layout tagged depth [.node child] := by
  intro parts hparts
  rw [List.mapM_cons] at hparts
  obtain ⟨fragments, hfragments, hparts⟩ := bind_eq_ok_iff.1 hparts
  cases hparts
  simpa using h fragments hfragments

theorem LaidAt.scope {inner : List Piece} (h : LaidAt forest layout tagged (depth + 1) inner) :
    LaidAt forest layout tagged depth
      (punctuation "\x7b" :: (inner ++ [Piece.margin layout depth, punctuation "\x7d"])) := by
  intro parts hparts
  rw [List.mapM_cons] at hparts
  obtain ⟨first, hfirst, hparts⟩ := bind_eq_ok_iff.1 hparts
  obtain ⟨others, hothers, hparts⟩ := bind_eq_ok_iff.1 hparts
  rw [List.mapM_append] at hothers
  obtain ⟨content, hcontent, hothers⟩ := bind_eq_ok_iff.1 hothers
  obtain ⟨last, hlast, hothers⟩ := bind_eq_ok_iff.1 hothers
  cases hfirst
  cases hlast
  cases hothers
  cases hparts
  simpa [opening, closing] using (h content hcontent).scope

/-- Pieces on one line: text without any part in the layout, and nodes. -/
def Level (pieces : List Piece) : Prop :=
  ∀ piece ∈ pieces, match piece with
    | .text role content => Inert (role, content)
    | .node _ | .absent => True

@[simp] theorem level_nil : Level [] := by simp [Level]

@[simp] theorem level_append : Level (a ++ b) ↔ Level a ∧ Level b := List.forall_mem_append

theorem level_text (role : Role) (content : String) :
    Level (.text role content :: pieces) ↔ Inert (role, content) ∧ Level pieces := List.forall_mem_cons

@[simp] theorem level_node (handle : Handle) : Level (.node handle :: pieces) ↔ Level pieces := by
  simp [Level]

@[simp] theorem level_absent : Level (.absent :: pieces) ↔ Level pieces := by
  simp [Level]

@[simp] theorem level_word {role : Role} (h : role ∉ [.indent, .assembly, .punctuation])
    (content : String) : Level (.text role content :: pieces) ↔ Level pieces := by
  simp only [List.mem_cons, List.not_mem_nil, or_false, not_or] at h
  simp [level_text, Inert, opening, closing, h]

@[simp] theorem level_keyword (content : String) : Level (keyword content :: pieces) ↔ Level pieces :=
  level_word (by decide) content

@[simp] theorem level_operator (content : String) : Level (operator content :: pieces) ↔ Level pieces :=
  level_word (by decide) content

@[simp] theorem level_space : Level (space :: pieces) ↔ Level pieces := level_word (by decide) " "

@[simp] theorem level_newline : Level (newline layout :: pieces) ↔ Level pieces :=
  level_word (by decide) layout.newline

@[simp] theorem level_punctuation (content : String) : Level (punctuation content :: pieces) ↔
    (content ≠ "\x7b" ∧ content ≠ "\x7d") ∧ Level pieces := by
  simp [punctuation, level_text, Inert, opening, closing]

@[simp] theorem level_spaced (word : Option String) : Level (spaced word) := by
  cases word <;> simp [spaced]

@[simp] theorem level_maybeNode (handle : Option Handle) : Level (maybeNode handle) := by
  cases handle <;> simp [maybeNode]

@[simp] theorem level_commaSeparated (handles : List Handle) : Level (commaSeparated handles) := by
  unfold commaSeparated
  induction handles with
  | nil => simp
  | cons first rest ih =>
    cases rest with
    | nil => simp
    | cons second rest =>
      rw [List.map_cons] at ih
      rw [List.map_cons, List.map_cons, List.intersperse_cons_cons]
      simpa using ih

@[simp] theorem level_piece (kind : LiteralKind) (value : String) : Level [kind.piece value] := by
  cases kind <;> simp [LiteralKind.piece]

theorem level_intercalate {separator : List Piece} (hseparator : Level separator)
    {parts : List (List Piece)} (hparts : ∀ part ∈ parts, Level part) :
    Level (separator.intercalate parts) :=
  intercalate_of_append level_nil (fun _ _ ha hb => level_append.2 ⟨ha, hb⟩) hseparator hparts

/-- Pieces on one line are as deep as the nodes among them. -/
theorem LaidAt.of_level (h : Level pieces)
    (hnodes : ∀ child ∈ handles pieces, LaidAt forest layout tagged depth [.node child]) :
    LaidAt forest layout tagged depth pieces := by
  induction pieces with
  | nil => exact .nil
  | cons piece rest ih =>
    rw [← List.singleton_append]
    cases piece with
    | absent => exact LaidAt.absent.append (ih (level_absent.1 h) hnodes)
    | text role content =>
      obtain ⟨hinert, hrest⟩ := (level_text role content).1 h
      exact (LaidAt.text (.inert hinert)).append (ih hrest hnodes)
    | node child =>
      obtain ⟨hchild, hothers⟩ := List.forall_mem_cons.1 hnodes
      exact hchild.append (ih ((level_node child).1 h) hothers)

theorem LaidAt.intercalate {separator : List Piece} {parts : List (List Piece)}
    (hseparator : LaidAt forest layout tagged depth separator)
    (hparts : ∀ part ∈ parts, LaidAt forest layout tagged depth part) :
    LaidAt forest layout tagged depth (separator.intercalate parts) :=
  intercalate_of_append .nil (fun _ _ ha hb => ha.append hb) hseparator hparts

theorem LaidAt.newline : LaidAt forest layout tagged depth [Piece.newline layout] :=
  .of_level (by simp) (by simp)

theorem LaidAt.braced {statements : List Handle}
    (h : ∀ s ∈ statements, LaidAt forest layout tagged (depth + 1) [.node s]) :
    LaidAt forest layout tagged depth (Piece.braced layout depth statements) := by
  have hlines : LaidAt forest layout tagged (depth + 1)
      (statements.flatMap fun s => [Piece.margin layout (depth + 1), .node s, Piece.newline layout]) := by
    induction statements with
    | nil => exact .nil
    | cons s rest ih =>
      obtain ⟨hs, hrest⟩ := List.forall_mem_cons.1 h
      exact (LaidAt.margin.append (hs.append .newline)).append (ih hrest)
  unfold Piece.braced
  split
  · exact .of_level (by simp) (by simp)
  · exact (LaidAt.newline.append hlines).scope

end Piece

open Piece

variable {tagged : Handle → Except WriteError (List (Role × String))}

/-- A member of a contract is one level further in than the contract. -/
theorem laidAt_memberPieces {member : Handle} {pieces : List Piece}
    (hm : memberPieces layout forest depth member = .ok pieces)
    (h : LaidAt forest layout tagged (depth + 1) [.node member]) :
    LaidAt forest layout tagged (depth + 1) pieces := by
  unfold memberPieces at hm
  obtain ⟨kind, -, hm⟩ := bind_eq_ok_iff.1 hm
  cases hm
  have hend : LaidAt forest layout tagged (depth + 1)
      (if kind = .variableDeclaration then [punctuation ";"] else []) := by
    split
    · exact .of_level (by simp) (by simp)
    · exact .nil
  exact (LaidAt.newline.append (LaidAt.margin.append h)).append hend

/-- Outside scopes and assembly, a rule has no part in the layout. -/
theorem level_pieces {setting : Setting} {handle : Handle} {node : Node} {pieces : List Piece}
    (h : node.pieces setting forest handle = .ok pieces) (hscope : node.kind.isScope = false)
    (hkind : node.kind ≠ .inlineAssembly) : Level pieces := by
  cases node with
  | contractDefinition name contractKind nodes => cases hscope
  | block statements => cases hscope
  | uncheckedBlock statements => cases hscope
  | inlineAssembly ast => exact absurd rfl hkind
  | sourceUnit nodes =>
    cases h
    exact level_intercalate (by simp) (by simp)
  | tupleExpression components isInlineArray =>
    have hcomponents : Level ([punctuation ", "].intercalate (components.map maybeNode)) :=
      level_intercalate (by simp) (by simp)
    cases isInlineArray with
    | true => cases h; exact level_append.2 ⟨level_append.2 ⟨by simp, hcomponents⟩, by simp⟩
    | false => cases h; exact level_append.2 ⟨level_append.2 ⟨by simp, hcomponents⟩, by simp⟩
  | functionDefinition name visibility mutability parameters returns body =>
    unfold Node.pieces at h
    obtain ⟨written, -, h⟩ := bind_eq_ok_iff.1 h
    cases h
    cases body <;> cases written <;> simp
  | pragmaDirective literals =>
    cases h
    match literals with
    | [] | [_] | _ :: _ :: _ => simp
  | variableDeclaration name typeName storageLocation value =>
    cases h
    by_cases hname : name.isEmpty <;> cases value <;> simp [hname]
  | variableDeclarationStatement declarations initialValue =>
    cases h
    match declarations with
    | [] | [_] | _ :: _ :: _ => cases initialValue <;> simp
  | expressionStatement expression =>
    cases h
    by_cases hends : forest.endsLoopHeader handle <;> simp [hends]
  | returnStatement expression =>
    cases h
    cases expression <;> simp
  | ifStatement condition trueBody falseBody =>
    cases h
    cases falseBody <;> simp
  | forStatement initialization condition loop body =>
    cases h
    cases initialization <;> cases condition <;> cases loop <;> simp
  | emitStatement eventCall =>
    cases h
    by_cases hreaches : setting.options.target.reaches 0 4 21 <;> simp [hreaches]
  | unaryOperation symbol leading operand =>
    cases leading with
    | false => cases h; simp
    | true =>
      cases h
      by_cases hword : symbol.toList.all Char.isAlpha <;> simp [hword]
  | _ => cases h; simp

/-- **A rule gives balanced text**, if the nodes in it are a level further in wherever it opens a
scope. -/
theorem laidAt_pieces {setting : Setting} {handle : Handle} {node : Node} {pieces : List Piece}
    (h : node.pieces setting forest handle = .ok pieces) (hkind : node.kind ≠ .inlineAssembly)
    (hnodes : ∀ child ∈ Piece.handles pieces, LaidAt forest setting.options.layout tagged
      (forest.nesting handle + if node.kind.isScope then 1 else 0) [.node child]) :
    LaidAt forest setting.options.layout tagged (forest.nesting handle) pieces := by
  cases hscope : node.kind.isScope with
  | false =>
    rw [hscope] at hnodes
    exact .of_level (level_pieces h hscope hkind) hnodes
  | true =>
    rw [hscope] at hnodes
    cases node with
    | block statements =>
      cases h
      rw [handles_braced] at hnodes
      exact .braced hnodes
    | uncheckedBlock statements =>
      unfold Node.pieces at h
      by_cases hreaches : setting.options.target.reaches 0 8 0
      · simp only [hreaches, if_true] at h
        cases h
        rw [handles_append, handles_braced] at hnodes
        exact (LaidAt.of_level (by simp) (by simp)).append (.braced hnodes)
      · simp only [hreaches] at h
        cases h
    | contractDefinition name contractKind nodes =>
      unfold Node.pieces at h
      cases nodes with
      | nil =>
        cases h
        exact .of_level (by simp) (by simp)
      | cons first rest =>
        simp only [List.isEmpty_cons, Bool.false_eq_true, if_false] at h
        obtain ⟨members, hmembers, h⟩ := bind_eq_ok_iff.1 h
        cases h
        have hseparator : Piece.handles [newline setting.options.layout] = [] := rfl
        simp only [handles_append, handles_intercalate hseparator, handles_memberPieces hmembers] at hnodes
        have hmember : ∀ part ∈ members,
            LaidAt forest setting.options.layout tagged (forest.nesting handle + 1) part := by
          intro part hpart
          obtain ⟨member, hmem, hpart⟩ := exists_of_mem_mapM hmembers hpart
          exact laidAt_memberPieces hpart (hnodes member (by simp [hmem]))
        -- the break in front of the last margin belongs to the members
        have hscope := ((LaidAt.newline.intercalate hmember).append .newline).scope
        have hhead : Level [keyword contractKind.keyword, space, .text .declaration name, space] := by simp
        simpa using (LaidAt.of_level hhead (by simp)).append hscope
    | _ => cases hscope

namespace Writer

variable {options : Options} {root : Handle}

/-- **The text of a node is laid out as far in as the node is nested.** -/
theorem laid_taggedWithin (hs : forest.Sound) (fuel : Nat) (handle : Handle)
    {fragments : List (Role × String)}
    (h : (standard options).taggedWithin forest fuel handle = .ok fragments) :
    Laid forest options.layout (forest.nesting handle) (forest.assemblies handle) fragments := by
  -- the text is given, so any fuel that sufficed for it does
  induction fuel generalizing handle fragments with
  | zero => cases h
  | succ fuel ih =>
    rw [taggedWithin_succ] at h
    obtain ⟨pieces, hpieces, h⟩ := bind_eq_ok_iff.1 h
    obtain ⟨parts, hparts, h⟩ := bind_eq_ok_iff.1 h
    cases h
    obtain ⟨node, hn⟩ := exists_node_of_pieces hpieces
    rw [standard_pieces hn] at hpieces
    have hhandles := handles_pieces hs hn hpieces
    by_cases hkind : node.kind = .inlineAssembly
    · cases node with
      | inlineAssembly ast =>
        unfold Node.pieces at hpieces
        obtain ⟨code, hcode, hpieces⟩ := bind_eq_ok_iff.1 hpieces
        cases hpieces
        cases hparts
        rw [hs.assemblies_of_assembly hn]
        have hkeyword : Inert (.keyword, "assembly") := by decide
        have hspace : Inert (.neutral, " ") := by decide
        exact (Laid.inert hkeyword).append ((Laid.inert hspace).append
          (.assembly hn (mapError_eq_ok_iff.1 hcode)))
      | _ => cases hkind
    · rw [hs.assemblies_of_written hn hkind, ← hhandles]
      refine laidAt_pieces hpieces hkind (fun child hchild => .node fun fragments hfragments => ?_) parts hparts
      rw [hhandles, List.mem_filter] at hchild
      have hnesting := hs.nesting_child hn hchild.1
      rw [← hnesting]
      exact ih child hfragments

/-- **Margins are as wide as braces are open, and assembly is written as deep.** No brace is closed
that was not opened, and none is left open. -/
theorem tagged_indented (hb : forest.Built) {fragments : List (Role × String)}
    (h : (standard options).tagged forest root = .ok fragments) :
    openBraces fragments = 0 ∧ ∀ before fragment after, fragments = before ++ fragment :: after →
      Placed forest options.layout (forest.nesting root) (forest.assemblies root) before fragment after := by
  have hlaid := laid_taggedWithin hb.sound _ root h
  exact ⟨hlaid.openBraces_eq, hlaid.placed⟩

/-- Assembly in a block that is itself in a block: one brace is open before the assembly, but it is
written two levels in. -/
theorem tagged_indented_nested :
    ∃ forest, Forest.ofNodes [.inlineAssembly ⟨"YulBlock",
        { members := [("statements", .arr [.obj [("nodeType", .str "YulLeave")]])] }⟩, .block [0],
        .block [1]] = .ok forest ∧
      ∃ before after code, (standard {}).tagged forest 1 = .ok (before ++ (.assembly, code) :: after) ∧
        code = "\x7b\n            leave\n        \x7d" ∧ openBraces before = 1 ∧
        Placed forest {} 1 [0] before (.assembly, code) after ∧
        Placed forest {} 1 [0] (before ++ [(.assembly, code), (.newline, "\n")]) (.indent, "    ")
          [closing] := by
  have hforest : Forest.ofNodes [.inlineAssembly ⟨"YulBlock",
      { members := [("statements", .arr [.obj [("nodeType", .str "YulLeave")]])] }⟩, .block [0],
      .block [1]] = .ok ⟨#[⟨.inlineAssembly ⟨"YulBlock",
        { members := [("statements", .arr [.obj [("nodeType", .str "YulLeave")]])] }⟩, some 1, []⟩,
        ⟨.block [0], some 2, [0]⟩, ⟨.block [1], none, [1]⟩]⟩ := rfl
  obtain ⟨-, hplaced⟩ := @tagged_indented _ {} 1 (Forest.Built.ofNodes hforest) _ rfl
  exact ⟨_, hforest, [opening, (.newline, "\n"), (.indent, "        "), (.keyword, "assembly"),
    (.neutral, " ")], [(.newline, "\n"), (.indent, "    "), closing], _, rfl, rfl, rfl,
    hplaced _ _ _ rfl, hplaced _ _ _ rfl⟩

end Writer

end SolText
