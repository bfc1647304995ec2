import SolText.Proofs.Except
import SolText.Proofs.Forest.Shape
import SolText.Write.Writer

/-!
# The nodes among the pieces

A rule names the nodes that are written in the place of a node. The list of the node's children says
the same once more.

* `Forest.ReturnsNothing`, `Forest.omits`: the one child that is not written, an empty list of returned
  values.
* `Forest.IsEmptyReturns`, `omits_iff`: the same by the node itself.
* `handles_pieces`: **a rule writes exactly the children of its node, in order.**
* `pieces_eq_of_rule`, `pieces_eq_noRule`: the pieces of a node by the rule of its kind.
* `standardRules_write_children`: the same for the rules in the table, with what is left out spelled out.
-/

namespace SolText

namespace Piece

variable {pieces : List Piece} {layout : Layout}

@[simp] theorem handles_nil : handles [] = [] := rfl

@[simp] theorem handles_text (role : Role) (content : String) :
    handles (.text role content :: pieces) = handles pieces := rfl

@[simp] theorem handles_node (handle : Handle) :
    handles (.node handle :: pieces) = handle :: handles pieces := rfl

@[simp] theorem handles_absent : handles (.absent :: pieces) = handles pieces := rfl

@[simp] theorem handles_append (a b : List Piece) : handles (a ++ b) = handles a ++ handles b := by
  unfold handles
  rw [List.filterMap_append]

theorem mem_handles_node (before after : List Piece) (handle : Handle) :
    handle ∈ handles (before ++ .node handle :: after) := by
  rw [handles_append]
  exact List.mem_append_right _ List.mem_cons_self

/-- A node among pieces has a place there. -/
theorem exists_of_mem_handles {handle : Handle} (h : handle ∈ handles pieces) :
    ∃ before after, pieces = before ++ .node handle :: after := by
  obtain ⟨piece, hpiece, hsome⟩ := List.mem_filterMap.1 h
  cases piece with
  | absent | text role content => cases hsome
  | node handle =>
    cases hsome
    exact List.append_of_mem hpiece

@[simp] theorem handles_keyword (content : String) :
    handles (keyword content :: pieces) = handles pieces := rfl

@[simp] theorem handles_punctuation (content : String) :
    handles (punctuation content :: pieces) = handles pieces := rfl

@[simp] theorem handles_space : handles (space :: pieces) = handles pieces := rfl

@[simp] theorem handles_operator (content : String) :
    handles (operator content :: pieces) = handles pieces := rfl

@[simp] theorem handles_newline : handles (newline layout :: pieces) = handles pieces := rfl

@[simp] theorem handles_margin (depth : Nat) :
    handles (margin layout depth :: pieces) = handles pieces := rfl

@[simp] theorem handles_spaced (word : Option String) : handles (spaced word) = [] := by
  cases word <;> rfl

@[simp] theorem handles_maybeNode (handle : Option Handle) :
    handles (maybeNode handle) = handle.toList := by
  cases handle <;> rfl

/-- Separators without nodes leave only the nodes of what they separate. -/
theorem handles_intercalate {separator : List Piece} (h : handles separator = [])
    (parts : List (List Piece)) : handles (separator.intercalate parts) = parts.flatMap handles := by
  induction parts with
  | nil => rfl
  | cons part rest ih =>
    cases rest with
    | nil => simp
    | cons next rest =>
      rw [List.intercalate_cons_cons, handles_append, handles_append, h, ih, List.flatMap_cons]
      simp

/-- The parts of a tuple name the components that are there. -/
theorem handles_components (components : List (Option Handle)) :
    (components.map maybeNode).flatMap handles = components.filterMap id := by
  induction components with
  | nil => rfl
  | cons component rest ih =>
    rw [List.map_cons, List.flatMap_cons, handles_maybeNode, ih]
    cases component <;> rfl

@[simp] theorem handles_commaSeparated (handles : List Handle) :
    Piece.handles (commaSeparated handles) = handles := by
  unfold commaSeparated
  induction handles with
  | nil => rfl
  | cons first rest ih =>
    cases rest with
    | nil => rfl
    | cons second rest =>
      rw [List.map_cons] at ih
      rw [List.map_cons, List.map_cons, List.intersperse_cons_cons, handles_node, handles_punctuation, ih]

@[simp] theorem handles_braced (depth : Nat) (statements : List Handle) :
    handles (braced layout depth statements) = statements := by
  unfold braced
  cases statements with
  | nil => rfl
  | cons first rest =>
    have hflat : ∀ l : List Handle,
        handles (l.flatMap fun s => [margin layout (depth + 1), .node s, newline layout]) = l := by
      intro l
      induction l with
      | nil => rfl
      | cons s l ih => rw [List.flatMap_cons, handles_append, ih]; rfl
    simp only [List.isEmpty_cons, Bool.false_eq_true, if_false, handles_append, hflat]
    simp

/-- What passes from lists of pieces to their concatenation passes to lists with separators. -/
theorem intercalate_of_append {P : List Piece → Prop} (hnil : P [])
    (happend : ∀ a b, P a → P b → P (a ++ b)) {separator : List Piece} (hseparator : P separator)
    {parts : List (List Piece)} (hparts : ∀ part ∈ parts, P part) : P (separator.intercalate parts) := by
  induction parts with
  | nil => exact hnil
  | cons part rest ih =>
    obtain ⟨hpart, hrest⟩ := List.forall_mem_cons.1 hparts
    cases rest with
    | nil => simpa using hpart
    | cons next rest =>
      rw [List.intercalate_cons_cons]
      exact happend _ _ (happend _ _ hpart hseparator) (ih hrest)

end Piece

open Piece

variable {forest : Forest} {setting : Setting} {handle : Handle} {node : Node} {pieces : List Piece}

/-- The pieces of the members of a contract name just the members. -/
theorem handles_memberPieces {layout : Layout} {depth : Nat} {nodes : List Handle}
    {members : List (List Piece)} (h : nodes.mapM (memberPieces layout forest depth) = .ok members) :
    members.flatMap Piece.handles = nodes := by
  induction nodes generalizing members with
  | nil => cases h; rfl
  | cons first rest ih =>
    rw [List.mapM_cons] at h
    obtain ⟨member, hm, h⟩ := bind_eq_ok_iff.1 h
    obtain ⟨others, ho, h⟩ := bind_eq_ok_iff.1 h
    cases h
    unfold memberPieces at hm
    obtain ⟨kind, -, hm⟩ := bind_eq_ok_iff.1 hm
    cases hm
    rw [List.flatMap_cons, ih ho, handles_append]
    by_cases hk : kind = .variableDeclaration <;> simp [hk]

/-! ### The child that is left out -/

/-- Only an empty list of returned values is not written. -/
theorem Forest.writesReturns_eq_ok {returns : Handle} {written : Bool}
    (h : forest.writesReturns returns = .ok written) :
    written = false ↔ forest.node? returns = some (.parameterList []) := by
  unfold writesReturns Forest.node at h
  cases hr : forest.node? returns with
  | none => rw [hr] at h; cases h
  | some node =>
    rw [hr] at h
    simp only [bind, Except.bind] at h
    split at h
    · cases h
      simp
    · rename_i hne
      cases h
      simpa using hne

/-- A function returns nothing: its list of returned values is empty. -/
def Forest.ReturnsNothing (forest : Forest) (function returns : Handle) : Prop :=
  forest.node? returns = some (.parameterList []) ∧
    ∃ name visibility mutability parameters body, forest.node? function =
      some (.functionDefinition name visibility mutability parameters returns body)

theorem Forest.ReturnsNothing.mem_children {function returns : Handle} (hs : forest.Sound)
    (h : forest.ReturnsNothing function returns) : returns ∈ forest.children function := by
  obtain ⟨-, name, visibility, mutability, parameters, body, hfunction⟩ := h
  rw [hs.children_eq hfunction]
  simp [Node.children]

/-- A function has one list of returned values. -/
theorem Forest.ReturnsNothing.unique {function returns other : Handle}
    (h : forest.ReturnsNothing function returns) (h' : forest.ReturnsNothing function other) :
    returns = other := by
  obtain ⟨-, _, _, _, _, _, hfunction⟩ := h
  obtain ⟨-, _, _, _, _, _, hfunction'⟩ := h'
  rw [hfunction] at hfunction'
  cases hfunction'
  rfl

/-- Whether a child is left out where its parent is written. -/
def Forest.omits (forest : Forest) (parent child : Handle) : Bool :=
  match forest.node? parent, forest.node? child with
  | some (.functionDefinition _ _ _ _ returns _), some (.parameterList []) => returns == child
  | _, _ => false

theorem omits_eq_true_iff {parent child : Handle} :
    forest.omits parent child = true ↔ forest.ReturnsNothing parent child := by
  unfold Forest.omits
  constructor
  · intro h
    split at h
    · rename_i name visibility mutability parameters returns body hparent hchild
      have hreturns : returns = child := by simpa using h
      rw [hreturns] at hparent
      exact ⟨hchild, name, visibility, mutability, parameters, body, hparent⟩
    · cases h
  · rintro ⟨hchild, name, visibility, mutability, parameters, body, hparent⟩
    rw [hparent, hchild]
    simp

/-- Only an empty list is left out. -/
theorem node?_of_omits {parent child : Handle} (h : forest.omits parent child = true) :
    forest.node? child = some (.parameterList []) :=
  (omits_eq_true_iff.1 h).1

/-- Other nodes than functions return nothing that could be left out. -/
theorem not_returnsNothing (hn : forest.node? handle = some node)
    (hk : node.kind ≠ .functionDefinition) (returns : Handle) :
    ¬forest.ReturnsNothing handle returns := by
  rintro ⟨-, name, visibility, mutability, parameters, body, hfunction⟩
  rw [hn] at hfunction
  cases hfunction
  exact hk rfl

/-- Only a function that returns nothing leaves a child out. -/
theorem filter_omits_eq_self (h : ∀ returns, ¬forest.ReturnsNothing handle returns)
    (children : List Handle) : children.filter (fun c => !forest.omits handle c) = children := by
  rw [List.filter_eq_self]
  intro child _
  rw [Bool.not_eq_true', ← Bool.not_eq_true, omits_eq_true_iff]
  exact h child

/-- A function that returns nothing leaves out its list of returned values alone. -/
theorem filter_omits_eq_erase (hs : forest.Sound) {returns : Handle}
    (h : forest.ReturnsNothing handle returns) :
    (forest.children handle).filter (fun c => !forest.omits handle c) =
      (forest.children handle).erase returns := by
  -- the children are distinct, so to drop the list once is to drop it wherever it stands
  rw [(hs.nodup handle).erase_eq_filter]
  apply List.filter_congr
  intro child _
  have homits : forest.omits handle child = true ↔ child = returns := by
    rw [omits_eq_true_iff]
    constructor
    · exact fun hchild => hchild.unique h
    · rintro rfl
      exact h
  rw [Bool.eq_iff_iff, bne_iff_ne, Bool.not_eq_true', ← Bool.not_eq_true, homits]

/-- A node is the list of what a function returns, and the list is empty. -/
def Forest.IsEmptyReturns (forest : Forest) (node : Handle) : Prop :=
  forest.node? node = some (.parameterList []) ∧
    ∃ function name visibility mutability parameters body, forest.node? function =
      some (.functionDefinition name visibility mutability parameters node body)

/-- A child is left out exactly if it is an empty list of returned values. -/
theorem omits_iff (hs : forest.Sound) {parent child : Nat} (hc : child ∈ forest.children parent) :
    forest.omits parent child = true ↔ forest.IsEmptyReturns child := by
  rw [omits_eq_true_iff]
  constructor
  · rintro ⟨hempty, name, visibility, mutability, parameters, body, hparent⟩
    exact ⟨hempty, parent, name, visibility, mutability, parameters, body, hparent⟩
  · rintro ⟨hempty, function, hfunction⟩
    -- the function has the list among its children, so it is the parent
    have hreturns : forest.ReturnsNothing function child := ⟨hempty, hfunction⟩
    rw [hs.parent_unique hc (hreturns.mem_children hs)]
    exact hreturns

/-! ### Pieces and children -/

/-- A node of any kind but a function names its children, in order. -/
theorem handles_pieces_eq_children (hk : node.kind ≠ .functionDefinition)
    (h : node.pieces setting forest handle = .ok pieces) : Piece.handles pieces = node.children := by
  cases node with
  | functionDefinition name visibility mutability parameters returns body => exact absurd rfl hk
  | sourceUnit nodes =>
    cases h
    rw [handles_intercalate rfl, List.flatMap_map]
    exact List.flatMap_singleton' nodes
  | contractDefinition name contractKind nodes =>
    unfold Node.pieces at h
    cases nodes with
    | nil => cases h; rfl
    | cons first rest =>
      simp only [List.isEmpty_cons, Bool.false_eq_true, if_false] at h
      obtain ⟨members, hm, h⟩ := bind_eq_ok_iff.1 h
      cases h
      have hsep : Piece.handles [newline setting.options.layout] = [] := rfl
      simp only [handles_append, handles_intercalate hsep, handles_memberPieces hm]
      simp [Node.children]
  | tupleExpression components isInlineArray =>
    have hsep : Piece.handles [punctuation ", "] = [] := rfl
    cases h
    simp only [handles_append, handles_intercalate hsep, handles_components]
    cases isInlineArray <;> simp [Node.children]
  | pragmaDirective literals =>
    cases h
    match literals with
    | [] | [_] | _ :: _ :: _ => rfl
  | uncheckedBlock statements =>
    unfold Node.pieces at h
    by_cases ht : setting.options.target.reaches 0 8 0
    · simp only [ht, if_true] at h
      cases h
      simp [Node.children]
    · simp only [ht] at h
      cases h
  | variableDeclaration name typeName storageLocation value =>
    cases h
    by_cases hname : name.isEmpty <;> cases value <;> simp [Node.children, hname]
  | variableDeclarationStatement declarations initialValue =>
    -- a single declaration stands without brackets
    cases h
    match declarations with
    | [] | [_] | _ :: _ :: _ => cases initialValue <;> simp [Node.children]
  | expressionStatement expression =>
    cases h
    cases forest.endsLoopHeader handle <;> rfl
  | returnStatement expression =>
    cases h
    cases expression <;> rfl
  | ifStatement condition trueBody falseBody =>
    cases h
    cases falseBody <;> rfl
  | forStatement initialization condition loop body =>
    cases h
    cases initialization <;> cases condition <;> cases loop <;> rfl
  | emitStatement eventCall =>
    cases h
    by_cases ht : setting.options.target.reaches 0 4 21 <;> simp [Node.children, ht]
  | inlineAssembly ast =>
    unfold Node.pieces at h
    obtain ⟨code, -, h⟩ := bind_eq_ok_iff.1 h
    cases h; rfl
  | literal kind value =>
    cases h
    cases kind <;> rfl
  | unaryOperation symbol leading operand =>
    cases leading with
    | false => cases h; rfl
    | true =>
      cases h
      by_cases hw : symbol.toList.all Char.isAlpha <;> simp [Node.children, hw]
  | _ =>
    cases h
    simp [Node.children]

/-- A function names its children, in order, the list of returned values only if it is written. -/
theorem handles_pieces_function {name : String} {visibility : Visibility} {mutability : Mutability}
    {parameters returns : Handle} {body : Option Handle}
    (h : (Node.functionDefinition name visibility mutability parameters returns body).pieces
      setting forest handle = .ok pieces) :
    ∃ written, forest.writesReturns returns = .ok written ∧
      Piece.handles pieces =
        parameters :: (if written then [returns] else []) ++ body.toList := by
  unfold Node.pieces at h
  obtain ⟨written, hw, h⟩ := bind_eq_ok_iff.1 h
  cases h
  refine ⟨written, mapError_eq_ok_iff.1 hw, ?_⟩
  cases written <;> cases body <;> simp

/-- **A rule writes exactly the children of its node, in order**, but for the one that is left out. -/
theorem handles_pieces (hs : forest.Sound) (hn : forest.node? handle = some node)
    (h : node.pieces setting forest handle = .ok pieces) :
    Piece.handles pieces = (forest.children handle).filter (fun c => !forest.omits handle c) := by
  by_cases hk : node.kind = .functionDefinition
  · cases node <;> cases hk
    rename_i name visibility mutability parameters returns body
    obtain ⟨written, hw, hhandles⟩ := handles_pieces_function h
    have hempty := Forest.writesReturns_eq_ok hw
    cases written with
    | true =>
      have hno : ∀ other, ¬forest.ReturnsNothing handle other := by
        rintro other ⟨hother, _, _, _, _, _, hfunction⟩
        rw [hn] at hfunction
        cases hfunction
        cases hempty.2 hother
      rw [filter_omits_eq_self hno, hs.children_eq hn, hhandles]
      rfl
    | false =>
      have hreturns : forest.ReturnsNothing handle returns :=
        ⟨hempty.1 rfl, name, visibility, mutability, parameters, body, hn⟩
      have hne : parameters ≠ returns := by
        have hnodup := hs.nodup handle
        rw [hs.children_eq hn] at hnodup
        exact List.ne_of_not_mem_cons (List.nodup_cons.1 hnodup).1
      rw [filter_omits_eq_erase hs hreturns, hs.children_eq hn, hhandles]
      simp [Node.children, hne]
  · rw [filter_omits_eq_self (not_returnsNothing hn hk), hs.children_eq hn]
    exact handles_pieces_eq_children hk h

/-! ### The writer with the rules of all kinds -/

theorem get?_standardRules (kind : Kind) : standardRules.get? kind = some (standardRule kind) := by
  cases kind <;> rfl

/-- The rule of a kind gives the pieces of the nodes of that kind. -/
theorem standardRule_eq (hn : forest.node? handle = some node) :
    standardRule node.kind setting forest handle = node.pieces setting forest handle := by
  unfold standardRule Forest.node
  rw [hn]
  exact if_pos rfl

/-- The rule of a kind refuses the nodes of the others. -/
theorem exists_node_of_standardRule {kind : Kind}
    (h : standardRule kind setting forest handle = .ok pieces) :
    ∃ node, forest.node? handle = some node ∧ node.kind = kind := by
  unfold standardRule Forest.node at h
  cases hn : forest.node? handle with
  | none => rw [hn] at h; cases h
  | some node =>
    refine ⟨node, rfl, ?_⟩
    by_contra hk
    rw [hn] at h
    simp only [ofForest, Except.mapError, bind, Except.bind, if_neg hk] at h
    cases h

/-- The pieces of a known node are those of its kind, if the kind has its rule. -/
theorem pieces_eq_of_rule {writer : Writer} (hn : forest.node? handle = some node)
    (hrule : writer.rules.get? node.kind = some (standardRule node.kind)) :
    writer.pieces forest handle = node.pieces writer.toSetting forest handle := by
  unfold Writer.pieces
  rw [Forest.kind_eq_ok hn]
  simp only [ofForest, Except.mapError, bind, Except.bind, hrule]
  exact standardRule_eq hn

/-- A kind without a rule is refused. -/
theorem pieces_eq_noRule {writer : Writer} (hn : forest.node? handle = some node)
    (hrule : writer.rules.get? node.kind = none) :
    writer.pieces forest handle = .error (.noRule node.kind (forest.dump handle)) := by
  unfold Writer.pieces
  rw [Forest.kind_eq_ok hn]
  simp only [ofForest, Except.mapError, bind, Except.bind, hrule]
  rfl

theorem standard_pieces {options : Options} (hn : forest.node? handle = some node) :
    (Writer.standard options).pieces forest handle =
      node.pieces (Writer.standard options).toSetting forest handle :=
  pieces_eq_of_rule hn (get?_standardRules node.kind)

/-- There is no rule for an unknown node. -/
theorem exists_node_of_pieces {writer : Writer} (h : writer.pieces forest handle = .ok pieces) :
    ∃ node, forest.node? handle = some node := by
  cases hn : forest.node? handle with
  | none =>
    unfold Writer.pieces Forest.kind Forest.node at h
    rw [hn] at h; cases h
  | some node => exact ⟨node, rfl⟩

/-- The rules of all kinds write the children of a node, in order. -/
theorem handles_standard_pieces (hs : forest.Sound) {options : Options}
    (h : (Writer.standard options).pieces forest handle = .ok pieces) :
    Piece.handles pieces = (forest.children handle).filter (fun c => !forest.omits handle c) := by
  obtain ⟨node, hn⟩ := exists_node_of_pieces h
  rw [standard_pieces hn] at h
  exact handles_pieces hs hn h

/-- **Every rule writes exactly the children of its node, in order**, in any setting. A function that
returns nothing leaves out its empty list of returned values, and nothing else. -/
theorem standardRules_write_children (hb : forest.Built) (hlt : handle < forest.size) :
    ∃ kind rule, forest.kind handle = .ok kind ∧ standardRules.get? kind = some rule ∧
      ∀ setting pieces, rule setting forest handle = .ok pieces →
        (∀ returns, forest.ReturnsNothing handle returns →
          (forest.children handle).count returns = 1 ∧
            Piece.handles pieces = (forest.children handle).erase returns) ∧
        ((∀ returns, ¬forest.ReturnsNothing handle returns) →
          Piece.handles pieces = forest.children handle) := by
  have hs := hb.sound
  obtain ⟨node, hn⟩ := Forest.node?_isSome hlt
  refine ⟨node.kind, standardRule node.kind, Forest.kind_eq_ok hn, get?_standardRules node.kind, ?_⟩
  intro setting pieces h
  rw [standardRule_eq hn] at h
  rw [handles_pieces hs hn h]
  constructor
  · intro returns hreturns
    exact ⟨List.count_eq_one_of_mem (hs.nodup handle) (hreturns.mem_children hs),
      filter_omits_eq_erase hs hreturns⟩
  · intro hno
    exact filter_omits_eq_self hno _

/-- The empty list of parameters is written, the empty list of returned values is not. The gaps of a
tuple name nothing. -/
theorem standardRules_write_children_function :
    ∃ forest : Forest,
      Forest.ofNodes [.identifier "a", .identifier "b",
        .tupleExpression [none, some 0, none, some 1] false, .returnStatement (some 2), .block [3],
        .parameterList [], .parameterList [],
        .functionDefinition "f" .publicly .pure 5 6 (some 4)] = .ok forest ∧
      (forest.ReturnsNothing 7 6 ∧ forest.children 7 = [5, 6, 4] ∧
        ∃ pieces, standardRule .functionDefinition (Writer.standard {}).toSetting forest 7 =
          .ok pieces ∧ Piece.handles pieces = [5, 4]) ∧
      ((∀ returns, ¬forest.ReturnsNothing 2 returns) ∧ forest.children 2 = [0, 1] ∧
        ∃ pieces, standardRule .tupleExpression (Writer.standard {}).toSetting forest 2 =
          .ok pieces ∧ Piece.handles pieces = [0, 1]) := by
  have hforest : Forest.ofNodes [.identifier "a", .identifier "b",
      .tupleExpression [none, some 0, none, some 1] false, .returnStatement (some 2), .block [3],
      .parameterList [], .parameterList [],
      .functionDefinition "f" .publicly .pure 5 6 (some 4)] =
        .ok ⟨#[⟨.identifier "a", some 2, []⟩, ⟨.identifier "b", some 2, []⟩,
          ⟨.tupleExpression [none, some 0, none, some 1] false, some 3, [0, 1]⟩,
          ⟨.returnStatement (some 2), some 4, [2]⟩, ⟨.block [3], some 7, [3]⟩,
          ⟨.parameterList [], some 7, []⟩, ⟨.parameterList [], some 7, []⟩,
          ⟨.functionDefinition "f" .publicly .pure 5 6 (some 4), none, [5, 6, 4]⟩]⟩ := rfl
  have hb := Forest.Built.ofNodes hforest
  refine ⟨_, hforest, ?_, ?_⟩
  · obtain ⟨kind, rule, hkind, hrule, hwrites⟩ :=
      standardRules_write_children hb (show 7 < 8 by decide)
    cases hkind
    cases hrule
    refine ⟨?_, rfl, _, rfl, ((hwrites (Writer.standard {}).toSetting _ rfl).1 6 ?_).2⟩
    all_goals exact ⟨rfl, _, _, _, _, _, rfl⟩
  · obtain ⟨kind, rule, hkind, hrule, hwrites⟩ :=
      standardRules_write_children hb (show 2 < 8 by decide)
    cases hkind
    cases hrule
    refine ⟨?_, rfl, _, rfl, (hwrites (Writer.standard {}).toSetting _ rfl).2 ?_⟩
    all_goals
      rintro returns ⟨-, _, _, _, _, _, h⟩
      cases h

end SolText
