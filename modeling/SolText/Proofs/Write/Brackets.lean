import SolText.Proofs.Write.Faithful
import SolText.Proofs.Yul.Brackets

/-!
# Brackets in written text

A rule closes every bracket that it opens, around nodes and around texts of its own node. Texts of the
node are written as they are or escaped, and so bring as many brackets as they have.

* `Node.strings`: the texts that a node holds.
* `Piece.Closed`: pieces that close what they open, if the nodes among them do.
* `closed_pieces`: **every rule gives such pieces**, for a node whose own texts are balanced.
* `Writer.render_balanced`: **the text of a tree is balanced if the texts that its nodes hold are.**
-/

namespace SolText

open Text

/-- The texts that a node holds: names, operators, values, and all texts of inline assembly. -/
def Node.strings : Node → List String
  | pragmaDirective literals => literals
  | contractDefinition name _ _ | functionDefinition name _ _ _ _ _ | variableDeclaration name _ _ _
  | elementaryTypeName name | identifier name => [name]
  | literal _ value => [value]
  | unaryOperation operator _ _ | binaryOperation operator _ _ | assignment operator _ _ => [operator]
  | memberAccess _ member => [member]
  | inlineAssembly ast => ast.strings
  | sourceUnit _ | parameterList _ | block _ | uncheckedBlock _ | variableDeclarationStatement _ _
  | expressionStatement _ | returnStatement _ | ifStatement _ _ _ | whileStatement _ _
  | forStatement _ _ _ _ | breakStatement | continueStatement | emitStatement _ | functionCall _ _
  | indexAccess _ _ | tupleExpression _ _ => []

/-! ### Pieces -/

namespace Piece

/-- The closing brackets that are due behind a piece, where nodes change nothing about them. -/
def scanPiece (due : List Char) : Piece → Option (List Char)
  | .text _ content => scan due content
  | .node _ | .absent => some due

/-- Pieces that close every bracket that they open, and no other. -/
def Closed (pieces : List Piece) : Prop := ∀ due, pieces.foldlM scanPiece due = some due

variable {a b inner : List Piece} {layout : Layout} {role : Role} {content : String}

theorem closed_nil : Closed [] := fun _ => rfl

theorem closed_node (handle : Handle) : Closed [.node handle] := fun _ => rfl

theorem closed_text (h : Neutral content) : Closed [.text role content] := by
  intro due
  rw [List.foldlM_cons, scanPiece, h.scan_eq]
  rfl

theorem Closed.append (ha : Closed a) (hb : Closed b) : Closed (a ++ b) := by
  intro due
  rw [List.foldlM_append, ha due]
  exact hb due

/-- Brackets of one kind around pieces. -/
theorem Closed.enclosed {opening closing : String}
    (hpair : ∀ due, (scan due opening).bind (scan · closing) = some due) (h : Closed inner) :
    Closed ([punctuation opening] ++ inner ++ [punctuation closing]) := by
  intro due
  have hopening : [punctuation opening].foldlM scanPiece due = scan due opening := by
    rw [List.foldlM_cons]
    exact Option.bind_fun_some _
  have hclosing : ∀ due, [punctuation closing].foldlM scanPiece due = scan due closing := by
    intro due
    rw [List.foldlM_cons]
    exact Option.bind_fun_some _
  rw [List.foldlM_append, List.foldlM_append, hopening, ← hpair due]
  cases scan due opening with
  | none => rfl
  | some due =>
    show ((inner.foldlM scanPiece due).bind fun due => [punctuation closing].foldlM scanPiece due) = _
    rw [h due]
    exact hclosing due

theorem Closed.intercalate {separator : List Piece} {parts : List (List Piece)}
    (hseparator : Closed separator) (hparts : ∀ part ∈ parts, Closed part) :
    Closed (separator.intercalate parts) :=
  intercalate_of_append closed_nil (fun _ _ ha hb => ha.append hb) hseparator hparts

theorem closed_maybeNode (handle : Option Handle) : Closed (maybeNode handle) := by
  cases handle <;> exact fun _ => rfl

theorem closed_commaSeparated (handles : List Handle) : Closed (commaSeparated handles) := by
  unfold commaSeparated
  induction handles with
  | nil => exact closed_nil
  | cons first rest ih =>
    cases rest with
    | nil => exact closed_node first
    | cons second rest =>
      rw [List.map_cons] at ih
      rw [List.map_cons, List.map_cons, List.intersperse_cons_cons]
      have hcomma : Closed [.node first, punctuation ", "] := fun _ => rfl
      exact hcomma.append ih

theorem closed_space : Closed [space] := fun _ => rfl

theorem closed_margin (layout : Layout) (depth : Nat) : Closed [margin layout depth] :=
  closed_text (layout.neutral_margin depth)

theorem closed_newline (h : Neutral layout.newline) : Closed [newline layout] := closed_text h

theorem closed_braced (h : Neutral layout.newline) (depth : Nat) (statements : List Handle) :
    Closed (braced layout depth statements) := by
  have hnewline := closed_newline h
  have hlines : Closed
      (statements.flatMap fun s => [margin layout (depth + 1), .node s, newline layout]) := by
    induction statements with
    | nil => exact closed_nil
    | cons s rest ih =>
      have hline := ((closed_margin layout (depth + 1)).append (closed_node s)).append hnewline
      exact hline.append ih
  unfold braced
  split
  · exact fun _ => rfl
  · have hinner := (hnewline.append hlines).append (closed_margin layout depth)
    simpa using hinner.enclosed scan_curly

end Piece

open Piece

variable {forest : Forest} {setting : Setting} {handle : Handle} {node : Node} {pieces : List Piece}

theorem closed_memberPieces {layout : Layout} {depth : Nat} (hnewline : Neutral layout.newline)
    (h : memberPieces layout forest depth handle = .ok pieces) : Closed pieces := by
  unfold memberPieces at h
  obtain ⟨kind, -, h⟩ := bind_eq_ok_iff.1 h
  cases h
  have hline := ((closed_newline hnewline).append (closed_margin layout (depth + 1))).append
    (closed_node handle)
  have hend : Closed (if kind = .variableDeclaration then [punctuation ";"] else []) := by
    split <;> exact fun _ => rfl
  exact hline.append hend

private theorem closed_initialValue (value : Option Handle) :
    Closed (match value with
      | some value => [operator " = ", .node value]
      | none => []) := by
  cases value <;> exact fun _ => rfl

private theorem closed_declarations (declarations : List Handle) :
    Closed (match declarations with
      | [declaration] => [.node declaration]
      | declarations => [punctuation "("] ++ commaSeparated declarations ++ [punctuation ")"]) := by
  split
  · exact closed_node _
  · exact (closed_commaSeparated declarations).enclosed scan_round

/-- **Every rule closes the brackets that it opens**, around nodes and around the balanced texts of its
own node. -/
theorem closed_pieces {options : Options} (hnewline : Neutral options.layout.newline)
    (hown : ∀ own ∈ node.strings, Neutral own)
    (h : node.pieces (Writer.standard options).toSetting forest handle = .ok pieces) : Closed pieces := by
  have hend : Closed [punctuation ";"] := fun _ => rfl
  -- fixed words are read by evaluation, whatever is due; texts of the node are balanced by assumption
  cases node with
  | sourceUnit nodes =>
    cases h
    refine Closed.intercalate ((closed_newline hnewline).append (closed_newline hnewline)) ?_
    intro part hpart
    obtain ⟨child, -, rfl⟩ := List.mem_map.1 hpart
    exact closed_node child
  | pragmaDirective literals =>
    cases h
    have hword : ∀ word, Neutral word → Closed [space, .text .pragma word] := by
      intro word hneutral
      exact closed_space.append (closed_text hneutral)
    have hpragma : Closed [keyword "pragma"] := fun _ => rfl
    match literals, hown with
    | [], _ => exact hpragma.append hend
    | [name], hown => exact (hpragma.append (hword name (hown name List.mem_cons_self))).append hend
    | name :: second :: rest, hown =>
      have hvalue : Neutral (String.join (second :: rest)) :=
        neutral_join fun text htext => hown text (List.mem_cons_of_mem _ htext)
      exact ((hpragma.append (hword name (hown name List.mem_cons_self))).append
        (hword _ hvalue)).append hend
  | contractDefinition name contractKind nodes =>
    have hname := hown name List.mem_cons_self
    have hhead : Closed [keyword contractKind.keyword, space, .text .declaration name, space] := by
      have hkeyword : Closed [keyword contractKind.keyword, space] := by
        cases contractKind <;> exact fun _ => rfl
      exact (hkeyword.append (closed_text hname)).append closed_space
    unfold Node.pieces at h
    cases nodes with
    | nil =>
      cases h
      have hbraces : Closed [punctuation "\x7b\x7d"] := fun _ => rfl
      exact hhead.append hbraces
    | cons first rest =>
      simp only [List.isEmpty_cons, Bool.false_eq_true, if_false] at h
      obtain ⟨members, hmembers, h⟩ := bind_eq_ok_iff.1 h
      cases h
      have hbreak : Closed [newline options.layout] := closed_newline hnewline
      have hmember : ∀ part ∈ members, Closed part := by
        intro part hpart
        obtain ⟨member, -, hpart⟩ := exists_of_mem_mapM hmembers hpart
        exact closed_memberPieces hnewline hpart
      have hmargin : Closed [margin options.layout (forest.nesting handle)] := closed_margin _ _
      have hinner := (hbreak.intercalate hmember).append (hbreak.append hmargin)
      simpa [Writer.standard] using hhead.append (hinner.enclosed scan_curly)
  | functionDefinition name visibility mutability parameters returns body =>
    have hname := hown name List.mem_cons_self
    unfold Node.pieces at h
    obtain ⟨written, -, h⟩ := bind_eq_ok_iff.1 h
    cases h
    have hhead : Closed [keyword "function", space, .text .declaration name, punctuation "(",
        .node parameters, punctuation ")"] := by
      have hfunction : Closed [keyword "function", space] := fun _ => rfl
      have hparameters : Closed [punctuation "(", .node parameters, punctuation ")"] := fun _ => rfl
      exact (hfunction.append (closed_text hname)).append hparameters
    have hvisibility : Closed (spaced visibility.keyword?) := by
      cases visibility <;> exact fun _ => rfl
    have hmutability : Closed (spaced mutability.keyword?) := by
      cases mutability <;> exact fun _ => rfl
    have hreturns : Closed (if written then [space, keyword "returns", space, punctuation "(",
        .node returns, punctuation ")"] else [.absent]) := by
      cases written <;> exact fun _ => rfl
    have hsignature := ((hhead.append hvisibility).append hmutability).append hreturns
    cases body with
    | none => exact hsignature.append hend
    | some body =>
      have hbody : Closed [space, .node body] := fun _ => rfl
      exact hsignature.append hbody
  | parameterList parameters =>
    cases h
    exact closed_commaSeparated parameters
  | variableDeclaration name typeName storageLocation value =>
    have hname := hown name List.mem_cons_self
    cases h
    have hlocation : Closed (spaced storageLocation.keyword?) := by
      cases storageLocation <;> exact fun _ => rfl
    have hnamed : Closed (if name.isEmpty then [] else [space, .text .variableName name]) := by
      split
      · exact closed_nil
      · exact closed_space.append (closed_text hname)
    exact (((closed_node typeName).append hlocation).append hnamed).append (closed_initialValue value)
  | elementaryTypeName name =>
    cases h
    exact closed_text (hown name List.mem_cons_self)
  | block statements =>
    cases h
    exact closed_braced hnewline _ statements
  | uncheckedBlock statements =>
    unfold Node.pieces at h
    by_cases hreaches : (Writer.standard options).options.target.reaches 0 8 0
    · simp only [hreaches, if_true] at h
      cases h
      have hunchecked : Closed [keyword "unchecked", space] := fun _ => rfl
      exact hunchecked.append (closed_braced hnewline _ statements)
    · simp only [hreaches] at h
      cases h
  | variableDeclarationStatement declarations initialValue =>
    cases h
    exact ((closed_declarations declarations).append (closed_initialValue initialValue)).append hend
  | expressionStatement expression =>
    cases h
    cases forest.endsLoopHeader handle <;> exact fun _ => rfl
  | returnStatement expression =>
    cases h
    cases expression <;> exact fun _ => rfl
  | ifStatement condition trueBody falseBody =>
    cases h
    cases falseBody <;> exact fun _ => rfl
  | forStatement initialization condition loop body =>
    cases h
    cases initialization <;> cases condition <;> cases loop <;> exact fun _ => rfl
  | emitStatement eventCall =>
    cases h
    by_cases hreaches : (Writer.standard options).options.target.reaches 0 4 21
    · simp only [hreaches, if_true]
      exact fun _ => rfl
    · simp only [hreaches]
      exact fun _ => rfl
  | inlineAssembly ast =>
    unfold Node.pieces at h
    obtain ⟨code, hcode, h⟩ := bind_eq_ok_iff.1 h
    cases h
    have hassembly : Closed [keyword "assembly", space] := fun _ => rfl
    have hneutral := Yul.Writer.neutral_renderAtDepth hnewline hown (mapError_eq_ok_iff.1 hcode)
    exact hassembly.append (closed_text hneutral)
  | identifier name =>
    cases h
    exact closed_text (hown name List.mem_cons_self)
  | literal kind value =>
    have hvalue := hown value List.mem_cons_self
    cases h
    have hquote : Neutral "\"" := fun _ => rfl
    cases kind with
    | number => exact closed_text hvalue
    | bool => exact closed_text hvalue
    | string => exact closed_text ((hquote.append hvalue.escape).append hquote)
    | hexString =>
      have hhex : Neutral "hex\"" := fun _ => rfl
      exact closed_text ((hhex.append hvalue).append hquote)
  | unaryOperation symbol leading operand =>
    have hsymbol := hown symbol List.mem_cons_self
    cases leading with
    | false =>
      cases h
      exact (closed_node operand).append (closed_text hsymbol)
    | true =>
      cases h
      have hblank : Closed (if symbol.toList.all Char.isAlpha then [space] else []) := by
        split <;> exact fun _ => rfl
      exact ((closed_text hsymbol).append hblank).append (closed_node operand)
  | binaryOperation symbol left right | assignment symbol left right =>
    have hsymbol := hown symbol List.mem_cons_self
    cases h
    exact ((closed_node left).append (closed_text ((neutral_blank.append hsymbol).append neutral_blank))).append
      (closed_node right)
  | functionCall callee arguments =>
    cases h
    exact (closed_node callee).append ((closed_commaSeparated arguments).enclosed scan_round)
  | memberAccess base member =>
    cases h
    have hdot : Closed [.node base, punctuation "."] := fun _ => rfl
    exact hdot.append (closed_text (hown member List.mem_cons_self))
  | indexAccess base index =>
    cases h
    exact (closed_node base).append ((closed_maybeNode index).enclosed scan_square)
  | tupleExpression components isInlineArray =>
    have hcomma : Closed [punctuation ", "] := fun _ => rfl
    have hcomponents : Closed ([punctuation ", "].intercalate (components.map maybeNode)) := by
      refine hcomma.intercalate fun part hpart => ?_
      obtain ⟨component, -, rfl⟩ := List.mem_map.1 hpart
      exact closed_maybeNode component
    cases isInlineArray with
    | true =>
      cases h
      exact hcomponents.enclosed scan_square
    | false =>
      cases h
      exact hcomponents.enclosed scan_round
  | whileStatement condition body =>
    cases h
    exact fun _ => rfl
  | breakStatement =>
    cases h
    exact fun _ => rfl
  | continueStatement =>
    cases h
    exact fun _ => rfl

/-! ### Trees -/

namespace Writer

variable {writer : Writer} {options : Options} {root : Handle} {text : String}

/-- Nodes with balanced text change nothing about what is due. -/
theorem scan_flat (hnodes : ∀ child ∈ Piece.handles pieces, Neutral (writer.textOf forest child))
    (due : List Char) : scan due (writer.flat forest pieces) = pieces.foldlM scanPiece due := by
  induction pieces generalizing due with
  | nil => rfl
  | cons piece rest ih =>
    rw [List.foldlM_cons]
    cases piece with
    | absent => exact ih hnodes due
    | text role content =>
      rw [flat, scan_append]
      exact congrArg (Option.bind (scan due content)) (funext (ih hnodes))
    | node child =>
      obtain ⟨hchild, hrest⟩ := List.forall_mem_cons.1 hnodes
      rw [flat, scan_append, hchild.scan_eq]
      exact ih hrest due

/-- The text of a node is balanced if the texts in the tree beneath it are. -/
theorem neutral_render (hs : forest.Sound) (hnewline : Neutral options.layout.newline) :
    ∀ (handle : Nat) (text : String),
      (∀ below ∈ forest.walk handle, ∀ node, forest.node? below = some node →
        ∀ own ∈ node.strings, Neutral own) →
      (standard options).render forest handle = .ok text → Neutral text := by
  have hd := (standard_faithful hs options).descends
  -- the pieces of a node name its children, whose texts are balanced by induction
  refine hs.induction fun handle ih text hown h => ?_
  obtain ⟨pieces, hpieces, hchildren, rfl⟩ := (render_eq_ok_iff hs hd).1 h
  obtain ⟨node, hn⟩ := exists_node_of_pieces hpieces
  have hnodes : ∀ child ∈ Piece.handles pieces,
      Neutral ((standard options).textOf forest child) := by
    intro child hchild
    have hmem := hd handle pieces hpieces child hchild
    refine ih child hmem _ ?_ (render_eq_textOf (hchildren child hchild))
    intro below hbelow
    exact hown below (hs.mem_walk_iff.2 (Or.inr ⟨child, hmem, hbelow⟩))
  rw [standard_pieces hn] at hpieces
  have hclosed := closed_pieces hnewline (hown handle (hs.root_mem_walk handle) node hn) hpieces
  intro due
  rw [scan_flat hnodes]
  exact hclosed due

/-- **The text of a tree is balanced if the texts that its nodes hold are**, and what ends a line. -/
theorem render_balanced (hb : forest.Built) (hnewline : Balanced options.layout.newline.toList)
    (hown : ∀ handle ∈ forest.walk root, ∀ node, forest.node? handle = some node →
      ∀ own ∈ node.strings, Balanced own.toList)
    (h : (standard options).render forest root = .ok text) : Balanced text.toList := by
  refine balanced_iff_neutral.2 (neutral_render hb.sound (balanced_iff_neutral.1 hnewline) root text ?_ h)
  intro handle hhandle node hn own hmem
  exact balanced_iff_neutral.1 (hown handle hhandle node hn own hmem)

/-- Brackets in names, in a text that is escaped, in inline assembly and at the end of each line. -/
theorem render_balanced_block :
    ∃ forest options text, Forest.ofNodes [.identifier "f[(0)]", .literal .string "(\"\x7b\n\x7d\")",
        .functionCall 0 [1], .expressionStatement 2,
        .inlineAssembly ⟨"YulBlock", { members := [("statements", .arr [.obj [
          ("name", .str "g()[]"), ("nodeType", .str "YulIdentifier")]])] }⟩,
        .block [3, 4]] = .ok forest ∧
      options.layout.newline = "\n[]" ∧
      (∀ handle ∈ forest.walk 5, ∀ node, forest.node? handle = some node →
        ∀ own ∈ node.strings, Balanced own.toList) ∧
      (standard options).render forest 5 = .ok text ∧
      text = "\x7b\n[]    f[(0)](\"(\\\"\x7b\\n\x7d\\\")\");\n[]    assembly \x7b\n[]        " ++
        "g()[]\n[]    \x7d\n[]\x7d" ∧ Balanced text.toList := by
  have hforest : Forest.ofNodes [.identifier "f[(0)]", .literal .string "(\"\x7b\n\x7d\")",
      .functionCall 0 [1], .expressionStatement 2,
      .inlineAssembly ⟨"YulBlock", { members := [("statements", .arr [.obj [
        ("name", .str "g()[]"), ("nodeType", .str "YulIdentifier")]])] }⟩,
      .block [3, 4]] = .ok ⟨#[⟨.identifier "f[(0)]", some 2, []⟩,
        ⟨.literal .string "(\"\x7b\n\x7d\")", some 2, []⟩, ⟨.functionCall 0 [1], some 3, [0, 1]⟩,
        ⟨.expressionStatement 2, some 5, [2]⟩,
        ⟨.inlineAssembly ⟨"YulBlock", { members := [("statements", .arr [.obj [
          ("name", .str "g()[]"), ("nodeType", .str "YulIdentifier")]])] }⟩, some 5, []⟩,
        ⟨.block [3, 4], none, [3, 4]⟩]⟩ := rfl
  refine ⟨_, { layout := { newline := "\n[]" } }, _, hforest, rfl, ?hown, rfl, rfl,
    render_balanced (Forest.Built.ofNodes hforest) (by decide) ?hown rfl⟩
  intro handle hhandle node hn
  have hwalk : handle ∈ [5, 3, 2, 0, 1, 4] := hhandle
  simp only [List.mem_cons, List.not_mem_nil, or_false] at hwalk
  rcases hwalk with rfl | rfl | rfl | rfl | rfl | rfl <;> cases hn <;> decide

end Writer

end SolText
