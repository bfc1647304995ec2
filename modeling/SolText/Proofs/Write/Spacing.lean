import SolText.Proofs.Write.Text
import SolText.Proofs.Yul.Parallel

/-!
# Layout and code

The layout decides on margins and line breaks, and on the text of inline assembly, which has margins and
line breaks of its own. It decides on nothing else: neither on the pieces of a node nor on whether it
can be written. The terminator decides on ranges only.

* `SameCode`: two pieces of tagged text that differ at most in their spacing.
* `Piece.Alike`, `agree_pieces`: **a rule gives the same pieces in every layout**, but for the spacing.
* `Writer.tagged_same_code`: **written for the same target, code differs in its spacing only**, and not
  at all if only the terminator differs.
-/

namespace SolText

/-- The roles of the text that depends on the layout. -/
def Role.ofSpacing : List Role := [.indent, .newline, .assembly]

/-- Two pieces of tagged text that differ at most in their spacing. -/
def SameCode (a b : Role × String) : Prop := a.1 = b.1 ∧ (a.1 ∉ Role.ofSpacing → a.2 = b.2)

/-! ### Pieces -/

namespace Piece

/-- Two pieces that differ at most in their spacing. -/
inductive Alike : Piece → Piece → Prop where
  | text {role : Role} {a b : String} : (role ∉ Role.ofSpacing → a = b) →
      Alike (.text role a) (.text role b)
  | node (handle : Handle) : Alike (.node handle) (.node handle)
  | absent : Alike .absent .absent

theorem Alike.refl (piece : Piece) : Alike piece piece := by
  cases piece with
  | text role content => exact .text fun _ => rfl
  | node handle => exact .node handle
  | absent => exact .absent

theorem alike_refl (pieces : List Piece) : List.Forall₂ Alike pieces pieces :=
  List.forall₂_same.2 fun piece _ => .refl piece

variable (left right : Layout)

theorem alike_newline : Alike (newline left) (newline right) := .text fun h => absurd (by decide) h

theorem alike_margin (depth : Nat) : Alike (margin left depth) (margin right depth) :=
  .text fun h => absurd (by decide) h

theorem alike_intercalate {separator separator' : List Piece} {parts parts' : List (List Piece)}
    (hsep : List.Forall₂ Alike separator separator')
    (h : List.Forall₂ (List.Forall₂ Alike) parts parts') :
    List.Forall₂ Alike (separator.intercalate parts) (separator'.intercalate parts') := by
  induction h with
  | nil => exact .nil
  | cons hpart hrest ih =>
    cases hrest with
    | nil => simpa using hpart
    | cons _ _ =>
      rw [List.intercalate_cons_cons, List.intercalate_cons_cons]
      exact List.rel_append (List.rel_append hpart hsep) ih

theorem alike_braced (depth : Nat) (statements : List Handle) :
    List.Forall₂ Alike (braced left depth statements) (braced right depth statements) := by
  have hnewline := alike_newline left right
  have hlines : List.Forall₂ Alike
      (statements.flatMap fun s => [margin left (depth + 1), .node s, newline left])
      (statements.flatMap fun s => [margin right (depth + 1), .node s, newline right]) := by
    induction statements with
    | nil => exact .nil
    | cons s rest ih =>
      rw [List.flatMap_cons, List.flatMap_cons]
      have hmargin := alike_margin left right (depth + 1)
      exact List.rel_append (.cons hmargin (.cons (.node s) (.cons hnewline .nil))) ih
  unfold braced
  split
  · exact alike_refl _
  · have hopened : List.Forall₂ Alike [punctuation "\x7b", newline left]
        [punctuation "\x7b", newline right] :=
      .cons (.refl _) (.cons hnewline .nil)
    have hclosed : List.Forall₂ Alike [margin left depth, punctuation "\x7d"]
        [margin right depth, punctuation "\x7d"] :=
      .cons (alike_margin left right depth) (.cons (.refl _) .nil)
    exact List.rel_append (List.rel_append hopened hlines) hclosed

end Piece

open Piece

variable {forest : Forest} {handle : Handle} {left right : Options}

/-- Inline assembly can be written in one layout exactly if it can be in another. -/
def Yul.Parallel.unrelated (left right : Layout) : Yul.Parallel left right where
  levels d e := d = e
  texts _ _ := True
  deeper := congrArg (· + 1)
  inline _ := trivial
  line _ := trivial
  append _ _ := trivial

theorem agree_memberPieces (left right : Layout) (depth : Nat) (member : Handle) :
    Agree (List.Forall₂ Alike) (memberPieces left forest depth member)
      (memberPieces right forest depth member) := by
  refine .bind_same fun kind _ => ?_
  have hmargin := alike_margin left right (depth + 1)
  exact .ok (List.rel_append (.cons (alike_newline left right) (.cons hmargin (.cons (.node member) .nil)))
    (alike_refl _))

/-- **A rule gives the same pieces in every layout**, but for the spacing. -/
theorem agree_pieces (h : left.target = right.target) (node : Node) :
    Agree (List.Forall₂ Alike) (node.pieces (Writer.standard left).toSetting forest handle)
      (node.pieces (Writer.standard right).toSetting forest handle) := by
  have hnewline := alike_newline left.layout right.layout
  cases node with
  | sourceUnit nodes =>
    have hparts : List.Forall₂ (List.Forall₂ Alike) (nodes.map ([.node ·])) (nodes.map ([.node ·])) :=
      List.forall₂_same.2 fun part _ => alike_refl part
    exact .ok (alike_intercalate (.cons hnewline (.cons hnewline .nil)) hparts)
  | contractDefinition name contractKind nodes =>
    cases nodes with
    | nil => exact .ok (alike_refl _)
    | cons first rest =>
      refine (Agree.mapM fun member _ => agree_memberPieces left.layout right.layout _ member).bind
        fun members members' hmembers => ?_
      have hmargin := alike_margin left.layout right.layout (forest.nesting handle)
      exact .ok (List.rel_append (List.rel_append (alike_refl _)
        (alike_intercalate (.cons hnewline .nil) hmembers))
        (.cons hnewline (.cons hmargin (.cons (.refl _) .nil))))
  | block statements => exact .ok (alike_braced _ _ _ _)
  | uncheckedBlock statements =>
    simp only [Node.pieces, Writer.standard, h]
    by_cases hreaches : right.target.reaches 0 8 0
    · simp only [hreaches, if_true]
      exact .ok (List.rel_append (alike_refl _) (alike_braced _ _ _ _))
    · simp only [hreaches]
      exact .error _
  | emitStatement eventCall =>
    simp only [Node.pieces, Writer.standard, h]
    exact .ok (alike_refl _)
  | inlineAssembly ast =>
    have htexts : ∀ text ∈ ast.strings,
        (Yul.Parallel.unrelated left.layout right.layout).texts text text := fun _ _ => trivial
    have hlevels : (Yul.Parallel.unrelated left.layout right.layout).levels (forest.nesting handle)
        (forest.nesting handle) := rfl
    have hcode := Yul.Parallel.agree_renderAtDepth _ htexts hlevels
    refine (hcode.mapError WriteError.yul).bind fun a b _ => ?_
    have hassembly : Alike (.text .assembly a) (.text .assembly b) := .text fun h => absurd (by decide) h
    exact .ok (.cons (.refl _) (.cons (.refl _) (.cons hassembly .nil)))
  | _ =>
    -- the other rules do not ask for the options
    exact .same fun _ _ => alike_refl _

namespace Writer

theorem agree_standard_pieces (h : left.target = right.target) (handle : Handle) :
    Agree (List.Forall₂ Alike) ((standard left).pieces forest handle)
      ((standard right).pieces forest handle) := by
  refine .bind_same fun kind _ => ?_
  simp only [standard, get?_standardRules]
  refine .bind_same fun node _ => ?_
  split
  · exact agree_pieces h node
  · exact .error _

/-- Tagging goes down into the nodes among the pieces, and these are the same. -/
theorem agree_taggedWithin (h : left.target = right.target) (fuel : Nat) (handle : Handle) :
    Agree (List.Forall₂ SameCode) ((standard left).taggedWithin forest fuel handle)
      ((standard right).taggedWithin forest fuel handle) := by
  induction fuel generalizing handle with
  | zero => exact .error _
  | succ fuel ih =>
    rw [taggedWithin_succ, taggedWithin_succ]
    refine (agree_standard_pieces h handle).bind fun pieces pieces' hpieces => ?_
    refine (Agree.mapM₂ (R := List.Forall₂ SameCode) hpieces ?_).bind fun parts parts' hparts => ?_
    · intro piece piece' halike
      cases halike with
      | text hsame => exact .ok (.cons ⟨rfl, hsame⟩ .nil)
      | node child => exact ih child
      | absent => exact .ok .nil
    · exact .ok (List.rel_flatten hparts)

/-! ### The terminator -/

/-- No rule asks for the terminator. -/
theorem pieces_withTerminator (options : Options) (terminator : Option Char) (handle : Handle) :
    (standard { options with terminator := terminator }).pieces forest handle =
      (standard options).pieces forest handle := by
  cases hn : forest.node? handle with
  | none =>
    unfold Writer.pieces Forest.kind Forest.node
    rw [hn]; rfl
  | some node =>
    rw [standard_pieces hn, standard_pieces hn]
    cases node <;> rfl

theorem taggedWithin_congr {writer writer' : Writer}
    (h : ∀ handle, writer.pieces forest handle = writer'.pieces forest handle) (fuel : Nat)
    (handle : Handle) : writer.taggedWithin forest fuel handle = writer'.taggedWithin forest fuel handle := by
  induction fuel generalizing handle with
  | zero => rfl
  | succ fuel ih =>
    have htagged : writer.taggedWithin forest fuel = writer'.taggedWithin forest fuel := funext ih
    rw [taggedWithin_succ, taggedWithin_succ, h, htagged]

/-- **Written for the same target, code differs in its spacing only**: it fails with the same error, or
consists of pieces of the same roles with the same text outside spacing and assembly. With the same
layout nothing is left to differ. -/
theorem tagged_same_code (forest : Forest) (handle : Handle) (h : left.target = right.target) :
    Agree (List.Forall₂ SameCode) ((standard left).tagged forest handle)
        ((standard right).tagged forest handle) ∧
      (left.layout = right.layout →
        (standard left).tagged forest handle = (standard right).tagged forest handle ∧
        (standard left).render forest handle = (standard right).render forest handle) := by
  refine ⟨agree_taggedWithin h _ handle, fun hlayout => ?_⟩
  have hleft : left = { right with terminator := left.terminator } := by rw [← hlayout, ← h]
  have htagged : (standard left).tagged forest handle = (standard right).tagged forest handle := by
    rw [hleft]
    exact taggedWithin_congr (pieces_withTerminator right left.terminator) _ handle
  exact ⟨htagged, by rw [render_eq_tagged, render_eq_tagged, htagged]⟩

/-- Assembly in a block, with tabs and without a terminator beside the defaults. -/
theorem tagged_same_code_assembly :
    ∃ forest, Forest.ofNodes [.inlineAssembly ⟨"YulBlock",
        { members := [("statements", .arr [.obj [("nodeType", .str "YulLeave")]])] }⟩, .block [0]] =
          .ok forest ∧
      ∃ fragments others,
        (standard {}).tagged forest 1 = .ok fragments ∧
        (standard { layout := ⟨.tabs, "\r\n"⟩, terminator := none }).tagged forest 1 = .ok others ∧
        fragments[5]? = some (.assembly, "\x7b\n        leave\n    \x7d") ∧
        others[5]? = some (.assembly, "\x7b\r\n\t\tleave\r\n\t\x7d") ∧
        List.Forall₂ SameCode fragments others ∧
        (standard { terminator := none }).render forest 1 = (standard {}).render forest 1 := by
  have hsame : ∀ (forest : Forest) (fragments others : List (Role × String)),
      (standard {}).tagged forest 1 = .ok fragments →
      (standard { layout := ⟨.tabs, "\r\n"⟩, terminator := none }).tagged forest 1 = .ok others →
      List.Forall₂ SameCode fragments others := by
    intro forest fragments others hfragments hothers
    have hagree := (@tagged_same_code {} { layout := ⟨.tabs, "\r\n"⟩, terminator := none } forest 1 rfl).1
    rw [hfragments, hothers] at hagree
    cases hagree with
    | ok h => exact h
  have hrender := fun forest => ((@tagged_same_code { terminator := none } {} forest 1 rfl).2 rfl).2
  have hcode := hsame ⟨#[⟨.inlineAssembly ⟨"YulBlock",
    { members := [("statements", .arr [.obj [("nodeType", .str "YulLeave")]])] }⟩, some 1, []⟩,
    ⟨.block [0], none, [0]⟩]⟩ _ _ rfl rfl
  exact ⟨_, rfl, _, _, rfl, rfl, rfl, rfl, hcode, hrender _⟩

end Writer

end SolText
