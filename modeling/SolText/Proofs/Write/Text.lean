import SolText.Proofs.Forest.Order
import SolText.Proofs.Write.Pieces
import SolText.Write.View

/-!
# The text of a node

Writing records ranges on the way, but what is written does not depend on them. The recursion ends
because the rules lead from a node to its children.

* `Writer.render_eq_tagged`: **the text of a node is its tagged text without the tags.**
* `Writer.Descends`: the rules lead from nodes to their children.
* `Writer.write_eq`: writing a node by the writing of its children.
* `Writer.render_eq_ok_iff`: when a node has a text, and which.
-/

namespace SolText.Writer

variable {writer : Writer} {forest : Forest} {handle : Handle} {ranges recorded : RangeMap}
  {write : Handle → Recording String} {pieces : List Piece} {done text : String} {error : WriteError}
  {length : Nat}

/-! ### Single steps -/

theorem run_writePieces_error {rest : List Piece}
    (h : (write handle).run ranges = (.error error, recorded)) :
    (writer.writePieces forest write done (.node handle :: rest)).run ranges =
      (.error error, recorded) := by
  rw [writePieces]
  simp only [ExceptT.run_bind]
  simp only [bind, StateT.bind, h]
  rfl

theorem run_writePieces_ok {rest : List Piece} (h : (write handle).run ranges = (.ok text, recorded))
    (hcover : writer.coverOf forest handle text = .ok length) :
    (writer.writePieces forest write done (.node handle :: rest)).run ranges =
      (writer.writePieces forest write (done ++ text) rest).run
        (recorded.insertIfNew handle ⟨done.utf8ByteSize, length⟩) := by
  rw [writePieces]
  simp only [ExceptT.run_bind]
  simp only [bind, StateT.bind, h, hcover]
  rfl

/-- A node with pieces is known. -/
theorem exists_kind (h : writer.pieces forest handle = .ok pieces) :
    ∃ kind, forest.kind handle = .ok kind := by
  unfold Writer.pieces at h
  obtain ⟨kind, hk, -⟩ := bind_eq_ok_iff.1 h
  exact ⟨kind, mapError_eq_ok_iff.1 hk⟩

theorem coverOf_eq {kind : Kind} (h : forest.kind handle = .ok kind) (text : String) :
    writer.coverOf forest handle text = .ok (coveredLength kind text writer.options.terminator) := by
  unfold coverOf
  rw [h]; rfl

/-! ### Tagged text -/

/-- The text that tagged text consists of. -/
def joined (parts : List (Role × String)) : String := String.join (parts.map Prod.snd)

@[simp] theorem joined_append (a b : List (Role × String)) : joined (a ++ b) = joined a ++ joined b := by
  unfold joined
  rw [List.map_append, String.join_append]

/-- The tagged text of one piece. -/
def taggedPiece (tagged : Handle → Except WriteError (List (Role × String))) :
    Piece → Except WriteError (List (Role × String))
  | .absent => .ok []
  | .text role content => .ok [(role, content)]
  | .node child => tagged child

theorem taggedWithin_succ (fuel : Nat) :
    writer.taggedWithin forest (fuel + 1) handle = do
      let parts ← (← writer.pieces forest handle).mapM (taggedPiece (writer.taggedWithin forest fuel))
      return parts.flatten := by
  rw [taggedWithin]
  rfl

/-- Pieces are written as they are tagged, if the nodes among them are, whatever was recorded
before. -/
theorem fst_writePieces {tagged : Handle → Except WriteError (List (Role × String))}
    (hwrite : ∀ handle ranges, ((write handle).run ranges).1 = (tagged handle).map joined)
    (hknown : ∀ handle parts, tagged handle = .ok parts → ∃ kind, forest.kind handle = .ok kind)
    (pieces : List Piece) (done : String) (ranges : RangeMap) :
    ((writer.writePieces forest write done pieces).run ranges).1 =
      (pieces.mapM (taggedPiece tagged)).map (fun parts => done ++ joined parts.flatten) := by
  induction pieces generalizing done ranges with
  | nil =>
    show Except.ok done = _
    simp [Except.map, joined, pure, Except.pure]
  | cons piece rest ih =>
    rw [List.mapM_cons]
    cases piece with
    | absent =>
      rw [writePieces, ih]
      simp only [taggedPiece, bind, Except.bind]
      cases rest.mapM (taggedPiece tagged) <;> rfl
    | text role content =>
      rw [writePieces, ih]
      simp only [taggedPiece, bind, Except.bind]
      cases rest.mapM (taggedPiece tagged) with
      | error e => rfl
      | ok parts => simp [Except.map, pure, Except.pure, joined, String.append_assoc]
    | node child =>
      simp only [taggedPiece]
      have hw := hwrite child ranges
      cases ht : tagged child with
      | error e =>
        have hrun : (write child).run ranges = (.error e, ((write child).run ranges).2) :=
          Prod.ext (by rw [hw, ht]; rfl) rfl
        rw [run_writePieces_error hrun]
        rfl
      | ok parts =>
        have hrun : (write child).run ranges = (.ok (joined parts), ((write child).run ranges).2) :=
          Prod.ext (by rw [hw, ht]; rfl) rfl
        obtain ⟨kind, hk⟩ := hknown child parts ht
        rw [run_writePieces_ok hrun (coverOf_eq hk _), ih]
        simp only [bind, Except.bind]
        cases rest.mapM (taggedPiece tagged) with
        | error e => rfl
        | ok others => simp [Except.map, pure, Except.pure, String.append_assoc]

theorem fst_writeWithin (fuel : Nat) (handle : Handle) (ranges : RangeMap) :
    ((writer.writeWithin forest fuel handle).run ranges).1 =
      (writer.taggedWithin forest fuel handle).map joined := by
  induction fuel generalizing handle ranges with
  | zero => rfl
  | succ fuel ih =>
    have hknown : ∀ handle parts, writer.taggedWithin forest fuel handle = .ok parts →
        ∃ kind, forest.kind handle = .ok kind := by
      intro handle parts h
      cases fuel with
      | zero => cases h
      | succ fuel =>
        rw [taggedWithin_succ] at h
        obtain ⟨pieces, hp, -⟩ := bind_eq_ok_iff.1 h
        exact exists_kind hp
    rw [writeWithin, taggedWithin_succ]
    cases hp : writer.pieces forest handle with
    | error e => rfl
    | ok pieces =>
      show ((writer.writePieces forest (writer.writeWithin forest fuel) "" pieces).run ranges).1 = _
      rw [fst_writePieces ih hknown]
      simp only [String.empty_append]
      exact (map_bind_pure _ List.flatten joined).symm

/-- **The text of a node is its tagged text without the tags.** -/
theorem render_eq_tagged (handle : Handle) :
    writer.render forest handle = (writer.tagged forest handle).map joined :=
  fst_writeWithin _ handle ∅

/-- What cannot be written cannot be written in a style. -/
theorem highlight_eq_error (style : Style) (h : writer.render forest handle = .error error) :
    writer.highlight forest style handle = .error error := by
  rw [render_eq_tagged] at h
  unfold highlight
  cases ht : writer.tagged forest handle with
  | error e => rw [ht] at h; cases h; rfl
  | ok parts => rw [ht] at h; cases h

/-- What can be written can be written in every style. -/
theorem exists_highlight (style : Style) (h : writer.render forest handle = .ok text) :
    ∃ styled, writer.highlight forest style handle = .ok styled := by
  rw [render_eq_tagged] at h
  obtain ⟨parts, ht, -⟩ := map_eq_ok_iff.1 h
  unfold highlight
  rw [ht]
  exact ⟨_, rfl⟩

/-- What is written does not depend on what was recorded before. -/
theorem fst_write (handle : Handle) (ranges : RangeMap) :
    ((writer.write forest handle).run ranges).1 = writer.render forest handle := by
  rw [render_eq_tagged]
  exact fst_writeWithin _ handle ranges

/-! ### Recursion over the tree -/

/-- The rules lead from nodes to their children. -/
def Descends (writer : Writer) (forest : Forest) : Prop :=
  ∀ handle pieces, writer.pieces forest handle = .ok pieces →
    ∀ child ∈ Piece.handles pieces, child ∈ forest.children handle

theorem writePieces_congr {write' : Handle → Recording String} {pieces : List Piece}
    (h : ∀ child ∈ Piece.handles pieces, write child = write' child) (done : String) :
    writer.writePieces forest write done pieces = writer.writePieces forest write' done pieces := by
  induction pieces generalizing done with
  | nil => rfl
  | cons piece rest ih =>
    cases piece with
    | absent | text role content =>
      rw [writePieces, writePieces]
      exact ih h _
    | node child =>
      rw [Piece.handles_node] at h
      rw [writePieces, writePieces, h child List.mem_cons_self]
      simp only [ih fun c hc => h c (List.mem_cons_of_mem _ hc)]

/-- Fuel beyond the handle of a node makes no difference. -/
theorem writeWithin_eq (hs : forest.Sound) (hd : writer.Descends forest) :
    ∀ handle a b : Nat, handle < a → handle < b →
      writer.writeWithin forest a handle = writer.writeWithin forest b handle := by
  refine hs.induction fun handle ih a b ha hb => ?_
  obtain ⟨a, rfl⟩ : ∃ a', a = a' + 1 := ⟨a - 1, by omega⟩
  obtain ⟨b, rfl⟩ : ∃ b', b = b' + 1 := ⟨b - 1, by omega⟩
  rw [writeWithin, writeWithin]
  cases hp : writer.pieces forest handle with
  | error e => rfl
  | ok pieces =>
    have hcongr : ∀ child ∈ Piece.handles pieces,
        writer.writeWithin forest a child = writer.writeWithin forest b child := by
      intro child hc
      have hchild := hd handle pieces hp child hc
      have hlt := hs.child_lt hchild
      exact ih child hchild a b (by omega) (by omega)
    show writer.writePieces forest (writer.writeWithin forest a) "" pieces =
      writer.writePieces forest (writer.writeWithin forest b) "" pieces
    exact writePieces_congr hcongr ""

/-- **Writing a node by the writing of its children.** -/
theorem write_eq (hs : forest.Sound) (hd : writer.Descends forest) (handle : Handle) :
    writer.write forest handle = (do
      writer.writePieces forest (writer.write forest) "" (← writer.pieces forest handle)) := by
  have hfuel : writer.write forest handle = writer.writeWithin forest (forest.size + 1) handle := rfl
  rw [hfuel, writeWithin]
  cases hp : writer.pieces forest handle with
  | error e => rfl
  | ok pieces =>
    have hcongr : ∀ child ∈ Piece.handles pieces,
        writer.writeWithin forest forest.size child = writer.write forest child := by
      intro child hc
      have hlt := hs.lt_size (hd handle pieces hp child hc)
      exact writeWithin_eq hs hd child _ _ hlt (Nat.lt_succ_of_lt hlt)
    show writer.writePieces forest (writer.writeWithin forest forest.size) "" pieces =
      writer.writePieces forest (writer.write forest) "" pieces
    exact writePieces_congr hcongr ""

/-! ### Texts by pieces -/

/-- The text of a node, or nothing if it has none. -/
def textOf (writer : Writer) (forest : Forest) (handle : Handle) : String :=
  match writer.render forest handle with
  | .ok text => text
  | .error _ => ""

/-- The text of pieces. -/
def flat (writer : Writer) (forest : Forest) : List Piece → String
  | [] => ""
  | .absent :: rest => flat writer forest rest
  | .text _ content :: rest => content ++ flat writer forest rest
  | .node handle :: rest => writer.textOf forest handle ++ flat writer forest rest

theorem flat_append (a b : List Piece) :
    writer.flat forest (a ++ b) = writer.flat forest a ++ writer.flat forest b := by
  induction a with
  | nil => simp [flat]
  | cons piece a ih => cases piece <;> simp [flat, ih, String.append_assoc]

theorem textOf_eq (h : writer.render forest handle = .ok text) : writer.textOf forest handle = text := by
  unfold textOf
  rw [h]

/-- A node has a text when it is not nothing by failure. -/
theorem render_eq_textOf (h : ∃ text, writer.render forest handle = .ok text) :
    writer.render forest handle = .ok (writer.textOf forest handle) := by
  obtain ⟨text, h⟩ := h
  rw [textOf_eq h, h]

/-- A node that has a text is known. -/
theorem exists_kind_of_render (h : writer.render forest handle = .ok text) :
    ∃ kind, forest.kind handle = .ok kind := by
  rw [render_eq_tagged, map_eq_ok_iff] at h
  obtain ⟨parts, h, -⟩ := h
  unfold tagged fuel at h
  rw [taggedWithin_succ] at h
  obtain ⟨pieces, hp, -⟩ := bind_eq_ok_iff.1 h
  exact exists_kind hp

/-- Pieces are written when the nodes among them are. -/
theorem fst_writePieces_eq_ok_iff (pieces : List Piece) (done : String) (ranges : RangeMap) :
    ((writer.writePieces forest (writer.write forest) done pieces).run ranges).1 = .ok text ↔
      (∀ child ∈ Piece.handles pieces, ∃ text, writer.render forest child = .ok text) ∧
        text = done ++ writer.flat forest pieces := by
  induction pieces generalizing done ranges with
  | nil =>
    show Except.ok done = .ok text ↔ _
    simp [flat, eq_comm]
  | cons piece rest ih =>
    cases piece with
    | absent => rw [writePieces, ih, Piece.handles_absent, flat]
    | text role content =>
      rw [writePieces, ih, Piece.handles_text, flat, String.append_assoc]
    | node child =>
      have hfst : ((writer.write forest child).run ranges).1 = writer.render forest child :=
        fst_write child ranges
      rw [Piece.handles_node]
      cases hr : writer.render forest child with
      | error e =>
        have hrun : (writer.write forest child).run ranges =
            (.error e, ((writer.write forest child).run ranges).2) := Prod.ext (by rw [hfst, hr]) rfl
        rw [run_writePieces_error hrun]
        constructor
        · intro h; cases h
        · rintro ⟨hall, -⟩
          obtain ⟨t, ht⟩ := hall child List.mem_cons_self
          rw [hr] at ht; cases ht
      | ok t =>
        have hrun : (writer.write forest child).run ranges =
            (.ok t, ((writer.write forest child).run ranges).2) := Prod.ext (by rw [hfst, hr]) rfl
        obtain ⟨kind, hk⟩ := exists_kind_of_render hr
        rw [run_writePieces_ok hrun (coverOf_eq hk _), ih, flat, textOf_eq hr, String.append_assoc]
        simp [hr]

/-- **When a node has a text, and which.** -/
theorem render_eq_ok_iff (hs : forest.Sound) (hd : writer.Descends forest) :
    writer.render forest handle = .ok text ↔
      ∃ pieces, writer.pieces forest handle = .ok pieces ∧
        (∀ child ∈ Piece.handles pieces, ∃ text, writer.render forest child = .ok text) ∧
        text = writer.flat forest pieces := by
  unfold render
  rw [write_eq hs hd]
  cases hp : writer.pieces forest handle with
  | error e =>
    constructor
    · intro h; cases h
    · rintro ⟨pieces, h, -⟩; cases h
  | ok pieces =>
    show ((writer.writePieces forest (writer.write forest) "" pieces).run ∅).1 = .ok text ↔ _
    rw [fst_writePieces_eq_ok_iff, String.empty_append]
    refine ⟨fun h => ⟨pieces, rfl, h⟩, ?_⟩
    rintro ⟨pieces', h, hrest⟩
    cases h
    exact hrest

end SolText.Writer
