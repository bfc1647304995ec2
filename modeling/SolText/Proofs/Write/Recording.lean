import Mathlib.Logic.Relation
import SolText.Proofs.Map
import SolText.Proofs.Write.Text

/-!
# What writing records

A node is recorded when it is met among the pieces of another, at the end of the text written so far.
Everything inside it has been recorded by then, in the same map.

* `Writer.accrues_write`: writing adds ranges to a map and leaves those there as they are.
* `Writer.Stands`: the range of a node in the text of the node around it.
* `Writer.recorded_stands`, `Writer.isSome_recorded`: **what is recorded is where nodes stand, and
  every node that is met is recorded.**
-/

namespace SolText.Writer

variable {writer : Writer} {forest : Forest} {handle child key : Handle} {ranges : RangeMap}
  {write : Handle → Recording String} {pieces : List Piece} {done text : String}

/-! ### Ranges are only added -/

/-- A computation that adds ranges, and neither looks at those there before nor changes them. -/
def Accrues {α : Type} (computation : Recording α) : Prop :=
  ∀ ranges, (computation.run ranges).1 = (computation.run ∅).1 ∧
    ∀ key : Handle, (computation.run ranges).2[key]? =
      (ranges[key]?).or ((computation.run ∅).2[key]?)

theorem accrues_of_unchanged {α : Type} {computation : Recording α} {result : Except WriteError α}
    (h : ∀ ranges, computation.run ranges = (result, ranges)) : Accrues computation := by
  intro ranges
  rw [h, h]
  refine ⟨rfl, fun key => ?_⟩
  rw [Std.TreeMap.getElem?_emptyc]
  simp

theorem run_writePieces_uncovered {rest : List Piece} {recorded : RangeMap} {error : WriteError}
    (h : (write handle).run ranges = (.ok text, recorded))
    (hcover : writer.coverOf forest handle text = .error error) :
    (writer.writePieces forest write done (.node handle :: rest)).run ranges =
      (.error error, recorded) := by
  rw [writePieces]
  simp only [ExceptT.run_bind]
  simp only [bind, StateT.bind, h, hcover]
  rfl

/-- Writing pieces adds ranges if writing the nodes among them does. -/
theorem accrues_writePieces (hwrite : ∀ handle, Accrues (write handle)) (pieces : List Piece)
    (done : String) : Accrues (writer.writePieces forest write done pieces) := by
  induction pieces generalizing done with
  | nil => exact accrues_of_unchanged fun _ => rfl
  | cons piece rest ih =>
    cases piece with
    | absent => exact ih done
    | text role content => exact ih (done ++ content)
    | node child =>
      intro ranges
      obtain ⟨hfst, hsnd⟩ := hwrite child ranges
      -- the same result from both maps
      cases hres : ((write child).run ∅).1 with
      | error e =>
        have hrun : (write child).run ranges = (.error e, ((write child).run ranges).2) :=
          Prod.ext (hfst.trans hres) rfl
        have hrun₀ : (write child).run ∅ = (.error e, ((write child).run ∅).2) := Prod.ext hres rfl
        rw [run_writePieces_error hrun, run_writePieces_error hrun₀]
        exact ⟨rfl, hsnd⟩
      | ok text =>
        have hrun : (write child).run ranges = (.ok text, ((write child).run ranges).2) :=
          Prod.ext (hfst.trans hres) rfl
        have hrun₀ : (write child).run ∅ = (.ok text, ((write child).run ∅).2) := Prod.ext hres rfl
        cases hcover : writer.coverOf forest child text with
        | error e =>
          rw [run_writePieces_uncovered hrun hcover, run_writePieces_uncovered hrun₀ hcover]
          exact ⟨rfl, hsnd⟩
        | ok length =>
          rw [run_writePieces_ok hrun hcover, run_writePieces_ok hrun₀ hcover]
          have hrest := ih (done ++ text)
          refine ⟨(hrest _).1.trans (hrest _).1.symm, fun key => ?_⟩
          rw [(hrest _).2 key, (hrest (Std.TreeMap.insertIfNew _ _ _)).2 key,
            Map.getElem?_insertIfNew, Map.getElem?_insertIfNew, hsnd key]
          simp only [Option.or_assoc]

theorem accrues_writeWithin (fuel : Nat) (handle : Handle) :
    Accrues (writer.writeWithin forest fuel handle) := by
  induction fuel generalizing handle with
  | zero => exact accrues_of_unchanged fun _ => rfl
  | succ fuel ih =>
    rw [writeWithin]
    cases hp : writer.pieces forest handle with
    | error e => exact accrues_of_unchanged fun _ => rfl
    | ok pieces => exact accrues_writePieces ih pieces ""

/-- **Writing adds ranges to a map and leaves those there as they are.** -/
theorem accrues_write (handle : Handle) : Accrues (writer.write forest handle) :=
  accrues_writeWithin _ handle

/-! ### Where nodes stand -/

/-- The ranges that writing a node adds to an empty map. -/
def recorded (writer : Writer) (forest : Forest) (handle : Handle) : RangeMap :=
  ((writer.write forest handle).run ∅).2

/-- One node is among the pieces of another. -/
def Emits (writer : Writer) (forest : Forest) (parent child : Handle) : Prop :=
  ∃ pieces, writer.pieces forest parent = .ok pieces ∧ child ∈ Piece.handles pieces

/-- A node stands in the text of another behind the text of the pieces before it, and covers its own
text as its kind says. -/
def Stands (writer : Writer) (forest : Forest) (parent child : Handle) (range : Range) : Prop :=
  ∃ before after kind, writer.pieces forest parent = .ok (before ++ .node child :: after) ∧
    forest.kind child = .ok kind ∧
    range = ⟨(writer.flat forest before).utf8ByteSize,
      coveredLength kind (writer.textOf forest child) writer.options.terminator⟩

/-- What is found after a node was written: its own inner nodes, the node itself, and what the rest
adds. -/
theorem getElem?_writePieces_node {kind : Kind} {rest : List Piece}
    (hr : writer.render forest child = .ok text) (hk : forest.kind child = .ok kind) :
    ((writer.writePieces forest (writer.write forest) done (.node child :: rest)).run ∅).2[key]? =
      (((writer.recorded forest child)[key]?).or
        (if key = child then some ⟨done.utf8ByteSize,
          coveredLength kind text writer.options.terminator⟩ else none)).or
      ((writer.writePieces forest (writer.write forest) (done ++ text) rest).run ∅).2[key]? := by
  have hrun : (writer.write forest child).run ∅ = (.ok text, writer.recorded forest child) :=
    Prod.ext (by rw [fst_write, hr]) rfl
  rw [run_writePieces_ok hrun (coverOf_eq hk text), (accrues_writePieces accrues_write rest _ _).2 key,
    Map.getElem?_insertIfNew]

/-- Pieces record where the nodes among them stand, and what those record. -/
theorem getElem?_writePieces_eq_some {range : Range}
    (hall : ∀ child ∈ Piece.handles pieces, ∃ text, writer.render forest child = .ok text)
    (h : ((writer.writePieces forest (writer.write forest) done pieces).run ∅).2[key]? = some range) :
    (∃ child ∈ Piece.handles pieces, (writer.recorded forest child)[key]? = some range) ∨
      ∃ before after kind, pieces = before ++ .node key :: after ∧ forest.kind key = .ok kind ∧
        range = ⟨(done ++ writer.flat forest before).utf8ByteSize,
          coveredLength kind (writer.textOf forest key) writer.options.terminator⟩ := by
  induction pieces generalizing done with
  | nil =>
    have hnone : (∅ : RangeMap)[key]? = some range := h
    rw [Std.TreeMap.getElem?_emptyc] at hnone; cases hnone
  | cons piece rest ih =>
    cases piece with
    | absent =>
      rcases ih hall h with hin | ⟨before, after, kind, hrest, hk, hrange⟩
      · exact Or.inl hin
      · exact Or.inr ⟨.absent :: before, after, kind, by rw [hrest]; rfl, hk, hrange⟩
    | text role content =>
      rcases ih hall h with hin | ⟨before, after, kind, hrest, hk, hrange⟩
      · exact Or.inl hin
      · refine Or.inr ⟨.text role content :: before, after, kind, by rw [hrest]; rfl, hk, ?_⟩
        rw [hrange, flat, String.append_assoc]
    | node child =>
      rw [Piece.handles_node] at hall ⊢
      obtain ⟨text, hr⟩ := hall child List.mem_cons_self
      obtain ⟨kind, hk⟩ := exists_kind_of_render hr
      rw [getElem?_writePieces_node hr hk, Option.or_eq_some_iff, Option.or_eq_some_iff] at h
      rcases h with (hin | ⟨-, hself⟩) | ⟨-, hrest⟩
      · exact Or.inl ⟨child, List.mem_cons_self, hin⟩
      · by_cases hkey : key = child
        · rw [if_pos hkey] at hself
          refine Or.inr ⟨[], rest, kind, by rw [hkey]; rfl, by rw [hkey]; exact hk, ?_⟩
          rw [← Option.some.inj hself, hkey, textOf_eq hr, flat, String.append_empty]
        · rw [if_neg hkey] at hself; cases hself
      · rcases ih (fun c hc => hall c (List.mem_cons_of_mem _ hc)) hrest with
          ⟨c, hc, hin⟩ | ⟨before, after, kind', hsplit, hk', hrange⟩
        · exact Or.inl ⟨c, List.mem_cons_of_mem _ hc, hin⟩
        · refine Or.inr ⟨.node child :: before, after, kind', by rw [hsplit]; rfl, hk', ?_⟩
          rw [hrange, flat, textOf_eq hr, String.append_assoc]

/-- The nodes among pieces are recorded, and so is what they record. -/
theorem isSome_writePieces
    (hall : ∀ child ∈ Piece.handles pieces, ∃ text, writer.render forest child = .ok text)
    (h : child ∈ Piece.handles pieces)
    (hkey : key = child ∨ ((writer.recorded forest child)[key]?).isSome) :
    (((writer.writePieces forest (writer.write forest) done pieces).run ∅).2[key]?).isSome := by
  induction pieces generalizing done with
  | nil => exact absurd h List.not_mem_nil
  | cons piece rest ih =>
    cases piece with
    | absent | text role content => exact ih hall h
    | node first =>
      rw [Piece.handles_node] at hall h
      obtain ⟨text, hr⟩ := hall first List.mem_cons_self
      obtain ⟨kind, hk⟩ := exists_kind_of_render hr
      rw [getElem?_writePieces_node hr hk, Option.isSome_or, Option.isSome_or]
      rcases List.mem_cons.1 h with rfl | hmem
      · rcases hkey with rfl | hin
        · simp
        · simp [hin]
      · rw [ih (fun c hc => hall c (List.mem_cons_of_mem _ hc)) hmem]
        simp

theorem recorded_eq (hs : forest.Sound) (hd : writer.Descends forest)
    (hp : writer.pieces forest handle = .ok pieces) :
    writer.recorded forest handle =
      ((writer.writePieces forest (writer.write forest) "" pieces).run ∅).2 := by
  unfold recorded
  rw [write_eq hs hd, hp]; rfl

/-- **What is recorded is where a node stands** in one of the nodes that are met on the way. -/
theorem recorded_stands (hs : forest.Sound) (hd : writer.Descends forest) :
    ∀ root : Nat, (∃ text, writer.render forest root = .ok text) → ∀ (key : Handle) (range : Range),
      (writer.recorded forest root)[key]? = some range →
      ∃ parent, Relation.ReflTransGen (writer.Emits forest) root parent ∧
        writer.Stands forest parent key range := by
  refine hs.induction fun root ih hroot key range h => ?_
  obtain ⟨text, hroot⟩ := hroot
  obtain ⟨pieces, hp, hall, -⟩ := (render_eq_ok_iff hs hd).1 hroot
  rw [recorded_eq hs hd hp] at h
  rcases getElem?_writePieces_eq_some hall h with ⟨c, hc, hin⟩ | ⟨before, after, kind, hsplit, hk, hrange⟩
  · obtain ⟨p, hreach, hstands⟩ := ih c (hd root pieces hp c hc) (hall c hc) key range hin
    exact ⟨p, Relation.ReflTransGen.head ⟨pieces, hp, hc⟩ hreach, hstands⟩
  · rw [String.empty_append] at hrange
    exact ⟨root, Relation.ReflTransGen.refl, before, after, kind, by rw [hp, hsplit], hk, hrange⟩

/-- **Every node that is met is recorded.** -/
theorem isSome_recorded (hs : forest.Sound) (hd : writer.Descends forest) :
    ∀ root : Nat, (∃ text, writer.render forest root = .ok text) → ∀ parent child : Handle,
      Relation.ReflTransGen (writer.Emits forest) root parent → writer.Emits forest parent child →
      ((writer.recorded forest root)[child]?).isSome := by
  refine hs.induction fun root ih hroot parent child hreach hemits => ?_
  obtain ⟨text, hroot⟩ := hroot
  obtain ⟨pieces, hp, hall, -⟩ := (render_eq_ok_iff hs hd).1 hroot
  rw [recorded_eq hs hd hp]
  rcases Relation.ReflTransGen.cases_head hreach with rfl | ⟨next, ⟨pieces', hp', hnext⟩, hreach'⟩
  · obtain ⟨pieces', hp', hchild⟩ := hemits
    cases hp.symm.trans hp'
    exact isSome_writePieces hall hchild (Or.inl rfl)
  · cases hp.symm.trans hp'
    exact isSome_writePieces hall hnext
      (Or.inr (ih next (hd root pieces hp next hnext) (hall next hnext) parent child hreach' hemits))

end SolText.Writer
