import SolText.Proofs.Text.Occurrence
import SolText.Proofs.Write.Recording

/-!
# The texts and ranges of a whole tree

What the other modules ask of a writer: its rules write the children of a node in their order, and a
child that is left out is an empty leaf. Then a tree that can be written can be written everywhere,
and the recorded ranges are those of the children in the texts of their parents.

* `Writer.Faithful`, `Writer.standard_faithful`: the writer with the rules of all kinds is faithful.
* `Writer.Faithful.render_walk`: **every node of a tree has a text if the root has one.**
* `Writer.Faithful.getElem?_recorded_iff`: **the recorded ranges are those of the written children.**
* `Writer.Faithful.exists_fragments`: the texts of all nodes, each written on its own.
-/

namespace SolText.Writer

variable {writer : Writer} {forest : Forest} {root parent child handle key : Nat}
  {pieces before after : List Piece} {range : Range} {text : String}

/-- The rules write the children of a node in their order. A child that is left out is a leaf, and has
no text. -/
structure Faithful (writer : Writer) (forest : Forest) : Prop where
  sublist : ∀ {handle : Handle} {pieces : List Piece}, writer.pieces forest handle = .ok pieces →
    (Piece.handles pieces).Sublist (forest.children handle)
  omitted : ∀ {handle child : Handle} {pieces : List Piece}, writer.pieces forest handle = .ok pieces →
    child ∈ forest.children handle → child ∉ Piece.handles pieces →
    writer.pieces forest child = .ok [] ∧ forest.children child = []

/-- **The writer with the rules of all kinds is faithful.** -/
theorem standard_faithful (hs : forest.Sound) (options : Options) :
    (Writer.standard options).Faithful forest where
  sublist hp := by
    rw [handles_standard_pieces hs hp]
    exact List.filter_sublist
  omitted {handle child pieces} hp hc hnot := by
    rw [handles_standard_pieces hs hp, List.mem_filter] at hnot
    have homits : forest.omits handle child = true := by
      by_contra hno
      exact hnot ⟨hc, by simp [hno]⟩
    have hn := node?_of_omits homits
    exact ⟨by rw [standard_pieces hn]; rfl, hs.children_eq hn⟩

theorem Faithful.descends (hf : writer.Faithful forest) : writer.Descends forest :=
  fun _ _ hp _ hc => (hf.sublist hp).subset hc

/-! ### Texts -/

section
variable (hs : forest.Sound) (hf : writer.Faithful forest)
include hs hf

/-- **Every node of a tree has a text if the root has one.** -/
theorem Faithful.render_walk (hroot : writer.render forest root = .ok text) :
    ∀ node ∈ forest.walk root, ∃ text, writer.render forest node = .ok text := by
  refine hs.walk_induction ⟨text, hroot⟩ fun p _ hp c hc => ?_
  obtain ⟨t, hp⟩ := hp
  obtain ⟨pieces, hpieces, hall, -⟩ := (render_eq_ok_iff hs hf.descends).1 hp
  by_cases hmem : c ∈ Piece.handles pieces
  · exact hall c hmem
  · exact ⟨_, (render_eq_ok_iff hs hf.descends).2 ⟨[], (hf.omitted hpieces hc hmem).1, by simp, rfl⟩⟩

/-- The text of a node that has one is that of its pieces. -/
theorem Faithful.exists_pieces (h : ∃ text, writer.render forest handle = .ok text) :
    ∃ pieces, writer.pieces forest handle = .ok pieces ∧
      writer.textOf forest handle = writer.flat forest pieces := by
  obtain ⟨pieces, hp, -, htext⟩ := (render_eq_ok_iff hs hf.descends).1 (render_eq_textOf h)
  exact ⟨pieces, hp, htext⟩

/-- A child that is left out has no text. -/
theorem Faithful.textOf_omitted (hp : writer.pieces forest parent = .ok pieces)
    (hc : child ∈ forest.children parent) (hnot : child ∉ Piece.handles pieces) :
    writer.textOf forest child = "" :=
  textOf_eq ((render_eq_ok_iff hs hf.descends).2 ⟨[], (hf.omitted hp hc hnot).1, by simp, rfl⟩)

/-- A node that is met from the root on is part of the tree. -/
theorem Faithful.mem_walk_of_reaches
    (h : Relation.ReflTransGen (writer.Emits forest) root handle) : handle ∈ forest.walk root := by
  induction h with
  | refl => exact hs.root_mem_walk root
  | tail _ hemits ih =>
    obtain ⟨pieces, hp, hc⟩ := hemits
    exact hs.child_mem_walk root _ ih _ (hf.descends _ pieces hp _ hc)

/-- A node of the tree is met from the root on, or it is one of those left out. -/
theorem Faithful.reaches_of_mem_walk (hroot : writer.render forest root = .ok text) :
    ∀ node ∈ forest.walk root, Relation.ReflTransGen (writer.Emits forest) root node ∨
      writer.pieces forest node = .ok [] ∧ forest.children node = [] := by
  -- a node that is left out ends its branch, so the second case does not spread
  refine hs.walk_induction (Or.inl .refl) fun p hpw hp c hc => ?_
  rcases hp with hreach | ⟨-, hnil⟩
  · obtain ⟨pieces, hpieces, -⟩ := hf.exists_pieces hs (hf.render_walk hs hroot p hpw)
    by_cases hmem : c ∈ Piece.handles pieces
    · exact Or.inl (hreach.tail ⟨pieces, hpieces, hmem⟩)
    · exact Or.inr (hf.omitted hpieces hc hmem)
  · rw [hnil] at hc
    exact absurd hc List.not_mem_nil

omit hf in
/-- The root is the first of the nodes that are written on their own. -/
theorem fragments_eq_error {error : WriteError} (h : writer.render forest root = .error error) :
    writer.fragments forest root = .error error := by
  unfold fragments
  rw [hs.walk_eq, List.foldlM_cons, h]; rfl

/-- **The texts of all nodes, each written on its own.** -/
theorem Faithful.exists_fragments (hroot : writer.render forest root = .ok text) :
    ∃ fragments : FragmentMap, writer.fragments forest root = .ok fragments ∧
      ∀ node ∈ forest.walk root, fragments.text node = writer.textOf forest node := by
  have hall := hf.render_walk hs hroot
  refine exists_foldlM_eq_ok (fun visited (fragments : FragmentMap) =>
    ∀ node ∈ visited, fragments.text node = writer.textOf forest node) (by simp) ?_
  intro before node after fragments hwalk hinv
  have hnode := render_eq_textOf (hall node (hwalk ▸ List.mem_append_right _ List.mem_cons_self))
  refine ⟨fragments.insert node (writer.textOf forest node), by rw [hnode]; rfl, fun key hkey => ?_⟩
  rw [Map.text_insert]
  split
  · rename_i he
    rw [he]
  · rename_i he
    rcases List.mem_append.1 hkey with h | h
    · exact hinv key h
    · exact absurd (List.mem_singleton.1 h) he

end

/-! ### Ranges -/

/-- A node that is named once stands in one place among pieces. -/
theorem split_unique {before' after' : List Piece}
    (hnd : (Piece.handles (before ++ .node child :: after)).Nodup)
    (h : before ++ .node child :: after = before' ++ .node child :: after') : before = before' := by
  rw [Piece.handles_append, Piece.handles_node, List.nodup_append] at hnd
  obtain ⟨-, hafter, hdisj⟩ := hnd
  rcases Forest.append_eq_append_cons h with ⟨rest, hbefore⟩ | ⟨middle, hbefore, hrest⟩
  · have hmem : child ∈ Piece.handles before := hbefore ▸ Piece.mem_handles_node _ _ child
    exact absurd rfl (hdisj child hmem child List.mem_cons_self)
  · cases middle with
    | nil => rw [hbefore, List.append_nil]
    | cons first middle =>
      rw [List.cons_append, List.cons.injEq] at hrest
      have hmem : child ∈ Piece.handles after := hrest.2 ▸ Piece.mem_handles_node _ _ child
      exact absurd hmem (List.nodup_cons.1 hafter).1

/-- What follows a member in a part of a list follows it in the list. -/
theorem sublist_after {α : Type} {xs ys before after : List α} {x : α}
    (h : (xs ++ x :: ys).Sublist (before ++ x :: after)) (hnd : (before ++ x :: after).Nodup) :
    ys.Sublist after := by
  induction before generalizing xs with
  | nil =>
    rw [List.nil_append] at h hnd
    have hx : x ∉ after := (List.nodup_cons.1 hnd).1
    cases xs with
    | nil => exact List.cons_sublist_cons.1 h
    | cons y xs =>
      cases h with
      | cons _ h => exact absurd (h.subset (by simp)) hx
      | cons_cons _ h => exact absurd (h.subset (by simp)) hx
  | cons b before ih =>
    rw [List.cons_append] at h hnd
    obtain ⟨hb, hnd⟩ := List.nodup_cons.1 hnd
    cases xs with
    | nil =>
      cases h with
      | cons _ h => exact ih h hnd
      | cons_cons _ h => exact absurd (by simp) hb
    | cons y xs =>
      cases h with
      | cons _ h => exact ih h hnd
      | cons_cons _ h => exact ih h hnd

/-- Of the siblings before a node, those that are written are written before it. -/
theorem Faithful.mem_before (hs : forest.Sound) (hf : writer.Faithful forest) {sibling : Nat}
    {elder younger : List Nat} (hch : forest.children parent = elder ++ child :: younger)
    (hp : writer.pieces forest parent = .ok (before ++ .node child :: after)) (h : sibling ∈ elder)
    (hmem : sibling ∈ Piece.handles (before ++ .node child :: after)) :
    sibling ∈ Piece.handles before := by
  have hsub := hf.sublist hp
  have hnd := hs.nodup parent
  rw [hch] at hsub hnd
  rw [Piece.handles_append, Piece.handles_node] at hsub hmem
  have hdisj := (List.nodup_append.1 hnd).2.2 sibling h
  rcases List.mem_append.1 hmem with hbefore | hrest
  · exact hbefore
  · rcases List.mem_cons.1 hrest with rfl | hafter
    · exact absurd rfl (hdisj sibling List.mem_cons_self)
    · have hyounger := (sublist_after hsub hnd).subset hafter
      exact absurd rfl (hdisj sibling (List.mem_cons_of_mem _ hyounger))

/-- A node among pieces occurs in their text behind the text of those before it. -/
theorem occursAt_flat (before after : List Piece) (child : Handle) :
    Text.OccursAt (writer.textOf forest child) (writer.flat forest (before ++ .node child :: after))
      (writer.flat forest before).utf8ByteSize := by
  refine ⟨writer.flat forest before, writer.flat forest after, ?_, rfl⟩
  rw [flat_append, flat, String.append_assoc]

/-- A node that stands in the text of another occurs there. -/
theorem Stands.occursAt (hs : forest.Sound) (hf : writer.Faithful forest)
    (hparent : ∃ text, writer.render forest parent = .ok text)
    (h : writer.Stands forest parent child range) :
    Text.OccursAt (writer.textOf forest child) (writer.textOf forest parent) range.offset := by
  obtain ⟨before, after, kind, hp, -, rfl⟩ := h
  obtain ⟨pieces, hp', htext⟩ := hf.exists_pieces hs hparent
  cases hp.symm.trans hp'
  rw [htext]
  exact occursAt_flat before after child

theorem Stands.mem_children (hf : writer.Faithful forest)
    (h : writer.Stands forest parent child range) : child ∈ forest.children parent := by
  obtain ⟨before, after, kind, hp, -⟩ := h
  exact hf.descends parent _ hp child (Piece.mem_handles_node before after child)

/-- A node stands in one place. -/
theorem Stands.unique (hs : forest.Sound) (hf : writer.Faithful forest) {range' : Range}
    (h : writer.Stands forest parent child range) (h' : writer.Stands forest parent child range') :
    range = range' := by
  obtain ⟨before, after, kind, hp, hk, rfl⟩ := h
  obtain ⟨before', after', kind', hp', hk', rfl⟩ := h'
  cases hk.symm.trans hk'
  have hsplit := Except.ok.inj (hp.symm.trans hp')
  have hnd := (hf.sublist hp).nodup (hs.nodup parent)
  rw [split_unique hnd hsplit]

/-- A written child stands behind the whole texts of its elder siblings. -/
theorem Stands.elder_le (hs : forest.Sound) (hf : writer.Faithful forest) {sibling : Nat}
    {elder younger : List Nat} {range' : Range}
    (hch : forest.children parent = elder ++ child :: younger) (hmem : sibling ∈ elder)
    (h : writer.Stands forest parent sibling range) (h' : writer.Stands forest parent child range') :
    range.offset + (writer.textOf forest sibling).utf8ByteSize ≤ range'.offset := by
  obtain ⟨before, after, kind, hp, -, rfl⟩ := h
  obtain ⟨before', after', kind', hp', -, rfl⟩ := h'
  have hsplit := Except.ok.inj (hp.symm.trans hp')
  have hnd := (hf.sublist hp).nodup (hs.nodup parent)
  -- the sibling is among the pieces before the child, and nowhere else
  have hsib : sibling ∈ Piece.handles before' := by
    apply hf.mem_before hs hch hp' hmem
    rw [← hsplit]
    exact Piece.mem_handles_node before after sibling
  obtain ⟨front, back, rfl⟩ := Piece.exists_of_mem_handles hsib
  rw [List.append_assoc, List.cons_append] at hsplit
  have hfront := split_unique hnd hsplit
  rw [hfront, flat_append, flat, String.utf8ByteSize_append, String.utf8ByteSize_append]
  exact Nat.add_le_add_left (Nat.le_add_right _ _) _

/-- A written child stands somewhere. -/
theorem Faithful.exists_stands (hs : forest.Sound) (hf : writer.Faithful forest)
    (hp : writer.pieces forest parent = .ok pieces) (hc : child ∈ Piece.handles pieces) :
    ∃ range, writer.Stands forest parent child range := by
  obtain ⟨before, after, rfl⟩ := Piece.exists_of_mem_handles hc
  have hmem := hf.descends parent _ hp child hc
  obtain ⟨node, hn⟩ := Forest.node?_isSome (hs.lt_size hmem)
  exact ⟨_, before, after, node.kind, hp, Forest.kind_eq_ok hn, rfl⟩

section
variable (hs : forest.Sound) (hf : writer.Faithful forest)
include hs hf

/-- **The recorded ranges are those of the written children** in the texts of their parents. -/
theorem Faithful.getElem?_recorded_iff (hroot : writer.render forest root = .ok text) :
    (writer.recorded forest root)[key]? = some range ↔
      ∃ parent ∈ forest.walk root, writer.Stands forest parent key range := by
  constructor
  · intro h
    obtain ⟨p, hreach, hstands⟩ := recorded_stands hs hf.descends root ⟨text, hroot⟩ key range h
    exact ⟨p, hf.mem_walk_of_reaches hs hreach, hstands⟩
  · rintro ⟨p, hp, hstands⟩
    obtain ⟨before, after, -, hpieces, -⟩ := id hstands
    have hmem := Piece.mem_handles_node before after key
    have hreach : Relation.ReflTransGen (writer.Emits forest) root p := by
      refine (hf.reaches_of_mem_walk hs hroot p hp).resolve_right ?_
      rintro ⟨hnil, -⟩
      cases Except.ok.inj (hpieces.symm.trans hnil) ▸ hmem
    have hsome := isSome_recorded hs hf.descends root ⟨text, hroot⟩ p key hreach ⟨_, hpieces, hmem⟩
    obtain ⟨range', hrange⟩ := Option.isSome_iff_exists.1 hsome
    obtain ⟨p', -, hstands'⟩ := recorded_stands hs hf.descends root ⟨text, hroot⟩ key range' hrange
    -- both parents name the node as their child
    cases hs.parent_unique (hstands.mem_children hf) (hstands'.mem_children hf)
    rw [hrange, hstands.unique hs hf hstands']

end

/-- Ranges are recorded when writing succeeds. -/
theorem renderRecorded_eq {kind : Kind} (hr : writer.render forest root = .ok text)
    (hk : forest.kind root = .ok kind) (ranges : RangeMap) :
    writer.renderRecorded forest root ranges = (.ok text,
      ranges.insertMany ((writer.recorded forest root).insert root
        ⟨0, coveredLength kind text writer.options.terminator⟩)) := by
  have hrun : (writer.write forest root).run ∅ = (.ok text, writer.recorded forest root) :=
    Prod.ext hr rfl
  unfold renderRecorded
  rw [hrun]
  simp only [coverOf_eq hk]

/-- Nothing is recorded when writing fails. -/
theorem renderRecorded_eq_error {error : WriteError} (h : writer.render forest root = .error error)
    (ranges : RangeMap) : writer.renderRecorded forest root ranges = (.error error, ranges) := by
  have hrun : (writer.write forest root).run ∅ = (.error error, writer.recorded forest root) :=
    Prod.ext h rfl
  unfold renderRecorded
  rw [hrun]

/-- Recording keeps the text. -/
theorem fst_renderRecorded (handle : Handle) (ranges : RangeMap) :
    (writer.renderRecorded forest handle ranges).1 = writer.render forest handle := by
  cases hr : writer.render forest handle with
  | error e => rw [renderRecorded_eq_error hr]
  | ok text =>
    obtain ⟨kind, hk⟩ := exists_kind_of_render hr
    rw [renderRecorded_eq hr hk]

variable {relative : RangeMap}

theorem render_of_renderRecorded {ranges : RangeMap}
    (h : writer.renderRecorded forest root ranges = (.ok text, relative)) :
    writer.render forest root = .ok text := by
  rw [← fst_renderRecorded root ranges, h]

/-- The written node itself is recorded at the start. -/
theorem getElem?_relative_root
    (h : writer.renderRecorded forest root ∅ = (.ok text, relative)) :
    ∃ kind, forest.kind root = .ok kind ∧
      relative[root]? = some ⟨0, coveredLength kind text writer.options.terminator⟩ := by
  have hr := render_of_renderRecorded h
  obtain ⟨kind, hk⟩ := exists_kind_of_render hr
  rw [renderRecorded_eq hr hk] at h
  cases h
  refine ⟨kind, hk, ?_⟩
  rw [Map.getElem?_insertMany, Map.getElem?_insert, if_pos rfl]; rfl

section
variable (hs : forest.Sound) (hf : writer.Faithful forest)
  (h : writer.renderRecorded forest root ∅ = (.ok text, relative))
include hs hf h

/-- **The other nodes are recorded where they stand in their parents.** -/
theorem Faithful.getElem?_relative_iff (hne : key ≠ root) :
    relative[key]? = some range ↔ ∃ parent ∈ forest.walk root, writer.Stands forest parent key range := by
  have hr := render_of_renderRecorded h
  obtain ⟨kind, hk⟩ := exists_kind_of_render hr
  rw [renderRecorded_eq hr hk] at h
  cases h
  rw [Map.getElem?_insertMany, Map.getElem?_insert, if_neg hne, Std.TreeMap.getElem?_emptyc,
    Option.or_none]
  exact hf.getElem?_recorded_iff hs hr

/-- What is recorded of a child is where it stands in its parent. -/
theorem Faithful.stands_of_relative (hp : parent ∈ forest.walk root)
    (hc : child ∈ forest.children parent) (hrel : relative[child]? = some range) :
    writer.Stands forest parent child range := by
  obtain ⟨p, -, hstands⟩ := (hf.getElem?_relative_iff hs h (hs.ne_root hp hc)).1 hrel
  cases hs.parent_unique (hstands.mem_children hf) hc
  exact hstands

/-- Every node with a child is recorded: what is left out has none. -/
theorem Faithful.isSome_relative_parent (hp : parent ∈ forest.walk root)
    (hc : child ∈ forest.children parent) : (relative[parent]?).isSome := by
  by_cases hne : parent = root
  · obtain ⟨kind, -, hroot⟩ := getElem?_relative_root h
    rw [hne, hroot]; rfl
  · have hr := render_of_renderRecorded h
    obtain ⟨p, hpw, hpc⟩ := hs.exists_parent hp hne
    obtain ⟨outer, houter, -⟩ := hf.exists_pieces hs (hf.render_walk hs hr p hpw)
    -- a node with a child is not one of those left out
    have hmem : parent ∈ Piece.handles outer := by
      by_contra hnot
      have hnil := (hf.omitted houter hpc hnot).2
      rw [hnil] at hc
      exact absurd hc List.not_mem_nil
    obtain ⟨range, hstands⟩ := hf.exists_stands hs houter hmem
    rw [(hf.getElem?_relative_iff hs h hne).2 ⟨p, hpw, hstands⟩]; rfl

end

end SolText.Writer
