import SolText.Proofs.Write.Text

/-!
# One text, four views

The text of a node can be had by writing it, from its description, from its tagged text and in the
plain style. These are four recursions over the same pieces, and they stop at the same failure.

* `Rules.WriteChildren`: rules that write nothing but children of their nodes.
* `Rules.Adapted.writeChildren`: the rules of all kinds are such rules, with any of them removed or
  replaced.
* `Writer.flatten_describe`: **a description describes the text.**
* `Writer.exists_pieces_eq_error`: writing fails only where a rule does.
* `Writer.views_agree`: **all four views give the same text or the same error.**
* `Writer.exists_describe_split`: what stands before a node in a description.
-/

namespace SolText

/-! ### Rules that write children -/

/-- A rule that writes nothing but children of its node. -/
def Rule.WritesChildren (rule : Rule) : Prop :=
  ∀ (setting : Setting) (forest : Forest) (handle : Handle) (pieces : List Piece), forest.Built →
    rule setting forest handle = .ok pieces →
    ∀ child ∈ Piece.handles pieces, child ∈ forest.children handle

/-- Rules that write nothing but children of their nodes. -/
def Rules.WriteChildren (rules : Rules) : Prop :=
  ∀ (kind : Kind) (rule : Rule), rules.get? kind = some rule → rule.WritesChildren

/-- The rules of all kinds, some of them removed, or replaced by rules that write children. -/
inductive Rules.Adapted : Rules → Prop where
  | standard : Adapted standardRules
  | erase {rules : Rules} (kind : Kind) : Adapted rules → Adapted (rules.erase kind)
  | insert {rules : Rules} (kind : Kind) {rule : Rule} :
      Adapted rules → rule.WritesChildren → Adapted (rules.insert kind rule)

theorem standardRule_writesChildren (kind : Kind) : (standardRule kind).WritesChildren := by
  intro setting forest handle pieces hb h child hc
  obtain ⟨node, hn, rfl⟩ := exists_node_of_standardRule h
  rw [standardRule_eq hn] at h
  rw [handles_pieces hb.sound hn h] at hc
  exact (List.mem_filter.1 hc).1

/-- Removing rules, and replacing them by rules that write children, leaves such rules. -/
theorem Rules.Adapted.writeChildren {rules : Rules} (h : Rules.Adapted rules) :
    Rules.WriteChildren rules := by
  induction h with
  | standard =>
    intro kind rule hrule
    rw [get?_standardRules] at hrule
    cases hrule
    exact standardRule_writesChildren kind
  | erase removed _ ih =>
    intro kind rule hrule
    rw [Table.get?_erase] at hrule
    by_cases hk : kind = removed
    · rw [if_pos hk] at hrule
      cases hrule
    · rw [if_neg hk] at hrule
      exact ih kind rule hrule
  | insert replaced _ hnew ih =>
    intro kind rule hrule
    rw [Table.get?_insert] at hrule
    by_cases hk : kind = replaced
    · rw [if_pos hk] at hrule
      cases hrule
      exact hnew
    · rw [if_neg hk] at hrule
      exact ih kind rule hrule

namespace Segment

/-- The nodes among segments, without those inside them. -/
def handles (segments : List Segment) : List Handle :=
  segments.filterMap fun
    | .node handle _ => some handle
    | .text _ => none

theorem mem_handles {handle : Handle} {inner segments : List Segment}
    (h : .node handle inner ∈ segments) : handle ∈ handles segments :=
  List.mem_filterMap.2 ⟨_, h, rfl⟩

theorem flatten_append (a b : List Segment) : flatten (a ++ b) = flatten a ++ flatten b := by
  induction a with
  | nil => simp [flatten]
  | cons segment a ih => simp [flatten, ih, String.append_assoc]

end Segment

namespace Writer

variable {writer : Writer} {forest : Forest} {handle child parent : Handle} {text : String}
  {error : WriteError} {pieces : List Piece}

theorem descends_of_rules (hb : forest.Built) (h : Rules.WriteChildren writer.rules) :
    writer.Descends forest := by
  intro handle pieces hp child hc
  unfold Writer.pieces at hp
  obtain ⟨kind, -, hp⟩ := bind_eq_ok_iff.1 hp
  cases hrule : writer.rules.get? kind with
  | none => rw [hrule] at hp; cases hp
  | some rule =>
    rw [hrule] at hp
    exact h kind rule hrule _ forest handle pieces hb hp child hc

/-! ### Descriptions -/

/-- The description of one piece. -/
def describedPiece (describe : Handle → Except WriteError (List Segment)) :
    Piece → Except WriteError (List Segment)
  | .absent => .ok []
  | .text _ content => .ok [.text content]
  | .node child => do return [.node child (← describe child)]

theorem describeWithin_succ (fuel : Nat) :
    writer.describeWithin forest (fuel + 1) handle = do
      let parts ←
        (← writer.pieces forest handle).mapM (describedPiece (writer.describeWithin forest fuel))
      return parts.flatten := by
  rw [describeWithin]
  rfl

/-- Pieces are described as they are tagged, if the nodes among them are. -/
theorem flatten_described {describe : Handle → Except WriteError (List Segment)}
    {tagged : Handle → Except WriteError (List (Role × String))}
    (hview : ∀ child, (describe child).map Segment.flatten = (tagged child).map joined)
    (pieces : List Piece) :
    (pieces.mapM (describedPiece describe)).map (fun parts => Segment.flatten parts.flatten) =
      (pieces.mapM (taggedPiece tagged)).map (fun parts => joined parts.flatten) := by
  induction pieces with
  | nil => rfl
  | cons piece rest ih =>
    have hpiece : (describedPiece describe piece).map Segment.flatten =
        (taggedPiece tagged piece).map joined := by
      cases piece with
      | absent => rfl
      | text role content =>
        simp [describedPiece, taggedPiece, Except.map, Segment.flatten, Segment.flat, joined]
      | node child =>
        have hchild := hview child
        simp only [describedPiece, taggedPiece, bind, Except.bind, pure, Except.pure]
        rw [← hchild]
        cases describe child <;> simp [Except.map, Segment.flatten, Segment.flat]
    have hflatten : ∀ (part : List Segment) parts, Segment.flatten (part :: parts).flatten =
        Segment.flatten part ++ Segment.flatten parts.flatten := by
      intro part parts
      rw [List.flatten_cons, Segment.flatten_append]
    have hjoined : ∀ (part : List (Role × String)) parts,
        joined (part :: parts).flatten = joined part ++ joined parts.flatten := by
      intro part parts
      rw [List.flatten_cons, joined_append]
    rw [List.mapM_cons, List.mapM_cons,
      map_pair (g := fun parts : List (List Segment) => Segment.flatten parts.flatten) hflatten,
      hpiece, ih]
    exact .symm (map_pair (g := fun parts : List (List (Role × String)) => joined parts.flatten) hjoined)

theorem flatten_describeWithin (fuel : Nat) (handle : Handle) :
    (writer.describeWithin forest fuel handle).map Segment.flatten =
      (writer.taggedWithin forest fuel handle).map joined := by
  induction fuel generalizing handle with
  | zero => rfl
  | succ fuel ih =>
    rw [describeWithin_succ, taggedWithin_succ]
    cases writer.pieces forest handle with
    | error e => rfl
    | ok pieces =>
      calc
        _ = (pieces.mapM (describedPiece (writer.describeWithin forest fuel))).map
            (fun parts => Segment.flatten parts.flatten) := map_bind_pure _ _ _
        _ = (pieces.mapM (taggedPiece (writer.taggedWithin forest fuel))).map
            (fun parts => joined parts.flatten) := flatten_described ih pieces
        _ = _ := (map_bind_pure _ _ _).symm

/-- **A description describes the text.** -/
theorem flatten_describe (handle : Handle) :
    (writer.describe forest handle).map Segment.flatten = writer.render forest handle := by
  rw [render_eq_tagged]
  exact flatten_describeWithin _ handle

/-- A node that is described in full has the text that its description describes. -/
theorem render_of_describeWithin (hs : forest.Sound) (hd : writer.Descends forest) {child : Nat}
    (hlt : child < forest.size) {inner : List Segment}
    (h : writer.describeWithin forest forest.size child = .ok inner) :
    writer.render forest child = .ok (Segment.flatten inner) := by
  have hfuel : writer.write forest child = writer.writeWithin forest forest.size child :=
    writeWithin_eq hs hd child _ _ (Nat.lt_succ_of_lt hlt) hlt
  unfold render
  rw [hfuel, fst_writeWithin, ← flatten_describeWithin, h]
  rfl

/-- The nodes among pieces are those among their segments. -/
theorem handles_described {describe : Handle → Except WriteError (List Segment)}
    {parts : List (List Segment)} (h : pieces.mapM (describedPiece describe) = .ok parts) :
    Segment.handles parts.flatten = Piece.handles pieces := by
  induction pieces generalizing parts with
  | nil => cases h; rfl
  | cons piece rest ih =>
    rw [List.mapM_cons] at h
    obtain ⟨part, hpart, h⟩ := bind_eq_ok_iff.1 h
    obtain ⟨others, hothers, h⟩ := bind_eq_ok_iff.1 h
    cases h
    have hrest := ih hothers
    cases piece with
    | absent | text role content =>
      cases hpart
      exact hrest
    | node child =>
      obtain ⟨inner, -, hinner⟩ := bind_eq_ok_iff.1 hpart
      cases hinner
      exact congrArg (child :: ·) hrest

/-- Segments have the text of their pieces. -/
theorem flatten_eq_flat {describe : Handle → Except WriteError (List Segment)}
    (hnodes : ∀ child ∈ Piece.handles pieces, ∀ inner, describe child = .ok inner →
      writer.render forest child = .ok (Segment.flatten inner))
    {parts : List (List Segment)} (h : pieces.mapM (describedPiece describe) = .ok parts) :
    Segment.flatten parts.flatten = writer.flat forest pieces := by
  induction pieces generalizing parts with
  | nil => cases h; rfl
  | cons piece rest ih =>
    rw [List.mapM_cons] at h
    obtain ⟨part, hpart, h⟩ := bind_eq_ok_iff.1 h
    obtain ⟨others, hothers, h⟩ := bind_eq_ok_iff.1 h
    cases h
    cases piece with
    | absent =>
      cases hpart
      rw [List.flatten_cons, List.nil_append, ih hnodes hothers, flat]
    | text role content =>
      cases hpart
      have hrest := ih hnodes hothers
      rw [List.flatten_cons, List.singleton_append, Segment.flatten, Segment.flat, hrest, flat]
    | node child =>
      obtain ⟨inner, hinner, hpart⟩ := bind_eq_ok_iff.1 hpart
      cases hpart
      have htext := textOf_eq (hnodes child List.mem_cons_self inner hinner)
      have hrest := ih (fun c hc => hnodes c (List.mem_cons_of_mem _ hc)) hothers
      rw [List.flatten_cons, List.singleton_append, Segment.flatten, Segment.flat, hrest, flat, htext]

/-- **What stands before a node in a description** is the text of the pieces before it. -/
theorem exists_describe_split (hs : forest.Sound) (hd : writer.Descends forest)
    {before after : List Piece} (hp : writer.pieces forest parent = .ok (before ++ .node child :: after))
    (hr : writer.render forest parent = .ok text) :
    ∃ front inner back, writer.describe forest parent = .ok (front ++ .node child inner :: back) ∧
      Segment.flatten front = writer.flat forest before ∧
      Segment.handles front = Piece.handles before ∧ Segment.handles back = Piece.handles after := by
  have hflatten : (writer.describe forest parent).map Segment.flatten = .ok text := by
    rw [flatten_describe, hr]
  obtain ⟨segments, hsegments, -⟩ := map_eq_ok_iff.1 hflatten
  obtain ⟨parts, hall, hparts⟩ : ∃ parts, (before ++ .node child :: after).mapM
      (describedPiece (writer.describeWithin forest forest.size)) = .ok parts ∧
        parts.flatten = segments := by
    have hwithin := hsegments
    unfold describe fuel at hwithin
    rw [describeWithin_succ] at hwithin
    obtain ⟨pieces, hpieces, hwithin⟩ := bind_eq_ok_iff.1 hwithin
    rw [hp] at hpieces
    cases hpieces
    obtain ⟨parts, hall, hparts⟩ := bind_eq_ok_iff.1 hwithin
    exact ⟨parts, hall, Except.ok.inj hparts⟩
  -- the description has a part for each of the three parts of the pieces
  rw [List.mapM_append] at hall
  obtain ⟨front, hfront, hall⟩ := bind_eq_ok_iff.1 hall
  obtain ⟨tail, htail, hall⟩ := bind_eq_ok_iff.1 hall
  rw [List.mapM_cons] at htail
  obtain ⟨part, hpart, htail⟩ := bind_eq_ok_iff.1 htail
  obtain ⟨back, hback, htail⟩ := bind_eq_ok_iff.1 htail
  obtain ⟨inner, -, hpart⟩ := bind_eq_ok_iff.1 hpart
  cases hpart
  cases htail
  cases hall
  have hsplit : segments = front.flatten ++ .node child inner :: back.flatten := by
    rw [← hparts, List.flatten_append, List.flatten_cons, List.singleton_append]
  refine ⟨front.flatten, inner, back.flatten, by rw [hsegments, hsplit], ?_,
    handles_described hfront, handles_described hback⟩
  apply flatten_eq_flat _ hfront
  intro c hc inner' hinner
  have hmem : c ∈ Piece.handles (before ++ .node child :: after) := by
    rw [Piece.handles_append]
    exact List.mem_append_left _ hc
  have hlt := hs.lt_size (hd parent _ hp c hmem)
  exact render_of_describeWithin hs hd hlt hinner

/-- In the plain style there is the text alone. -/
theorem highlight_plain (handle : Handle) :
    writer.highlight forest .plain handle = writer.render forest handle := by
  rw [render_eq_tagged]
  unfold highlight
  cases writer.tagged forest handle with
  | error e => rfl
  | ok parts => rfl

/-! ### Failures -/

/-- With fuel for the children of a node, tagging fails only where a rule does. -/
theorem taggedWithin_eq_error (hs : forest.Sound) (hd : writer.Descends forest) :
    ∀ handle fuel : Nat, (∀ child : Nat, child ∈ forest.children handle → child < fuel) →
      writer.taggedWithin forest (fuel + 1) handle = .error error →
      ∃ node ∈ forest.walk handle, writer.pieces forest node = .error error := by
  refine hs.induction fun handle ih fuel hfuel h => ?_
  rw [taggedWithin_succ] at h
  cases hp : writer.pieces forest handle with
  | error e =>
    rw [hp] at h
    cases h
    exact ⟨handle, hs.root_mem_walk handle, hp⟩
  | ok pieces =>
    have hparts : pieces.mapM (taggedPiece (writer.taggedWithin forest fuel)) = .error error := by
      rw [hp] at h
      simp only [bind, Except.bind] at h
      cases hm : pieces.mapM (taggedPiece (writer.taggedWithin forest fuel)) with
      | error e => rw [hm] at h; cases h; rfl
      | ok parts => rw [hm] at h; cases h
    obtain ⟨piece, hpiece, hfail⟩ := mapM_eq_error hparts
    cases piece with
    | absent | text role content => cases hfail
    | node child =>
      have hmem : child ∈ Piece.handles pieces := List.mem_filterMap.2 ⟨_, hpiece, rfl⟩
      have hchild := hd handle pieces hp child hmem
      have hlt := hfuel child hchild
      obtain ⟨fuel, rfl⟩ : ∃ fuel', fuel = fuel' + 1 := ⟨fuel - 1, by omega⟩
      -- the children of a child come before it, so the fuel that is left is enough for them
      have hfuel' : ∀ other : Nat, other ∈ forest.children child → other < fuel := by
        intro other hother
        have hlt' := hs.child_lt hother
        omega
      obtain ⟨node, hnode, hrule⟩ := ih child hchild fuel hfuel' hfail
      exact ⟨node, hs.mem_walk_iff.2 (Or.inr ⟨child, hchild, hnode⟩), hrule⟩

/-- **Writing fails only where a rule does**, at the node or beneath it. -/
theorem exists_pieces_eq_error (hs : forest.Sound) (hd : writer.Descends forest)
    (h : writer.render forest handle = .error error) :
    ∃ node ∈ forest.walk handle, writer.pieces forest node = .error error := by
  rw [render_eq_tagged] at h
  have htagged : writer.taggedWithin forest (forest.size + 1) handle = .error error := by
    cases ht : writer.tagged forest handle with
    | error e => rw [ht] at h; cases h; exact ht
    | ok parts => rw [ht] at h; cases h
  exact taggedWithin_eq_error hs hd handle forest.size (fun _ hc => hs.lt_size hc) htagged

/-- **All four views of a node give the same text or the same error**, and the error is that of a rule,
for all rules that write nothing but children. The rules of all kinds are such rules, with any of them
removed or replaced. -/
theorem views_agree :
    (∀ rules, Rules.Adapted rules → Rules.WriteChildren rules) ∧
      ∀ (writer : Writer) (forest : Forest) (handle : Handle), forest.Built →
        Rules.WriteChildren writer.rules →
        (writer.describe forest handle).map Segment.flatten = writer.render forest handle ∧
        (writer.tagged forest handle).map joined = writer.render forest handle ∧
        writer.highlight forest .plain handle = writer.render forest handle ∧
        ∀ error, writer.render forest handle = .error error →
          ∃ node ∈ forest.walk handle, writer.pieces forest node = .error error := by
  refine ⟨fun rules h => h.writeChildren, fun writer forest handle hb hrules => ?_⟩
  have hd := descends_of_rules hb hrules
  refine ⟨flatten_describe handle, (render_eq_tagged handle).symm, highlight_plain handle, ?_⟩
  intro error h
  exact exists_pieces_eq_error hb.sound hd h

/-- A rule that writes the children of a node twice. -/
def childrenTwice : Rule := fun _ forest handle =>
  .ok ((forest.children handle ++ forest.children handle).map .node)

theorem childrenTwice_writesChildren : childrenTwice.WritesChildren := by
  intro setting forest handle pieces _ h child hc
  cases h
  obtain ⟨piece, hpiece, hsome⟩ := List.mem_filterMap.1 hc
  obtain ⟨other, hother, rfl⟩ := List.mem_map.1 hpiece
  cases hsome
  rcases List.mem_append.1 hother with hmem | hmem
  · exact hmem
  · exact hmem

/-- These rules know no literals, and write the operand of an operator twice. -/
theorem views_agree_adapted :
    ∃ (forest : Forest) (writer : Writer),
      Forest.ofNodes [.identifier "a", .literal .number "1", .binaryOperation "+" 0 1,
        .identifier "b", .unaryOperation "!" true 3] = .ok forest ∧
      Rules.Adapted writer.rules ∧ writer.rules.get? .literal = none ∧
      ((writer.describe forest 2).map Segment.flatten = .error (.noRule .literal (forest.dump 1)) ∧
        (writer.tagged forest 2).map joined = .error (.noRule .literal (forest.dump 1)) ∧
        writer.highlight forest .plain 2 = .error (.noRule .literal (forest.dump 1)) ∧
        ∃ node ∈ forest.walk 2,
          writer.pieces forest node = .error (.noRule .literal (forest.dump 1))) ∧
      (writer.describe forest 4).map Segment.flatten = .ok "bb" ∧
      (writer.tagged forest 4).map joined = .ok "bb" ∧
      writer.highlight forest .plain 4 = .ok "bb" ∧
      writer.highlight forest .plain 9 = .error (.forest (.unknown 9)) := by
  have hforest : Forest.ofNodes [.identifier "a", .literal .number "1", .binaryOperation "+" 0 1,
      .identifier "b", .unaryOperation "!" true 3] =
        .ok ⟨#[⟨.identifier "a", some 2, []⟩, ⟨.literal .number "1", some 2, []⟩,
          ⟨.binaryOperation "+" 0 1, none, [0, 1]⟩, ⟨.identifier "b", some 4, []⟩,
          ⟨.unaryOperation "!" true 3, none, [3]⟩]⟩ := rfl
  have hb := Forest.Built.ofNodes hforest
  have hadapted := (Rules.Adapted.standard.erase .literal).insert .unaryOperation
    childrenTwice_writesChildren
  obtain ⟨hwrite, hviews⟩ := views_agree
  refine ⟨_, { Writer.standard {} with rules := _ }, hforest, hadapted, rfl, ?_⟩
  obtain ⟨hd, ht, hp, herror⟩ := hviews { Writer.standard {} with rules := _ } _ 2 hb (hwrite _ hadapted)
  obtain ⟨hd', ht', hp', -⟩ := hviews { Writer.standard {} with rules := _ } _ 4 hb (hwrite _ hadapted)
  obtain ⟨-, -, hp'', -⟩ := hviews { Writer.standard {} with rules := _ } _ 9 hb (hwrite _ hadapted)
  exact ⟨⟨hd, ht, hp, herror _ rfl⟩, hd', ht', hp', hp''⟩

end Writer

end SolText
