import SolText.Proofs.Yul.Attributes

/-!
# When assembly is written

A rule complains about an attribute that is missing or holds the wrong thing. So a node is written only
if all that the rules read of it is in order, at every level, and then it is written.

* `Yul.Node.Involves`: the nodes that writing a node comes to.
* `Yul.Node.Sound`: attributes that hold what they are to hold, with nodes in them that meet a condition.
* `Yul.succeeds_of_get?`: **a rule succeeds exactly if what it checks is sound.**
* `Yul.Writer.exists_renderAtDepth_iff`: **a node is written exactly if all nodes that it involves have a
  rule and provide what is read of them.** The type of a name is read but not checked.
-/

namespace SolText

namespace Json

/-- Members in increasing order have no name twice. -/
theorem Increasing.count_le_one {members : Members} (h : Increasing members) (name : String) :
    (members.map Prod.fst).count name ≤ 1 := by
  have hnodup : (members.map Prod.fst).Nodup := h.imp Text.ne_of_precedes
  exact List.nodup_iff_count.1 hnodup name

theorem isCanonical_of_mem {name : String} {value : Json} {members : Members}
    (h : haveCanonical members) (hmem : (name, value) ∈ members) : isCanonical value := by
  induction members with
  | nil => exact absurd hmem List.not_mem_nil
  | cons member rest ih =>
    simp only [haveCanonical, Bool.and_eq_true] at h
    rcases List.mem_cons.1 hmem with rfl | hmem
    · exact h.1
    · exact ih h.2 hmem

theorem isCanonical_of_mem_items {item : Json} {items : List Json} (h : areCanonical items)
    (hmem : item ∈ items) : isCanonical item := by
  induction items with
  | nil => exact absurd hmem List.not_mem_nil
  | cons first rest ih =>
    simp only [areCanonical, Bool.and_eq_true] at h
    rcases List.mem_cons.1 hmem with rfl | hmem
    · exact h.1
    · exact ih h.2 hmem

end Json

namespace Yul

open Json

namespace Node

variable {node : Node} {field : String} {value : Json}

theorem isCanonical_of_value? (h : node.value? field = some value) : isCanonical value := by
  have hcanonical := node.attributes.canonical
  simp only [isCanonical, Bool.and_eq_true] at hcanonical
  exact isCanonical_of_mem hcanonical.2 (mem_members_of_value? h)

/-- A canonical value can be read as a node exactly if it is one. -/
theorem succeeds_ofJson (hcanonical : isCanonical value) : SucceedsIff (ofJson value) value.isNode := by
  cases value with
  | obj members =>
    simp only [isCanonical, Bool.and_eq_true, decide_eq_true_eq] at hcanonical
    have hunrepeated : Members.unrepeated [tagField] members = .ok () :=
      Members.unrepeated_eq_ok fun name _ => hcanonical.1.count_le_one name
    have htag : SucceedsIff (Members.required members tagField asString) (isNode (.obj members)) := by
      rw [Members.required, isNode]
      split
      · rename_i tag htag
        rw [htag]
        cases tag with
        | str tag => exact .ok tag rfl
        | _ => exact .error _ Bool.false_ne_true
      · rename_i hnone
        rw [hnone]
        exact .error _ Bool.false_ne_true
    rw [ofJson, hunrepeated]
    exact htag.map
  | _ => exact .error _ Bool.false_ne_true

/-! ### Attributes -/

theorem succeeds_text : SucceedsIff (node.text field) (node.provides ⟨field, .text, true⟩) := by
  unfold text provides value?
  cases node.attributes.get? field with
  | none => exact .error _ Bool.false_ne_true
  | some value =>
    cases value with
    | str found => exact .ok found rfl
    | _ => exact .error _ Bool.false_ne_true

theorem succeeds_child? : SucceedsIff (node.child? field) (node.provides ⟨field, .node, false⟩) := by
  unfold child? provides
  split
  · rename_i hnone
    rw [hnone]
    exact .ok none rfl
  · rename_i value hvalue
    rw [hvalue]
    have hread := succeeds_ofJson (isCanonical_of_value? hvalue)
    split
    · rename_i child hchild
      exact .ok (some child) (hread.holds hchild)
    · rename_i e herror
      exact .error _ (hread.fails herror)

theorem succeeds_child : SucceedsIff (node.child field) (node.provides ⟨field, .node, true⟩) := by
  unfold Node.child child? provides
  cases hvalue : node.value? field with
  | none => exact .error _ Bool.false_ne_true
  | some value =>
    have hread := succeeds_ofJson (isCanonical_of_value? hvalue)
    cases hchild : ofJson value with
    | ok child =>
      have hnode := hread.holds hchild
      simp only [hchild]
      exact .ok child hnode
    | error e =>
      have hnode := hread.fails hchild
      simp only [hchild]
      exact .error _ hnode

theorem succeeds_children :
    SucceedsIff (node.children field) (node.provides ⟨field, .nodes, false⟩) := by
  unfold children provides
  split
  · rename_i hnone
    rw [hnone]
    exact .ok [] rfl
  · rename_i value hvalue
    rw [hvalue]
    have hread : SucceedsIff (value.asList ofJson) (Shape.fits .nodes value) := by
      have hcanonical := isCanonical_of_value? hvalue
      cases value with
      | arr items =>
        have hitems := SucceedsIff.mapM fun item hitem =>
          succeeds_ofJson (isCanonical_of_mem_items hcanonical hitem)
        exact hitems.trans List.all_eq_true.symm
      | _ => exact .error _ Bool.false_ne_true
    split
    · rename_i found hfound
      exact .ok found (hread.holds hfound)
    · rename_i e herror
      exact .error _ (hread.fails herror)

/-- The node has what an attribute is to hold, and the nodes in it meet a condition. -/
def Meets (node : Node) (P : Node → Prop) (slot : Slot) : Prop :=
  node.provides slot ∧ ∀ child ∈ node.nodesAt slot, P child

/-- All of the attributes hold what they are to hold, and the nodes in them meet a condition. -/
def Sound (node : Node) (P : Node → Prop) (slots : List Slot) : Prop :=
  ∀ slot ∈ slots, node.Meets P slot

/-- The attributes that the rule of a tag checks. The type of a name is taken for missing if it is not a
text. -/
def checksAs (tag : String) (node : Node) : List Slot :=
  (node.readsAs tag).filter fun slot => slot.name != "type"

theorem checksAs_literal (node : Node) : node.checksAs "YulLiteral" = node.literalSlots := by
  show List.filter _ node.literalSlots = _
  unfold literalSlots
  split
  · rfl
  · rfl

variable {α β : Type} {P : Node → Prop} {slot : Slot} {slots : List Slot}

theorem sound_nil : node.Sound P [] := List.forall_mem_nil _

theorem sound_cons : node.Sound P (slot :: slots) ↔ node.Meets P slot ∧ node.Sound P slots :=
  List.forall_mem_cons

/-- An attribute is read and its nodes are written, and then comes the rest. -/
theorem succeeds_slot {Q : Prop} {x : Except Error α} {next : α → Except Error β}
    (hx : SucceedsIff x (node.provides slot))
    (hnext : ∀ a, x = .ok a →
      SucceedsIff (next a) ((∀ child ∈ node.nodesAt slot, P child) ∧ Q)) :
    SucceedsIff (x >>= next) (node.Meets P slot ∧ Q) := by
  unfold Meets
  rw [and_assoc]
  exact hx.bind hnext

end Node

/-! ### The rules -/

/-- Nodes with fewer levels than the given one are written exactly if they meet a condition. -/
def DecidesBelow (render : Render) (P : Node → Prop) (node : Node) : Prop :=
  ∀ child : Node, child.height < node.height → ∀ depth, SucceedsIff (render child depth) (P child)

section Rules

open Yul.Node

variable {α : Type} {layout : Layout} {render : Render} {P : Node → Prop} {Q : Prop} {node : Node}
  {depth : Nat} {field separator : String} {slots : List Slot} {children : List Node}

theorem succeeds_done (text : String) : SucceedsIff (.ok text : Except Error String) (node.Sound P []) :=
  .ok text sound_nil

/-- A text is read. -/
theorem succeeds_withText {next : String → Except Error α}
    (hnext : ∀ text, SucceedsIff (next text) (node.Sound P slots)) :
    SucceedsIff (node.text field >>= next) (node.Sound P (⟨field, .text, true⟩ :: slots)) := by
  rw [sound_cons]
  refine succeeds_slot succeeds_text fun text _ => ?_
  rw [nodesAt_text, and_iff_right (List.forall_mem_nil _)]
  exact hnext text

/-- A nested node is read and written, and whether the rest succeeds does not depend on its text. -/
theorem succeeds_childThen {next : String → Except Error α} (h : DecidesBelow render P node)
    (hnext : ∀ text, SucceedsIff (next text) Q) :
    SucceedsIff (node.child field >>= fun child => render child depth >>= next)
      (node.Meets P ⟨field, .node, true⟩ ∧ Q) := by
  refine succeeds_slot succeeds_child fun child hchild => ?_
  rw [nodesAt_of_child hchild, List.forall_mem_singleton]
  exact (h child (height_lt_of_child hchild) depth).bind fun text _ => hnext text

theorem succeeds_withChild {next : String → Except Error α} (h : DecidesBelow render P node)
    (hnext : ∀ text, SucceedsIff (next text) (node.Sound P slots)) :
    SucceedsIff (node.child field >>= fun child => render child depth >>= next)
      (node.Sound P (⟨field, .node, true⟩ :: slots)) := by
  rw [sound_cons]
  exact succeeds_childThen h hnext

/-- A list of nested nodes is read, and the nodes are written some time later. -/
theorem succeeds_withChildren {next : List Node → Except Error α}
    (hnext : ∀ children, node.children field = .ok children →
      SucceedsIff (next children) ((∀ child ∈ children, P child) ∧ node.Sound P slots)) :
    SucceedsIff (node.children field >>= next) (node.Sound P (⟨field, .nodes, false⟩ :: slots)) := by
  rw [sound_cons]
  refine succeeds_slot succeeds_children fun children hchildren => ?_
  rw [nodesAt_of_children hchildren]
  exact hnext children hchildren

theorem succeeds_lines (h : DecidesBelow render P node) (hchildren : node.children field = .ok children)
    (line : String → String) :
    SucceedsIff (children.mapM fun child => do return line (← render child depth))
      (∀ child ∈ children, P child) :=
  .mapM fun child hchild => (h child (height_lt_of_children hchildren hchild) depth).map

theorem succeeds_joined (h : DecidesBelow render P node)
    (hchildren : node.children field = .ok children) :
    SucceedsIff (renderJoined render children depth separator) (∀ child ∈ children, P child) := by
  have hall : SucceedsIff (children.mapM (render · depth)) (∀ child ∈ children, P child) :=
    .mapM fun child hchild => h child (height_lt_of_children hchildren hchild) depth
  exact hall.map

/-- A list of nested nodes is read and written, the texts joined. -/
theorem succeeds_withJoined {next : String → Except Error α} (h : DecidesBelow render P node)
    (hnext : ∀ text, SucceedsIff (next text) (node.Sound P slots)) :
    SucceedsIff (node.children field >>= fun children =>
      renderJoined render children depth separator >>= next)
      (node.Sound P (⟨field, .nodes, false⟩ :: slots)) :=
  succeeds_withChildren fun _ hchildren => (succeeds_joined h hchildren).bind fun text _ => hnext text

theorem succeeds_block (h : DecidesBelow render P node) :
    SucceedsIff (Rule.block layout render node depth)
      (node.Sound P [⟨"statements", .nodes, false⟩]) := by
  refine succeeds_withChildren fun statements hstatements => ?_
  cases statements with
  | nil => exact .ok _ ⟨List.forall_mem_nil _, sound_nil⟩
  | cons first rest => exact (succeeds_lines h hstatements _).bind fun lines _ => succeeds_done _

theorem succeeds_kind : SucceedsIff node.kind (node.provides ⟨"kind", .text, false⟩) := by
  unfold Node.kind has Node.text provides value?
  cases node.attributes.get? "kind" with
  | none => exact .ok "number" rfl
  | some value =>
    cases value with
    | null => exact .ok "number" rfl
    | str kind => exact .ok kind rfl
    | _ => exact .error _ Bool.false_ne_true

theorem succeeds_literal :
    SucceedsIff (Rule.literal node) (node.Sound P node.literalSlots) := by
  rw [literal_eq, literalSlots, sound_cons]
  refine succeeds_slot succeeds_kind fun kind hkind => ?_
  rw [nodesAt_text, and_iff_right (List.forall_mem_nil _), ← saysString_of_kind hkind]
  by_cases hhex : (node.saysString && !node.has "value") = true
  · -- without a value the hexadecimal form is read, and the value is checked by its absence
    rw [if_pos hhex, if_pos hhex]
    have hnone : node.value? "value" = none := by
      simpa [has] using (Bool.and_eq_true_iff.1 hhex).2
    have hvalue : node.Meets P ⟨"value", .text, false⟩ := by
      unfold Meets provides nodesAt
      rw [hnone]
      exact ⟨rfl, List.forall_mem_nil _⟩
    rw [sound_cons, and_iff_right hvalue]
    exact succeeds_withText fun _ => succeeds_done _
  · rw [if_neg hhex, if_neg hhex]
    exact succeeds_withText fun _ => succeeds_done _

theorem succeeds_identifier :
    SucceedsIff (Rule.identifier node)
      (node.Sound P [⟨"name", .text, true⟩]) := by
  have hname : SucceedsIff (node.text "name" >>= pure) (node.Sound P [⟨"name", .text, true⟩]) :=
    succeeds_withText succeeds_done
  rwa [bind_pure] at hname

theorem succeeds_typedName :
    SucceedsIff (Rule.typedName node)
      (node.Sound P [⟨"name", .text, true⟩]) := by
  refine succeeds_withText fun name => ?_
  cases node.text "type" with
  | ok type => exact succeeds_done _
  | error e => exact succeeds_done _

theorem succeeds_functionCall (h : DecidesBelow render P node) :
    SucceedsIff (Rule.functionCall render node depth)
      (node.Sound P [⟨"functionName", .node, true⟩, ⟨"arguments", .nodes, false⟩]) :=
  succeeds_withChild h fun _ => succeeds_withJoined h fun _ => succeeds_done _

theorem succeeds_variableDeclaration (h : DecidesBelow render P node) :
    SucceedsIff (Rule.variableDeclaration render node depth)
      (node.Sound P [⟨"variables", .nodes, false⟩, ⟨"value", .node, false⟩]) := by
  refine succeeds_withJoined h fun names => ?_
  rw [sound_cons]
  refine succeeds_slot succeeds_child? fun value hvalue => ?_
  rw [nodesAt_of_child? hvalue]
  cases value with
  | none => exact .ok _ ⟨List.forall_mem_nil _, sound_nil⟩
  | some value =>
    have hlt := height_lt_of_child (child_eq_ok_iff.2 hvalue)
    rw [Option.toList_some, List.forall_mem_singleton]
    exact (h value hlt depth).bind fun text _ => succeeds_done _

theorem succeeds_assignment (h : DecidesBelow render P node) :
    SucceedsIff (Rule.assignment render node depth)
      (node.Sound P [⟨"variableNames", .nodes, false⟩, ⟨"value", .node, true⟩]) :=
  succeeds_withJoined h fun _ => succeeds_withChild h fun _ => succeeds_done _

theorem succeeds_expressionStatement (h : DecidesBelow render P node) :
    SucceedsIff (Rule.expressionStatement render node depth)
      (node.Sound P [⟨"expression", .node, true⟩]) := by
  have hchild : SucceedsIff (node.child "expression" >>= fun child => render child depth >>= pure)
      (node.Sound P [⟨"expression", .node, true⟩]) := succeeds_withChild h succeeds_done
  simp only [bind_pure] at hchild
  exact hchild

theorem succeeds_ifStatement (h : DecidesBelow render P node) :
    SucceedsIff (Rule.ifStatement render node depth)
      (node.Sound P [⟨"condition", .node, true⟩, ⟨"body", .node, true⟩]) :=
  succeeds_withChild h fun _ => succeeds_withChild h fun _ => succeeds_done _

theorem succeeds_switch (h : DecidesBelow render P node) :
    SucceedsIff (Rule.switch layout render node depth)
      (node.Sound P [⟨"expression", .node, true⟩, ⟨"cases", .nodes, false⟩]) := by
  refine succeeds_withChild h fun expression => succeeds_withChildren fun cases hcases => ?_
  exact (succeeds_lines h hcases _).bind fun lines _ => succeeds_done _

theorem succeeds_switchCase (h : DecidesBelow render P node) :
    SucceedsIff (Rule.switchCase render node depth)
      (node.Sound P [⟨"body", .node, true⟩, ⟨"value", .nodeOrDefault, true⟩]) := by
  refine succeeds_withChild h fun body => ?_
  split
  · rename_i hdefault
    refine .ok _ (sound_cons.2 ⟨?_, sound_nil⟩)
    unfold Meets provides nodesAt value?
    rw [hdefault]
    exact ⟨rfl, List.forall_mem_nil _⟩
  · rename_i hother
    -- a text other than `default` is no node
    have hslot : node.Meets P ⟨"value", .nodeOrDefault, true⟩ ↔
        node.Meets P ⟨"value", .node, true⟩ := by
      unfold Meets provides nodesAt
      cases hvalue : node.value? "value" with
      | none => exact Iff.rfl
      | some value =>
        have hfits : Shape.fits .nodeOrDefault value = Shape.fits .node value := by
          cases value with
          | str name =>
            refine decide_eq_false ?_
            rintro rfl
            exact hother (get?_of_value? hvalue)
          | _ => rfl
        simp only [hfits]
        exact Iff.rfl
    rw [sound_cons, hslot]
    exact succeeds_childThen h fun value => succeeds_done _

theorem succeeds_forLoop (h : DecidesBelow render P node) :
    SucceedsIff (Rule.forLoop render node depth)
      (node.Sound P [⟨"pre", .node, true⟩, ⟨"condition", .node, true⟩, ⟨"post", .node, true⟩,
        ⟨"body", .node, true⟩]) :=
  succeeds_withChild h fun _ => succeeds_withChild h fun _ => succeeds_withChild h fun _ =>
    succeeds_withChild h fun _ => succeeds_done _

theorem succeeds_functionDefinition (h : DecidesBelow render P node) :
    SucceedsIff (Rule.functionDefinition render node depth)
      (node.Sound P [⟨"name", .text, true⟩, ⟨"parameters", .nodes, false⟩,
        ⟨"returnVariables", .nodes, false⟩, ⟨"body", .node, true⟩]) := by
  refine succeeds_withText fun name => succeeds_withJoined h fun parameters => ?_
  -- the returned variables are read before the body is, and written behind it
  refine succeeds_withChildren fun returns hreturns => ?_
  rw [sound_cons, and_iff_left sound_nil, and_comm]
  refine succeeds_childThen h fun body => ?_
  cases returns with
  | nil => exact .ok _ (List.forall_mem_nil _)
  | cons first rest => exact (succeeds_joined h hreturns).map

/-- **A rule succeeds exactly if what it checks is sound**, for nested nodes that are written exactly if
they meet the condition. -/
theorem succeeds_of_get? {tag : String} {rule : Rule} (h : DecidesBelow render P node)
    (hrule : standardRules.get? tag = some rule) :
    SucceedsIff (rule layout render node depth) (node.Sound P (node.checksAs tag)) := by
  have hliteral : SucceedsIff (Rule.literal node) (node.Sound P (node.checksAs "YulLiteral")) := by
    rw [checksAs_literal]
    exact succeeds_literal
  have hmem := Table.mem_of_get?_ofList hrule
  refine List.forall_iff_forall_mem.1 (?_ : List.Forall (fun entry =>
    SucceedsIff (entry.2 layout render node depth) (node.Sound P (node.checksAs entry.1))) _) _ hmem
  exact ⟨succeeds_block h, hliteral, succeeds_identifier, succeeds_typedName,
    succeeds_functionCall h, succeeds_variableDeclaration h, succeeds_assignment h,
    succeeds_expressionStatement h, succeeds_ifStatement h, succeeds_switch h, succeeds_switchCase h,
    succeeds_forLoop h, succeeds_functionDefinition h, succeeds_done _, succeeds_done _, succeeds_done _⟩

end Rules

/-! ### Nodes of any depth -/

namespace Node

/-- Writing the first node comes to the second: it is the node itself, or one nested in what the rules
read of it at any level. -/
inductive Involves : Node → Node → Prop where
  | self (node : Node) : Involves node node
  | nested {node child part : Node} : child ∈ node.nested → Involves child part → Involves node part

/-- The node has a rule and provides what the rule checks. -/
def InOrder (node : Node) : Prop :=
  standardRules.contains node.tag ∧ ∀ slot ∈ node.reads, slot.name ≠ "type" → node.provides slot

theorem forall_involves_iff {node : Node} {C : Node → Prop} :
    (∀ part, node.Involves part → C part) ↔
      C node ∧ ∀ child ∈ node.nested, ∀ part, child.Involves part → C part := by
  constructor
  · intro h
    exact ⟨h node (.self node), fun child hchild part hpart => h part (.nested hchild hpart)⟩
  · rintro ⟨hnode, hnested⟩ part hpart
    cases hpart with
    | self => exact hnode
    | nested hchild hpart => exact hnested _ hchild part hpart

theorem shape_of_type (node : Node) (tag : String) :
    ∀ slot ∈ node.readsAs tag, slot.name = "type" → slot.shape = .text := by
  unfold readsAs
  split
  case h_2 =>
    unfold literalSlots
    split
    · decide
    · decide
  all_goals decide

/-- What is not checked holds no nodes. -/
theorem sound_checks_iff {node : Node} {P : Node → Prop} :
    node.Sound P (node.checksAs node.tag) ↔
      (∀ slot ∈ node.reads, slot.name ≠ "type" → node.provides slot) ∧ ∀ child ∈ node.nested, P child := by
  have hchecked : ∀ slot, slot ∈ node.checksAs node.tag ↔ slot ∈ node.reads ∧ slot.name ≠ "type" := by
    intro slot
    unfold checksAs reads
    rw [List.mem_filter, bne_iff_ne]
  constructor
  · intro h
    refine ⟨fun slot hslot hname => (h slot ((hchecked slot).2 ⟨hslot, hname⟩)).1, ?_⟩
    intro child hchild
    obtain ⟨⟨name, shape, required⟩, hslot, hchild⟩ := List.mem_flatMap.1 hchild
    by_cases hname : name = "type"
    · have hshape : shape = .text := shape_of_type node node.tag _ hslot hname
      rw [hshape, nodesAt_text] at hchild
      exact absurd hchild List.not_mem_nil
    · exact (h _ ((hchecked _).2 ⟨hslot, hname⟩)).2 child hchild
  · rintro ⟨hprovides, hnested⟩ slot hslot
    obtain ⟨hreads, hname⟩ := (hchecked slot).1 hslot
    refine ⟨hprovides slot hreads hname, fun child hchild => ?_⟩
    exact hnested child (List.mem_flatMap.2 ⟨slot, hreads, hchild⟩)

end Node

theorem succeeds_renderWithin (layout : Layout) (fuel : Nat) (node : Node) (hfuel : node.height ≤ fuel)
    (depth : Nat) :
    SucceedsIff ((Writer.standard layout).renderWithin fuel node depth)
      (∀ part, node.Involves part → part.InOrder) := by
  induction fuel generalizing node depth with
  | zero => exact absurd hfuel (Nat.not_succ_le_zero _)
  | succ fuel ih =>
    have hbelow : DecidesBelow ((Writer.standard layout).renderWithin fuel)
        (fun child => ∀ part, child.Involves part → part.InOrder) node :=
      fun child hlt depth => ih child (by omega) depth
    -- the node itself and the nodes nested in it, which is what its rule checks
    rw [Node.forall_involves_iff]
    unfold Node.InOrder
    rw [Writer.renderWithin, and_assoc, ← Node.sound_checks_iff]
    simp only [Writer.standard]
    cases hrule : standardRules.get? node.tag with
    | none =>
      refine .error _ fun h => ?_
      have hcontains := h.1
      unfold Table.contains at hcontains
      rw [hrule] at hcontains
      cases hcontains
    | some rule =>
      have hcontains : standardRules.contains node.tag := by
        unfold Table.contains
        rw [hrule]
        rfl
      rw [and_iff_right hcontains]
      exact succeeds_of_get? hbelow hrule

/-- **A node is written exactly if all nodes that it involves have a rule and provide what is read of
them**, at every depth and in every layout. An attribute that is not required may be missing or null;
otherwise it has to be of the right shape. The type of a name is the exception: it may be anything. -/
theorem Writer.exists_renderAtDepth_iff (layout : Layout) (node : Node) (depth : Nat) :
    (∃ text, (Writer.standard layout).renderAtDepth node depth = .ok text) ↔
      ∀ part, node.Involves part → part.InOrder :=
  succeeds_renderWithin layout node.height node (Nat.le_refl _) depth

/-- A name whose type is a number is written as if it had no type. -/
theorem Writer.renderAtDepth_badly_typed_name :
    let node : Node :=
      ⟨"YulTypedName", { members := [("name", .str "x"), ("type", .num (.whole 3))] }⟩
    (Writer.standard {}).renderAtDepth node 0 = .ok "x" ∧
      ∃ slot ∈ node.reads, node.provides slot = false := by
  refine ⟨rfl, ⟨"type", .text, false⟩, ?_, rfl⟩
  exact List.mem_cons_of_mem _ List.mem_cons_self

end Yul

end SolText
