import SolText.Proofs.Yul.Attributes

/-!
# Attributes that do not matter

The compiler puts more into a node than is written: where the node stands in the source, for one. What
the rules do not read makes no difference to the text, at whatever level it stands. It shows in a
complaint only, which dumps the whole node.

* `Json.ReadAlike`, `Yul.Node.ReadAlike`: values and nodes that differ only in what is not read.
* `Yul.Node.readAlike_set`: an attribute that is not read can be added or replaced.
* `Yul.Error.withoutDump`, `Yul.AgreeButDumps`: two results that differ at most in the dump of a
  complaint.
* `Yul.agree_of_get?`: **a rule gives the same for nodes that agree on what it reads.**
* `Yul.Writer.renderAtDepth_of_readAlike`: **nodes that differ only in what is not read are written the
  same, or refused with the same complaint.**
-/

namespace SolText

/-- Lists that are related item by item are related by items of theirs. -/
theorem forall₂_mem {α β : Type} {R : α → β → Prop} {as : List α} {bs : List β}
    (h : List.Forall₂ R as bs) : List.Forall₂ (fun a b => R a b ∧ a ∈ as ∧ b ∈ bs) as bs := by
  induction h with
  | nil => exact .nil
  | cons hab _ ih =>
    refine .cons ⟨hab, List.mem_cons_self, List.mem_cons_self⟩ (ih.imp ?_)
    rintro a b ⟨hab, ha, hb⟩
    exact ⟨hab, List.mem_cons_of_mem _ ha, List.mem_cons_of_mem _ hb⟩

namespace Json

/-- Two values that differ only, in the nodes at any level of them, in attributes that the rules of these
nodes do not read. -/
inductive ReadAlike : Json → Json → Prop where
  | same (value : Json) : ReadAlike value value
  | node {value other : Json} {a b : Yul.Node} :
      Yul.Node.ofJson value = .ok a → Yul.Node.ofJson other = .ok b → a.tag = b.tag →
      (∀ slot ∈ a.reads,
        Option.Rel ReadAlike (a.attributes.get? slot.name) (b.attributes.get? slot.name)) →
      ReadAlike value other
  | list {items others : List Json} :
      List.Forall₂ ReadAlike items others → ReadAlike (.arr items) (.arr others)

theorem lookup_setMember_of_ne {name other : String} {value : Json} {members : Members}
    (h : other ≠ name) : (setMember name value members).lookup other = members.lookup other := by
  have hskip : ∀ rest : Members, ((name, value) :: rest).lookup other = rest.lookup other := by
    intro rest
    rw [List.lookup_cons, beq_eq_false_iff_ne.2 h]
  induction members with
  | nil => exact hskip []
  | cons member rest ih =>
    rw [setMember]
    split
    · exact hskip _
    · split
      · rename_i hname
        rw [hskip, List.lookup_cons, ← hname, beq_eq_false_iff_ne.2 h]
      · rw [List.lookup_cons, List.lookup_cons, ih]

end Json

namespace Yul

open Json

namespace Node

/-- Two nodes have the same tag, and values in the given attributes that differ only in what is not
read. -/
structure AgreesOn (a b : Node) (slots : List Slot) : Prop where
  tag : a.tag = b.tag
  values : ∀ slot ∈ slots,
    Option.Rel ReadAlike (a.attributes.get? slot.name) (b.attributes.get? slot.name)

/-- Two nodes that differ only in attributes that are not read, at any level. -/
def ReadAlike (a b : Node) : Prop := a.AgreesOn b a.reads

theorem AgreesOn.refl (node : Node) (slots : List Slot) : node.AgreesOn node slots := by
  refine ⟨rfl, fun slot _ => ?_⟩
  cases node.attributes.get? slot.name with
  | none => exact .none
  | some value => exact .some (.same value)

/-- An attribute that is not read can be added or replaced. -/
theorem readAlike_set {node : Node} {name : String} (h : ∀ slot ∈ node.reads, slot.name ≠ name)
    (value : Json) : node.ReadAlike (node.set name value) := by
  refine ⟨rfl, fun slot hslot => ?_⟩
  have hget : (node.set name value).attributes.get? slot.name = node.attributes.get? slot.name :=
    lookup_setMember_of_ne (h slot hslot)
  rw [hget]
  exact (AgreesOn.refl node node.reads).values slot hslot

theorem exists_obj_of_ofJson {value : Json} {node : Node} (h : ofJson value = .ok node) :
    ∃ members, value = .obj members := by
  cases value with
  | obj members => exact ⟨members, rfl⟩
  | _ => cases h

end Node

end Yul

/-! ### Values -/

namespace Json.ReadAlike

variable {value other : Json}

/-- Values that are not the same are two objects or two lists, which no rule takes for a text or for
null. -/
theorem shape (h : ReadAlike value other) :
    value = other ∨ (∃ members members', value = .obj members ∧ other = .obj members') ∨
      ∃ items items', value = .arr items ∧ other = .arr items' := by
  cases h with
  | same => exact .inl rfl
  | node hvalue hother _ _ =>
    obtain ⟨members, rfl⟩ := Yul.Node.exists_obj_of_ofJson hvalue
    obtain ⟨members', rfl⟩ := Yul.Node.exists_obj_of_ofJson hother
    exact .inr (.inl ⟨members, members', rfl, rfl⟩)
  | list _ => exact .inr (.inr ⟨_, _, rfl, rfl⟩)

theorem ofJson (h : ReadAlike value other) :
    Agree Yul.Node.ReadAlike (Yul.Node.ofJson value) (Yul.Node.ofJson other) := by
  cases h with
  | same => exact .same fun node _ => .refl node node.reads
  | node hvalue hother htag hvalues =>
    rw [hvalue, hother]
    exact .ok ⟨htag, hvalues⟩
  | list _ => exact .error DecodeError.invalidType

theorem asList (h : ReadAlike value other) :
    Agree (List.Forall₂ Yul.Node.ReadAlike) (value.asList Yul.Node.ofJson)
      (other.asList Yul.Node.ofJson) := by
  cases h with
  | same => exact .same fun nodes _ => List.forall₂_same.2 fun node _ => .refl node node.reads
  | node hvalue hother _ _ =>
    obtain ⟨members, rfl⟩ := Yul.Node.exists_obj_of_ofJson hvalue
    obtain ⟨members', rfl⟩ := Yul.Node.exists_obj_of_ofJson hother
    exact .error DecodeError.invalidType
  | list hitems => exact .mapM₂ hitems fun _ _ hitem => hitem.ofJson

end Json.ReadAlike

/-! ### Results up to dumps -/

namespace Yul

variable {α β α' β' : Type}

/-- A complaint without the dump of the node. -/
def Error.withoutDump : Error → Error
  | noRule tag _ => noRule tag ""
  | badAttribute tag field _ => badAttribute tag field ""
  | endless tag _ => endless tag ""

/-- Two results are complaints that differ at most in their dumps, or values that are related. -/
def AgreeButDumps (R : α → β → Prop) (x : Except Error α) (y : Except Error β) : Prop :=
  Agree R (x.mapError Error.withoutDump) (y.mapError Error.withoutDump)

namespace AgreeButDumps

variable {R : α → β → Prop} {S : α' → β' → Prop} {x : Except Error α} {y : Except Error β}

theorem ok {a : α} {b : β} (h : R a b) : AgreeButDumps R (.ok a) (.ok b) := Agree.ok h

theorem error {e e' : Error} (h : e.withoutDump = e'.withoutDump) :
    AgreeButDumps R (.error e) (.error e') := by
  show Agree R (.error e.withoutDump) (.error e'.withoutDump)
  rw [h]
  exact .error _

theorem both (h : AgreeButDumps R x y) :
    (∃ e e', x = .error e ∧ y = .error e' ∧ e.withoutDump = e'.withoutDump) ∨
      ∃ a b, x = .ok a ∧ y = .ok b ∧ R a b := by
  rcases Agree.both h with ⟨error, hx, hy⟩ | ⟨a, b, hx, hy, hab⟩
  · obtain ⟨e, hxe, he⟩ := mapError_eq_error_iff.1 hx
    obtain ⟨e', hye', he'⟩ := mapError_eq_error_iff.1 hy
    exact .inl ⟨e, e', hxe, hye', he.trans he'.symm⟩
  · exact .inr ⟨a, b, mapError_eq_ok_iff.1 hx, mapError_eq_ok_iff.1 hy, hab⟩

theorem bind {f : α → Except Error α'} {g : β → Except Error β'} (h : AgreeButDumps R x y)
    (hstep : ∀ a b, R a b → AgreeButDumps S (f a) (g b)) : AgreeButDumps S (x >>= f) (y >>= g) := by
  unfold AgreeButDumps
  rw [mapError_bind, mapError_bind]
  exact Agree.bind h hstep

/-- Two runs that start with the same value go on with it. -/
theorem bind_eq {f : α → Except Error α'} {g : α → Except Error β'} {y : Except Error α}
    (h : AgreeButDumps Eq x y) (hstep : ∀ a, AgreeButDumps S (f a) (g a)) :
    AgreeButDumps S (x >>= f) (y >>= g) := by
  refine h.bind ?_
  rintro a _ rfl
  exact hstep a

theorem mapM_eq {σ τ : Type} {Q : σ → τ → Prop} {f : σ → Except Error α} {g : τ → Except Error α}
    {items : List σ} {others : List τ} (hitems : List.Forall₂ Q items others)
    (h : ∀ item other, Q item other → AgreeButDumps Eq (f item) (g other)) :
    AgreeButDumps Eq (items.mapM f) (others.mapM g) := by
  unfold AgreeButDumps
  rw [mapError_mapM, mapError_mapM, ← List.forall₂_eq_eq_eq]
  exact .mapM₂ hitems h

end AgreeButDumps

/-! ### Attributes -/

namespace Node.AgreesOn

variable {a b : Node} {field : String} {shape : Shape} {required : Bool} {slots : List Slot}

theorem tail {slot : Slot} (h : a.AgreesOn b (slot :: slots)) : a.AgreesOn b slots :=
  ⟨h.tag, fun slot hslot => h.values slot (List.mem_cons_of_mem _ hslot)⟩

theorem badAttribute (h : a.AgreesOn b slots) (R : α → β → Prop) (field : String) :
    AgreeButDumps R (.error (a.badAttribute field)) (.error (b.badAttribute field)) := by
  refine .error ?_
  unfold Node.badAttribute Error.withoutDump
  rw [h.tag]

theorem get? (h : a.AgreesOn b (⟨field, shape, required⟩ :: slots)) :
    Option.Rel Json.ReadAlike (a.attributes.get? field) (b.attributes.get? field) :=
  h.values _ List.mem_cons_self

theorem value? (h : a.AgreesOn b (⟨field, shape, required⟩ :: slots)) :
    (a.value? field = none ∧ b.value? field = none) ∨
      ∃ value other, a.value? field = some value ∧ b.value? field = some other ∧
        Json.ReadAlike value other := by
  have hget := h.get?
  unfold Node.value?
  generalize a.attributes.get? field = x, b.attributes.get? field = y at hget
  cases hget with
  | none => exact .inl ⟨rfl, rfl⟩
  | @some value other halike =>
    rcases halike.shape with rfl | ⟨_, _, rfl, rfl⟩ | ⟨_, _, rfl, rfl⟩
    · cases value with
      | null => exact .inl ⟨rfl, rfl⟩
      | _ => exact .inr ⟨_, _, rfl, rfl, .same _⟩
    · exact .inr ⟨_, _, rfl, rfl, halike⟩
    · exact .inr ⟨_, _, rfl, rfl, halike⟩

theorem has (h : a.AgreesOn b (⟨field, shape, required⟩ :: slots)) : a.has field = b.has field := by
  unfold Node.has
  rcases h.value? with ⟨ha, hb⟩ | ⟨value, other, ha, hb, -⟩
  · rw [ha, hb]
  · rw [ha, hb]
    rfl

theorem text (h : a.AgreesOn b (⟨field, shape, required⟩ :: slots)) :
    AgreeButDumps Eq (a.text field) (b.text field) := by
  have hget := h.get?
  unfold Node.text
  generalize a.attributes.get? field = x, b.attributes.get? field = y at hget
  cases hget with
  | none => exact h.badAttribute Eq field
  | @some value other halike =>
    rcases halike.shape with rfl | ⟨_, _, rfl, rfl⟩ | ⟨_, _, rfl, rfl⟩
    · cases value with
      | str text => exact .ok rfl
      | _ => exact h.badAttribute Eq field
    · exact h.badAttribute Eq field
    · exact h.badAttribute Eq field

end Node.AgreesOn

/-! ### Nested nodes -/

namespace Node

variable {a b : Node} {field : String} {shape : Shape} {required : Bool} {slots : List Slot}

/-- Two nodes that differ only in what is not read, with fewer levels than two others. -/
structure AlikeBelow (a b child other : Node) : Prop where
  alike : child.ReadAlike other
  left : child.height < a.height
  right : other.height < b.height

theorem AgreesOn.child? (h : a.AgreesOn b (⟨field, shape, required⟩ :: slots)) :
    AgreeButDumps (Option.Rel (AlikeBelow a b)) (a.child? field) (b.child? field) := by
  unfold Node.child?
  rcases h.value? with ⟨ha, hb⟩ | ⟨value, other, ha, hb, halike⟩
  · rw [ha, hb]
    exact .ok .none
  · rw [ha, hb]
    rcases halike.ofJson.both with ⟨e, hvalue, hother⟩ | ⟨child, child', hvalue, hother, halike⟩
    · simp only [hvalue, hother]
      exact h.badAttribute _ field
    · simp only [hvalue, hother]
      have hleft := Nat.lt_of_le_of_lt (height_le_of_ofJson hvalue) (height_lt_of_value? ha)
      have hright := Nat.lt_of_le_of_lt (height_le_of_ofJson hother) (height_lt_of_value? hb)
      exact .ok (.some ⟨halike, hleft, hright⟩)

theorem AgreesOn.child (h : a.AgreesOn b (⟨field, shape, required⟩ :: slots)) :
    AgreeButDumps (AlikeBelow a b) (a.child field) (b.child field) := by
  refine h.child?.bind fun found found' hfound => ?_
  cases hfound with
  | none => exact h.badAttribute _ field
  | some hbelow => exact .ok hbelow

theorem AgreesOn.children (h : a.AgreesOn b (⟨field, shape, required⟩ :: slots)) :
    AgreeButDumps (List.Forall₂ (AlikeBelow a b)) (a.children field) (b.children field) := by
  have hlists : AgreeButDumps (List.Forall₂ Node.ReadAlike) (a.children field) (b.children field) := by
    unfold Node.children
    rcases h.value? with ⟨ha, hb⟩ | ⟨value, other, ha, hb, halike⟩
    · rw [ha, hb]
      exact .ok .nil
    · rw [ha, hb]
      rcases halike.asList.both with ⟨e, hvalue, hother⟩ | ⟨children, others, hvalue, hother, hall⟩
      · simp only [hvalue, hother]
        exact h.badAttribute _ field
      · simp only [hvalue, hother]
        exact .ok hall
  -- the levels are counted once it is known which lists were read
  rcases hlists.both with ⟨e, e', ha, hb, he⟩ | ⟨children, others, ha, hb, hall⟩
  · rw [ha, hb]
    exact .error he
  · rw [ha, hb]
    refine .ok ((forall₂_mem hall).imp ?_)
    rintro child other ⟨halike, hchild, hother⟩
    exact ⟨halike, height_lt_of_children ha hchild, height_lt_of_children hb hother⟩

end Node

/-! ### The rules -/

/-- Two ways to write the nodes below two others, which give the same for nodes that differ only in what
is not read. -/
def MatchBelow (f g : Render) (a b : Node) : Prop :=
  ∀ child other, a.AlikeBelow b child other → ∀ depth,
    AgreeButDumps Eq (f child depth) (g other depth)

section Rules

open Yul.Node

variable {layout : Layout} {f g : Render} {a b : Node} {depth : Nat} {field separator : String}
  {shape : Shape} {required : Bool} {slots : List Slot} {children others : List Node}

theorem agree_withText {next next' : String → Except Error String}
    (hread : a.AgreesOn b (⟨field, shape, required⟩ :: slots))
    (hnext : a.AgreesOn b slots → ∀ text, AgreeButDumps Eq (next text) (next' text)) :
    AgreeButDumps Eq (a.text field >>= next) (b.text field >>= next') :=
  hread.text.bind_eq (hnext hread.tail)

theorem agree_withChild {next next' : String → Except Error String} (h : MatchBelow f g a b)
    (hread : a.AgreesOn b (⟨field, shape, required⟩ :: slots))
    (hnext : a.AgreesOn b slots → ∀ text, AgreeButDumps Eq (next text) (next' text)) :
    AgreeButDumps Eq (a.child field >>= fun child => f child depth >>= next)
      (b.child field >>= fun child => g child depth >>= next') :=
  hread.child.bind fun child other hbelow => (h child other hbelow depth).bind_eq (hnext hread.tail)

theorem agree_lines (h : MatchBelow f g a b) (hall : List.Forall₂ (AlikeBelow a b) children others)
    (line : String → String) :
    AgreeButDumps Eq (children.mapM fun child => do return line (← f child depth))
      (others.mapM fun child => do return line (← g child depth)) :=
  .mapM_eq hall fun child other hbelow =>
    (h child other hbelow depth).bind_eq fun _ => .ok rfl

theorem agree_joined (h : MatchBelow f g a b) (hall : List.Forall₂ (AlikeBelow a b) children others) :
    AgreeButDumps Eq (renderJoined f children depth separator)
      (renderJoined g others depth separator) := by
  have htexts : AgreeButDumps Eq (children.mapM (f · depth)) (others.mapM (g · depth)) :=
    .mapM_eq hall fun child other hbelow => h child other hbelow depth
  exact htexts.bind_eq fun _ => .ok rfl

theorem agree_withJoined {next next' : String → Except Error String} (h : MatchBelow f g a b)
    (hread : a.AgreesOn b (⟨field, shape, required⟩ :: slots))
    (hnext : a.AgreesOn b slots → ∀ text, AgreeButDumps Eq (next text) (next' text)) :
    AgreeButDumps Eq
      (a.children field >>= fun children => renderJoined f children depth separator >>= next)
      (b.children field >>= fun children => renderJoined g children depth separator >>= next') :=
  hread.children.bind fun _ _ hall => (agree_joined h hall).bind_eq (hnext hread.tail)

theorem agree_block (h : MatchBelow f g a b) (hread : a.AgreesOn b [⟨"statements", .nodes, false⟩]) :
    AgreeButDumps Eq (Rule.block layout f a depth) (Rule.block layout g b depth) := by
  refine hread.children.bind fun statements others hall => ?_
  cases hall with
  | nil => exact .ok rfl
  | cons hfirst hrest =>
    refine (agree_lines h (.cons hfirst hrest) _).bind_eq fun lines => ?_
    exact .ok rfl

theorem agree_kind (hread : a.AgreesOn b (⟨"kind", shape, required⟩ :: slots)) :
    AgreeButDumps Eq a.kind b.kind := by
  unfold Node.kind
  rw [hread.has]
  split
  · exact hread.text
  · exact .ok rfl

theorem agree_literal (hread : a.AgreesOn b a.literalSlots) :
    AgreeButDumps Eq (Rule.literal a) (Rule.literal b) := by
  unfold literalSlots at hread
  rw [literal_eq, literal_eq]
  rcases (agree_kind hread).both with ⟨e, e', ha, hb, he⟩ | ⟨kind, _, ha, hb, rfl⟩
  · rw [ha, hb]
    exact .error he
  · rw [ha, hb]
    show AgreeButDumps Eq (if _ then _ else _) (if _ then _ else _)
    -- both nodes have the same kind and lack a value together, so they take the same branch
    rw [saysString_of_kind ha] at hread
    by_cases hhex : (decide (kind = "string") && !a.has "value") = true
    · rw [if_pos hhex] at hread
      rw [if_pos hhex, if_pos (hread.tail.has ▸ hhex)]
      exact agree_withText hread.tail.tail fun _ _ => .ok rfl
    · rw [if_neg hhex] at hread
      rw [if_neg hhex, if_neg (hread.tail.has ▸ hhex)]
      exact agree_withText hread.tail fun _ _ => .ok rfl

theorem agree_typedName
    (hread : a.AgreesOn b [⟨"name", .text, true⟩, ⟨"type", .text, false⟩]) :
    AgreeButDumps Eq (Rule.typedName a) (Rule.typedName b) := by
  refine agree_withText hread fun hread name => ?_
  rcases hread.text.both with ⟨e, e', ha, hb, -⟩ | ⟨type, _, ha, hb, rfl⟩
  · rw [ha, hb]
    exact .ok rfl
  · rw [ha, hb]
    exact .ok rfl

theorem agree_functionCall (h : MatchBelow f g a b)
    (hread : a.AgreesOn b [⟨"functionName", .node, true⟩, ⟨"arguments", .nodes, false⟩]) :
    AgreeButDumps Eq (Rule.functionCall f a depth) (Rule.functionCall g b depth) :=
  agree_withChild h hread fun hread _ => agree_withJoined h hread fun _ _ => .ok rfl

theorem agree_variableDeclaration (h : MatchBelow f g a b)
    (hread : a.AgreesOn b [⟨"variables", .nodes, false⟩, ⟨"value", .node, false⟩]) :
    AgreeButDumps Eq (Rule.variableDeclaration f a depth) (Rule.variableDeclaration g b depth) := by
  refine agree_withJoined h hread fun hread names => hread.child?.bind fun value other hfound => ?_
  cases hfound with
  | none => exact .ok rfl
  | some hbelow => exact (h _ _ hbelow depth).bind_eq fun _ => .ok rfl

theorem agree_assignment (h : MatchBelow f g a b)
    (hread : a.AgreesOn b [⟨"variableNames", .nodes, false⟩, ⟨"value", .node, true⟩]) :
    AgreeButDumps Eq (Rule.assignment f a depth) (Rule.assignment g b depth) :=
  agree_withJoined h hread fun hread _ => agree_withChild h hread fun _ _ => .ok rfl

theorem agree_expressionStatement (h : MatchBelow f g a b)
    (hread : a.AgreesOn b [⟨"expression", .node, true⟩]) :
    AgreeButDumps Eq (Rule.expressionStatement f a depth) (Rule.expressionStatement g b depth) :=
  hread.child.bind fun child other hbelow => h child other hbelow depth

theorem agree_ifStatement (h : MatchBelow f g a b)
    (hread : a.AgreesOn b [⟨"condition", .node, true⟩, ⟨"body", .node, true⟩]) :
    AgreeButDumps Eq (Rule.ifStatement f a depth) (Rule.ifStatement g b depth) :=
  agree_withChild h hread fun hread _ => agree_withChild h hread fun _ _ => .ok rfl

theorem agree_switch (h : MatchBelow f g a b)
    (hread : a.AgreesOn b [⟨"expression", .node, true⟩, ⟨"cases", .nodes, false⟩]) :
    AgreeButDumps Eq (Rule.switch layout f a depth) (Rule.switch layout g b depth) := by
  refine agree_withChild h hread fun hread expression => hread.children.bind fun _ _ hall => ?_
  exact (agree_lines h hall _).bind_eq fun _ => .ok rfl

theorem agree_switchCase (h : MatchBelow f g a b)
    (hread : a.AgreesOn b [⟨"body", .node, true⟩, ⟨"value", .nodeOrDefault, true⟩]) :
    AgreeButDumps Eq (Rule.switchCase f a depth) (Rule.switchCase g b depth) := by
  refine agree_withChild h hread fun hread body => ?_
  have hcase : AgreeButDumps Eq
      (do return "case " ++ (← f (← a.child "value") depth) ++ " " ++ body)
      (do return "case " ++ (← g (← b.child "value") depth) ++ " " ++ body) :=
    agree_withChild h hread fun _ _ => .ok rfl
  have hget := hread.get?
  generalize a.attributes.get? "value" = x, b.attributes.get? "value" = y at hget
  cases hget with
  | none => exact hcase
  | some halike =>
    rcases halike.shape with rfl | ⟨_, _, rfl, rfl⟩ | ⟨_, _, rfl, rfl⟩
    · split
      · exact .ok rfl
      · exact hcase
    · exact hcase
    · exact hcase

theorem agree_forLoop (h : MatchBelow f g a b)
    (hread : a.AgreesOn b [⟨"pre", .node, true⟩, ⟨"condition", .node, true⟩, ⟨"post", .node, true⟩,
      ⟨"body", .node, true⟩]) :
    AgreeButDumps Eq (Rule.forLoop f a depth) (Rule.forLoop g b depth) :=
  agree_withChild h hread fun hread _ => agree_withChild h hread fun hread _ =>
    agree_withChild h hread fun hread _ => agree_withChild h hread fun _ _ => .ok rfl

theorem agree_functionDefinition (h : MatchBelow f g a b)
    (hread : a.AgreesOn b [⟨"name", .text, true⟩, ⟨"parameters", .nodes, false⟩,
      ⟨"returnVariables", .nodes, false⟩, ⟨"body", .node, true⟩]) :
    AgreeButDumps Eq (Rule.functionDefinition f a depth) (Rule.functionDefinition g b depth) := by
  refine agree_withText hread fun hread name => agree_withJoined h hread fun hread parameters => ?_
  -- the returned variables are read before the body is, and written behind it
  refine hread.children.bind fun returns others hall => ?_
  refine agree_withChild h hread.tail fun _ body => ?_
  cases hall with
  | nil => exact .ok rfl
  | cons hfirst hrest => exact (agree_joined h (.cons hfirst hrest)).bind_eq fun _ => .ok rfl

/-- **A rule gives the same for nodes that agree on what it reads**, if the nodes below them are written
the same. -/
theorem agree_of_get? {tag : String} {rule : Rule} (h : MatchBelow f g a b)
    (hread : a.AgreesOn b (a.readsAs tag)) (hrule : standardRules.get? tag = some rule) :
    AgreeButDumps Eq (rule layout f a depth) (rule layout g b depth) := by
  have hmem := Table.mem_of_get?_ofList hrule
  refine List.forall_iff_forall_mem.1 (?_ : List.Forall (fun entry =>
    a.AgreesOn b (a.readsAs entry.1) →
      AgreeButDumps Eq (entry.2 layout f a depth) (entry.2 layout g b depth)) _) _ hmem hread
  exact ⟨agree_block h, agree_literal, AgreesOn.text, agree_typedName, agree_functionCall h,
    agree_variableDeclaration h, agree_assignment h, agree_expressionStatement h, agree_ifStatement h,
    agree_switch h, agree_switchCase h, agree_forLoop h, agree_functionDefinition h,
    fun _ => .ok rfl, fun _ => .ok rfl, fun _ => .ok rfl⟩

end Rules

/-! ### Nodes of any depth -/

/-- The two nodes may have different numbers of levels, so each has a fuel of its own. -/
theorem agree_renderWithin (layout : Layout) {fuel fuel' : Nat} {a b : Node} (halike : a.ReadAlike b)
    (hfuel : a.height ≤ fuel) (hfuel' : b.height ≤ fuel') (depth : Nat) :
    AgreeButDumps Eq ((Writer.standard layout).renderWithin fuel a depth)
      ((Writer.standard layout).renderWithin fuel' b depth) := by
  induction fuel generalizing fuel' a b depth with
  | zero => exact absurd hfuel (Nat.not_succ_le_zero _)
  | succ fuel ih =>
    cases fuel' with
    | zero => exact absurd hfuel' (Nat.not_succ_le_zero _)
    | succ fuel' =>
      have hbelow : MatchBelow ((Writer.standard layout).renderWithin fuel)
          ((Writer.standard layout).renderWithin fuel') a b := by
        intro child other h depth
        have hleft := h.left
        have hright := h.right
        exact ih h.alike (by omega) (by omega) depth
      rw [Writer.renderWithin, Writer.renderWithin, ← halike.tag]
      simp only [Writer.standard]
      cases hrule : standardRules.get? a.tag with
      | none => exact .error rfl
      | some rule => exact agree_of_get? hbelow halike hrule

/-- **Nodes that differ only in what is not read are written the same, or refused with the same
complaint**, of which only the dump differs. -/
theorem Writer.renderAtDepth_of_readAlike {a b : Node} (h : a.ReadAlike b) (layout : Layout)
    (depth : Nat) :
    ((Writer.standard layout).renderAtDepth a depth).mapError Error.withoutDump =
      ((Writer.standard layout).renderAtDepth b depth).mapError Error.withoutDump :=
  (agree_renderWithin layout h (Nat.le_refl _) (Nat.le_refl _) depth).eq

/-- Places in the source at two levels, and the hexadecimal form of a number, which is not read; and a
name that is missing, of which both complaints tell. -/
theorem Writer.renderAtDepth_of_readAlike_assignment :
    let bare : Node := ⟨"YulAssignment", { members := [
      ("value", .obj [("nodeType", .str "YulLiteral"), ("value", .str "1")]),
      ("variableNames", .arr [.obj [("name", .str "x"), ("nodeType", .str "YulIdentifier")]])] }⟩
    let full : Node := ⟨"YulAssignment", { members := [
      ("src", .str "0:6:0"),
      ("value", .obj [("hexValue", .str "31"), ("nodeType", .str "YulLiteral"), ("src", .str "5:1:0"),
        ("value", .str "1")]),
      ("variableNames", .arr [.obj [("name", .str "x"), ("nativeSrc", .str "0:1:0"),
        ("nodeType", .str "YulIdentifier")]])] }⟩
    let nameless : Node := ⟨"YulExpressionStatement", { members := [
      ("expression", .obj [("nodeType", .str "YulIdentifier")])] }⟩
    let placed : Node := ⟨"YulExpressionStatement", { members := [
      ("expression", .obj [("nodeType", .str "YulIdentifier"), ("src", .str "0:1:0")])] }⟩
    (bare.ReadAlike full ∧
        (Writer.standard {}).renderAtDepth bare 2 = .ok "x := 1" ∧
        (Writer.standard {}).renderAtDepth full 2 = .ok "x := 1") ∧
      nameless.ReadAlike placed ∧
        (Writer.standard {}).renderAtDepth nameless 2 = .error (.badAttribute "YulIdentifier" "name"
          "\x7b\n  \"nodeType\": \"YulIdentifier\"\n\x7d") ∧
        ∃ dump, (Writer.standard {}).renderAtDepth placed 2 =
          .error (.badAttribute "YulIdentifier" "name" dump) := by
  intro bare full nameless placed
  have halike : bare.ReadAlike full := by
    refine ⟨rfl, List.forall_mem_cons.2 ⟨.some (.list (.cons ?_ .nil)),
      List.forall_mem_singleton.2 (.some ?_)⟩⟩
    · exact .node rfl rfl rfl (List.forall_mem_singleton.2 (.some (.same _)))
    · exact .node rfl rfl rfl (List.forall_mem_cons.2 ⟨.none,
        List.forall_mem_singleton.2 (.some (.same _))⟩)
  have hrefused : nameless.ReadAlike placed :=
    ⟨rfl, List.forall_mem_singleton.2 (.some (.node rfl rfl rfl (List.forall_mem_singleton.2 .none)))⟩
  have hfull := renderAtDepth_of_readAlike halike {} 2
  have hplaced := renderAtDepth_of_readAlike hrefused {} 2
  refine ⟨⟨halike, rfl, mapError_eq_ok_iff.1 hfull.symm⟩, hrefused, rfl, ?_⟩
  obtain ⟨error, herror, hsame⟩ := mapError_eq_error_iff.1 hplaced.symm
  cases error with
  | badAttribute tag field dump =>
    cases hsame
    exact ⟨dump, herror⟩
  | noRule tag dump => cases hsame
  | endless tag dump => cases hsame

end Yul

end SolText
