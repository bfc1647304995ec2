import Mathlib.Data.List.Basic
import Mathlib.Data.List.Nodup
import SolText.Node.Json
import SolText.Proofs.Json.Canonical

/-!
# Spellings of nodes

A node can be spelled in many ways: as an object whose members are in any order, some of them left out
and others added that mean nothing, and as an array. All of them are read as the same node.

* `Node.Spelling`: the members that spell a node.
* `Node.Legible`, `Spelling.legible`: **leaving members out, adding some and reordering them keeps
  every field of the node where it can be found**, or it goes without saying.
* `Node.ofFields_eq`: a node is read from its fields.
* `Node.ofJson_spelling`: **every spelling of a node is read as the node.**
-/

namespace SolText

open Json

/-- What is made of items and made back of the results. -/
theorem mapM_map_eq_ok {ε α β : Type} {f : β → Except ε α} {g : α → β} (h : ∀ a, f (g a) = .ok a)
    (items : List α) : (items.map g).mapM f = .ok items := by
  induction items with
  | nil => rfl
  | cons item rest ih => rw [List.map_cons, List.mapM_cons, h, ih]; rfl

namespace Node

/-! ### Spellings -/

/-- The fields of a node under their names, in their order. -/
def fields (node : Node) : Members := (fieldNames node.kind).zip node.fieldValues

/-- The members of the object form of a node. -/
def members (node : Node) : Members := (kindField, .str node.kind.name) :: node.fields

/-- The names that mean something in an object of the given kind. -/
def memberNames (kind : Kind) : List String := kindField :: fieldNames kind

/-- The fields with a default, as they are when they have it. -/
def defaults : Members :=
  [("visibility", .str "default"), ("stateMutability", .str "nonpayable"),
    ("storageLocation", .str "default"), ("isInlineArray", .bool false)]

/-- A field that goes without saying: a child that is absent, or a default. -/
def Omissible (field : String × Json) : Prop := field.2 = .null ∨ field ∈ defaults

/-- The members that spell a node. Those that go without saying may be left out, others may be added
that mean nothing, also repeatedly, and the order is free. -/
inductive Spelling (node : Node) : Members → Prop where
  | full : Spelling node node.members
  | leaveOut {before after : Members} {field : String × Json} :
      Spelling node (before ++ field :: after) → Omissible field → Spelling node (before ++ after)
  | add {members : Members} (field : String × Json) :
      Spelling node members → field.1 ∉ memberNames node.kind → Spelling node (field :: members)
  | reorder {members other : Members} :
      Spelling node members → members.Perm other → Spelling node other

/-- Every member with a name that means something is one of the node's, and the name occurs once. What
is missing of the node's members goes without saying. -/
structure Legible (node : Node) (members : Members) : Prop where
  once : ∀ name ∈ memberNames node.kind, (members.map Prod.fst).count name ≤ 1
  there : ∀ field ∈ node.members, field ∈ members ∨ Omissible field
  own : ∀ field ∈ members, field.1 ∈ memberNames node.kind → field ∈ node.members

variable {node : Node} {members fields : Members}

theorem nodup_memberNames (kind : Kind) : (memberNames kind).Nodup := by cases kind <;> decide

theorem map_fst_members (node : Node) : node.members.map Prod.fst = memberNames node.kind := by
  have hlength : (fieldNames node.kind).length ≤ node.fieldValues.length := by
    cases node <;> exact Nat.le_refl _
  rw [Node.members, List.map_cons, Node.fields, List.map_fst_zip hlength]
  rfl

/-- The object form has every member once. -/
theorem Legible.full (node : Node) : Legible node node.members where
  once name _ := by
    rw [map_fst_members]
    exact List.nodup_iff_count_le_one.1 (nodup_memberNames node.kind) name
  there _ hfield := .inl hfield
  own _ hfield _ := hfield

theorem Legible.leaveOut {before after : Members} {field : String × Json}
    (h : Legible node (before ++ field :: after)) (hfield : Omissible field) :
    Legible node (before ++ after) where
  once name hname := by
    have hcount := h.once name hname
    rw [List.map_append, List.map_cons, List.count_append, List.count_cons] at hcount
    rw [List.map_append, List.count_append]
    omega
  there other hother := by
    rcases h.there other hother with hmem | hmissing
    · rw [List.mem_append, List.mem_cons] at hmem
      rw [List.mem_append]
      rcases hmem with hmem | rfl | hmem
      · exact .inl (.inl hmem)
      · exact .inr hfield
      · exact .inl (.inr hmem)
    · exact .inr hmissing
  own other hother := by
    refine h.own other ?_
    rw [List.mem_append] at hother ⊢
    exact hother.imp_right (List.mem_cons_of_mem _)

theorem Legible.add {field : String × Json} (h : Legible node members)
    (hfield : field.1 ∉ memberNames node.kind) : Legible node (field :: members) where
  once name hname := by
    have hne : field.1 ≠ name := fun he => hfield (he ▸ hname)
    rw [List.map_cons, List.count_cons_of_ne hne]
    exact h.once name hname
  there other hother := (h.there other hother).imp_left (List.mem_cons_of_mem _)
  own other hother hname := by
    rcases List.mem_cons.1 hother with rfl | hother
    · exact absurd hname hfield
    · exact h.own other hother hname

theorem Legible.reorder {other : Members} (h : Legible node members) (hperm : members.Perm other) :
    Legible node other where
  once name hname := by
    rw [← (hperm.map Prod.fst).count_eq]
    exact h.once name hname
  there field hfield := (h.there field hfield).imp_left hperm.mem_iff.1
  own field hfield := h.own field (hperm.mem_iff.2 hfield)

/-- **Every spelling of a node is legible.** -/
theorem Spelling.legible (h : Spelling node members) : Legible node members := by
  induction h with
  | full => exact .full node
  | leaveOut _ hfield ih => exact ih.leaveOut hfield
  | add _ _ hfield ih => exact ih.add hfield
  | reorder _ hperm ih => exact ih.reorder hperm

/-! ### Looking up fields -/

/-- A field has its value: the value is found, or it is missing and goes without saying. -/
def Gives (fields : Members) (field : String × Json) : Prop :=
  fields.lookup field.1 = some field.2 ∨ fields.lookup field.1 = none ∧ Omissible field

theorem Legible.gives (h : Legible node members) {name : String} {value : Json}
    (hfield : (name, value) ∈ node.members) : Gives members (name, value) := by
  have hname : name ∈ memberNames node.kind := by
    rw [← map_fst_members]
    exact List.mem_map.2 ⟨_, hfield, rfl⟩
  cases hlookup : members.lookup name with
  | some found =>
    obtain ⟨before, after, rfl, -⟩ := List.lookup_eq_some_iff.1 hlookup
    have hfound : (name, found) ∈ node.members :=
      h.own (name, found) (List.mem_append_right _ List.mem_cons_self) hname
    -- the node has only one member of this name
    have hinj := List.inj_on_of_nodup_map (map_fst_members node ▸ nodup_memberNames node.kind)
    cases hinj hfound hfield rfl
    exact .inl hlookup
  | none =>
    rcases h.there _ hfield with hmem | hmissing
    · have hne := List.lookup_eq_none_iff.1 hlookup _ hmem
      simp at hne
    · exact .inr ⟨hlookup, hmissing⟩

theorem asOption_encodeHandle? (handle : Option Handle) :
    asOption asNat (encodeHandle? handle) = .ok handle := by
  cases handle with
  | none => rfl
  | some handle =>
    show (asNat (ofNat handle)).map some = _
    rw [asNat_ofNat]
    rfl

namespace Gives

variable {name : String} {value : Json}

/-- Neither null nor a default has to be there. -/
theorem required {α : Type} (h : Gives fields (name, value)) (hnull : value ≠ .null)
    (hname : name ∉ defaults.map Prod.fst) (item : Json → Except DecodeError α) :
    fields.required name item = item value := by
  rcases h with hfound | ⟨-, hmissing⟩
  · unfold Members.required
    rw [hfound]
  · rcases hmissing with hvalue | hdefault
    · exact absurd hvalue hnull
    · exact absurd (List.mem_map.2 ⟨_, hdefault, rfl⟩) hname

theorem text {text : String} (h : Gives fields (name, .str text))
    (hname : name ∉ defaults.map Prod.fst) : fields.required name asString = .ok text :=
  h.required Json.noConfusion hname asString

theorem texts {texts : List String} (h : Gives fields (name, .arr (texts.map .str)))
    (hname : name ∉ defaults.map Prod.fst) : fields.required name (asList asString) = .ok texts := by
  rw [h.required Json.noConfusion hname]
  exact mapM_map_eq_ok (f := asString) (fun _ => rfl) texts

theorem flag {value : Bool} (h : Gives fields (name, .bool value))
    (hname : name ∉ defaults.map Prod.fst) : fields.required name asBool = .ok value :=
  h.required Json.noConfusion hname asBool

theorem handle {handle : Handle} (h : Gives fields (name, ofNat handle))
    (hname : name ∉ defaults.map Prod.fst) : fields.required name asNat = .ok handle := by
  rw [h.required Json.noConfusion hname, asNat_ofNat]

theorem handles {handles : List Handle} (h : Gives fields (name, encodeHandles handles))
    (hname : name ∉ defaults.map Prod.fst) : fields.required name (asList asNat) = .ok handles := by
  rw [h.required Json.noConfusion hname]
  exact mapM_map_eq_ok asNat_ofNat handles

theorem components {components : List (Option Handle)}
    (h : Gives fields (name, .arr (components.map encodeHandle?)))
    (hname : name ∉ defaults.map Prod.fst) :
    fields.required name (asList (asOption asNat)) = .ok components := by
  rw [h.required Json.noConfusion hname]
  exact mapM_map_eq_ok asOption_encodeHandle? components

theorem choice {α : Type} [BEq α] {choices : List (String × α)} {choice : α}
    (h : Gives fields (name, encodeChoice choices choice))
    (hchoice : asChoice choices (encodeChoice choices choice) = .ok choice)
    (hname : name ∉ defaults.map Prod.fst) :
    fields.required name (asChoice choices) = .ok choice := by
  have hnull : encodeChoice choices choice ≠ .null := by
    intro he
    rw [he] at hchoice
    cases hchoice
  rw [h.required hnull hname, hchoice]

/-- A child that may be absent may be missing when it is. -/
theorem child {handle : Option Handle} (h : Gives fields (name, encodeHandle? handle))
    (hname : name ∉ defaults.map Prod.fst) : fields.optional name asNat = .ok handle := by
  unfold Members.optional
  rcases h with hfound | ⟨hlookup, hmissing⟩
  · rw [hfound]
    exact asOption_encodeHandle? handle
  · rw [hlookup]
    rcases hmissing with hnull | hdefault
    · cases handle with
      | none => rfl
      | some handle => cases hnull
    · exact absurd (List.mem_map.2 ⟨_, hdefault, rfl⟩) hname

/-- A field with a default may be missing when it has it. -/
theorem withDefault {α : Type} {item : Json → Except DecodeError α} {choice default : α}
    (h : Gives fields (name, value)) (hitem : item value = .ok choice)
    (hdefault : Omissible (name, value) → choice = default) :
    fields.withDefault name default item = .ok choice := by
  unfold Members.withDefault
  rcases h with hfound | ⟨hlookup, hmissing⟩
  · rw [hfound]
    exact hitem
  · rw [hlookup, hdefault hmissing]

end Gives

/-! ### Enumerations -/

theorem asChoice_contractKind (choice : ContractKind) :
    asChoice contractKinds (encodeChoice contractKinds choice) = .ok choice := by
  cases choice <;> rfl

theorem asChoice_visibility (choice : Visibility) :
    asChoice visibilities (encodeChoice visibilities choice) = .ok choice := by
  cases choice <;> rfl

theorem asChoice_mutability (choice : Mutability) :
    asChoice mutabilities (encodeChoice mutabilities choice) = .ok choice := by
  cases choice <;> rfl

theorem asChoice_storageLocation (choice : StorageLocation) :
    asChoice storageLocations (encodeChoice storageLocations choice) = .ok choice := by
  cases choice <;> rfl

theorem asChoice_literalKind (choice : LiteralKind) :
    asChoice literalKinds (encodeChoice literalKinds choice) = .ok choice := by
  cases choice <;> rfl

/-! ### Reading -/

/-- **A node is read from its fields**, however these are found. -/
theorem ofFields_eq
    (hast : ∀ ast, node = .inlineAssembly ast → ast.attributes.get? Yul.Node.tagField = none)
    (h : node.fields.Forall (Gives fields)) : ofFields fields node.kind = .ok node := by
  -- `h` is a conjunction over the fields; what it says of the last one is left unfolded
  cases node with
  | sourceUnit nodes | parameterList nodes | block nodes | uncheckedBlock nodes =>
    simp only [ofFields, Node.kind, Gives.handles h (by decide)]
    rfl
  | pragmaDirective literals =>
    simp only [ofFields, Node.kind, Gives.texts h (by decide)]
    rfl
  | contractDefinition name contractKind nodes =>
    obtain ⟨hname, hkind, hnodes⟩ := h
    simp only [ofFields, Node.kind, hname.text (by decide),
      hkind.choice (asChoice_contractKind contractKind) (by decide), Gives.handles hnodes (by decide)]
    rfl
  | functionDefinition name visibility mutability parameters returns body =>
    obtain ⟨hname, hvisibility, hmutability, hparameters, hreturns, hbody⟩ := h
    have hunspecified : Omissible ("visibility", encodeChoice visibilities visibility) →
        visibility = .unspecified := by
      cases visibility <;> simp [Omissible, defaults, encodeChoice, visibilities]
    have hnonpayable : Omissible ("stateMutability", encodeChoice mutabilities mutability) →
        mutability = .nonpayable := by
      cases mutability <;> simp [Omissible, defaults, encodeChoice, mutabilities]
    simp only [ofFields, Node.kind, hname.text (by decide),
      hvisibility.withDefault (asChoice_visibility visibility) hunspecified,
      hmutability.withDefault (asChoice_mutability mutability) hnonpayable,
      hparameters.handle (by decide), hreturns.handle (by decide), Gives.child hbody (by decide)]
    rfl
  | variableDeclaration name typeName location value =>
    obtain ⟨hname, htype, hlocation, hvalue⟩ := h
    have hunspecified : Omissible ("storageLocation", encodeChoice storageLocations location) →
        location = .unspecified := by
      cases location <;> simp [Omissible, defaults, encodeChoice, storageLocations]
    simp only [ofFields, Node.kind, hname.text (by decide), htype.handle (by decide),
      hlocation.withDefault (asChoice_storageLocation location) hunspecified,
      Gives.child hvalue (by decide)]
    rfl
  | elementaryTypeName name | identifier name =>
    simp only [ofFields, Node.kind, Gives.text h (by decide)]
    rfl
  | variableDeclarationStatement declarations value =>
    obtain ⟨hdeclarations, hvalue⟩ := h
    simp only [ofFields, Node.kind, hdeclarations.handles (by decide),
      Gives.child hvalue (by decide)]
    rfl
  | expressionStatement expression | emitStatement expression =>
    simp only [ofFields, Node.kind, Gives.handle h (by decide)]
    rfl
  | returnStatement expression =>
    simp only [ofFields, Node.kind, Gives.child h (by decide)]
    rfl
  | ifStatement condition trueBody falseBody =>
    obtain ⟨hcondition, htrue, hfalse⟩ := h
    simp only [ofFields, Node.kind, hcondition.handle (by decide), htrue.handle (by decide),
      Gives.child hfalse (by decide)]
    rfl
  | whileStatement condition body =>
    obtain ⟨hcondition, hbody⟩ := h
    simp only [ofFields, Node.kind, hcondition.handle (by decide), Gives.handle hbody (by decide)]
    rfl
  | forStatement initialization condition loop body =>
    obtain ⟨hinitialization, hcondition, hloop, hbody⟩ := h
    simp only [ofFields, Node.kind, hinitialization.child (by decide), hcondition.child (by decide),
      hloop.child (by decide), Gives.handle hbody (by decide)]
    rfl
  | breakStatement | continueStatement => rfl
  | inlineAssembly ast =>
    have hread := Yul.Node.ofJson_toJson (hast ast rfl)
    simp only [ofFields, Node.kind, Gives.required h Json.noConfusion (by decide), hread]
    rfl
  | literal kind value =>
    obtain ⟨hkind, hvalue⟩ := h
    simp only [ofFields, Node.kind, hkind.choice (asChoice_literalKind kind) (by decide),
      Gives.text hvalue (by decide)]
    rfl
  | unaryOperation operator leading operand =>
    obtain ⟨hoperator, hleading, hoperand⟩ := h
    simp only [ofFields, Node.kind, hoperator.text (by decide), hleading.flag (by decide),
      Gives.handle hoperand (by decide)]
    rfl
  | binaryOperation operator left right | assignment operator left right =>
    obtain ⟨hoperator, hleft, hright⟩ := h
    simp only [ofFields, Node.kind, hoperator.text (by decide), hleft.handle (by decide),
      Gives.handle hright (by decide)]
    rfl
  | functionCall callee arguments =>
    obtain ⟨hcallee, harguments⟩ := h
    simp only [ofFields, Node.kind, hcallee.handle (by decide), Gives.handles harguments (by decide)]
    rfl
  | memberAccess base member =>
    obtain ⟨hbase, hmember⟩ := h
    simp only [ofFields, Node.kind, hbase.handle (by decide), Gives.text hmember (by decide)]
    rfl
  | indexAccess base index =>
    obtain ⟨hbase, hindex⟩ := h
    simp only [ofFields, Node.kind, hbase.handle (by decide), Gives.child hindex (by decide)]
    rfl
  | tupleExpression components isInlineArray =>
    obtain ⟨hcomponents, harray⟩ := h
    have hparentheses : Omissible ("isInlineArray", .bool isInlineArray) → isInlineArray = false := by
      cases isInlineArray <;> simp [Omissible, defaults]
    have hflag : asBool (.bool isInlineArray) = .ok isInlineArray := rfl
    simp only [ofFields, Node.kind, hcomponents.components (by decide),
      Gives.withDefault harray hflag hparentheses]
    rfl

/-- Every field of a node is among its members. -/
theorem Legible.forall_gives (h : Legible node members) : node.fields.Forall (Gives members) := by
  rw [List.forall_iff_forall_mem]
  intro field hfield
  exact h.gives (List.mem_cons_of_mem _ hfield)

theorem decodeKind_name (kind : Kind) : decodeKind (.str kind.name) = .ok kind := by
  simp only [decodeKind, asString, bind, Except.bind, Kind.ofName?_name]
  rfl

/-- A legible object is read as the node. -/
theorem Legible.ofJson_eq
    (hast : ∀ ast, node = .inlineAssembly ast → ast.attributes.get? Yul.Node.tagField = none)
    (h : Legible node members) : ofJson (.obj members) = .ok node := by
  have hkind : Members.required members kindField decodeKind = .ok node.kind := by
    have hgives : Gives members (kindField, .str node.kind.name) := h.gives List.mem_cons_self
    rw [hgives.required Json.noConfusion (by decide), decodeKind_name]
  have htag : ∀ name ∈ [kindField], (members.map Prod.fst).count name ≤ 1 := by
    intro name hname
    rw [List.mem_singleton.1 hname]
    exact h.once kindField List.mem_cons_self
  have hfields : ∀ name ∈ fieldNames node.kind, (members.map Prod.fst).count name ≤ 1 :=
    fun name hname => h.once name (List.mem_cons_of_mem _ hname)
  simp only [ofJson, Members.unrepeated_eq_ok htag, hkind, bind, Except.bind,
    Members.unrepeated_eq_ok hfields]
  exact ofFields_eq hast h.forall_gives

/-- In the array form every field is found under the name that its place has. -/
theorem forall_gives_fields (node : Node) : node.fields.Forall (Gives node.fields) := by
  have hlookup := (Legible.full node).forall_gives
  rw [List.forall_iff_forall_mem] at hlookup ⊢
  intro field hfield
  have hname : field.1 ∈ fieldNames node.kind := (List.of_mem_zip hfield).1
  -- a lookup among all members passes over the kind
  have hne : field.1 ≠ kindField := by
    have hnodup := nodup_memberNames node.kind
    exact fun he => (List.nodup_cons.1 hnodup).1 (he ▸ hname)
  have hgives := hlookup field hfield
  unfold Gives Node.members at hgives
  rw [List.lookup_cons, beq_eq_false_iff_ne.2 hne] at hgives
  exact hgives

theorem ofJson_toJsonArray
    (hast : ∀ ast, node = .inlineAssembly ast → ast.attributes.get? Yul.Node.tagField = none) :
    ofJson node.toJsonArray = .ok node := by
  have hnames : nameFields node.kind node.fieldValues = .ok node.fields := by
    have hlength : node.fieldValues.length = (fieldNames node.kind).length := by cases node <;> rfl
    unfold nameFields
    rw [hlength]
    simp [Node.fields]
  simp only [toJsonArray, ofJson, decodeKind_name, bind, Except.bind, hnames]
  exact ofFields_eq hast (forall_gives_fields node)

/-- **Every spelling of a node is read as the node**: its object form, with members left out that go
without saying, with members added that mean nothing and in any order, and its array form. An assembly
node has to keep the name of its tag to the tag. -/
theorem ofJson_spelling (node : Node)
    (hast : ∀ ast, node = .inlineAssembly ast → ast.attributes.get? Yul.Node.tagField = none) :
    ofJson node.toJson = .ok node ∧
      (∀ members, Spelling node members → ofJson (.obj members) = .ok node) ∧
      ofJson node.toJsonArray = .ok node := by
  refine ⟨?_, fun members h => h.legible.ofJson_eq hast, ofJson_toJsonArray hast⟩
  exact (Legible.full node).ofJson_eq hast

/-- Inline assembly with a member that means nothing, and a variable of which only the name and the
type are said, both with their members in the reverse order. -/
theorem ofJson_spelling_reversed :
    ∃ ast : Yul.Node, ast.attributes.members = [("src", .str "4:2:0"), ("statements", .arr [])] ∧
      ast.attributes.get? Yul.Node.tagField = none ∧
      ofJson (.obj [("ast", ast.toJson), ("nodeType", .str "InlineAssembly"), ("src", .null)]) =
        .ok (.inlineAssembly ast) ∧
      ofJson (.arr [.str "InlineAssembly", ast.toJson]) = .ok (.inlineAssembly ast) ∧
      ofJson (.obj [("typeName", ofNat 0), ("name", .str "x"),
          ("nodeType", .str "VariableDeclaration")]) =
        .ok (.variableDeclaration "x" 0 .unspecified none) := by
  have hassembly : ∀ ast : Yul.Node, ast.attributes.get? Yul.Node.tagField = none →
      ofJson (.obj [("ast", ast.toJson), ("nodeType", .str "InlineAssembly"), ("src", .null)]) =
          .ok (.inlineAssembly ast) ∧
        ofJson (.arr [.str "InlineAssembly", ast.toJson]) = .ok (.inlineAssembly ast) := by
    intro ast hast
    obtain ⟨-, hobject, harray⟩ := ofJson_spelling (.inlineAssembly ast) (by rintro other ⟨⟩; exact hast)
    have hmeaning : "src" ∉ memberNames .inlineAssembly := by decide
    have hadded : Spelling (.inlineAssembly ast) _ := Spelling.full.add ("src", .null) hmeaning
    exact ⟨hobject _ (hadded.reorder (List.reverse_perm _).symm), harray⟩
  have hvariable : ofJson (.obj [("typeName", ofNat 0), ("name", .str "x"),
      ("nodeType", .str "VariableDeclaration")]) =
        .ok (.variableDeclaration "x" 0 .unspecified none) := by
    obtain ⟨-, hobject, -⟩ := ofJson_spelling (.variableDeclaration "x" 0 .unspecified none)
      (by rintro other ⟨⟩)
    have hfull : Spelling (.variableDeclaration "x" 0 .unspecified none)
        ([("nodeType", .str "VariableDeclaration"), ("name", .str "x"), ("typeName", ofNat 0)] ++
          ("storageLocation", .str "default") :: [("value", .null)]) := .full
    have hlocation : Omissible ("storageLocation", .str "default") := .inr (by simp [defaults])
    have hvalue : Omissible ("value", .null) := .inl rfl
    have hshort := (hfull.leaveOut hlocation).leaveOut hvalue
    exact hobject _ (hshort.reorder (List.reverse_perm _).symm)
  obtain ⟨hobject, harray⟩ := hassembly
    ⟨"YulBlock", { members := [("src", .str "4:2:0"), ("statements", .arr [])] }⟩ rfl
  exact ⟨_, rfl, rfl, hobject, harray, hvariable⟩

end Node

end SolText
