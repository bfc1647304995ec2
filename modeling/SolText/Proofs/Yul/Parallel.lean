import Mathlib.Data.List.Basic
import Mathlib.Data.List.Induction
import SolText.Proofs.Except
import SolText.Proofs.Text.Literal
import SolText.Yul.Rules

/-!
# Assembly in two layouts

The rules of the assembly dialect put texts together: words, texts of the node, texts of the nodes
nested in it, and the starts of lines. Where a layout or a depth makes a difference it makes it at the
start of a line only. So whatever relation holds between the starts of lines, and is kept when texts
are put together, holds between two whole texts of a node.

* `Json.strings`, `Yul.Node.strings`: the texts at any level of a value, and of the attributes of a
  node.
* `Parallel`: a relation between the texts of two layouts that the rules keep.
* `Parallel.keeps_of_get?`: **every rule of the dialect keeps the relation.**
* `Parallel.agree_renderAtDepth`: **a node is written in both layouts with related texts, or in both
  with the same error.**
-/

namespace SolText

/-- What a table of entries has under a key is the value of one of the entries. -/
theorem Table.mem_of_get?_ofList {κ α : Type} [DecidableEq κ] {entries : List (κ × α)} {key : κ}
    {value : α} (h : (Table.ofList entries).get? key = some value) : (key, value) ∈ entries := by
  unfold ofList at h
  induction entries using List.reverseRecOn with
  | nil => cases h
  | append_singleton before entry ih =>
    rw [List.foldl_append, List.foldl_cons, List.foldl_nil, get?_insert] at h
    rw [List.mem_append, List.mem_singleton]
    split at h
    · rename_i hkey
      cases h
      exact .inr (Prod.ext hkey rfl)
    · exact .inl (ih h)

/-! ### The texts of a value -/

namespace Json

mutual
/-- The texts at any level of a value. -/
def strings : Json → List String
  | .str text => [text]
  | .arr items => stringsOfItems items
  | .obj members => stringsOfMembers members
  | .null | .bool _ | .num _ => []

/-- The texts at any level of the items. -/
def stringsOfItems : List Json → List String
  | [] => []
  | item :: rest => strings item ++ stringsOfItems rest

/-- The texts at any level of the members' values. -/
def stringsOfMembers : Members → List String
  | [] => []
  | (_, value) :: rest => strings value ++ stringsOfMembers rest
end

variable {text : String} {value : Json} {items : List Json} {members : Members}

theorem mem_stringsOfItems (hitem : value ∈ items) (h : text ∈ strings value) :
    text ∈ stringsOfItems items := by
  induction items with
  | nil => exact absurd hitem List.not_mem_nil
  | cons item rest ih =>
    rw [stringsOfItems, List.mem_append]
    rcases List.mem_cons.1 hitem with rfl | hitem
    · exact .inl h
    · exact .inr (ih hitem)

theorem mem_stringsOfMembers_iff :
    text ∈ stringsOfMembers members ↔ ∃ member ∈ members, text ∈ strings member.2 := by
  induction members with
  | nil => simp [stringsOfMembers]
  | cons member rest ih =>
    rw [stringsOfMembers, List.mem_append, ih]
    simp

theorem mem_setMember {name : String} {member : String × Json}
    (h : member ∈ setMember name value members) : member = (name, value) ∨ member ∈ members := by
  induction members with
  | nil => exact .inl (List.mem_singleton.1 h)
  | cons first rest ih =>
    rw [setMember] at h
    split at h
    · exact List.mem_cons.1 h
    · split at h
      · exact (List.mem_cons.1 h).imp_right (List.mem_cons_of_mem _)
      · rcases List.mem_cons.1 h with rfl | h
        · exact .inr List.mem_cons_self
        · exact (ih h).imp_right (List.mem_cons_of_mem _)

theorem mem_setMissing {name : String} {member : String × Json}
    (h : member ∈ setMissing name value members) : member = (name, value) ∨ member ∈ members := by
  unfold setMissing at h
  split at h
  · exact .inr h
  · exact mem_setMember h

mutual
/-- The canonical form has no other texts than the value. -/
theorem mem_strings_of_canonical : ∀ value : Json, ∀ text ∈ strings (canonical value),
    text ∈ strings value
  | .null, _, h | .bool _, _, h | .num _, _, h | .str _, _, h => h
  | .arr items, text, h => mem_strings_of_canonicalItems items text h
  | .obj members, text, h => mem_strings_of_canonicalMembers members text h

theorem mem_strings_of_canonicalItems : ∀ items : List Json,
    ∀ text ∈ stringsOfItems (canonicalItems items), text ∈ stringsOfItems items
  | [], _, h => h
  | item :: rest, text, h => by
    rw [canonicalItems, stringsOfItems, List.mem_append] at h
    rw [stringsOfItems, List.mem_append]
    exact h.imp (mem_strings_of_canonical item text) (mem_strings_of_canonicalItems rest text)

theorem mem_strings_of_canonicalMembers : ∀ members : Members,
    ∀ text ∈ stringsOfMembers (canonicalMembers members), text ∈ stringsOfMembers members
  | [], _, h => h
  | (name, value) :: rest, text, h => by
    rw [canonicalMembers] at h
    rw [stringsOfMembers, List.mem_append]
    obtain ⟨member, hmember, htext⟩ := mem_stringsOfMembers_iff.1 h
    rcases mem_setMissing hmember with rfl | hmember
    · exact .inl (mem_strings_of_canonical value text htext)
    · have hrest : text ∈ stringsOfMembers (canonicalMembers rest) :=
        mem_stringsOfMembers_iff.2 ⟨member, hmember, htext⟩
      exact .inr (mem_strings_of_canonicalMembers rest text hrest)
end

end Json

namespace Yul

open Json

namespace Node

/-- The texts at any level of the attributes of a node. -/
def strings (node : Node) : List String := stringsOfMembers node.attributes.members

variable {node child : Node} {field text : String} {value : Json}

theorem mem_strings_of_get? (h : node.attributes.get? field = some value)
    (htext : text ∈ value.strings) : text ∈ node.strings := by
  obtain ⟨before, after, hmembers, -⟩ := List.lookup_eq_some_iff.1 h
  have hmem : (field, value) ∈ node.attributes.members :=
    hmembers ▸ List.mem_append_right _ List.mem_cons_self
  exact mem_stringsOfMembers_iff.2 ⟨_, hmem, htext⟩

/-- A text that a node holds is one of its texts. -/
theorem mem_strings_of_text (h : node.text field = .ok text) : text ∈ node.strings := by
  unfold Node.text at h
  split at h
  · rename_i found hfound
    cases h
    exact mem_strings_of_get? hfound List.mem_cons_self
  · cases h

theorem get?_of_value? (h : node.value? field = some value) :
    node.attributes.get? field = some value := by
  unfold value? at h
  split at h
  · cases h
  · exact h

/-- The texts of a node are those of the value that stands for it. -/
theorem mem_strings_of_ofJson (h : ofJson value = .ok child) (htext : text ∈ child.strings) :
    text ∈ value.strings := by
  cases value with
  | obj members =>
    unfold ofJson at h
    obtain ⟨-, -, h⟩ := bind_eq_ok_iff.1 h
    obtain ⟨tag, -, h⟩ := bind_eq_ok_iff.1 h
    cases h
    have hkept := mem_strings_of_canonicalMembers _ text htext
    obtain ⟨member, hmember, htext⟩ := mem_stringsOfMembers_iff.1 hkept
    exact mem_stringsOfMembers_iff.2 ⟨member, (List.mem_filter.1 hmember).1, htext⟩
  | _ => cases h

/-- The texts of a nested node are among those of the node around it. -/
theorem mem_strings_of_child? (h : node.child? field = .ok (some child))
    (htext : text ∈ child.strings) : text ∈ node.strings := by
  unfold child? at h
  split at h
  · cases h
  · rename_i value hvalue
    split at h
    · rename_i found hfound
      cases h
      exact mem_strings_of_get? (get?_of_value? hvalue) (mem_strings_of_ofJson hfound htext)
    · cases h

theorem mem_strings_of_child (h : node.child field = .ok child) (htext : text ∈ child.strings) :
    text ∈ node.strings := by
  unfold Node.child at h
  obtain ⟨found, hfound, h⟩ := bind_eq_ok_iff.1 h
  cases found with
  | none => cases h
  | some found =>
    cases h
    exact mem_strings_of_child? hfound htext

theorem mem_strings_of_children {children : List Node} (h : node.children field = .ok children)
    (hchild : child ∈ children) (htext : text ∈ child.strings) : text ∈ node.strings := by
  unfold Node.children at h
  split at h
  · cases h
    exact absurd hchild List.not_mem_nil
  · rename_i value hvalue
    split at h
    · rename_i found hfound
      cases h
      have hget := get?_of_value? hvalue
      unfold asList at hfound
      split at hfound
      · rename_i items
        obtain ⟨item, hitem, hread⟩ := exists_of_mem_mapM hfound hchild
        exact mem_strings_of_get? hget (mem_stringsOfItems hitem (mem_strings_of_ofJson hread htext))
      · cases hfound
    · cases h

end Node

/-! ### Relations that the rules keep -/

/-- A relation between the texts of two layouts, written at depths that are related too: it holds
between a text without a line break and itself and between the starts of two lines, and it is kept when
texts are put together. -/
structure Parallel (left right : Layout) where
  levels : Nat → Nat → Prop
  texts : String → String → Prop
  deeper : ∀ {d e : Nat}, levels d e → levels (d + 1) (e + 1)
  inline : ∀ {text : String}, '\n' ∉ text.toList → texts text text
  line : ∀ {d e : Nat}, levels d e →
    texts (left.newline ++ left.margin d) (right.newline ++ right.margin e)
  append : ∀ {a b a' b' : String}, texts a b → texts a' b' → texts (a ++ a') (b ++ b')

namespace Parallel

variable {left right : Layout} (p : Parallel left right)

/-- Two ways to write nodes that give related texts, or the same error, for every node whose own texts
are related to themselves. -/
def Relates (f g : Render) : Prop :=
  ∀ node : Node, (∀ text ∈ node.strings, p.texts text text) → ∀ d e, p.levels d e →
    Agree p.texts (f node d) (g node e)

/-- A rule keeps the relation between the ways to write the nodes nested in its node. -/
def Keeps (rule : Rule) : Prop :=
  ∀ f g : Render, p.Relates f g → p.Relates (rule left f) (rule right g)

theorem join {as bs : List String} (h : List.Forall₂ p.texts as bs) :
    p.texts (String.join as) (String.join bs) := by
  induction h with
  | nil => exact p.inline (by decide)
  | cons hab _ ih =>
    rw [String.join_cons, String.join_cons]
    exact p.append hab ih

theorem intercalate {separator : String} {as bs : List String} (hsep : '\n' ∉ separator.toList)
    (h : List.Forall₂ p.texts as bs) :
    p.texts (separator.intercalate as) (separator.intercalate bs) := by
  induction h with
  | nil => simpa using p.inline (by decide : '\n' ∉ "".toList)
  | cons hab hrest ih =>
    cases hrest with
    | nil => simpa using hab
    | cons hab' hrest' =>
      rw [String.intercalate_cons_cons, String.intercalate_cons_cons]
      exact p.append (p.append hab (p.inline hsep)) ih

namespace Relates

variable {p} {f g : Render} {node child : Node} {children : List Node} {field : String} {d e : Nat}

theorem ofChild (h : p.Relates f g) (hnode : ∀ text ∈ node.strings, p.texts text text)
    (hde : p.levels d e) (hchild : node.child field = .ok child) :
    Agree p.texts (f child d) (g child e) :=
  h child (fun text htext => hnode text (Node.mem_strings_of_child hchild htext)) d e hde

theorem ofChildren (h : p.Relates f g) (hnode : ∀ text ∈ node.strings, p.texts text text)
    (hde : p.levels d e) (hchildren : node.children field = .ok children) :
    ∀ child ∈ children, Agree p.texts (f child d) (g child e) :=
  fun child hchild => h child
    (fun text htext => hnode text (Node.mem_strings_of_children hchildren hchild htext)) d e hde

theorem joined (h : p.Relates f g) (hnode : ∀ text ∈ node.strings, p.texts text text)
    (hde : p.levels d e) (hchildren : node.children field = .ok children) {separator : String}
    (hsep : '\n' ∉ separator.toList) :
    Agree p.texts (renderJoined f children d separator) (renderJoined g children e separator) := by
  refine (Agree.mapM (h.ofChildren hnode hde hchildren)).bind fun as bs hall => ?_
  exact .ok (p.intercalate hsep hall)

end Relates

/-! ### The rules -/

/-- Lines of a block that hold related texts. -/
def Lines (d e : Nat) (a b : String) : Prop :=
  ∃ s t, p.texts s t ∧ a = left.margin d ++ s ++ left.newline ∧ b = right.margin e ++ t ++ right.newline

/-- The break behind the opening brace is that of the first line, and the break at the end of a line
that of the next. -/
theorem block_lines {d e : Nat} (hde : p.levels d e) {as bs : List String}
    (h : List.Forall₂ (p.Lines (d + 1) (e + 1)) as bs) :
    p.texts (left.newline ++ String.join as ++ left.margin d)
      (right.newline ++ String.join bs ++ right.margin e) := by
  induction h with
  | nil => simpa using p.line hde
  | cons hab _ ih =>
    obtain ⟨s, t, hst, rfl, rfl⟩ := hab
    have hline := p.append (p.append (p.line (p.deeper hde)) hst) ih
    simpa [String.append_assoc] using hline

theorem keeps_block : p.Keeps fun layout render node depth => Rule.block layout render node depth := by
  intro f g h node hnode d e hde
  refine .bind_same fun statements hstatements => ?_
  cases statements with
  | nil => exact .ok (p.inline (by decide))
  | cons first rest =>
    refine (Agree.mapM (R := p.Lines (d + 1) (e + 1)) fun statement hmem => ?_).bind fun as bs hall => ?_
    · refine (h.ofChildren hnode (p.deeper hde) hstatements statement hmem).bind fun s t hst => ?_
      exact .ok ⟨s, t, hst, rfl, rfl⟩
    · have hopened := p.append (p.inline (by decide : '\n' ∉ "\x7b".toList)) (p.block_lines hde hall)
      have hclosed := p.append hopened (p.inline (by decide : '\n' ∉ "\x7d".toList))
      refine .ok ?_
      simpa only [String.append_assoc] using hclosed

/-- What a literal can be written as. -/
theorem literal_cases {node : Node} {text : String} (h : Rule.literal node = .ok text) :
    (∃ value, node.text "hexValue" = .ok value ∧ text = "hex\"" ++ value ++ "\"") ∨
      ∃ value, node.text "value" = .ok value ∧
        (text = "\"" ++ Text.escape value ++ "\"" ∨ text = value) := by
  -- whether the kind is given or not, the rest of the rule is the same
  have hkind : ∃ kind, (if (decide (kind = "string") && !node.has "value") = true then do
      return "hex\"" ++ (← node.text "hexValue") ++ "\""
    else do
      let value ← node.text "value"
      return if kind = "string" then "\"" ++ Text.escape value ++ "\"" else value :
        Except Error String) = .ok text := by
    unfold Rule.literal at h
    split at h
    · obtain ⟨kind, -, h⟩ := bind_eq_ok_iff.1 h
      exact ⟨kind, h⟩
    · exact ⟨"number", h⟩
  obtain ⟨kind, h⟩ := hkind
  split at h
  · obtain ⟨value, hvalue, h⟩ := bind_eq_ok_iff.1 h
    cases h
    exact .inl ⟨value, hvalue, rfl⟩
  · obtain ⟨value, hvalue, h⟩ := bind_eq_ok_iff.1 h
    cases h
    refine .inr ⟨value, hvalue, ?_⟩
    split
    · exact .inl rfl
    · exact .inr rfl

theorem keeps_literal : p.Keeps fun _ _ node _ => Rule.literal node := by
  intro f g _ node hnode d e _
  refine .same fun text htext => ?_
  have hquote : p.texts "\"" "\"" := p.inline (by decide)
  rcases literal_cases htext with ⟨value, hvalue, rfl⟩ | ⟨value, hvalue, rfl | rfl⟩
  · have hhex := p.append (p.inline (by decide : '\n' ∉ "hex\"".toList))
      (hnode value (Node.mem_strings_of_text hvalue))
    exact p.append hhex hquote
  · exact p.append (p.append hquote (p.inline (Text.newline_not_mem_escape value))) hquote
  · exact hnode text (Node.mem_strings_of_text hvalue)

theorem keeps_identifier : p.Keeps fun _ _ node _ => Rule.identifier node := by
  intro f g _ node hnode d e _
  exact .same fun name hname => hnode name (Node.mem_strings_of_text hname)

theorem keeps_typedName : p.Keeps fun _ _ node _ => Rule.typedName node := by
  intro f g _ node hnode d e _
  refine .bind_same fun name hname => ?_
  have hnamed := hnode name (Node.mem_strings_of_text hname)
  cases htype : node.text "type" with
  | error _ => exact .ok hnamed
  | ok type =>
    have htyped := hnode type (Node.mem_strings_of_text htype)
    refine .ok ?_
    split
    · exact hnamed
    · exact p.append (p.append hnamed (p.inline (by decide))) htyped

theorem keeps_functionCall :
    p.Keeps fun _ render node depth => Rule.functionCall render node depth := by
  intro f g h node hnode d e hde
  refine .bind_same fun callee hcallee => ?_
  refine (h.ofChild hnode hde hcallee).bind fun a b hfunction => ?_
  refine .bind_same fun arguments harguments => ?_
  refine (h.joined hnode hde harguments (by decide)).bind fun s t hall => ?_
  have hopened := p.append (p.append hfunction (p.inline (by decide : '\n' ∉ "(".toList))) hall
  exact .ok (p.append hopened (p.inline (by decide)))

theorem keeps_variableDeclaration :
    p.Keeps fun _ render node depth => Rule.variableDeclaration render node depth := by
  intro f g h node hnode d e hde
  refine .bind_same fun names hnames => ?_
  refine (h.joined hnode hde hnames (by decide)).bind fun a b hab => ?_
  have hlet := p.append (p.inline (by decide : '\n' ∉ "let ".toList)) hab
  refine .bind_same fun value hvalue => ?_
  cases value with
  | none => exact .ok hlet
  | some value =>
    have hchild : ∀ text ∈ value.strings, p.texts text text :=
      fun text htext => hnode text (Node.mem_strings_of_child? hvalue htext)
    refine (h value hchild d e hde).bind fun s t hst => ?_
    exact .ok (p.append (p.append hlet (p.inline (by decide))) hst)

theorem keeps_assignment : p.Keeps fun _ render node depth => Rule.assignment render node depth := by
  intro f g h node hnode d e hde
  refine .bind_same fun names hnames => ?_
  refine (h.joined hnode hde hnames (by decide)).bind fun a b hab => ?_
  refine .bind_same fun value hvalue => ?_
  refine (h.ofChild hnode hde hvalue).bind fun s t hst => ?_
  exact .ok (p.append (p.append hab (p.inline (by decide))) hst)

theorem keeps_expressionStatement :
    p.Keeps fun _ render node depth => Rule.expressionStatement render node depth := by
  intro f g h node hnode d e hde
  refine .bind_same fun expression hexpression => ?_
  exact h.ofChild hnode hde hexpression

theorem keeps_ifStatement : p.Keeps fun _ render node depth => Rule.ifStatement render node depth := by
  intro f g h node hnode d e hde
  refine .bind_same fun condition hcondition => ?_
  refine (h.ofChild hnode hde hcondition).bind fun a b hab => ?_
  refine .bind_same fun body hbody => ?_
  refine (h.ofChild hnode hde hbody).bind fun s t hst => ?_
  have hif := p.append (p.inline (by decide : '\n' ∉ "if ".toList)) hab
  exact .ok (p.append (p.append hif (p.inline (by decide))) hst)

theorem keeps_switch : p.Keeps fun layout render node depth => Rule.switch layout render node depth := by
  intro f g h node hnode d e hde
  refine .bind_same fun expression hexpression => ?_
  refine (h.ofChild hnode hde hexpression).bind fun a b hab => ?_
  refine .bind_same fun cases hcases => ?_
  refine (Agree.mapM (R := p.texts) fun case hmem => ?_).bind fun as bs hall => ?_
  · refine (h.ofChildren hnode hde hcases case hmem).bind fun s t hst => ?_
    exact .ok (p.append (p.line hde) hst)
  · exact .ok (p.append (p.append (p.inline (by decide)) hab) (p.join hall))

theorem keeps_switchCase : p.Keeps fun _ render node depth => Rule.switchCase render node depth := by
  intro f g h node hnode d e hde
  refine .bind_same fun body hbody => ?_
  refine (h.ofChild hnode hde hbody).bind fun a b hab => ?_
  split
  · exact .ok (p.append (p.inline (by decide)) hab)
  · refine .bind_same fun value hvalue => ?_
    refine (h.ofChild hnode hde hvalue).bind fun s t hst => ?_
    have hcase := p.append (p.inline (by decide : '\n' ∉ "case ".toList)) hst
    exact .ok (p.append (p.append hcase (p.inline (by decide))) hab)

theorem keeps_forLoop : p.Keeps fun _ render node depth => Rule.forLoop render node depth := by
  intro f g h node hnode d e hde
  refine .bind_same fun pre hpre => ?_
  refine (h.ofChild hnode hde hpre).bind fun a₁ b₁ h₁ => ?_
  refine .bind_same fun condition hcondition => ?_
  refine (h.ofChild hnode hde hcondition).bind fun a₂ b₂ h₂ => ?_
  refine .bind_same fun post hpost => ?_
  refine (h.ofChild hnode hde hpost).bind fun a₃ b₃ h₃ => ?_
  refine .bind_same fun body hbody => ?_
  refine (h.ofChild hnode hde hbody).bind fun a₄ b₄ h₄ => ?_
  have hblank : p.texts " " " " := p.inline (by decide)
  have hfor := p.append (p.inline (by decide : '\n' ∉ "for ".toList)) h₁
  have hhead := p.append (p.append (p.append (p.append hfor hblank) h₂) hblank) h₃
  exact .ok (p.append (p.append hhead hblank) h₄)

theorem keeps_functionDefinition :
    p.Keeps fun _ render node depth => Rule.functionDefinition render node depth := by
  intro f g h node hnode d e hde
  refine .bind_same fun name hname => ?_
  refine .bind_same fun parameters hparameters => ?_
  refine (h.joined hnode hde hparameters (by decide)).bind fun a b hab => ?_
  refine .bind_same fun returns hreturns => ?_
  refine .bind_same fun body hbody => ?_
  refine (h.ofChild hnode hde hbody).bind fun s t hst => ?_
  have hblank : p.texts " " " " := p.inline (by decide)
  have hfunction := p.append (p.inline (by decide : '\n' ∉ "function ".toList))
    (hnode name (Node.mem_strings_of_text hname))
  have hopened := p.append (p.append hfunction (p.inline (by decide : '\n' ∉ "(".toList))) hab
  have hhead := p.append hopened (p.inline (by decide : '\n' ∉ ")".toList))
  cases returns with
  | nil => exact .ok (p.append (p.append hhead hblank) hst)
  | cons first rest =>
    refine (h.joined hnode hde hreturns (by decide)).bind fun v w hvw => ?_
    have harrow := p.append hhead (p.inline (by decide : '\n' ∉ " -> ".toList))
    exact .ok (p.append (p.append (p.append harrow hvw) hblank) hst)

/-- A word that stands for itself. -/
theorem keeps_word {word : String} (h : '\n' ∉ word.toList) : p.Keeps fun _ _ _ _ => .ok word :=
  fun _ _ _ _ _ _ _ _ => .ok (p.inline h)

/-- **Every rule of the dialect keeps the relation.** -/
theorem keeps_of_get? {tag : String} {rule : Rule} (h : standardRules.get? tag = some rule) :
    p.Keeps rule := by
  have hmem := Table.mem_of_get?_ofList h
  refine List.forall_iff_forall_mem.1 (?_ : List.Forall (fun entry => p.Keeps entry.2) _) _ hmem
  exact ⟨p.keeps_block, p.keeps_literal, p.keeps_identifier, p.keeps_typedName, p.keeps_functionCall,
    p.keeps_variableDeclaration, p.keeps_assignment, p.keeps_expressionStatement, p.keeps_ifStatement,
    p.keeps_switch, p.keeps_switchCase, p.keeps_forLoop, p.keeps_functionDefinition,
    p.keeps_word (by decide), p.keeps_word (by decide), p.keeps_word (by decide)⟩

/-- Nodes of any depth are written alike: the rules keep the relation from level to level. -/
theorem relates_renderWithin (fuel : Nat) :
    p.Relates ((Writer.standard left).renderWithin fuel) ((Writer.standard right).renderWithin fuel) := by
  induction fuel with
  | zero => exact fun node _ _ _ _ => .error _
  | succ fuel ih =>
    intro node hnode d e hde
    rw [Writer.renderWithin, Writer.renderWithin]
    simp only [Writer.standard]
    cases hrule : standardRules.get? node.tag with
    | none => exact .error _
    | some rule => exact p.keeps_of_get? hrule _ _ ih node hnode d e hde

/-- **A node is written in both layouts with related texts, or in both with the same error.** -/
theorem agree_renderAtDepth {node : Node} (hnode : ∀ text ∈ node.strings, p.texts text text) {d e : Nat}
    (hde : p.levels d e) :
    Agree p.texts ((Writer.standard left).renderAtDepth node d)
      ((Writer.standard right).renderAtDepth node e) :=
  p.relates_renderWithin node.height node hnode d e hde

end Parallel

end Yul

end SolText
