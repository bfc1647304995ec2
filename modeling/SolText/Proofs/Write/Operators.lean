import Mathlib.Data.List.Chain
import SolText.Proofs.Write.Faithful

/-!
# Chains of prefix operators

Operators in front of a name are written one directly after the other, and only a word is kept apart
from what follows. So the text does not always show where an operator ends: `-` applied twice is
written as `--` applied once. This is the only way in which operators run together.

* `Forest.Applies`: a node that applies prefix operators to a name.
* `Writer.render_applies`: **the text of such a node.**
* `PrefixOperator.halves`: operators with every `--` taken for two `-`.
* `PrefixOperator.spelled_eq_iff`: **a text shows the name and the operators up to their halves.**
* `PrefixOperator.eq_of_halves`: operators that are kept apart are known by their halves.
* `Writer.render_applies_eq_iff`: **when two chains have the same text.**
-/

namespace SolText

/-- An operator that is written in front of its operand. -/
inductive PrefixOperator where
  | not
  | minus
  | complement
  | increment
  | decrement
  | delete
  deriving DecidableEq, Repr

namespace PrefixOperator

/-- The symbol of an operator in the tree. -/
def symbol : PrefixOperator → String
  | not => "!"
  | minus => "-"
  | complement => "~"
  | increment => "++"
  | decrement => "--"
  | delete => "delete"

/-- An operator as it is written: a word has a blank behind it. -/
def lead : PrefixOperator → String
  | delete => "delete "
  | operator => operator.symbol

/-- The text of a name with operators in front of it. -/
def spelled (operators : List PrefixOperator) (name : String) : String :=
  operators.foldr (fun operator text => operator.lead ++ text) name

/-- The characters of symbols, and the blank behind a word. -/
def marks : List Char := [' ', '!', '-', '~', '+']

/-- A name that has nothing of an operator about it, such as a name of letters. -/
def IsPlain (name : String) : Prop := ∀ c ∈ name.toList, c ∉ marks

instance (name : String) : Decidable (IsPlain name) := List.decidableBAll _ _

/-- The operators that an operator can be taken for. -/
def parts : PrefixOperator → List PrefixOperator
  | decrement => [minus, minus]
  | operator => [operator]

/-- Operators with every `--` taken for two `-`. -/
def halves (operators : List PrefixOperator) : List PrefixOperator := operators.flatMap parts

/-- Whether an operator is written with minus signs. -/
def isMinus (operator : PrefixOperator) : Bool := operator = minus || operator = decrement

/-- No two operators with minus signs stand side by side. -/
def Apart (operators : List PrefixOperator) : Prop :=
  operators.IsChain fun operator next => ¬(operator.isMinus ∧ next.isMinus)

instance (operators : List PrefixOperator) : Decidable (Apart operators) :=
  inferInstanceAs (Decidable (operators.IsChain _))

variable {a b : List PrefixOperator} {x y : String}

/-! ### Texts -/

theorem spelled_cons (operator : PrefixOperator) (operators : List PrefixOperator) (name : String) :
    spelled (operator :: operators) name = operator.lead ++ spelled operators name := rfl

/-- Halves are written as what they are the halves of. -/
theorem spelled_halves (operators : List PrefixOperator) (name : String) :
    spelled (halves operators) name = spelled operators name := by
  induction operators with
  | nil => rfl
  | cons operator rest ih =>
    have hparts : spelled (operator.parts ++ halves rest) name =
        operator.lead ++ spelled (halves rest) name := by
      cases operator <;> rfl
    rw [halves, List.flatMap_cons, ← halves, hparts, ih, spelled_cons]

theorem decrement_not_mem_halves (operators : List PrefixOperator) : decrement ∉ halves operators := by
  intro hmem
  obtain ⟨operator, -, hparts⟩ := List.mem_flatMap.1 hmem
  cases operator <;> exact absurd hparts (by decide)

/-- Every operator leaves a mark. -/
theorem exists_mark (operator : PrefixOperator) : ∃ c ∈ operator.lead.toList, c ∈ marks := by
  have hany : operator.lead.toList.any (marks.contains ·) := by cases operator <;> decide
  obtain ⟨c, hc, hmark⟩ := List.any_eq_true.1 hany
  exact ⟨c, hc, List.contains_iff_mem.1 hmark⟩

theorem ne_spelled_cons (hx : IsPlain x) (operator : PrefixOperator) :
    x ≠ spelled (operator :: b) y := by
  intro h
  obtain ⟨c, hc, hmark⟩ := exists_mark operator
  have hmem : c ∈ x.toList := by
    rw [h, spelled_cons, String.toList_append]
    exact List.mem_append_left _ hc
  exact hx c hmem hmark

/-- Operators other than `--` begin with different characters. -/
theorem eq_of_head {p q : PrefixOperator} (hp : p ≠ decrement) (hq : q ≠ decrement)
    (h : p.lead.toList.head? = q.lead.toList.head?) : p = q := by
  revert hp hq h
  cases p <;> cases q <;> decide

theorem head?_spelled_cons (operator : PrefixOperator) (operators : List PrefixOperator) (name : String) :
    (spelled (operator :: operators) name).toList.head? = operator.lead.toList.head? := by
  rw [spelled_cons, String.toList_append, List.head?_append_of_ne_nil]
  cases operator <;> decide

/-- Without `--`, a text shows where each operator ends. -/
theorem eq_of_spelled (ha : decrement ∉ a) (hb : decrement ∉ b) (hx : IsPlain x) (hy : IsPlain y)
    (h : spelled a x = spelled b y) : a = b ∧ x = y := by
  induction a generalizing b with
  | nil =>
    cases b with
    | nil => exact ⟨rfl, h⟩
    | cons q qs => exact absurd h (ne_spelled_cons hx q)
  | cons p ps ih =>
    cases b with
    | nil => exact absurd h.symm (ne_spelled_cons hy p)
    | cons q qs =>
      rw [List.mem_cons, not_or] at ha hb
      have hhead : p.lead.toList.head? = q.lead.toList.head? := by
        rw [← head?_spelled_cons p ps x, h, head?_spelled_cons]
      have hpq := eq_of_head (Ne.symm ha.1) (Ne.symm hb.1) hhead
      subst hpq
      rw [spelled_cons, spelled_cons, String.append_right_inj] at h
      obtain ⟨hrest, hname⟩ := ih ha.2 hb.2 h
      exact ⟨congrArg (p :: ·) hrest, hname⟩

/-- **A text shows the name and the operators up to their halves**, and nothing beyond that. -/
theorem spelled_eq_iff (hx : IsPlain x) (hy : IsPlain y) :
    spelled a x = spelled b y ↔ halves a = halves b ∧ x = y := by
  constructor
  · intro h
    rw [← spelled_halves a, ← spelled_halves b] at h
    exact eq_of_spelled (decrement_not_mem_halves a) (decrement_not_mem_halves b) hx hy h
  · rintro ⟨hhalves, rfl⟩
    rw [← spelled_halves a, ← spelled_halves b, hhalves]

/-! ### Operators that are kept apart -/

theorem halves_cons (operator : PrefixOperator) (operators : List PrefixOperator) :
    halves (operator :: operators) = operator.parts ++ halves operators := List.flatMap_cons

/-- The halves of operators begin with a minus sign only if the operators do. -/
theorem exists_minus_of_halves {rest : List PrefixOperator} (h : halves a = minus :: rest) :
    ∃ operator operators, a = operator :: operators ∧ operator.isMinus := by
  cases a with
  | nil => cases h
  | cons operator operators =>
    refine ⟨operator, operators, rfl, ?_⟩
    rw [halves_cons] at h
    cases operator with
    | minus | decrement => rfl
    | not | complement | increment | delete => cases h

/-- One `-` and one `--` have the same halves only if another minus sign comes after the `-`. -/
theorem not_apart_of_halves (h : halves (minus :: a) = halves (decrement :: b)) : ¬Apart (minus :: a) := by
  rw [halves_cons, halves_cons] at h
  obtain ⟨operator, operators, rfl, hminus⟩ := exists_minus_of_halves (List.cons.inj h).2
  intro hapart
  exact (List.isChain_cons_cons.1 hapart).1 ⟨rfl, hminus⟩

/-- Different operators begin with the same half only if one is `-` and the other `--`. -/
theorem minus_or_minus_of_halves {p q : PrefixOperator} (hne : p ≠ q)
    (h : halves (p :: a) = halves (q :: b)) :
    p = minus ∧ q = decrement ∨ p = decrement ∧ q = minus := by
  have hhead : p.parts.head? = q.parts.head? := by
    have hfirst : ∀ (operator : PrefixOperator) (operators : List PrefixOperator),
        (halves (operator :: operators)).head? = operator.parts.head? := by
      intro operator operators
      rw [halves_cons]
      cases operator <;> rfl
    rw [← hfirst p a, h, hfirst]
  revert hne hhead
  cases p <;> cases q <;> decide

/-- **Operators that are kept apart are known by their halves.** -/
theorem eq_of_halves (ha : Apart a) (hb : Apart b) (h : halves a = halves b) : a = b := by
  induction a generalizing b with
  | nil =>
    cases b with
    | nil => rfl
    | cons q qs => cases q <;> cases h
  | cons p ps ih =>
    cases b with
    | nil => cases p <;> cases h
    | cons q qs =>
      by_cases hpq : p = q
      · subst hpq
        rw [halves_cons, halves_cons, List.append_cancel_left_eq] at h
        exact congrArg (p :: ·) (ih ha.tail hb.tail h)
      · rcases minus_or_minus_of_halves hpq h with ⟨rfl, rfl⟩ | ⟨rfl, rfl⟩
        · exact absurd ha (not_apart_of_halves h)
        · exact absurd hb (not_apart_of_halves h.symm)

end PrefixOperator

open PrefixOperator

/-- A node applies prefix operators, the outermost first, to a name. -/
inductive Forest.Applies (forest : Forest) : Handle → List PrefixOperator → String → Prop where
  | name {handle : Handle} {name : String} :
      forest.node? handle = some (.identifier name) → Applies forest handle [] name
  | operator {handle operand : Handle} {operator : PrefixOperator} {operators : List PrefixOperator}
      {name : String} :
      forest.node? handle = some (.unaryOperation operator.symbol true operand) →
      Applies forest operand operators name → Applies forest handle (operator :: operators) name

namespace Writer

variable {forest forest' : Forest} {handle handle' operand : Handle}
  {operators operators' : List PrefixOperator} {name name' : String}

/-- The pieces of an operator and its operand give the operator as it is written and the operand. -/
theorem exists_pieces_operator (options : Options) {operator : PrefixOperator}
    (hn : forest.node? handle = some (.unaryOperation operator.symbol true operand)) :
    ∃ pieces, (standard options).pieces forest handle = .ok pieces ∧
      Piece.handles pieces = [operand] ∧
      (standard options).flat forest pieces =
        operator.lead ++ (standard options).textOf forest operand := by
  rw [standard_pieces hn]
  cases operator with
  | delete =>
    refine ⟨[.operator "delete", .space, .node operand], rfl, rfl, ?_⟩
    simp only [flat, Piece.operator, Piece.space, String.append_empty, ← String.append_assoc]
    rfl
  | not | minus | complement | increment | decrement =>
    refine ⟨[.operator _, .node operand], rfl, rfl, ?_⟩
    simp only [flat, Piece.operator, String.append_empty]
    rfl

/-- **The text of a node that applies operators to a name.** -/
theorem render_applies (hb : forest.Built) (options : Options)
    (h : forest.Applies handle operators name) :
    (standard options).render forest handle = .ok (spelled operators name) := by
  have hs := hb.sound
  have hd := (standard_faithful hs options).descends
  induction h with
  | name hn =>
    refine (render_eq_ok_iff hs hd).2 ⟨_, (standard_pieces hn).trans rfl, ?_, ?_⟩
    · simp
    · simp [flat, spelled]
  | operator hn _ ih =>
    obtain ⟨pieces, hpieces, hhandles, hflat⟩ := exists_pieces_operator options hn
    refine (render_eq_ok_iff hs hd).2 ⟨pieces, hpieces, ?_, ?_⟩
    · rw [hhandles]
      exact List.forall_mem_singleton.2 ⟨_, ih⟩
    · rw [hflat, textOf_eq ih, spelled_cons]

/-- **When two chains have the same text**: if the names are the same and the operators have the same
halves. So the text shows the operators, unless two with minus signs stand side by side. -/
theorem render_applies_eq_iff (hb : forest.Built) (hb' : forest'.Built) (options options' : Options)
    (h : forest.Applies handle operators name) (h' : forest'.Applies handle' operators' name')
    (hname : IsPlain name) (hname' : IsPlain name') :
    ∃ text text', (standard options).render forest handle = .ok text ∧
      (standard options').render forest' handle' = .ok text' ∧
      (text = text' ↔ halves operators = halves operators' ∧ name = name') ∧
      (text = text' → Apart operators → Apart operators' → operators = operators') := by
  have hiff := spelled_eq_iff (a := operators) (b := operators') hname hname'
  exact ⟨_, _, render_applies hb options h, render_applies hb' options' h', hiff,
    fun htext ha ha' => eq_of_halves ha ha' (hiff.1 htext).1⟩

/-- A word, a symbol of its own and a minus sign, and the same with `--` in its place. -/
theorem render_applies_eq_iff_word :
    ∃ forest, Forest.ofNodes [.identifier "x", .unaryOperation "-" true 0, .unaryOperation "!" true 1,
        .unaryOperation "delete" true 2, .identifier "x", .unaryOperation "--" true 4,
        .unaryOperation "!" true 5, .unaryOperation "delete" true 6] = .ok forest ∧
      forest.Applies 3 [delete, not, minus] "x" ∧ forest.Applies 7 [delete, not, decrement] "x" ∧
      IsPlain "x" ∧ Apart [delete, not, minus] ∧ Apart [delete, not, decrement] ∧
      ∃ text text', (standard {}).render forest 3 = .ok text ∧
        (standard {}).render forest 7 = .ok text' ∧ text ≠ text' := by
  have hforest : Forest.ofNodes [.identifier "x", .unaryOperation "-" true 0,
      .unaryOperation "!" true 1, .unaryOperation "delete" true 2, .identifier "x",
      .unaryOperation "--" true 4, .unaryOperation "!" true 5, .unaryOperation "delete" true 6] =
      .ok ⟨#[⟨.identifier "x", some 1, []⟩, ⟨.unaryOperation "-" true 0, some 2, [0]⟩,
        ⟨.unaryOperation "!" true 1, some 3, [1]⟩, ⟨.unaryOperation "delete" true 2, none, [2]⟩,
        ⟨.identifier "x", some 5, []⟩, ⟨.unaryOperation "--" true 4, some 6, [4]⟩,
        ⟨.unaryOperation "!" true 5, some 7, [5]⟩,
        ⟨.unaryOperation "delete" true 6, none, [6]⟩]⟩ := rfl
  have hb := Forest.Built.ofNodes hforest
  refine ⟨_, hforest, ?_⟩
  generalize hentries : Forest.mk _ = forest at hb
  have hminus : forest.Applies 3 [delete, not, minus] "x" := by
    subst hentries
    exact .operator rfl (.operator rfl (.operator rfl (.name rfl)))
  have hdecrement : forest.Applies 7 [delete, not, decrement] "x" := by
    subst hentries
    exact .operator rfl (.operator rfl (.operator rfl (.name rfl)))
  obtain ⟨text, text', htext, htext', -, heq⟩ :=
    render_applies_eq_iff hb hb {} {} hminus hdecrement (by decide) (by decide)
  refine ⟨hminus, hdecrement, by decide, by decide, by decide, text, text', htext, htext', ?_⟩
  exact fun h => absurd (heq h (by decide) (by decide)) (by decide)

/-- Two minus signs in a row run together: the text is that of `--`. -/
theorem render_minus_minus :
    ∃ forest, Forest.ofNodes [.identifier "x", .unaryOperation "-" true 0, .unaryOperation "-" true 1,
        .identifier "x", .unaryOperation "--" true 3] = .ok forest ∧
      forest.Applies 2 [minus, minus] "x" ∧ forest.Applies 4 [decrement] "x" ∧
      (standard {}).render forest 2 = .ok "--x" ∧ (standard {}).render forest 4 = .ok "--x" ∧
      [minus, minus] ≠ [decrement] := by
  have hforest : Forest.ofNodes [.identifier "x", .unaryOperation "-" true 0,
      .unaryOperation "-" true 1, .identifier "x", .unaryOperation "--" true 3] =
      .ok ⟨#[⟨.identifier "x", some 1, []⟩, ⟨.unaryOperation "-" true 0, some 2, [0]⟩,
        ⟨.unaryOperation "-" true 1, none, [1]⟩, ⟨.identifier "x", some 4, []⟩,
        ⟨.unaryOperation "--" true 3, none, [3]⟩]⟩ := rfl
  refine ⟨_, hforest, ?_, ?_, rfl, rfl, by decide⟩
  · exact .operator rfl (.operator rfl (.name rfl))
  · exact .operator rfl (.name rfl)

end Writer

end SolText
