import SolText.Proofs.Write.Views

/-!
# Where writing fails

A node is written before the nodes inside it, and these one after the other. So writing ends at the
first node of a walk whose rule fails, and a rule fails only for what its node asks of the target or
of the assembly inside it.

* `Writer.Names`: rules that name the children of a node, but for an empty list of returned values.
* `Writer.Names.failure?_render`: **writing fails as the first rule does that fails on a walk.**
* `Writer.lacking`: the writer that knows the rules of some kinds only.
* `Fault`, `Writer.lacking_pieces_eq_error_iff`: what can be wrong with a node.
* `Writer.render_eq_first_fault`: **writing fails exactly if a written node has a fault, and with the
  fault of the first.**
-/

namespace SolText

/-! ### The first item with a value -/

section
variable {α β γ : Type}

theorem findSome?_flatMap (g : α → List β) (f : β → Option γ) (items : List α) :
    (items.flatMap g).findSome? f = items.findSome? fun item => (g item).findSome? f := by
  induction items with
  | nil => rfl
  | cons item rest ih =>
    rw [List.flatMap_cons, List.findSome?_append, ih, List.findSome?_cons]
    cases (g item).findSome? f <;> rfl

theorem findSome?_filter (p : α → Bool) (f : α → Option β) (items : List α) :
    (items.filter p).findSome? f = items.findSome? fun item => if p item then f item else none := by
  induction items with
  | nil => rfl
  | cons item rest ih =>
    rw [List.findSome?_cons]
    by_cases hp : p item
    · rw [List.filter_cons_of_pos hp, List.findSome?_cons, ih, if_pos hp]
    · rw [List.filter_cons_of_neg hp, ih, if_neg hp]

theorem findSome?_congr {f g : α → Option β} {items : List α} (h : ∀ item ∈ items, f item = g item) :
    items.findSome? f = items.findSome? g := by
  induction items with
  | nil => rfl
  | cons item rest ih =>
    rw [List.findSome?_cons, List.findSome?_cons, h item List.mem_cons_self,
      ih fun other hmem => h other (List.mem_cons_of_mem _ hmem)]

end

/-! ### Along a walk -/

/-- Whether a node is left out where its parent is written. -/
def Forest.isLeftOut (forest : Forest) (node : Handle) : Bool :=
  match forest.parent node with
  | some parent => forest.omits parent node
  | none => false

theorem Forest.isLeftOut_child {forest : Forest} (hs : forest.Sound) {child parent : Nat}
    (h : child ∈ forest.children parent) : forest.isLeftOut child = forest.omits parent child := by
  unfold isLeftOut
  rw [hs.parent_eq_iff.2 h]

namespace Writer

variable {writer : Writer} {forest : Forest} {handle root node : Nat} {error : WriteError}
  {pieces : List Piece}

/-- The rules name the children of a node in their order, but for the one that is left out. -/
def Names (writer : Writer) (forest : Forest) : Prop :=
  ∀ handle pieces, writer.pieces forest handle = .ok pieces →
    Piece.handles pieces = (forest.children handle).filter fun child => !forest.omits handle child

/-- How the rule of a node fails, when the node is written as part of `root`. -/
def ruleFailure? (writer : Writer) (forest : Forest) (root node : Handle) : Option WriteError :=
  if node ≠ root ∧ forest.isLeftOut node then none else failure? (writer.pieces forest node)

theorem ruleFailure?_self (root : Handle) :
    writer.ruleFailure? forest root root = failure? (writer.pieces forest root) := by
  unfold ruleFailure?
  rw [if_neg fun h => h.1 rfl]

/-- Among tagged pieces only the nodes can fail. -/
theorem findSome?_taggedPiece (tagged : Handle → Except WriteError (List (Role × String)))
    (pieces : List Piece) :
    (pieces.findSome? fun piece => failure? (taggedPiece tagged piece)) =
      (Piece.handles pieces).findSome? fun child => failure? (tagged child) := by
  induction pieces with
  | nil => rfl
  | cons piece rest ih =>
    cases piece with
    | absent | text role content => exact ih
    | node child =>
      rw [Piece.handles_node, List.findSome?_cons, List.findSome?_cons, ih]
      rfl

/-- What is written of a child as part of its parent is what is written of it alone, unless it is left
out. -/
theorem findSome?_ruleFailure?_child (hs : forest.Sound) {child : Nat}
    (hc : child ∈ forest.children root) :
    (forest.walk child).findSome? (writer.ruleFailure? forest root) =
      if !forest.omits root child then (forest.walk child).findSome? (writer.ruleFailure? forest child)
      else none := by
  have hlt : child < root := hs.child_lt hc
  have hne : child ≠ root := Nat.ne_of_lt hlt
  by_cases homits : forest.omits root child = true
  · -- a node that is left out has nothing beneath it
    have hleaf : forest.walk child = [child] := by
      rw [hs.walk_eq, hs.children_eq (node?_of_omits homits)]
      rfl
    have hskip : child ≠ root ∧ forest.isLeftOut child = true :=
      ⟨hne, by rw [Forest.isLeftOut_child hs hc]; exact homits⟩
    rw [hleaf, List.findSome?_singleton, homits]
    unfold ruleFailure?
    rw [if_pos hskip]
    rfl
  · have hkept : (!forest.omits root child) = true := by simpa using homits
    rw [if_pos hkept]
    apply findSome?_congr
    intro node hnode
    have hle : node ≤ child := hs.le_of_mem_walk hnode
    unfold ruleFailure?
    by_cases hself : node = child
    · have hwritten : ¬(child ≠ root ∧ forest.isLeftOut child = true) := by
        rw [Forest.isLeftOut_child hs hc]
        exact fun h => homits h.2
      rw [hself, if_neg hwritten, if_neg fun h => h.1 rfl]
    · have hroot : node ≠ root := Nat.ne_of_lt (Nat.lt_of_le_of_lt hle hlt)
      simp only [ne_eq, hroot, hself, not_false_eq_true, true_and]

/-- With fuel for the children of a node, tagging fails as the first rule does that fails on a walk. -/
theorem Names.failure?_taggedWithin (hs : forest.Sound) (hw : writer.Names forest) :
    ∀ root fuel : Nat, (∀ child : Nat, child ∈ forest.children root → child < fuel) →
      failure? (writer.taggedWithin forest (fuel + 1) root) =
        (forest.walk root).findSome? (writer.ruleFailure? forest root) := by
  refine hs.induction fun root ih fuel hfuel => ?_
  rw [taggedWithin_succ, hs.walk_eq, List.findSome?_cons, ruleFailure?_self]
  cases hp : writer.pieces forest root with
  | error e => rfl
  | ok pieces =>
    show failure? (pieces.mapM (taggedPiece (writer.taggedWithin forest fuel)) >>=
      fun parts => pure parts.flatten) = ((forest.children root).flatMap forest.walk).findSome? _
    rw [failure?_bind_pure, failure?_mapM, findSome?_taggedPiece, hw root pieces hp,
      findSome?_filter, findSome?_flatMap]
    apply findSome?_congr
    intro child hc
    rw [findSome?_ruleFailure?_child hs hc]
    have hlt := hfuel child hc
    obtain ⟨fuel, rfl⟩ : ∃ fuel', fuel = fuel' + 1 := ⟨fuel - 1, by omega⟩
    -- the children of a child come before it, so the fuel that is left is enough for them
    have hfuel' : ∀ other : Nat, other ∈ forest.children child → other < fuel := by
      intro other hother
      have hlt' := hs.child_lt hother
      omega
    rw [ih child hc fuel hfuel']

/-- **Writing fails as the first rule does that fails on a walk**, and not if none fails. -/
theorem Names.failure?_render (hs : forest.Sound) (hw : writer.Names forest) (root : Nat) :
    failure? (writer.render forest root) =
      (forest.walk root).findSome? (writer.ruleFailure? forest root) := by
  rw [render_eq_tagged, failure?_map]
  exact hw.failure?_taggedWithin hs root forest.size fun _ hc => hs.lt_size hc

end Writer

/-! ### What can be wrong with a node -/

/-- Before the release with the given numbers. A pre-release comes before its release. -/
def Version.Before (version : Version) (major minor patch : UInt64) : Prop :=
  version.major < major ∨ version.major = major ∧
    (version.minor < minor ∨ version.minor = minor ∧
      (version.patch < patch ∨ version.patch = patch ∧ version.pre ≠ []))

theorem Version.reaches_eq_false_iff {version : Version} {major minor patch : UInt64} :
    version.reaches major minor patch = false ↔ version.Before major minor patch := by
  unfold reaches Before
  by_cases hmajor : version.major = major
  · by_cases hminor : version.minor = minor
    · by_cases hpatch : version.patch = patch
      · simp [hmajor, hminor, hpatch]
      · simp [hmajor, hminor, hpatch, UInt64.le_iff_lt_or_eq]
    · simp [hmajor, hminor, UInt64.le_iff_lt_or_eq]
  · simp [hmajor, UInt64.le_iff_lt_or_eq]

/-- The rules of all kinds but those removed. -/
def Rules.without (removed : List Kind) : Rules := removed.foldl Table.erase standardRules

theorem Rules.get?_without (removed : List Kind) (kind : Kind) :
    (Rules.without removed).get? kind =
      if kind ∈ removed then none else some (standardRule kind) := by
  have key : ∀ (removed : List Kind) (rules : Rules), (removed.foldl Table.erase rules).get? kind =
      if kind ∈ removed then none else rules.get? kind := by
    intro removed
    induction removed with
    | nil => intro rules; simp
    | cons first rest ih =>
      intro rules
      rw [List.foldl_cons, ih, Table.get?_erase]
      by_cases hfirst : kind = first <;> by_cases hrest : kind ∈ rest <;> simp [hfirst, hrest]
  rw [Rules.without, key, get?_standardRules]

/-- The writer with the rules of all kinds but those removed. -/
def Writer.lacking (removed : List Kind) (options : Options) : Writer :=
  { Writer.standard options with rules := .without removed }

/-- What can be wrong with a node. A kind without a rule comes first, whatever else the node asks
for. -/
inductive Fault (removed : List Kind) (options : Options) (forest : Forest) (handle : Handle) :
    WriteError → Prop where
  | noRule {kind : Kind} : forest.kind handle = .ok kind → kind ∈ removed →
      Fault removed options forest handle (.noRule kind (forest.dump handle))
  | unavailable {statements : List Handle} :
      forest.node? handle = some (.uncheckedBlock statements) → .uncheckedBlock ∉ removed →
      options.target.Before 0 8 0 →
      Fault removed options forest handle
        (.unavailable .uncheckedBlock options.target (forest.dump handle))
  | yul {ast : Yul.Node} {error : Yul.Error} :
      forest.node? handle = some (.inlineAssembly ast) → .inlineAssembly ∉ removed →
      (Yul.Writer.standard options.layout).renderAtDepth ast (forest.nesting handle) = .error error →
      Fault removed options forest handle (.yul error)

variable {forest : Forest} {setting : Setting} {handle root : Nat} {node : Node}
  {removed : List Kind} {options : Options} {error : WriteError}

/-- Of the kinds with a rule only two can be at fault. -/
theorem not_fault_of_kind (hn : forest.node? handle = some node) (hrule : node.kind ∉ removed)
    (hblock : node.kind ≠ .uncheckedBlock) (hassembly : node.kind ≠ .inlineAssembly) :
    ¬Fault removed options forest handle error := by
  intro h
  cases h with
  | noRule hk hin => rw [Forest.kind_eq_ok hn] at hk; cases hk; exact hrule hin
  | unavailable hn' _ _ => rw [hn] at hn'; cases hn'; exact hblock rfl
  | yul hn' _ _ => rw [hn] at hn'; cases hn'; exact hassembly rfl

/-- The kinds of the members of a contract are known. -/
theorem exists_memberPieces (hs : forest.Sound) {nodes : List Handle}
    (h : ∀ child ∈ nodes, child ∈ forest.children handle) (layout : Layout) (depth : Nat) :
    ∃ members, nodes.mapM (memberPieces layout forest depth) = .ok members := by
  cases hm : nodes.mapM (memberPieces layout forest depth) with
  | ok members => exact ⟨members, rfl⟩
  | error error =>
    obtain ⟨child, hc, hfail⟩ := mapM_eq_error hm
    obtain ⟨node, hn⟩ := Forest.node?_isSome (hs.lt_size (h child hc))
    unfold memberPieces at hfail
    rw [Forest.kind_eq_ok hn] at hfail
    cases hfail

/-- The list of what a function returns is known. -/
theorem exists_writesReturns (hs : forest.Sound) {returns : Nat}
    (h : returns ∈ forest.children handle) :
    ∃ written, forest.writesReturns returns = .ok written := by
  obtain ⟨node, hn⟩ := Forest.node?_isSome (hs.lt_size h)
  unfold Forest.writesReturns Forest.node
  simp only [hn, bind, Except.bind]
  split
  · exact ⟨false, rfl⟩
  · exact ⟨true, rfl⟩

/-- All other nodes than unchecked blocks and inline assembly can be written. -/
theorem exists_pieces (hs : forest.Sound) (hn : forest.node? handle = some node)
    (hblock : node.kind ≠ .uncheckedBlock) (hassembly : node.kind ≠ .inlineAssembly) :
    ∃ pieces, node.pieces setting forest handle = .ok pieces := by
  have hchildren := hs.children_eq hn
  cases node with
  | uncheckedBlock statements => exact absurd rfl hblock
  | inlineAssembly ast => exact absurd rfl hassembly
  | contractDefinition name contractKind nodes =>
    have hmembers : ∀ child ∈ nodes, child ∈ forest.children handle := by
      rw [hchildren]
      exact fun _ hc => hc
    obtain ⟨members, hm⟩ :=
      exists_memberPieces hs hmembers setting.options.layout (forest.nesting handle)
    simp only [Node.pieces, hm]
    cases nodes.isEmpty <;> exact ⟨_, rfl⟩
  | functionDefinition name visibility mutability parameters returns body =>
    have hreturns : returns ∈ forest.children handle := by
      rw [hchildren]
      simp [Node.children]
    obtain ⟨written, hw⟩ := exists_writesReturns hs hreturns
    simp only [Node.pieces, hw]
    exact ⟨_, rfl⟩
  | unaryOperation symbol leading operand => cases leading <;> exact ⟨_, rfl⟩
  | _ => exact ⟨_, rfl⟩

theorem pieces_uncheckedBlock_eq_error_iff {statements : List Handle} :
    (Node.uncheckedBlock statements).pieces setting forest handle = .error error ↔
      setting.options.target.Before 0 8 0 ∧
        error = .unavailable .uncheckedBlock setting.options.target (forest.dump handle) := by
  simp only [Node.pieces]
  rw [← Version.reaches_eq_false_iff]
  cases setting.options.target.reaches 0 8 0 with
  | true =>
    constructor
    · intro h; cases h
    · rintro ⟨h, -⟩; cases h
  | false =>
    constructor
    · intro h; cases h; exact ⟨rfl, rfl⟩
    · rintro ⟨-, rfl⟩; rfl

theorem pieces_inlineAssembly_eq_error_iff {ast : Yul.Node} :
    (Node.inlineAssembly ast).pieces setting forest handle = .error error ↔
      ∃ failure, setting.yul.renderAtDepth ast (forest.nesting handle) = .error failure ∧
        error = .yul failure := by
  simp only [Node.pieces]
  cases setting.yul.renderAtDepth ast (forest.nesting handle) with
  | ok code =>
    constructor
    · intro h; cases h
    · rintro ⟨failure, h, -⟩; cases h
  | error failure =>
    constructor
    · intro h; cases h; exact ⟨failure, rfl, rfl⟩
    · rintro ⟨failure, h, rfl⟩; cases h; rfl

/-- **The rules fail for the faults of their nodes.** -/
theorem Writer.lacking_pieces_eq_error_iff (hs : forest.Sound) (hlt : handle < forest.size) :
    (Writer.lacking removed options).pieces forest handle = .error error ↔
      Fault removed options forest handle error := by
  obtain ⟨node, hn⟩ := Forest.node?_isSome hlt
  have hrule := Rules.get?_without removed node.kind
  by_cases hk : node.kind ∈ removed
  · rw [if_pos hk] at hrule
    rw [pieces_eq_noRule hn hrule]
    constructor
    · intro h
      cases h
      exact .noRule (Forest.kind_eq_ok hn) hk
    · intro h
      cases h with
      | noRule hk' _ => rw [Forest.kind_eq_ok hn] at hk'; cases hk'; rfl
      | unavailable hn' hno _ => rw [hn] at hn'; cases hn'; exact absurd hk hno
      | yul hn' hno _ => rw [hn] at hn'; cases hn'; exact absurd hk hno
  · rw [if_neg hk] at hrule
    rw [pieces_eq_of_rule hn hrule]
    constructor
    · intro h
      by_cases hblock : node.kind = .uncheckedBlock
      · cases node <;> cases hblock
        obtain ⟨ht, rfl⟩ := pieces_uncheckedBlock_eq_error_iff.1 h
        exact .unavailable hn hk ht
      · by_cases hassembly : node.kind = .inlineAssembly
        · cases node <;> cases hassembly
          obtain ⟨failure, hy, rfl⟩ := pieces_inlineAssembly_eq_error_iff.1 h
          exact .yul hn hk hy
        · obtain ⟨pieces, hp⟩ := exists_pieces hs hn hblock hassembly
          rw [hp] at h
          cases h
    · intro h
      cases h with
      | noRule hk' hin => rw [Forest.kind_eq_ok hn] at hk'; cases hk'; exact absurd hin hk
      | unavailable hn' _ ht =>
        rw [hn] at hn'; cases hn'
        exact pieces_uncheckedBlock_eq_error_iff.2 ⟨ht, rfl⟩
      | yul hn' _ hy =>
        rw [hn] at hn'; cases hn'
        exact pieces_inlineAssembly_eq_error_iff.2 ⟨_, hy, rfl⟩

theorem Writer.lacking_names (hs : forest.Sound) :
    (Writer.lacking removed options).Names forest := by
  intro handle pieces h
  obtain ⟨node, hn⟩ := exists_node_of_pieces h
  have hrule := Rules.get?_without removed node.kind
  by_cases hk : node.kind ∈ removed
  · rw [if_pos hk] at hrule
    rw [pieces_eq_noRule hn hrule] at h
    cases h
  · rw [if_neg hk] at hrule
    rw [pieces_eq_of_rule hn hrule] at h
    exact handles_pieces hs hn h

/-! ### The first fault -/

/-- A node is left out exactly if it is an empty list of returned values. -/
theorem Forest.isLeftOut_iff (hs : forest.Sound) {node : Nat} :
    forest.isLeftOut node = true ↔ forest.IsEmptyReturns node := by
  cases hp : forest.parent node with
  | some parent =>
    have hc : node ∈ forest.children parent := hs.parent_eq_iff.1 hp
    rw [isLeftOut_child hs hc]
    exact omits_iff hs hc
  | none =>
    unfold isLeftOut
    rw [hp]
    constructor
    · intro h
      cases h
    · rintro ⟨hempty, function, hfunction⟩
      have hreturns : forest.ReturnsNothing function node := ⟨hempty, hfunction⟩
      rw [hs.parent_eq_iff.2 (hreturns.mem_children hs)] at hp
      cases hp

/-- A node of a tree is written with its root, unless it is an empty list of returned values. -/
def Forest.IsWritten (forest : Forest) (root node : Handle) : Prop :=
  node = root ∨ ¬forest.IsEmptyReturns node

/-- The fault of the first written node on a walk that has one. -/
def FirstFault (removed : List Kind) (options : Options) (forest : Forest) (root : Handle)
    (error : WriteError) : Prop :=
  ∃ before node after, forest.walk root = before ++ node :: after ∧ forest.IsWritten root node ∧
    Fault removed options forest node error ∧
    ∀ earlier ∈ before, forest.IsWritten root earlier →
      ∀ other, ¬Fault removed options forest earlier other

namespace Writer

theorem lacking_ruleFailure?_eq_some_iff (hs : forest.Sound) {node : Nat} (hlt : node < forest.size) :
    (Writer.lacking removed options).ruleFailure? forest root node = some error ↔
      forest.IsWritten root node ∧ Fault removed options forest node error := by
  rw [← lacking_pieces_eq_error_iff hs hlt]
  unfold ruleFailure? Forest.IsWritten
  rw [← Forest.isLeftOut_iff hs]
  by_cases hskip : node ≠ root ∧ forest.isLeftOut node = true
  · simp [hskip]
  · have hwritten : node = root ∨ ¬forest.isLeftOut node = true := by
      by_cases he : node = root
      · exact .inl he
      · exact .inr fun h => hskip ⟨he, h⟩
    rw [if_neg hskip, failure?_eq_some_iff]
    exact ⟨fun h => ⟨hwritten, h⟩, fun h => h.2⟩

theorem lacking_ruleFailure?_eq_none_iff (hs : forest.Sound) {node : Nat} (hlt : node < forest.size) :
    (Writer.lacking removed options).ruleFailure? forest root node = none ↔
      (forest.IsWritten root node → ∀ error, ¬Fault removed options forest node error) := by
  rw [Option.eq_none_iff_forall_ne_some]
  constructor
  · intro h hw error hf
    exact h error ((lacking_ruleFailure?_eq_some_iff hs hlt).2 ⟨hw, hf⟩)
  · intro h error hsome
    obtain ⟨hw, hf⟩ := (lacking_ruleFailure?_eq_some_iff hs hlt).1 hsome
    exact h hw error hf

/-- Writing fails with the first fault. -/
theorem lacking_render_eq_error_iff (hs : forest.Sound) (hroot : root < forest.size) :
    (Writer.lacking removed options).render forest root = .error error ↔
      FirstFault removed options forest root error := by
  rw [← failure?_eq_some_iff, (lacking_names hs).failure?_render hs, List.findSome?_eq_some_iff]
  refine exists_congr fun before => exists_congr fun node => exists_congr fun after =>
    and_congr_right fun hwalk => ?_
  have hnode : node ∈ forest.walk root := hwalk ▸ List.mem_append_right _ List.mem_cons_self
  have hbefore : (∀ earlier ∈ before,
        (Writer.lacking removed options).ruleFailure? forest root earlier = none) ↔
      ∀ earlier ∈ before, forest.IsWritten root earlier →
        ∀ other, ¬Fault removed options forest earlier other := by
    refine forall₂_congr fun earlier hearlier => ?_
    have hmem : earlier ∈ forest.walk root := hwalk ▸ List.mem_append_left _ hearlier
    exact lacking_ruleFailure?_eq_none_iff hs (hs.lt_size_of_mem_walk hroot hmem)
  rw [lacking_ruleFailure?_eq_some_iff hs (hs.lt_size_of_mem_walk hroot hnode), hbefore, and_assoc]

/-- **Writing fails exactly if a written node has a fault, and with the fault of the first.** It never
hands a rule a node of another kind, looks for a node that is not there or comes back to a node. -/
theorem render_eq_first_fault (hb : forest.Built) (hroot : root < forest.size) (removed : List Kind)
    (options : Options) :
    ((∃ error, (Writer.lacking removed options).render forest root = .error error) ↔
      ∃ node ∈ forest.walk root, forest.IsWritten root node ∧
        ∃ error, Fault removed options forest node error) ∧
    (∀ error, (Writer.lacking removed options).render forest root = .error error ↔
      FirstFault removed options forest root error) ∧
    ∀ error, (Writer.lacking removed options).render forest root = .error error →
      (∀ expected found dump, error ≠ .wrongKind expected found dump) ∧
      (∀ problem, error ≠ .forest problem) ∧ ∀ handle, error ≠ .endless handle := by
  have hs := hb.sound
  refine ⟨⟨?_, ?_⟩, fun error => lacking_render_eq_error_iff hs hroot, fun error h => ?_⟩
  · rintro ⟨error, h⟩
    obtain ⟨before, node, after, hwalk, hwritten, hfault, -⟩ :=
      (lacking_render_eq_error_iff hs hroot).1 h
    exact ⟨node, hwalk ▸ List.mem_append_right _ List.mem_cons_self, hwritten, error, hfault⟩
  · rintro ⟨node, hnode, hwritten, error, hfault⟩
    have hlt := hs.lt_size_of_mem_walk hroot hnode
    have hrule := (lacking_ruleFailure?_eq_some_iff hs hlt).2 ⟨hwritten, hfault⟩
    -- a value for one node is enough for a first one
    have hsome : ((forest.walk root).findSome?
        ((Writer.lacking removed options).ruleFailure? forest root)).isSome := by
      rw [List.findSome?_isSome_iff]
      exact ⟨node, hnode, by rw [hrule]; rfl⟩
    obtain ⟨first, hfirst⟩ := Option.isSome_iff_exists.1 hsome
    rw [← (lacking_names hs).failure?_render hs, failure?_eq_some_iff] at hfirst
    exact ⟨first, hfirst⟩
  · obtain ⟨before, node, after, -, -, hfault, -⟩ := (lacking_render_eq_error_iff hs hroot).1 h
    cases hfault <;> simp

/-- The empty list of returned values needs no rule where its function is written, only where it is
written alone. An unchecked block comes before the statement behind it. -/
theorem render_eq_first_fault_function :
    ∃ (forest : Forest) (old : Options),
      Forest.ofNodes [.identifier "p", .parameterList [], .uncheckedBlock [], .identifier "x",
        .expressionStatement 3, .block [2, 4],
        .functionDefinition "f" .publicly .pure 0 1 (some 5)] = .ok forest ∧
      old.target = { major := 0, minor := 7, patch := 6 } ∧
      (Fault [.parameterList] {} forest 1 (.noRule .parameterList (forest.dump 1)) ∧
        (∀ node ∈ forest.walk 6, forest.IsWritten 6 node →
          ∀ error, ¬Fault [.parameterList] {} forest node error) ∧
        ∃ text, (Writer.lacking [.parameterList] {}).render forest 6 = .ok text) ∧
      (Writer.lacking [.parameterList] {}).render forest 1 =
        .error (.noRule .parameterList (forest.dump 1)) ∧
      Fault [.expressionStatement] old forest 4 (.noRule .expressionStatement (forest.dump 4)) ∧
      (Writer.lacking [.expressionStatement] old).render forest 6 =
        .error (.unavailable .uncheckedBlock old.target (forest.dump 2)) := by
  have hforest : Forest.ofNodes [.identifier "p", .parameterList [], .uncheckedBlock [],
      .identifier "x", .expressionStatement 3, .block [2, 4],
      .functionDefinition "f" .publicly .pure 0 1 (some 5)] =
        .ok ⟨#[⟨.identifier "p", some 6, []⟩, ⟨.parameterList [], some 6, []⟩,
          ⟨.uncheckedBlock [], some 5, []⟩, ⟨.identifier "x", some 4, []⟩,
          ⟨.expressionStatement 3, some 5, [3]⟩, ⟨.block [2, 4], some 6, [2, 4]⟩,
          ⟨.functionDefinition "f" .publicly .pure 0 1 (some 5), none, [0, 1, 5]⟩]⟩ := rfl
  have hb := Forest.Built.ofNodes hforest
  refine ⟨_, { target := { major := 0, minor := 7, patch := 6 } }, hforest, rfl,
    ⟨?_, ?_, _, rfl⟩, ?_, ?_, ?_⟩
  · exact .noRule rfl List.mem_cons_self
  · obtain ⟨hfails, -, -⟩ := render_eq_first_fault hb (show 6 < 7 by decide) [.parameterList] {}
    intro node hnode hwritten error hfault
    obtain ⟨other, hother⟩ := hfails.2 ⟨node, hnode, hwritten, error, hfault⟩
    cases hother
  · obtain ⟨-, hfirst, -⟩ := render_eq_first_fault hb (show 1 < 7 by decide) [.parameterList] {}
    exact (hfirst _).2 ⟨[], 1, [], rfl, .inl rfl, .noRule rfl List.mem_cons_self, by simp⟩
  · exact .noRule rfl List.mem_cons_self
  · obtain ⟨-, hfirst, -⟩ := render_eq_first_fault hb (show 6 < 7 by decide) [.expressionStatement]
      { target := { major := 0, minor := 7, patch := 6 } }
    refine (hfirst _).2 ⟨[6, 0, 1, 5], 2, [4, 3], rfl, .inr ?_, ?_, ?_⟩
    · rintro ⟨hlist, -⟩
      cases hlist
    · exact .unavailable rfl (by decide) (by simp [Version.Before])
    · intro earlier hearlier _ other
      simp only [List.mem_cons, List.not_mem_nil, or_false] at hearlier
      rcases hearlier with rfl | rfl | rfl | rfl
      all_goals exact not_fault_of_kind rfl (by decide) (by decide) (by decide)

end Writer

end SolText
