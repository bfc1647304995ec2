import SolText.Proofs.SourceMap.Recorded

/-!
# How far the search drifts from the record

A tree that was written is mapped in two ways: by adding up the offsets that were recorded, and by
searching for texts. The search can be early, never late, and what it is early by adds up on the way
down.

* `SourceMap.Mapped`: a tree with both maps.
* `SourceMap.Mapped.child_eq`: the ranges of a child in both maps, by those of its parent.
* `SourceMap.Overtaken`: a node's text occurs ahead of the node, where the search meets it first.
* `SourceMap.live_eq_reconstruct_iff`: **the maps agree on a node exactly if no node on the way to it
  is overtaken.**
* `SourceMap.reconstruct_drift`: **the search is never late, and the maps agree exactly if no text
  occurs between its node and the elder sibling that was recorded before it.**
-/

namespace SolText.SourceMap

open Text

/-- A tree with the ranges that were recorded, and with the maps made by adding up and by searching. -/
structure Mapped (writer : Writer) (forest : Forest) (root : Handle) (fragments : FragmentMap)
    (relative found live : RangeMap) : Prop extends Written writer forest root fragments where
  recorded : ∃ text, writer.renderRecorded forest root ∅ = (.ok text, relative)
  located : Located writer.options.terminator forest root fragments (forest.walk root) found
  summed : Summed forest root relative (forest.walk root) live

variable {writer : Writer} {forest : Forest} {root node child parent : Nat}
  {fragments : FragmentMap} {relative found live : RangeMap} {range outer : Range} {start : Nat}
  {text : String}

/-- What was written can be mapped in both ways. -/
theorem exists_mapped (hs : forest.Sound) (hf : writer.Faithful forest)
    (h : writer.renderRecorded forest root ∅ = (.ok text, relative)) :
    ∃ fragments found live, writer.fragments forest root = .ok fragments ∧
      reconstruct writer.options.terminator forest root fragments = .ok found ∧
      absolute forest root relative = .ok live ∧
      Mapped writer forest root fragments relative found live := by
  obtain ⟨fragments, hfrag, hw⟩ := Written.of_fragments hs hf (Writer.render_of_renderRecorded h)
  obtain ⟨found, hfound, hl⟩ := hw.exists_reconstruct writer.options.terminator
  obtain ⟨live, hlive, hsum⟩ := exists_live hs hf h
  exact ⟨fragments, found, live, hfrag, hfound, hlive, hw, ⟨text, h⟩, hl, hsum⟩

section
variable (m : Mapped writer forest root fragments relative found live)
include m

/-- Every node has a range in the map made by searching. -/
theorem Mapped.exists_range (h : node ∈ forest.walk root) : ∃ range, found[node]? = some range :=
  Option.isSome_iff_exists.1 ((m.located.isSome_iff node).2 h)

theorem Mapped.exists_tracked : ∃ text, Tracked writer forest root text relative live := by
  obtain ⟨text, hrec⟩ := m.recorded
  exact ⟨text, m.sound, m.faithful, hrec, m.summed⟩

/-- The root has the same range in both maps, at the start. -/
theorem Mapped.root_eq : ∃ length, found[root]? = some ⟨0, length⟩ ∧ live[root]? = some ⟨0, length⟩ := by
  have hroot := m.sound.root_mem_walk root
  obtain ⟨range, hfound⟩ := m.exists_range hroot
  obtain ⟨kind, hk, rfl⟩ := m.located.root_eq hfound
  obtain ⟨text, t⟩ := m.exists_tracked
  obtain ⟨kind', hk', -, hlive⟩ := t.root_eq
  cases hk.symm.trans hk'
  have htext : fragments.text root = text := by
    rw [m.text_eq root hroot]
    exact Writer.textOf_eq t.render_eq
  refine ⟨_, hfound, ?_⟩
  rw [hlive, htext]

/-- A recorded child is in both maps, and so is its parent. Its range follows that of the parent: in
one map by the recorded offset, in the other by what the search finds. -/
theorem Mapped.child_eq (hp : parent ∈ forest.walk root) (hc : child ∈ forest.children parent)
    (hrel : relative[child]? = some range) :
    ∃ outer outer' start index, found[parent]? = some outer ∧ live[parent]? = some outer' ∧
      anchor forest found child parent outer.offset = .ok start ∧
      firstOccurrenceFrom start (fragments.text child) (fragments.text parent) = some index ∧
      start + index ≤ range.offset ∧
      found[child]? = some ⟨outer.offset + start + index, range.length⟩ ∧
      live[child]? = some ⟨outer'.offset + range.offset, range.length⟩ := by
  have hs := m.sound
  have hcw := hs.child_mem_walk root parent hp child hc
  have hne := hs.ne_root hp hc
  -- by adding up
  obtain ⟨text, t⟩ := m.exists_tracked
  have hmem : child ∈ relative := by
    rw [← Std.TreeMap.isSome_getElem?_iff_mem, hrel]
    rfl
  obtain ⟨value', hlive⟩ := t.exists_range hcw hmem
  obtain ⟨outer', inner, hout', hinner, hstands, rfl⟩ := t.child_eq hp hc hlive
  cases hrel.symm.trans hinner
  -- by searching
  obtain ⟨value, hfound⟩ := m.exists_range hcw
  obtain ⟨kind, outer, start, index, hk, hout, hstart, hfind, rfl⟩ :=
    m.located.child_eq hs hc hne hfound
  have hle := m.toWritten.found_le m.located hp hout hstands hstart hfind
  have hlen : coveredLength kind (fragments.text child) writer.options.terminator = range.length := by
    obtain ⟨before, after, kind', -, hk', rfl⟩ := hstands
    cases hk.symm.trans hk'
    rw [m.text_eq child hcw]
  rw [hlen] at hfound
  exact ⟨outer, outer', start, index, hout, hout', hstart, hfind, hle, hfound, hlive⟩

end

/-! ### Node by node -/

/-- The text of a node occurs in its parent's ahead of the node, but not ahead of where the search for
it starts. -/
def Overtaken (forest : Forest) (fragments : FragmentMap) (relative found : RangeMap) (node : Handle) :
    Prop :=
  ∃ parent outer start range offset, forest.parent node = some parent ∧
    found[parent]? = some outer ∧ anchor forest found node parent outer.offset = .ok start ∧
    relative[node]? = some range ∧ OccursAt (fragments.text node) (fragments.text parent) offset ∧
    start ≤ offset ∧ offset < range.offset

/-- A node is overtaken when it is found ahead of where it stands. -/
theorem overtaken_iff {index : Nat} (hp : forest.parent child = some parent)
    (hout : found[parent]? = some outer)
    (hstart : anchor forest found child parent outer.offset = .ok start)
    (hrel : relative[child]? = some range)
    (hfind : firstOccurrenceFrom start (fragments.text child) (fragments.text parent) = some index) :
    Overtaken forest fragments relative found child ↔ start + index < range.offset := by
  obtain ⟨-, hocc, hleast⟩ := firstOccurrenceFrom_eq_some_iff.1 hfind
  constructor
  · rintro ⟨p, outer', start', range', offset, hp', hout', hstart', hrel', hocc', hle, hlt⟩
    cases hp.symm.trans hp'
    cases hout.symm.trans hout'
    cases hstart.symm.trans hstart'
    cases hrel.symm.trans hrel'
    have := hleast offset hle hocc'
    omega
  · intro hlt
    exact ⟨parent, outer, start, range, start + index, hp, hout, hstart, hrel, hocc,
      Nat.le_add_right _ _, hlt⟩

/-- **What the search is early by adds up on the way down.** -/
theorem Mapped.agree_iff (m : Mapped writer forest root fragments relative found live) :
    ∀ node ∈ forest.walk root, ∀ a b : Range, found[node]? = some a → live[node]? = some b →
      a.length = b.length ∧ a.offset ≤ b.offset ∧
        (a.offset = b.offset ↔ ∀ top ∈ forest.walk root, top ≠ root → node ∈ forest.walk top →
          ¬Overtaken forest fragments relative found top) := by
  have hs := m.sound
  refine hs.walk_induction ?_ ?_
  · intro a b ha hb
    obtain ⟨length, hfound, hlive⟩ := m.root_eq
    cases hfound.symm.trans ha
    cases hlive.symm.trans hb
    refine ⟨rfl, Nat.le_refl _, iff_of_true rfl ?_⟩
    intro top htop hne hmem
    have h1 : root ≤ top := hs.le_of_mem_walk hmem
    have h2 : top ≤ root := hs.le_of_mem_walk htop
    exact absurd (Nat.le_antisymm h2 h1) hne
  · intro p hp ih c hc a b ha hb
    have hsome := ((m.summed.isSome_iff c).1 (by rw [hb]; rfl)).2
    obtain ⟨range, hrel⟩ := Option.isSome_iff_exists.1 hsome
    obtain ⟨outer, outer', start, index, hout, hout', hstart, hfind, hle, hfound, hlive⟩ :=
      m.child_eq hp hc hrel
    cases hfound.symm.trans ha
    cases hlive.symm.trans hb
    obtain ⟨-, hle', hiff⟩ := ih outer outer' hout hout'
    have hover := overtaken_iff (hs.parent_eq_iff.2 hc) hout hstart hrel hfind
    refine ⟨rfl, by show outer.offset + start + index ≤ outer'.offset + range.offset; omega, ?_⟩
    -- neither step is late, so the sums are equal only if both steps are
    have hsplit : outer.offset + start + index = outer'.offset + range.offset ↔
        outer.offset = outer'.offset ∧ ¬start + index < range.offset := by omega
    show outer.offset + start + index = outer'.offset + range.offset ↔ _
    rw [hsplit, hiff, ← hover]
    constructor
    · rintro ⟨habove, hself⟩ top htop hne hmem
      rcases (hs.child_mem_walk_iff hc).1 hmem with rfl | hpt
      · exact hself
      · exact habove top htop hne hpt
    · intro hall
      have hcw := hs.child_mem_walk root p hp c hc
      exact ⟨fun top htop hne hpt => hall top htop hne ((hs.child_mem_walk_iff hc).2 (Or.inr hpt)),
        hall c hcw (hs.ne_root hp hc) (hs.root_mem_walk c)⟩

/-- **The maps agree on a node exactly if no node on the way to it is overtaken.** -/
theorem live_eq_reconstruct_iff (hb : forest.Built) {options : Options}
    (h : (Writer.standard options).renderRecorded forest root ∅ = (.ok text, relative)) :
    ∃ fragments found live, (Writer.standard options).fragments forest root = .ok fragments ∧
      reconstruct options.terminator forest root fragments = .ok found ∧
      absolute forest root relative = .ok live ∧
      ∀ node : Handle, node ∈ live → (live[node]? = found[node]? ↔
        ∀ top ∈ forest.walk root, top ≠ root → node ∈ forest.walk top →
          ¬Overtaken forest fragments relative found top) := by
  have hs := hb.sound
  obtain ⟨fragments, found, live, hfrag, hfound, hlive, m⟩ :=
    exists_mapped hs (Writer.standard_faithful hs options) h
  refine ⟨fragments, found, live, hfrag, hfound, hlive, fun node hnode => ?_⟩
  rw [← Std.TreeMap.isSome_getElem?_iff_mem] at hnode
  have hwalk := ((m.summed.isSome_iff node).1 hnode).1
  obtain ⟨b, hb⟩ := Option.isSome_iff_exists.1 hnode
  obtain ⟨a, ha⟩ := m.exists_range hwalk
  obtain ⟨hlen, -, hiff⟩ := m.agree_iff node hwalk a b ha hb
  rw [← hiff, ha, hb]
  constructor
  · intro heq
    cases heq; rfl
  · intro hoff
    cases a; cases b
    simp only at hlen hoff
    rw [hlen, hoff]

/-- In `x + x` the second operand is not overtaken by the first. -/
theorem live_eq_reconstruct_sum :
    ∃ forest relative fragments found live,
      Forest.ofNodes [.identifier "x", .identifier "x", .binaryOperation "+" 0 1] = .ok forest ∧
      (Writer.standard {}).renderRecorded forest 2 ∅ = (.ok "x + x", relative) ∧
      (Writer.standard {}).fragments forest 2 = .ok fragments ∧
      reconstruct (some ';') forest 2 fragments = .ok found ∧
      absolute forest 2 relative = .ok live ∧
      live[1]? = some ⟨4, 1⟩ ∧ live[1]? = found[1]? := by
  have hforest : Forest.ofNodes [.identifier "x", .identifier "x", .binaryOperation "+" 0 1] =
      .ok ⟨#[⟨.identifier "x", some 2, []⟩, ⟨.identifier "x", some 2, []⟩,
        ⟨.binaryOperation "+" 0 1, none, [0, 1]⟩]⟩ := rfl
  obtain ⟨fragments, found, live, hfrag, hfound, hlive, hiff⟩ :=
    @live_eq_reconstruct_iff _ 2 _ _ (Forest.Built.ofNodes hforest) {} rfl
  refine ⟨_, _, fragments, found, live, hforest, rfl, hfrag, hfound, hlive, ?_⟩
  cases hfrag
  cases hfound
  cases hlive
  refine ⟨rfl, (hiff 1 (by decide)).2 ?_⟩
  intro top htop hne hmem
  have htop' : top ∈ [2, 0, 1] := htop
  simp only [List.mem_cons, List.not_mem_nil, or_false] at htop'
  rcases htop' with rfl | rfl | rfl
  · exact absurd rfl hne
  · exact absurd hmem (by decide)
  · intro hover
    have hlt : 1 + 3 < 4 :=
      (@overtaken_iff _ 1 2 _ _ _ ⟨4, 1⟩ ⟨0, 5⟩ 1 3 rfl rfl rfl rfl rfl).1 hover
    exact absurd hlt (by decide)

/-- In `return r;` the name is found in the keyword. -/
theorem live_ne_reconstruct_return :
    ∃ (forest : Forest) (fragments : FragmentMap) (relative found live : RangeMap),
      Forest.ofNodes [.identifier "r", .returnStatement (some 0)] = .ok forest ∧
      (Writer.standard {}).renderRecorded forest 1 ∅ = (.ok "return r;", relative) ∧
      (Writer.standard {}).fragments forest 1 = .ok fragments ∧
      reconstruct (some ';') forest 1 fragments = .ok found ∧
      absolute forest 1 relative = .ok live ∧
      fragments.text 0 = "r" ∧ live[0]? = some ⟨7, 1⟩ ∧ found[0]? = some ⟨0, 1⟩ :=
  ⟨_, _, _, _, _, rfl, rfl, rfl, rfl, rfl, rfl, rfl, rfl⟩

/-! ### By the recorded ranges alone -/

/-- The last of some siblings that has a text. -/
def lastWithText (fragments : FragmentMap) (siblings : List Handle) : Option Handle :=
  siblings.reverse.find? fun sibling => fragments.text sibling != ""

/-- Where the nearest elder sibling with a text was recorded to end, or the start of the parent if
there is none. -/
def elderEnd (forest : Forest) (fragments : FragmentMap) (relative : RangeMap)
    (parent node : Handle) : Nat :=
  match lastWithText fragments ((forest.children parent).takeWhile (· != node)) with
  | none => 0
  | some sibling => ((relative[sibling]?).map Range.stop).getD 0

theorem lastWithText_concat (siblings : List Handle) (sibling : Handle) :
    lastWithText fragments (siblings ++ [sibling]) =
      if fragments.text sibling = "" then lastWithText fragments siblings else some sibling := by
  unfold lastWithText
  rw [List.reverse_append, List.reverse_singleton, List.singleton_append, List.find?_cons]
  by_cases h : fragments.text sibling = ""
  · simp [h]
  · have hbne : (fragments.text sibling != "") = true := by simpa using h
    rw [if_neg h, hbne]

theorem mem_of_lastWithText {siblings : List Handle} {sibling : Handle}
    (h : lastWithText fragments siblings = some sibling) :
    sibling ∈ siblings ∧ fragments.text sibling ≠ "" := by
  have htext := List.find?_some h
  exact ⟨List.mem_reverse.1 (List.mem_of_find?_eq_some h), by simpa using htext⟩

theorem elderEnd_eq (hs : forest.Sound) {elder younger : List Nat}
    (hch : forest.children parent = elder ++ child :: younger) :
    elderEnd forest fragments relative parent child =
      match lastWithText fragments elder with
      | none => 0
      | some sibling => ((relative[sibling]?).map Range.stop).getD 0 := by
  have hnd := hs.nodup parent
  rw [hch] at hnd
  have helder : (elder ++ child :: younger).takeWhile (· != child) = elder := by
    rw [List.takeWhile_append_of_pos, List.takeWhile_cons]
    · simp
    · intro s hmem
      have hne := (List.nodup_append.1 hnd).2.2 s hmem child List.mem_cons_self
      simpa using hne
  unfold elderEnd
  rw [hch, helder]

/-- Nodes without a text do not move the search: it starts behind the last elder sibling that has
one. -/
theorem Located.anchor_eq {terminator : Option Char} {visited : List Nat} (hs : forest.Sound)
    (hl : Located terminator forest root fragments visited found) (hp : parent ∈ forest.walk root)
    (hout : found[parent]? = some outer) (elder : List Nat) :
    ∀ (child : Nat) (younger : List Nat) (start : Nat),
      forest.children parent = elder ++ child :: younger →
      anchor forest found child parent outer.offset = .ok start →
      match lastWithText fragments elder with
      | none => start = 0
      | some sibling => ∃ inner, found[sibling]? = some inner ∧ inner.stop = outer.offset + start := by
  induction elder using List.reverseRecOn with
  | nil =>
    intro c younger start hch hstart
    exact anchor_first hs hch hstart
  | append_singleton elder s ih =>
    intro c younger start hch hstart
    rw [List.append_assoc, List.singleton_append] at hch
    rw [lastWithText_concat]
    by_cases hempty : fragments.text s = ""
    · rw [if_pos hempty]
      obtain ⟨kind, start', index, -, hstart', hfind, rfl⟩ := hl.anchor_next hs hp hout hch hstart
      rw [hempty] at hfind
      rw [hempty, coveredLength_empty, eq_zero_of_firstOccurrenceFrom hfind]
      exact ih s (c :: younger) start' hch hstart'
    · rw [if_neg hempty]
      exact anchor_behind hs hch hstart

section
variable (m : Mapped writer forest root fragments relative found live)
include m

/-- A child with a text is recorded. -/
theorem Mapped.exists_relative (hp : parent ∈ forest.walk root) (hc : child ∈ forest.children parent)
    (htext : fragments.text child ≠ "") : ∃ range, relative[child]? = some range := by
  obtain ⟨text, hrec⟩ := m.recorded
  obtain ⟨pieces, hpieces, -⟩ := m.faithful.exists_pieces m.sound (m.render parent hp)
  have hmem : child ∈ Piece.handles pieces := by
    by_contra hnot
    apply htext
    rw [m.child_text_eq hp hc]
    exact m.faithful.textOf_omitted m.sound hpieces hc hnot
  obtain ⟨range, hstands⟩ := m.faithful.exists_stands m.sound hpieces hmem
  exact ⟨range, (m.faithful.getElem?_relative_iff m.sound hrec (m.sound.ne_root hp hc)).2
    ⟨parent, hp, hstands⟩⟩

/-- Where the maps agree on a parent and on the elder siblings of a child, the search for the child
starts behind the last of them that has a text. -/
theorem Mapped.start_eq (hp : parent ∈ forest.walk root) {elder younger : List Nat}
    (hch : forest.children parent = elder ++ child :: younger) (hout : found[parent]? = some outer)
    (hout' : live[parent]? = some outer)
    (hstart : anchor forest found child parent outer.offset = .ok start)
    (hagree : ∀ sibling ∈ elder, fragments.text sibling ≠ "" → found[sibling]? = live[sibling]?) :
    start = elderEnd forest fragments relative parent child := by
  have hanchor := m.located.anchor_eq m.sound hp hout elder child younger start hch hstart
  rw [elderEnd_eq m.sound hch]
  cases hlast : lastWithText fragments elder with
  | none =>
    rw [hlast] at hanchor
    exact hanchor
  | some s =>
    rw [hlast] at hanchor
    obtain ⟨inner, hinner, hstop⟩ := hanchor
    obtain ⟨hmem, htext⟩ := mem_of_lastWithText hlast
    have hsc : s ∈ forest.children parent := hch ▸ List.mem_append_left _ hmem
    obtain ⟨range, hrel⟩ := m.exists_relative hp hsc htext
    obtain ⟨-, outer', -, -, -, hlive', -, -, -, -, hlive⟩ := m.child_eq hp hsc hrel
    cases hout'.symm.trans hlive'
    -- the sibling was found where it was recorded
    rw [hagree s hmem htext, hlive] at hinner
    cases hinner
    simp only [hrel, Option.map_some, Option.getD_some]
    unfold Range.stop at hstop ⊢
    simp only at hstop
    omega

/-- A node around a text has one. -/
theorem Mapped.text_ne_empty (hp : parent ∈ forest.walk root) (hc : child ∈ forest.children parent)
    (htext : fragments.text child ≠ "") : fragments.text parent ≠ "" := by
  obtain ⟨range, hrel⟩ := m.exists_relative hp hc htext
  obtain ⟨-, -, start, index, -, -, -, hfind, -⟩ := m.child_eq hp hc hrel
  have hle := (firstOccurrenceFrom_eq_some_iff.1 hfind).2.1.add_size_le
  intro hempty
  rw [hempty, String.utf8ByteSize_empty] at hle
  exact htext (String.utf8ByteSize_eq_zero_iff.1 (by omega))

/-- A recorded node other than the root has its parent in the tree. -/
theorem Mapped.exists_parent (hrel : node ∈ relative) (hne : node ≠ root) :
    ∃ parent ∈ forest.walk root, node ∈ forest.children parent := by
  obtain ⟨text, hrec⟩ := m.recorded
  obtain ⟨range, hrange⟩ := Option.isSome_iff_exists.1 (Std.TreeMap.isSome_getElem?_iff_mem.2 hrel)
  obtain ⟨p, hp, hstands⟩ := (m.faithful.getElem?_relative_iff m.sound hrec hne).1 hrange
  exact ⟨p, hp, hstands.mem_children m.faithful⟩

/-- The nodes with a text that are recorded are those of the tree. -/
theorem Mapped.mem_relative_iff (htext : fragments.text node ≠ "") :
    node ∈ relative ↔ node ∈ forest.walk root := by
  by_cases hne : node = root
  · subst hne
    obtain ⟨text, hrec⟩ := m.recorded
    obtain ⟨kind, -, hroot⟩ := Writer.getElem?_relative_root hrec
    refine iff_of_true ?_ (m.sound.root_mem_walk node)
    rw [← Std.TreeMap.isSome_getElem?_iff_mem, hroot]; rfl
  · constructor
    · intro hrel
      obtain ⟨p, hp, hc⟩ := m.exists_parent hrel hne
      exact m.sound.child_mem_walk root p hp node hc
    · intro hwalk
      obtain ⟨p, hp, hc⟩ := m.sound.exists_parent hwalk hne
      obtain ⟨range, hrange⟩ := m.exists_relative hp hc htext
      rw [← Std.TreeMap.isSome_getElem?_iff_mem, hrange]; rfl

end

/-- The text of a node occurs in its parent's ahead of the recorded range, and not ahead of where its
elder siblings end. -/
def Ahead (forest : Forest) (fragments : FragmentMap) (relative : RangeMap) (node : Handle) : Prop :=
  ∃ parent range offset, forest.parent node = some parent ∧ relative[node]? = some range ∧
    OccursAt (fragments.text node) (fragments.text parent) offset ∧
    elderEnd forest fragments relative parent node ≤ offset ∧ offset < range.offset

section
variable (m : Mapped writer forest root fragments relative found live)
include m

/-- The maps agree if no text occurs ahead of its node. -/
theorem Mapped.agree_of_not_ahead
    (hno : ∀ node ∈ forest.walk root, node ≠ root → fragments.text node ≠ "" →
      ¬Ahead forest fragments relative node) :
    ∀ node ∈ forest.walk root, fragments.text node ≠ "" → found[node]? = live[node]? := by
  have hs := m.sound
  refine hs.walk_induction (fun _ => ?_) fun p hp ih => ?_
  · obtain ⟨length, hfound, hlive⟩ := m.root_eq
    rw [hfound, hlive]
  -- from the eldest child to the youngest
  refine Forest.children_induction fun elder c younger hch helder htext => ?_
  have hc : c ∈ forest.children p := hch ▸ List.mem_append_right _ List.mem_cons_self
  obtain ⟨range, hrel⟩ := m.exists_relative hp hc htext
  obtain ⟨outer, outer', start, index, hout, hout', hstart, hfind, hle, hfound, hlive⟩ :=
    m.child_eq hp hc hrel
  have hparent := ih (m.text_ne_empty hp hc htext)
  rw [hout, hout'] at hparent
  cases hparent
  have hstart_eq := m.start_eq hp hch hout hout' hstart helder
  have hnot : ¬start + index < range.offset := by
    intro hlt
    exact hno c (hs.child_mem_walk root p hp c hc) (hs.ne_root hp hc) htext
      ⟨p, range, start + index, hs.parent_eq_iff.2 hc, hrel,
        (firstOccurrenceFrom_eq_some_iff.1 hfind).2.1, by omega, hlt⟩
  have hoff : outer.offset + start + index = outer.offset + range.offset := by omega
  rw [hfound, hlive, hoff]

/-- No text occurs ahead of its node if the maps agree. -/
theorem Mapped.not_ahead_of_agree
    (hagree : ∀ node ∈ forest.walk root, fragments.text node ≠ "" → found[node]? = live[node]?)
    (hp : parent ∈ forest.walk root) (hc : child ∈ forest.children parent)
    (htext : fragments.text child ≠ "") : ¬Ahead forest fragments relative child := by
  have hs := m.sound
  rintro ⟨p, range, offset, hparent, hrel, hocc, hge, hlt⟩
  rw [hs.parent_eq_iff.2 hc] at hparent
  cases hparent
  obtain ⟨outer, outer', start, index, hout, hout', hstart, hfind, -, hfound, hlive⟩ :=
    m.child_eq hp hc hrel
  have hsame := hagree parent hp (m.text_ne_empty hp hc htext)
  rw [hout, hout'] at hsame
  cases hsame
  obtain ⟨elder, younger, hch⟩ := List.append_of_mem hc
  have hstart_eq := m.start_eq hp hch hout hout' hstart fun s hmem =>
    hagree s (hs.child_mem_walk root parent hp s (hch ▸ List.mem_append_left _ hmem))
  -- the search meets the occurrence ahead, and would have put the node there or earlier
  have hleast := (firstOccurrenceFrom_eq_some_iff.1 hfind).2.2 offset (by omega) hocc
  have hchild := hagree child (hs.child_mem_walk root parent hp child hc) htext
  rw [hfound, hlive] at hchild
  have hoff := congrArg Range.offset (Option.some.inj hchild)
  simp only at hoff
  omega

end

/-- **The search is never late, and the maps agree exactly if no text occurs ahead of its node.** -/
theorem reconstruct_drift (hb : forest.Built) {options : Options}
    (h : (Writer.standard options).renderRecorded forest root ∅ = (.ok text, relative)) :
    ∃ fragments found live, (Writer.standard options).fragments forest root = .ok fragments ∧
      reconstruct options.terminator forest root fragments = .ok found ∧
      absolute forest root relative = .ok live ∧
      (∀ (node : Handle) (range : Range), node ≠ root → relative[node]? = some range →
        ∃ parent inner outer, forest.parent node = some parent ∧ found[node]? = some inner ∧
          found[parent]? = some outer ∧ inner.length = range.length ∧
          outer.offset ≤ inner.offset ∧ inner.offset - outer.offset ≤ range.offset) ∧
      ((∀ node : Handle, node ∈ relative → fragments.text node ≠ "" →
          found[node]? = live[node]?) ↔
        ∀ node : Handle, node ∈ relative → node ≠ root → fragments.text node ≠ "" →
          ¬Ahead forest fragments relative node) := by
  have hs := hb.sound
  obtain ⟨fragments, found, live, hfrag, hfound, hlive, m⟩ :=
    exists_mapped hs (Writer.standard_faithful hs options) h
  refine ⟨fragments, found, live, hfrag, hfound, hlive, ?_, ?_, ?_⟩
  · intro node range hne hrel
    have hmem : node ∈ relative := Std.TreeMap.isSome_getElem?_iff_mem.1 (by rw [hrel]; rfl)
    obtain ⟨p, hp, hc⟩ := m.exists_parent hmem hne
    obtain ⟨outer, -, start, index, hout, -, -, -, hle, hinner, -⟩ := m.child_eq hp hc hrel
    refine ⟨p, _, outer, hs.parent_eq_iff.2 hc, hinner, hout, rfl, ?_, ?_⟩
    · show outer.offset ≤ outer.offset + start + index
      omega
    · show outer.offset + start + index - outer.offset ≤ range.offset
      omega
  · intro hagree node hnode hne htext
    obtain ⟨p, hp, hc⟩ := m.exists_parent hnode hne
    refine m.not_ahead_of_agree (fun other hwalk hother => ?_) hp hc htext
    exact hagree other ((m.mem_relative_iff hother).2 hwalk) hother
  · intro hno node hnode htext
    refine m.agree_of_not_ahead (fun other hwalk hne hother => ?_) node
      ((m.mem_relative_iff htext).1 hnode) htext
    exact hno other ((m.mem_relative_iff hother).2 hwalk) hne hother

/-- The search is early in `return r;`, since the name occurs ahead of its node. -/
theorem reconstruct_drift_return :
    ∃ (forest : Forest) (fragments : FragmentMap) (relative found live : RangeMap),
      Forest.ofNodes [.identifier "r", .returnStatement (some 0)] = .ok forest ∧
      (Writer.standard {}).renderRecorded forest 1 ∅ = (.ok "return r;", relative) ∧
      (Writer.standard {}).fragments forest 1 = .ok fragments ∧
      reconstruct (some ';') forest 1 fragments = .ok found ∧
      absolute forest 1 relative = .ok live ∧
      (∃ inner outer, found[0]? = some inner ∧ found[1]? = some outer ∧ inner.length = 1 ∧
        outer.offset ≤ inner.offset ∧ inner.offset - outer.offset ≤ 7) ∧
      ¬∀ node : Handle, node ∈ relative → fragments.text node ≠ "" →
        found[node]? = live[node]? := by
  have hforest : Forest.ofNodes [.identifier "r", .returnStatement (some 0)] =
      .ok ⟨#[⟨.identifier "r", some 1, []⟩, ⟨.returnStatement (some 0), none, [0]⟩]⟩ := rfl
  obtain ⟨fragments, found, live, hfrag, hfound, hlive, hle, hiff⟩ :=
    @reconstruct_drift _ 1 _ _ (Forest.Built.ofNodes hforest) {} rfl
  refine ⟨_, fragments, _, found, live, hforest, rfl, hfrag, hfound, hlive, ?_, ?_⟩
  · obtain ⟨p, inner, outer, hp, hinner, houter, hrest⟩ := hle 0 ⟨7, 1⟩ (by decide) rfl
    cases hp
    exact ⟨inner, outer, hinner, houter, hrest⟩
  · intro hagree
    cases hfrag
    exact hiff.1 hagree 0 (by decide) (by decide) (by decide)
      ⟨1, ⟨7, 1⟩, 0, rfl, rfl, ⟨"", "eturn r;", rfl, rfl⟩, by decide, by decide⟩

end SolText.SourceMap
