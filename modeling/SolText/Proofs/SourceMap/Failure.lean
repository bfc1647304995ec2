import SolText.Proofs.SourceMap.Search

/-!
# Where the search fails

The texts may be any at all. Even so the search comes to a node only after its parent and its previous
sibling, so it knows where to start; and it starts behind the covered part of an occurrence, where a
character ends. What is left to fail is the search itself.

* `SourceMap.SearchStart`: where the search for a node starts, told by the texts alone.
* `SourceMap.Located.exists_ready`: **the search knows where to start**, at every node it comes to.
* `SourceMap.Lost`: a text that does not occur where the search looks for it.
* `SourceMap.Ready.locate_eq_error_iff`: where the search knows where to start, it fails for a lost text
  only.
* `SourceMap.exists_reconstruct_iff`: the search succeeds exactly if no text is lost.
* `SourceMap.reconstruct_fails_where_lost`: **the search fails exactly if a text is lost, and at the
  first.**
-/

namespace SolText.SourceMap

open Text

/-- The leftmost occurrence of a text at or after a position. -/
structure FoundAt (fragment text : String) (start found : Nat) : Prop where
  start_le : start ≤ found
  occursAt : OccursAt fragment text found
  le : ∀ other, start ≤ other → OccursAt fragment text other → found ≤ other

/-- Where the search for a child of `parent` starts: at the start of the parent, or behind what the
previous sibling covers where it was found. -/
inductive SearchStart (terminator : Option Char) (forest : Forest) (fragments : FragmentMap)
    (parent : Handle) : Handle → Nat → Prop where
  | first {child : Handle} : forest.previousSibling child = none →
      SearchStart terminator forest fragments parent child 0
  | behind {child sibling : Handle} {start found : Nat} {kind : Kind} :
      forest.previousSibling child = some sibling →
      SearchStart terminator forest fragments parent sibling start →
      FoundAt (fragments.text sibling) (fragments.text parent) start found →
      forest.kind sibling = .ok kind →
      SearchStart terminator forest fragments parent child
        (found + coveredLength kind (fragments.text sibling) terminator)

/-- The text of a node does not occur where the search looks for it. -/
structure Lost (terminator : Option Char) (forest : Forest) (fragments : FragmentMap)
    (node parent : Handle) (start : Nat) : Prop where
  parent_eq : forest.parent node = some parent
  searchStart : SearchStart terminator forest fragments parent node start
  absent : ∀ offset, start ≤ offset → ¬OccursAt (fragments.text node) (fragments.text parent) offset

/-- The complaint about the first lost node on a walk. -/
def FirstLost (terminator : Option Char) (forest : Forest) (root : Handle) (fragments : FragmentMap)
    (error : PlacementError) : Prop :=
  ∃ before node after parent start, forest.walk root = before ++ node :: after ∧ node ≠ root ∧
    Lost terminator forest fragments node parent start ∧
    error = .notFound node parent start (forest.dump node) ∧
    ∀ earlier ∈ before, earlier ≠ root →
      ∀ parent start, ¬Lost terminator forest fragments earlier parent start

variable {terminator : Option Char} {forest : Forest} {root node child parent : Nat}
  {fragments : FragmentMap} {computed : RangeMap} {outer : Range} {start start' : Nat}
  {visited before after : List Nat} {error : PlacementError}

/-! ### Where the search starts -/

theorem FoundAt.of_firstOccurrenceFrom {fragment text : String} {index : Nat}
    (h : firstOccurrenceFrom start fragment text = some index) :
    FoundAt fragment text start (start + index) := by
  obtain ⟨-, hocc, hleast⟩ := firstOccurrenceFrom_eq_some_iff.1 h
  exact ⟨Nat.le_add_right start index, hocc, hleast⟩

theorem FoundAt.unique {fragment text : String} {found found' : Nat}
    (h : FoundAt fragment text start found) (h' : FoundAt fragment text start found') :
    found = found' := by
  have hle := h.le found' h'.start_le h'.occursAt
  have hle' := h'.le found h.start_le h.occursAt
  omega

/-- The texts leave no choice where the search starts. -/
theorem SearchStart.unique (h : SearchStart terminator forest fragments parent child start)
    (h' : SearchStart terminator forest fragments parent child start') : start = start' := by
  induction h generalizing start' with
  | first hnone =>
    cases h' with
    | first _ => rfl
    | behind hsome _ _ _ => rw [hnone] at hsome; cases hsome
  | behind hsome _ hfound hkind ih =>
    cases h' with
    | first hnone => rw [hnone] at hsome; cases hsome
    | behind hsome' hstart' hfound' hkind' =>
      cases hsome.symm.trans hsome'
      cases hkind.symm.trans hkind'
      have hstart := ih hstart'
      subst hstart
      rw [hfound.unique hfound']

/-- **The search starts where a character ends.** -/
theorem SearchStart.isValid (h : SearchStart terminator forest fragments parent child start) :
    (⟨start⟩ : String.Pos.Raw).IsValid (fragments.text parent) := by
  cases h with
  | first _ => exact isValid_iff.2 ⟨"", fragments.text parent, by rw [String.empty_append], rfl⟩
  | behind _ _ hfound _ => exact hfound.occursAt.isValid_covered _ terminator

/-! ### One step -/

/-- The start that ranges give is the one that the texts give. -/
theorem Located.searchStart (hs : forest.Sound)
    (hl : Located terminator forest root fragments visited computed)
    (hp : parent ∈ forest.walk root) (hout : computed[parent]? = some outer) (elder : List Nat) :
    ∀ (child : Nat) (younger : List Nat) (start : Nat),
      forest.children parent = elder ++ child :: younger →
      anchor forest computed child parent outer.offset = .ok start →
      SearchStart terminator forest fragments parent child start := by
  -- along the elder siblings, each of which was found in its turn
  induction elder using List.reverseRecOn with
  | nil =>
    intro child younger start hch hstart
    have hnone : forest.previousSibling child = none := hs.previousSibling_eq hch
    rw [anchor_first hs hch hstart]
    exact .first hnone
  | append_singleton elder sibling ih =>
    intro child younger start hch hstart
    rw [List.append_assoc, List.singleton_append] at hch
    obtain ⟨kind, start', index, hk, hstart', hfind, rfl⟩ := hl.anchor_next hs hp hout hch hstart
    exact .behind (hs.previousSibling_next hch) (ih sibling (child :: younger) start' hch hstart')
      (.of_firstOccurrenceFrom hfind) hk

/-- What the search knows when it comes to a node: the ranges of the parent and of the previous
sibling, and from them a position in the parent's text to start at. -/
structure Ready (terminator : Option Char) (forest : Forest) (fragments : FragmentMap)
    (computed : RangeMap) (node parent : Handle) (outer : Range) (start : Nat) : Prop where
  parent_eq : forest.parent node = some parent
  outer_eq : computed[parent]? = some outer
  first : forest.previousSibling node = none → start = 0
  behind : ∀ sibling, forest.previousSibling node = some sibling →
    ∃ previous, computed[sibling]? = some previous ∧ outer.offset ≤ previous.stop ∧
      start = previous.stop - outer.offset
  isValid : (⟨start⟩ : String.Pos.Raw).IsValid (fragments.text parent)
  searchStart : SearchStart terminator forest fragments parent node start

theorem Ready.anchor_eq (h : Ready terminator forest fragments computed node parent outer start) :
    anchor forest computed node parent outer.offset = .ok start := by
  rw [anchor_eq_ok_iff]
  cases hsib : forest.previousSibling node with
  | none => exact Or.inl ⟨rfl, h.first hsib⟩
  | some sibling =>
    obtain ⟨previous, hprevious, hle, hstart⟩ := h.behind sibling hsib
    exact Or.inr ⟨sibling, previous, rfl, hprevious, by omega⟩

/-- **The search knows where to start** at a node whose parent and previous sibling have ranges. -/
theorem Located.exists_ready_child (hs : forest.Sound)
    (hl : Located terminator forest root fragments visited computed)
    (hpw : parent ∈ forest.walk root) (hc : node ∈ forest.children parent) (hp : parent ∈ visited)
    (hprev : ∀ sibling, forest.previousSibling node = some sibling → sibling ∈ visited) :
    ∃ outer start, Ready terminator forest fragments computed node parent outer start := by
  obtain ⟨outer, hout⟩ := Option.isSome_iff_exists.1 ((hl.isSome_iff parent).2 hp)
  obtain ⟨start, hstart⟩ := hl.exists_anchor hs hpw hout hc hprev
  obtain ⟨elder, younger, hch⟩ := List.append_of_mem hc
  have hsearch := hl.searchStart hs hpw hout elder node younger start hch hstart
  refine ⟨outer, start, hs.parent_eq_iff.2 hc, hout, ?_, ?_, hsearch.isValid, hsearch⟩
  · intro hnone
    rcases anchor_eq_ok_iff.1 hstart with ⟨-, hzero⟩ | ⟨sibling, -, hsome, -⟩
    · exact hzero
    · rw [hnone] at hsome; cases hsome
  · intro sibling hsib
    rcases anchor_eq_ok_iff.1 hstart with ⟨hnone, -⟩ | ⟨other, previous, hsome, hprevious, hstop⟩
    · rw [hsib] at hnone; cases hnone
    · cases hsib.symm.trans hsome
      exact ⟨previous, hprevious, by omega, by omega⟩

/-- So it does at every node of a walk of which it has visited the part before the node. -/
theorem Located.exists_ready (hs : forest.Sound)
    (hl : Located terminator forest root fragments visited computed)
    (hwalk : forest.walk root = before ++ node :: after) (hne : node ≠ root)
    (hvisited : ∀ earlier ∈ before, earlier ∈ visited) :
    ∃ parent outer start, Ready terminator forest fragments computed node parent outer start := by
  obtain ⟨⟨parent, hp, hc⟩, hprev⟩ := hs.visited_before root before after node hwalk hne
  have hpw : parent ∈ forest.walk root := hwalk ▸ List.mem_append_left _ hp
  obtain ⟨outer, start, hready⟩ := hl.exists_ready_child hs hpw hc (hvisited parent hp)
    fun sibling hsib => hvisited sibling (hprev sibling hsib)
  exact ⟨parent, outer, start, hready⟩

theorem Ready.locate_eq {kind : Kind} (hk : forest.kind node = .ok kind)
    (h : Ready terminator forest fragments computed node parent outer start) :
    locate terminator forest fragments computed node =
      match firstOccurrenceFrom start (fragments.text node) (fragments.text parent) with
      | some index =>
        .ok ⟨outer.offset + start + index, coveredLength kind (fragments.text node) terminator⟩
      | none => .error (.notFound node parent start (forest.dump node)) := by
  unfold locate
  rw [lengthOf_eq_ok_iff.2 ⟨kind, hk, rfl⟩, h.parent_eq]
  simp only [bind, Except.bind, h.outer_eq, h.anchor_eq]
  cases firstOccurrenceFrom start (fragments.text node) (fragments.text parent) <;> rfl

/-- **A node for which the search can start is not located exactly if its text is lost.** -/
theorem Ready.locate_eq_error_iff {kind : Kind} (hk : forest.kind node = .ok kind)
    (h : Ready terminator forest fragments computed node parent outer start) :
    locate terminator forest fragments computed node = .error error ↔
      ∃ parent start, Lost terminator forest fragments node parent start ∧
        error = .notFound node parent start (forest.dump node) := by
  rw [h.locate_eq hk]
  constructor
  · intro herror
    cases hfind : firstOccurrenceFrom start (fragments.text node) (fragments.text parent) with
    | some index => rw [hfind] at herror; cases herror
    | none =>
      rw [hfind] at herror
      cases herror
      have habsent := (firstOccurrenceFrom_eq_none_iff h.isValid).1 hfind
      exact ⟨parent, start, ⟨h.parent_eq, h.searchStart, habsent⟩, rfl⟩
  · rintro ⟨parent', start', hlost, rfl⟩
    -- the texts leave no choice, so this is the start that the search has
    cases h.parent_eq.symm.trans hlost.parent_eq
    cases h.searchStart.unique hlost.searchStart
    rw [(firstOccurrenceFrom_eq_none_iff h.isValid).2 hlost.absent]

/-- A node that has a range is not lost, if the search can start for it. -/
theorem Ready.not_lost {kind : Kind} (hk : forest.kind node = .ok kind)
    (h : Ready terminator forest fragments computed node parent outer start)
    (hl : Located terminator forest root fragments visited computed) (hne : node ≠ root)
    (hmem : node ∈ visited) : ∀ parent start, ¬Lost terminator forest fragments node parent start := by
  intro parent' start' hlost
  obtain ⟨range, hrange⟩ := Option.isSome_iff_exists.1 ((hl.isSome_iff node).2 hmem)
  have hok := hl.place_eq node range hrange
  have herror := (h.locate_eq_error_iff hk).2 ⟨parent', start', hlost, rfl⟩
  rw [place_child hne, herror] at hok
  cases hok

section
variable (hs : forest.Sound) (hroot : root < forest.size)
  (hl : Located terminator forest root fragments visited computed)
  (hwalk : forest.walk root = before ++ node :: after) (hne : node ≠ root)
  (hvisited : ∀ earlier ∈ before, earlier ∈ visited)
include hs hroot hl hwalk hne hvisited

/-- On a walk, a node is not placed exactly if its text is lost. -/
theorem Located.place_eq_error_iff :
    place terminator forest root fragments computed node = .error error ↔
      ∃ parent start, Lost terminator forest fragments node parent start ∧
        error = .notFound node parent start (forest.dump node) := by
  have hnode : node ∈ forest.walk root := hwalk ▸ List.mem_append_right _ List.mem_cons_self
  obtain ⟨value, hn⟩ := Forest.node?_isSome (hs.lt_size_of_mem_walk hroot hnode)
  obtain ⟨parent, outer, start, hready⟩ := hl.exists_ready hs hwalk hne hvisited
  rw [place_child hne]
  exact hready.locate_eq_error_iff (Forest.kind_eq_ok hn)

/-- A node that has a range is not lost. -/
theorem Located.not_lost (hmem : node ∈ visited) :
    ∀ parent start, ¬Lost terminator forest fragments node parent start := by
  have hnode : node ∈ forest.walk root := hwalk ▸ List.mem_append_right _ List.mem_cons_self
  obtain ⟨value, hn⟩ := Forest.node?_isSome (hs.lt_size_of_mem_walk hroot hnode)
  obtain ⟨parent, outer, start, hready⟩ := hl.exists_ready hs hwalk hne hvisited
  exact hready.not_lost (Forest.kind_eq_ok hn) hl hne hmem

end

/-! ### The whole walk -/

/-- The root itself is always placed. -/
theorem ne_root_of_place_eq_error (hroot : root < forest.size)
    (h : place terminator forest root fragments computed node = .error error) : node ≠ root := by
  intro he
  subst he
  obtain ⟨value, hn⟩ := Forest.node?_isSome hroot
  rw [place_root_eq_ok_iff.2 ⟨_, Forest.kind_eq_ok hn, rfl⟩] at h
  cases h

/-- The search as far as some nodes fails at the first of them that is lost. -/
theorem exists_lost_of_searched (hs : forest.Sound) (hroot : root < forest.size) {rest : List Nat}
    (hwalk : forest.walk root = visited ++ rest)
    (h : searched terminator forest root fragments visited = .error error) :
    ∃ before node after parent start, visited = before ++ node :: after ∧ node ≠ root ∧
      Lost terminator forest fragments node parent start ∧
      error = .notFound node parent start (forest.dump node) ∧
      ∀ earlier ∈ before, earlier ≠ root →
        ∀ parent start, ¬Lost terminator forest fragments earlier parent start := by
  obtain ⟨before, node, after, computed, rfl, hsearched, hstep⟩ := foldlM_eq_error_iff.1 h
  rw [List.append_assoc, List.cons_append] at hwalk
  have hl := Located.of_searched hs hwalk hsearched
  have hplace : place terminator forest root fragments computed node = .error error := by
    cases hp : place terminator forest root fragments computed node with
    | error other => rw [hp] at hstep; cases hstep; rfl
    | ok range => rw [hp] at hstep; cases hstep
  have hne := ne_root_of_place_eq_error hroot hplace
  obtain ⟨parent, start, hlost, rfl⟩ :=
    (hl.place_eq_error_iff hs hroot hwalk hne fun _ hmem => hmem).1 hplace
  refine ⟨before, node, after, parent, start, rfl, hne, hlost, rfl, ?_⟩
  intro earlier hearlier hne'
  obtain ⟨front, back, rfl⟩ := List.append_of_mem hearlier
  rw [List.append_assoc, List.cons_append] at hwalk
  exact hl.not_lost hs hroot hwalk hne' (fun _ hmem => List.mem_append_left _ hmem) hearlier

/-- The search fails at the first lost node. -/
theorem reconstruct_eq_error_iff (hs : forest.Sound) (hroot : root < forest.size) :
    reconstruct terminator forest root fragments = .error error ↔
      FirstLost terminator forest root fragments error := by
  constructor
  · intro h
    exact exists_lost_of_searched hs hroot (List.append_nil _).symm h
  · rintro ⟨before, node, after, parent, start, hwalk, hne, hlost, rfl, hbefore⟩
    cases hsearched : searched terminator forest root fragments before with
    | ok computed =>
      have hl := Located.of_searched hs hwalk hsearched
      have hplace := (hl.place_eq_error_iff hs hroot hwalk hne fun _ hmem => hmem).2
        ⟨parent, start, hlost, rfl⟩
      exact foldlM_eq_error_iff.2
        ⟨before, node, after, computed, hwalk, hsearched, by rw [hplace]; rfl⟩
    | error other =>
      -- then a node before this one would be lost
      obtain ⟨front, earlier, back, parent', start', rfl, hne', hlost', -, -⟩ :=
        exists_lost_of_searched hs hroot hwalk hsearched
      have hmem : earlier ∈ front ++ earlier :: back :=
        List.mem_append_right _ List.mem_cons_self
      exact absurd hlost' (hbefore earlier hmem hne' parent' start')

/-- The search succeeds exactly if no text is lost. -/
theorem exists_reconstruct_iff (hs : forest.Sound) (hroot : root < forest.size) :
    (∃ ranges, reconstruct terminator forest root fragments = .ok ranges) ↔
      ∀ node ∈ forest.walk root, node ≠ root →
        ∀ parent start, ¬Lost terminator forest fragments node parent start := by
  constructor
  · rintro ⟨ranges, h⟩ node hnode hne
    obtain ⟨before, after, hwalk⟩ := List.append_of_mem hnode
    have hvisited : ∀ earlier ∈ before, earlier ∈ forest.walk root := fun _ hmem =>
      hwalk ▸ List.mem_append_left _ hmem
    exact (Located.of_reconstruct hs h).not_lost hs hroot hwalk hne hvisited hnode
  · intro hno
    cases h : reconstruct terminator forest root fragments with
    | ok ranges => exact ⟨ranges, rfl⟩
    | error error =>
      obtain ⟨before, node, after, parent, start, hwalk, hne, hlost, -, -⟩ :=
        (reconstruct_eq_error_iff hs hroot).1 h
      have hnode : node ∈ forest.walk root := hwalk ▸ List.mem_append_right _ List.mem_cons_self
      exact absurd hlost (hno node hnode hne parent start)

/-- A root that is not there is where the search ends at once. -/
theorem reconstruct_unknown (hs : forest.Sound) (h : forest.size ≤ root) :
    reconstruct terminator forest root fragments = .error (.forest (.unknown root)) := by
  have hkind : forest.kind root = .error (.unknown root) := by
    unfold Forest.kind Forest.node
    rw [Forest.node?_eq_none h]; rfl
  have hplace : ∀ computed, place terminator forest root fragments computed root =
      .error (.forest (.unknown root)) := by
    intro computed
    unfold place lengthOf
    rw [if_pos rfl, hkind]; rfl
  unfold reconstruct
  rw [hs.walk_eq, List.foldlM_cons, hplace]; rfl

/-- **The search fails exactly if a text is lost, and at the first.** Whatever the texts, at every node
that it comes to the parent and the previous sibling have ranges, the sibling's range stops at or
after the start of the parent's, and the search starts where a character ends. -/
theorem reconstruct_fails_where_lost (hb : forest.Built) (terminator : Option Char) (root : Handle)
    (fragments : FragmentMap) :
    (forest.size ≤ root →
      reconstruct terminator forest root fragments = .error (.forest (.unknown root))) ∧
    (root < forest.size →
      (∀ before node after computed, forest.walk root = before ++ node :: after → node ≠ root →
        searched terminator forest root fragments before = .ok computed →
        ∃ parent outer start,
          Ready terminator forest fragments computed node parent outer start) ∧
      ((∃ error, reconstruct terminator forest root fragments = .error error) ↔
        ∃ node ∈ forest.walk root, node ≠ root ∧
          ∃ parent start, Lost terminator forest fragments node parent start) ∧
      ∀ error, reconstruct terminator forest root fragments = .error error ↔
        FirstLost terminator forest root fragments error) := by
  have hs := hb.sound
  refine ⟨fun hunknown => ?_, fun hroot => ⟨?_, ⟨?_, ?_⟩, fun error => ?_⟩⟩
  · exact reconstruct_unknown hs hunknown
  · intro before node after computed hwalk hne hsearched
    exact (Located.of_searched hs hwalk hsearched).exists_ready hs hwalk hne fun _ hmem => hmem
  · rintro ⟨error, h⟩
    obtain ⟨before, node, after, parent, start, hwalk, hne, hlost, -, -⟩ :=
      (reconstruct_eq_error_iff hs hroot).1 h
    exact ⟨node, hwalk ▸ List.mem_append_right _ List.mem_cons_self, hne, parent, start, hlost⟩
  · rintro ⟨node, hnode, hne, parent, start, hlost⟩
    cases h : reconstruct terminator forest root fragments with
    | error error => exact ⟨error, rfl⟩
    | ok ranges =>
      have hl := Located.of_reconstruct hs h
      obtain ⟨before, after, hwalk⟩ := List.append_of_mem hnode
      have hvisited : ∀ earlier ∈ before, earlier ∈ forest.walk root := fun _ hmem =>
        hwalk ▸ List.mem_append_left _ hmem
      exact absurd hlost (hl.not_lost hs hroot hwalk hne hvisited hnode parent start)
  · exact reconstruct_eq_error_iff hs hroot

/-- The terminator takes two bytes, and what it leaves of the first statement ends behind one. From
there on the second statement is not found. -/
theorem reconstruct_fails_where_lost_block :
    ∃ (forest : Forest) (fragments : FragmentMap),
      Forest.ofNodes [.breakStatement, .continueStatement, .block [0, 1]] = .ok forest ∧
      fragments = .ofList [(0, "bü"), (1, "cü"), (2, "bücx")] ∧
      (∃ computed parent outer start,
        searched (some 'ü') forest 2 fragments [2, 0] = .ok computed ∧
        Ready (some 'ü') forest fragments computed 1 parent outer start) ∧
      FirstLost (some 'ü') forest 2 fragments (.notFound 1 2 1 (forest.dump 1)) ∧
      reconstruct (some 'ü') forest 2 fragments = .error (.notFound 1 2 1 (forest.dump 1)) ∧
      reconstruct (some 'ü') forest 3 fragments = .error (.forest (.unknown 3)) := by
  have hforest : Forest.ofNodes [.breakStatement, .continueStatement, .block [0, 1]] =
      .ok ⟨#[⟨.breakStatement, some 2, []⟩, ⟨.continueStatement, some 2, []⟩,
        ⟨.block [0, 1], none, [0, 1]⟩]⟩ := rfl
  have hb := Forest.Built.ofNodes hforest
  obtain ⟨-, hknown⟩ := reconstruct_fails_where_lost hb (some 'ü') 2
    (.ofList [(0, "bü"), (1, "cü"), (2, "bücx")])
  obtain ⟨hunknown, -⟩ := reconstruct_fails_where_lost hb (some 'ü') 3
    (.ofList [(0, "bü"), (1, "cü"), (2, "bücx")])
  obtain ⟨hready, -, hfirst⟩ := hknown (by decide)
  obtain ⟨parent, outer, start, h⟩ := hready [2, 0] 1 [] _ rfl (by decide) rfl
  -- the first statement stands at the start of the block
  have hfound : FoundAt "bü" "bücx" 0 0 :=
    ⟨Nat.le_refl 0, ⟨"", "cx", rfl, rfl⟩, fun _ _ _ => Nat.zero_le _⟩
  have hstart : SearchStart (some 'ü')
      ⟨#[⟨.breakStatement, some 2, []⟩, ⟨.continueStatement, some 2, []⟩,
        ⟨.block [0, 1], none, [0, 1]⟩]⟩
      (.ofList [(0, "bü"), (1, "cü"), (2, "bücx")]) 2 1
      (0 + coveredLength .breakStatement "bü" (some 'ü')) :=
    @SearchStart.behind _ _ _ 2 1 0 0 0 .breakStatement rfl (.first rfl) (by exact hfound) rfl
  have habsent := (firstOccurrenceFrom_eq_none_iff hstart.isValid).1
    (show firstOccurrenceFrom 1 "cü" "bücx" = none by decide)
  have hearlier : ∀ parent start, ¬Lost (some 'ü')
      ⟨#[⟨.breakStatement, some 2, []⟩, ⟨.continueStatement, some 2, []⟩,
        ⟨.block [0, 1], none, [0, 1]⟩]⟩
      (.ofList [(0, "bü"), (1, "cü"), (2, "bücx")]) 0 parent start := by
    rintro parent start ⟨hparent, hstart, habsent⟩
    cases hparent
    cases hstart with
    | first _ => exact habsent 0 (Nat.le_refl 0) hfound.occursAt
    | behind hsome _ _ _ => cases hsome
  have hlost := (hfirst (.notFound 1 2 1 _)).2 ⟨[2, 0], 1, [], 2, 1, rfl, by decide,
    ⟨rfl, hstart, habsent⟩, rfl, by simpa using hearlier⟩
  exact ⟨_, _, hforest, rfl, ⟨_, parent, outer, start, rfl, h⟩, (hfirst _).1 hlost, hlost,
    hunknown (by decide)⟩

end SolText.SourceMap
