import SolText.Proofs.SourceMap.Local

/-!
# Locating nodes one by one

A caller may locate the nodes of a tree in an order of its own and put every range that it gets into
the map for the calls to come. It is enough that each node comes after its parent and after its previous
sibling: where a node is found depends on nothing else, so all such orders lead to one map.

* `SourceMap.locateEach`: the map after calls for nodes in a given order.
* `SourceMap.AllLocated`: all calls succeed.
* `SourceMap.Admissible`: an order in which parents and previous siblings come first.
* `SourceMap.Located.of_calls`: calls that succeed put nodes where the search puts them.
* `SourceMap.Located.agree`: **the search can put nodes in one way only.**
* `SourceMap.Admissible.allLocated_iff`: all calls succeed exactly if no text is lost.
* `SourceMap.locate_in_any_order`: **every admissible order gives what the search gives**, and what goes
  wrong in the others.
-/

namespace SolText.SourceMap

open Text

section
variable (terminator : Option Char) (forest : Forest) (fragments : FragmentMap)

/-- The map after one more call. A node that is located is put into the map, and a failure leaves it as
it is. -/
def locateNext (computed : RangeMap) (handle : Handle) : RangeMap :=
  match locate terminator forest fragments computed handle with
  | .ok range => computed.insert handle range
  | .error _ => computed

/-- The map after calls for the given nodes, one after another. -/
def locateEach (start : RangeMap) (order : List Handle) : RangeMap :=
  order.foldl (locateNext terminator forest fragments) start

/-- Every call succeeds, with the map that the calls before it have left. -/
def AllLocated (start : RangeMap) (order : List Handle) : Prop :=
  ∀ before node after, order = before ++ node :: after → ∃ range,
    locate terminator forest fragments (locateEach terminator forest fragments start before) node =
      .ok range

end

/-- An order in which every node comes after its parent and after its previous sibling. The root is
there from the start. -/
def Admissible (forest : Forest) (root : Handle) (order : List Handle) : Prop :=
  ∀ before node after, order = before ++ node :: after →
    (∀ parent, forest.parent node = some parent → parent ∈ root :: before) ∧
      ∀ sibling, forest.previousSibling node = some sibling → sibling ∈ before

variable {terminator : Option Char} {forest : Forest} {root node parent sibling : Nat}
  {fragments : FragmentMap} {start computed computed' : RangeMap} {range outer : Range}
  {order before after visited visited' : List Nat} {kind : Kind} {error : PlacementError}

/-! ### Calls -/

theorem locateEach_concat (order : List Handle) (node : Handle) :
    locateEach terminator forest fragments start (order ++ [node]) =
      locateNext terminator forest fragments
        (locateEach terminator forest fragments start order) node := by
  unfold locateEach
  rw [List.foldl_append]
  rfl

theorem locateNext_eq (h : locate terminator forest fragments computed node = .ok range) :
    locateNext terminator forest fragments computed node = computed.insert node range := by
  unfold locateNext
  rw [h]

theorem AllLocated.left (h : AllLocated terminator forest fragments start (before ++ after)) :
    AllLocated terminator forest fragments start before := by
  intro front node back hbefore
  refine h front node (back ++ after) ?_
  rw [hbefore, List.append_assoc, List.cons_append]

/-- What holds of each item and of the items before it holds so if one more item comes. -/
theorem forall_splits_concat {α : Type} {P : List α → α → Prop} {items : List α} {last : α}
    (h : ∀ before item after, items = before ++ item :: after → P before item) (hlast : P items last) :
    ∀ before item after, items ++ [last] = before ++ item :: after → P before item := by
  intro before item after hsplit
  rcases Forest.append_eq_append_cons hsplit with ⟨rest, hitems⟩ | ⟨middle, rfl, hrest⟩
  · exact h before item rest hitems
  · cases middle with
    | nil =>
      cases hrest
      rw [List.append_nil]
      exact hlast
    | cons first middle => simp at hrest

theorem AllLocated.concat (h : AllLocated terminator forest fragments start order)
    (hnode : locate terminator forest fragments (locateEach terminator forest fragments start order)
      node = .ok range) : AllLocated terminator forest fragments start (order ++ [node]) :=
  forall_splits_concat h ⟨range, hnode⟩

theorem Admissible.nil : Admissible forest root [] := by
  intro before node after hsplit
  simp at hsplit

theorem Admissible.concat (h : Admissible forest root order)
    (hparent : ∀ parent, forest.parent node = some parent → parent ∈ root :: order)
    (hsibling : ∀ sibling, forest.previousSibling node = some sibling → sibling ∈ order) :
    Admissible forest root (order ++ [node]) :=
  forall_splits_concat h ⟨hparent, hsibling⟩

/-- If not all calls succeed, there is a first that fails. -/
theorem exists_first_failure (h : ¬AllLocated terminator forest fragments start order) :
    ∃ before node after error, order = before ++ node :: after ∧
      AllLocated terminator forest fragments start before ∧
      locate terminator forest fragments (locateEach terminator forest fragments start before) node =
        .error error := by
  induction order using List.reverseRecOn with
  | nil =>
    refine absurd ?_ h
    intro before node after hsplit
    simp at hsplit
  | append_singleton order last ih =>
    by_cases hall : AllLocated terminator forest fragments start order
    · cases hlast : locate terminator forest fragments
          (locateEach terminator forest fragments start order) last with
      | error error => exact ⟨order, last, [], error, rfl, hall, hlast⟩
      | ok range => exact absurd (hall.concat hlast) h
    · obtain ⟨before, node, after, error, rfl, hbefore, herror⟩ := ih hall
      refine ⟨before, node, after ++ [last], error, ?_, hbefore, herror⟩
      rw [List.append_assoc, List.cons_append]

/-- Only the nodes of the calls have come into the map. -/
theorem mem_of_mem_locateEach {key : Handle}
    (h : key ∈ locateEach terminator forest fragments start order) : key ∈ start ∨ key ∈ order := by
  induction order using List.reverseRecOn with
  | nil => exact Or.inl h
  | append_singleton order last ih =>
    rw [locateEach_concat] at h
    unfold locateNext at h
    split at h
    · rw [Std.TreeMap.mem_insert] at h
      rcases h with hlast | hbefore
      · rw [Std.LawfulEqCmp.eq_of_compare hlast]
        exact Or.inr (List.mem_append_right _ List.mem_cons_self)
      · exact (ih hbefore).imp_right (List.mem_append_left _)
    · exact (ih h).imp_right (List.mem_append_left _)

/-- A node that no call was made for has no range. -/
theorem getElem?_locateEach_eq_none {key : Handle} (hstart : start = (∅ : RangeMap).insert root range)
    (hkey : key ∉ root :: order) :
    (locateEach terminator forest fragments start order)[key]? = none := by
  rw [← Option.not_isSome_iff_eq_none, Std.TreeMap.isSome_getElem?_iff_mem]
  intro hmem
  rcases mem_of_mem_locateEach hmem with hroot | horder
  · rw [hstart, Std.TreeMap.mem_insert] at hroot
    rcases hroot with heq | hempty
    · exact hkey (Std.LawfulEqCmp.eq_of_compare heq ▸ List.mem_cons_self)
    · exact Std.TreeMap.not_mem_emptyc hempty
  · exact hkey (List.mem_cons_of_mem _ horder)

/-- A node whose parent has no range is refused. -/
theorem locate_eq_parentUnplaced (hk : forest.kind node = .ok kind)
    (hp : forest.parent node = some parent) (hnone : computed[parent]? = none) :
    locate terminator forest fragments computed node =
      .error (.parentUnplaced node parent (forest.dump node)) := by
  unfold locate
  rw [lengthOf_eq_ok_iff.2 ⟨kind, hk, rfl⟩, hp]
  simp only [bind, Except.bind, hnone]
  rfl

/-- A node whose parent has a range is refused if its previous sibling has none. -/
theorem locate_eq_siblingUnplaced (hk : forest.kind node = .ok kind)
    (hp : forest.parent node = some parent) (hout : computed[parent]? = some outer)
    (hsib : forest.previousSibling node = some sibling) (hnone : computed[sibling]? = none) :
    locate terminator forest fragments computed node =
      .error (.siblingUnplaced node sibling (forest.dump node)) := by
  have hanchor : anchor forest computed node parent outer.offset =
      .error (.siblingUnplaced node sibling (forest.dump node)) := by
    unfold anchor
    simp only [hsib, hnone]
  unfold locate
  rw [lengthOf_eq_ok_iff.2 ⟨kind, hk, rfl⟩, hp]
  simp only [bind, Except.bind, hout, hanchor]

/-! ### One map -/

/-- **The search can put nodes in one way only.** -/
theorem Located.agree (hs : forest.Sound) (hroot : root ∈ visited)
    (hwalk : ∀ node ∈ visited, node ∈ forest.walk root)
    (hl : Located terminator forest root fragments visited computed)
    (hl' : Located terminator forest root fragments visited' computed')
    (hsame : ∀ node : Nat, node ∈ visited ↔ node ∈ visited') (node : Handle) :
    computed[node]? = computed'[node]? := by
  by_cases hnode : node ∈ visited
  · obtain ⟨base, hbase⟩ := Option.isSome_iff_exists.1 ((hl.isSome_iff root).2 hroot)
    obtain ⟨base', hbase'⟩ := Option.isSome_iff_exists.1 ((hl'.isSome_iff root).2 ((hsame root).1 hroot))
    obtain ⟨a, ha⟩ := Option.isSome_iff_exists.1 ((hl.isSome_iff node).2 hnode)
    obtain ⟨b, hb⟩ := Option.isSome_iff_exists.1 ((hl'.isSome_iff node).2 ((hsame node).1 hnode))
    obtain ⟨kind, hk, rfl⟩ := hl.root_eq hbase
    obtain ⟨kind', hk', rfl⟩ := hl'.root_eq hbase'
    cases hk.symm.trans hk'
    have hmoved := (hl.composed hs).eq_moved hs (fun _ _ _ _ h h' => h.unique h') (hl'.composed hs)
      (hs.root_mem_walk root) hbase hbase' node (hwalk node hnode) a b ha hb
    rw [ha, hb, hmoved]
    unfold Range.moved
    simp only [Nat.zero_add]
  · have hnone := (hl.isSome_iff node).not.2 hnode
    have hnone' := (hl'.isSome_iff node).not.2 (fun h => hnode ((hsame node).2 h))
    rw [Option.not_isSome_iff_eq_none.1 hnone, Option.not_isSome_iff_eq_none.1 hnone']

section
variable (hk : forest.kind root = .ok kind)
  (hstart : start = (∅ : RangeMap).insert root ⟨0, coveredLength kind (fragments.text root) terminator⟩)
include hk hstart

/-- **Calls that succeed put nodes where the search puts them.** -/
theorem Located.of_calls (hnd : (root :: order).Nodup)
    (h : AllLocated terminator forest fragments start order) :
    Located terminator forest root fragments (root :: order)
      (locateEach terminator forest fragments start order) := by
  induction order using List.reverseRecOn with
  | nil =>
    rw [hstart]
    exact Located.nil.insert List.not_mem_nil (place_root_eq_ok_iff.2 ⟨kind, hk, rfl⟩)
  | append_singleton order last ih =>
    rw [← List.cons_append] at hnd
    obtain ⟨hfront, -, hdisj⟩ := List.nodup_append.1 hnd
    have hnew : last ∉ root :: order := fun hmem => hdisj last hmem last List.mem_cons_self rfl
    have hne : last ≠ root := fun he => hnew (he ▸ List.mem_cons_self)
    obtain ⟨range, hrange⟩ := h order last [] rfl
    have hl := ih hfront h.left
    rw [locateEach_concat, locateNext_eq hrange, ← List.cons_append]
    exact hl.insert hnew (by rw [place_child hne]; exact hrange)

/-- As long as all calls succeed, the map holds the root and the nodes of the calls. -/
theorem mem_locateEach_iff (hnd : (root :: order).Nodup)
    (h : AllLocated terminator forest fragments start order) (key : Handle) :
    key ∈ locateEach terminator forest fragments start order ↔ key ∈ root :: order := by
  rw [← Std.TreeMap.isSome_getElem?_iff_mem]
  exact (Located.of_calls hk hstart hnd h).isSome_iff key

end

/-! ### Admissible orders -/

section
variable (hs : forest.Sound) (hperm : (root :: order).Perm (forest.walk root))
  (hk : forest.kind root = .ok kind)
  (hstart : start = (∅ : RangeMap).insert root ⟨0, coveredLength kind (fragments.text root) terminator⟩)
include hs hperm

/-- A node of the order is known, is not the root and has its parent in the tree. -/
theorem exists_parent_of_order (hnode : node ∈ order) :
    (∃ kind, forest.kind node = .ok kind) ∧ node ≠ root ∧
      ∃ parent ∈ forest.walk root, node ∈ forest.children parent := by
  have hwalk : node ∈ forest.walk root := hperm.mem_iff.1 (List.mem_cons_of_mem _ hnode)
  have hnd := hperm.nodup_iff.2 (hs.nodup_walk root)
  have hne : node ≠ root := fun he => (List.nodup_cons.1 hnd).1 (he ▸ hnode)
  obtain ⟨parent, hp, hc⟩ := hs.exists_parent hwalk hne
  obtain ⟨value, hn⟩ := Forest.node?_isSome (hs.lt_size hc)
  exact ⟨⟨value.kind, Forest.kind_eq_ok hn⟩, hne, parent, hp, hc⟩

/-- Where all before it is located, the search can start for the next node of an admissible order. -/
theorem Admissible.exists_ready (ha : Admissible forest root order)
    (horder : order = before ++ node :: after)
    (hvisited : ∀ earlier ∈ root :: before, earlier ∈ visited)
    (hl : Located terminator forest root fragments visited computed) :
    ∃ parent outer start, Ready terminator forest fragments computed node parent outer start := by
  have hnode : node ∈ order := horder ▸ List.mem_append_right _ List.mem_cons_self
  obtain ⟨-, -, parent, hp, hc⟩ := exists_parent_of_order hs hperm hnode
  obtain ⟨hparent, hsibling⟩ := ha before node after horder
  obtain ⟨outer, start, hready⟩ := hl.exists_ready_child hs hp hc
    (hvisited parent (hparent parent (hs.parent_eq_iff.2 hc)))
    fun sibling hsib => hvisited sibling (List.mem_cons_of_mem _ (hsibling sibling hsib))
  exact ⟨parent, outer, start, hready⟩

include hk hstart

/-- The first call that fails in an admissible order is for a node whose text is lost. -/
theorem Admissible.lost_of_first_failure (ha : Admissible forest root order)
    (horder : order = before ++ node :: after)
    (hbefore : AllLocated terminator forest fragments start before)
    (herror : locate terminator forest fragments
      (locateEach terminator forest fragments start before) node = .error error) :
    ∃ parent offset, Lost terminator forest fragments node parent offset ∧
      error = .notFound node parent offset (forest.dump node) := by
  have hnode : node ∈ order := horder ▸ List.mem_append_right _ List.mem_cons_self
  have hnd := hperm.nodup_iff.2 (hs.nodup_walk root)
  rw [horder, ← List.cons_append] at hnd
  have hl := Located.of_calls hk hstart (List.nodup_append.1 hnd).1 hbefore
  obtain ⟨⟨kind', hk'⟩, -⟩ := exists_parent_of_order hs hperm hnode
  obtain ⟨parent, outer, offset, hready⟩ := ha.exists_ready hs hperm horder (fun _ h => h) hl
  exact (hready.locate_eq_error_iff hk').1 herror

/-- **All calls in an admissible order succeed exactly if no text is lost.** -/
theorem Admissible.allLocated_iff (ha : Admissible forest root order) :
    AllLocated terminator forest fragments start order ↔
      ∀ node ∈ forest.walk root, node ≠ root →
        ∀ parent offset, ¬Lost terminator forest fragments node parent offset := by
  constructor
  · -- with the map at the end all parents and siblings have ranges, so that every node can be asked for
    intro hall node hwalk hne
    have hnode : node ∈ order :=
      (List.mem_cons.1 (hperm.mem_iff.2 hwalk)).resolve_left hne
    obtain ⟨before, after, horder⟩ := List.append_of_mem hnode
    have hnd := hperm.nodup_iff.2 (hs.nodup_walk root)
    have hl := Located.of_calls hk hstart hnd hall
    obtain ⟨⟨kind', hk'⟩, -⟩ := exists_parent_of_order hs hperm hnode
    have hvisited : ∀ earlier ∈ root :: before, earlier ∈ root :: order := by
      rw [horder, ← List.cons_append]
      exact fun _ h => List.mem_append_left _ h
    obtain ⟨parent, outer, offset, hready⟩ := ha.exists_ready hs hperm horder hvisited hl
    exact hready.not_lost hk' hl hne (List.mem_cons_of_mem _ hnode)
  · intro hno
    by_contra hnot
    obtain ⟨before, node, after, error, horder, hbefore, herror⟩ := exists_first_failure hnot
    have hnode : node ∈ order := horder ▸ List.mem_append_right _ List.mem_cons_self
    obtain ⟨parent, offset, hlost, -⟩ :=
      ha.lost_of_first_failure hs hperm hk hstart horder hbefore herror
    obtain ⟨-, hne, -⟩ := exists_parent_of_order hs hperm hnode
    exact hno node (hperm.mem_iff.1 (List.mem_cons_of_mem _ hnode)) hne parent offset hlost

end

/-- **Every admissible order of calls gives what the search gives.** A caller begins with the range of the
root, and calls for each of the other nodes once. In an admissible order all calls succeed exactly if the
search does, with the same ranges at the end; else the first call that fails does not find a text. In any
order a call fails that comes before the one for the parent, and so does a call with the parent in the map
that comes before the one for the previous sibling. -/
theorem locate_in_any_order (hb : forest.Built) (hk : forest.kind root = .ok kind)
    (hstart : start =
      (∅ : RangeMap).insert root ⟨0, coveredLength kind (fragments.text root) terminator⟩)
    (hperm : (root :: order).Perm (forest.walk root)) :
    (Admissible forest root order →
      (AllLocated terminator forest fragments start order ↔
        ∃ ranges, reconstruct terminator forest root fragments = .ok ranges) ∧
      (∀ ranges, reconstruct terminator forest root fragments = .ok ranges → ∀ node : Handle,
        (locateEach terminator forest fragments start order)[node]? = ranges[node]?) ∧
      ∀ error, reconstruct terminator forest root fragments = .error error →
        ∃ before node after parent offset, order = before ++ node :: after ∧
          AllLocated terminator forest fragments start before ∧
          locate terminator forest fragments
            (locateEach terminator forest fragments start before) node =
              .error (.notFound node parent offset (forest.dump node))) ∧
    ∀ before node after, order = before ++ node :: after →
      (AllLocated terminator forest fragments start before → ∀ key : Handle,
        key ∈ locateEach terminator forest fragments start before ↔ key ∈ root :: before) ∧
      ∀ parent, forest.parent node = some parent →
        (parent ∉ root :: before →
          locate terminator forest fragments
            (locateEach terminator forest fragments start before) node =
              .error (.parentUnplaced node parent (forest.dump node))) ∧
        (parent ∈ locateEach terminator forest fragments start before →
          ∀ sibling, forest.previousSibling node = some sibling → sibling ∉ before →
          locate terminator forest fragments
            (locateEach terminator forest fragments start before) node =
              .error (.siblingUnplaced node sibling (forest.dump node))) := by
  have hs := hb.sound
  have hnd := hperm.nodup_iff.2 (hs.nodup_walk root)
  have hsize := Forest.lt_size_of_kind hk
  refine ⟨fun ha => ?_, ?_⟩
  · have hiff : AllLocated terminator forest fragments start order ↔
        ∃ ranges, reconstruct terminator forest root fragments = .ok ranges := by
      rw [ha.allLocated_iff hs hperm hk hstart, exists_reconstruct_iff hs hsize]
    refine ⟨hiff, fun ranges h node => ?_, fun error h => ?_⟩
    · -- both maps hold the nodes of the walk, each where the search puts it
      have hl := Located.of_calls hk hstart hnd (hiff.2 ⟨ranges, h⟩)
      exact hl.agree hs List.mem_cons_self (fun _ hmem => hperm.mem_iff.1 hmem)
        (Located.of_reconstruct hs h) (fun _ => hperm.mem_iff) node
    · have hnot : ¬AllLocated terminator forest fragments start order := by
        rw [hiff]
        rintro ⟨ranges, hok⟩
        rw [hok] at h
        cases h
      obtain ⟨before, node, after, error', horder, hbefore, herror⟩ := exists_first_failure hnot
      obtain ⟨parent, offset, -, rfl⟩ :=
        ha.lost_of_first_failure hs hperm hk hstart horder hbefore herror
      exact ⟨before, node, after, parent, offset, horder, hbefore, herror⟩
  · intro before node after horder
    have hnode : node ∈ order := horder ▸ List.mem_append_right _ List.mem_cons_self
    obtain ⟨⟨kind', hk'⟩, -, p, hp, hc⟩ := exists_parent_of_order hs hperm hnode
    rw [horder, ← List.cons_append] at hnd
    refine ⟨mem_locateEach_iff hk hstart (List.nodup_append.1 hnd).1, fun parent hparent => ⟨?_, ?_⟩⟩
    · intro hunplaced
      exact locate_eq_parentUnplaced hk' hparent
        (getElem?_locateEach_eq_none hstart hunplaced)
    · intro hplaced sibling hsib hunplaced
      cases hparent.symm.trans (hs.parent_eq_iff.2 hc)
      obtain ⟨outer, hout⟩ := Option.isSome_iff_exists.1
        (Std.TreeMap.isSome_getElem?_iff_mem.2 hplaced)
      have hne := hs.ne_root hp (hs.previousSibling_mem hc hsib)
      have hnot : sibling ∉ root :: before := by
        rw [List.mem_cons]
        rintro (he | hmem)
        · exact hne he
        · exact hunplaced hmem
      exact locate_eq_siblingUnplaced hk' hparent hout hsib
        (getElem?_locateEach_eq_none hstart hnot)

/-- Two statements in a block. Both may be located before what is in them, and the last expression before
the first. With another text for the block the second statement is not found. Calls for the first
expression and for the second statement fail if they come before the call for the first statement. -/
theorem locate_in_any_order_block :
    ∃ (forest : Forest) (fragments others : FragmentMap) (ranges start : RangeMap),
      Forest.ofNodes [.identifier "x", .expressionStatement 0, .identifier "y", .expressionStatement 2,
        .block [1, 3]] = .ok forest ∧
      fragments = .ofList [(0, "x"), (1, "x;"), (2, "y"), (3, "y;"), (4, "\x7bx;y;\x7d")] ∧
      others = .ofList [(0, "x"), (1, "x;"), (2, "y"), (3, "y;"), (4, "\x7by;x;\x7d")] ∧
      reconstruct (some ';') forest 4 fragments = .ok ranges ∧
      start = (∅ : RangeMap).insert 4 ⟨0, 6⟩ ∧
      AllLocated (some ';') forest fragments start [1, 3, 2, 0] ∧
      (locateEach (some ';') forest fragments start [1, 3, 2, 0])[2]? = some ⟨3, 1⟩ ∧
      ¬AllLocated (some ';') forest others start [1, 3, 2, 0] ∧
      locate (some ';') forest fragments start 0 = .error (.parentUnplaced 0 1 (forest.dump 0)) ∧
      locate (some ';') forest fragments (locateEach (some ';') forest fragments start [0]) 3 =
        .error (.siblingUnplaced 3 1 (forest.dump 3)) := by
  have hforest : Forest.ofNodes [.identifier "x", .expressionStatement 0, .identifier "y",
      .expressionStatement 2, .block [1, 3]] =
        .ok ⟨#[⟨.identifier "x", some 1, []⟩, ⟨.expressionStatement 0, some 4, [0]⟩,
          ⟨.identifier "y", some 3, []⟩, ⟨.expressionStatement 2, some 4, [2]⟩,
          ⟨.block [1, 3], none, [1, 3]⟩]⟩ := rfl
  have hb := Forest.Built.ofNodes hforest
  have ha : Admissible ⟨#[⟨.identifier "x", some 1, []⟩, ⟨.expressionStatement 0, some 4, [0]⟩,
    ⟨.identifier "y", some 3, []⟩, ⟨.expressionStatement 2, some 4, [2]⟩,
    ⟨.block [1, 3], none, [1, 3]⟩]⟩ 4
      [1, 3, 2, 0] := by
    refine Admissible.concat (Admissible.concat (Admissible.concat (Admissible.concat .nil ?_ ?_)
      ?_ ?_) ?_ ?_) ?_ ?_
    all_goals
      intro other hother
      cases hother
    all_goals decide
  obtain ⟨hgood, -⟩ := @locate_in_any_order (some ';') _ 4
    (.ofList [(0, "x"), (1, "x;"), (2, "y"), (3, "y;"), (4, "\x7bx;y;\x7d")])
    ((∅ : RangeMap).insert 4 ⟨0, 6⟩) [1, 3, 2, 0] .block hb rfl rfl (by decide)
  obtain ⟨hlost, -⟩ := @locate_in_any_order (some ';') _ 4
    (.ofList [(0, "x"), (1, "x;"), (2, "y"), (3, "y;"), (4, "\x7by;x;\x7d")])
    ((∅ : RangeMap).insert 4 ⟨0, 6⟩) [1, 3, 2, 0] .block hb rfl rfl (by decide)
  obtain ⟨-, hbad⟩ := @locate_in_any_order (some ';') _ 4
    (.ofList [(0, "x"), (1, "x;"), (2, "y"), (3, "y;"), (4, "\x7bx;y;\x7d")])
    ((∅ : RangeMap).insert 4 ⟨0, 6⟩) [0, 3, 1, 2] .block hb rfl rfl (by decide)
  obtain ⟨hall, hsame, -⟩ := hgood ha
  obtain ⟨hnotall, -, -⟩ := hlost ha
  obtain ⟨-, hfirst⟩ := hbad [] 0 [3, 1, 2] rfl
  obtain ⟨-, hsecond⟩ := hbad [0] 3 [1, 2] rfl
  refine ⟨_, _, _, _, _, hforest, rfl, rfl, rfl, rfl, hall.2 ⟨_, rfl⟩, ?_, ?_, ?_, ?_⟩
  · rw [hsame _ rfl]
    rfl
  · rw [hnotall]
    rintro ⟨ranges, h⟩
    cases h
  · exact (hfirst 1 rfl).1 (by decide)
  · exact (hsecond 4 rfl).2 (by decide) 1 rfl (by decide)

end SolText.SourceMap
