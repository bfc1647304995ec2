import SolText.Document
import SolText.Proofs.Forest.Growth

/-!
# Which listings are documents

A listing is read from the front, one node after another, and the first node that cannot be added
ends the reading. Whether that happens can be told from the listing as a whole.

* `Listing.Consistent`: children come first, and nobody's child is listed again.
* `Forest.Holds.admits_iff`: when the forest of some nodes takes in one more.
* `Forest.exists_ofNodes_iff`: **the nodes of a listing make a forest exactly if they are consistent.**
* `Forest.Sound.walk_perm_range`: in a forest with one root, a walk from it visits every node.
* `Document.ofListing_accepts`: **a listing is accepted exactly if its nodes are consistent and it has
  a root**; a root that is not named is the last node.
-/

namespace SolText

namespace Listing

/-- Every node comes behind its children, and no child is referred to twice, neither by two nodes nor
by one. -/
structure Consistent (nodes : List Node) : Prop where
  behind : ∀ (index : Nat) (node : Node), nodes[index]? = some node →
    ∀ child ∈ node.children, child < index
  nodup : (nodes.flatMap Node.children).Nodup

/-- The nodes that are nobody's child. -/
def orphans (nodes : List Node) : List Handle :=
  (List.range nodes.length).filter fun handle => handle ∉ nodes.flatMap Node.children

/-- The root that is named is in the list, or none is named and just one node is nobody's child. -/
def HasRoot (listing : Listing) : Prop :=
  match listing.root with
  | some root => root < listing.nodes.length
  | none => (orphans listing.nodes).length = 1

variable {nodes : List Node} {node : Node}

theorem consistent_nil : Consistent [] where
  behind index node h := by simp at h
  nodup := List.nodup_nil

/-- Consistency by the last node. -/
theorem consistent_concat_iff :
    Consistent (nodes ++ [node]) ↔
      Consistent nodes ∧ (∀ child ∈ node.children,
        child < nodes.length ∧ child ∉ nodes.flatMap Node.children) ∧ node.children.Nodup := by
  have hflat : (nodes ++ [node]).flatMap Node.children =
      nodes.flatMap Node.children ++ node.children := by
    rw [List.flatMap_append, List.flatMap_singleton]
  constructor
  · rintro ⟨hbehind, hnd⟩
    rw [hflat, List.nodup_append] at hnd
    obtain ⟨hold, hnew, hdisj⟩ := hnd
    have hlast : (nodes ++ [node])[nodes.length]? = some node := by simp
    refine ⟨⟨fun index other h => ?_, hold⟩, fun child hc => ⟨?_, ?_⟩, hnew⟩
    · have hlt : index < nodes.length := (List.getElem?_eq_some_iff.1 h).1
      refine hbehind index other ?_
      rw [List.getElem?_append_left hlt]
      exact h
    · exact hbehind nodes.length node hlast child hc
    · intro hmem
      exact hdisj child hmem child hc rfl
  · rintro ⟨⟨hbehind, hold⟩, hlast, hnew⟩
    refine ⟨fun index other h child hc => ?_, ?_⟩
    · rcases Nat.lt_trichotomy index nodes.length with hlt | rfl | hgt
      · rw [List.getElem?_append_left hlt] at h
        exact hbehind index other h child hc
      · rw [List.getElem?_concat_length] at h
        cases h
        exact (hlast child hc).1
      · rw [List.getElem?_eq_none (by simp; omega)] at h
        cases h
    · rw [hflat, List.nodup_append]
      refine ⟨hold, hnew, fun a ha b hb hab => ?_⟩
      exact (hlast b hb).2 (hab ▸ ha)

end Listing

namespace Forest

open Listing

variable {forest next : Forest} {nodes : List Node} {node : Node} {handle child root : Nat}

/-! ### The forest of a list of nodes -/

/-- A forest that holds the given nodes, in their order. -/
structure Holds (forest : Forest) (nodes : List Node) : Prop where
  built : forest.Built
  size_eq : forest.size = nodes.length
  node?_eq : ∀ index : Nat, forest.node? index = nodes[index]?

theorem Holds.empty : Holds {} [] := ⟨.empty, rfl, fun index => by simp [node?]⟩

theorem Holds.add (hh : forest.Holds nodes) (h : forest.add node = (.ok handle, next)) :
    next.Holds (nodes ++ [node]) := by
  refine ⟨hh.built.add h, ?_, fun index => ?_⟩
  · obtain ⟨-, rfl, -⟩ := add_eq_ok_iff.1 h
    have hsize := hh.size_eq
    unfold size at hsize ⊢
    rw [Array.size_push, size_adopt, hsize, List.length_append, List.length_singleton]
  · rw [node?_add h, hh.size_eq, hh.node?_eq, List.getElem?_append]
    by_cases hi : index = nodes.length
    · rw [if_pos hi, if_neg (by omega), hi, Nat.sub_self]; rfl
    · rw [if_neg hi]
      by_cases hlt : index < nodes.length
      · rw [if_pos hlt]
      · rw [if_neg hlt, List.getElem?_eq_none (by omega), List.getElem?_eq_none (by simp; omega)]

theorem Holds.ofNodes (h : ofNodes nodes = .ok forest) : forest.Holds nodes := by
  refine foldlM_invariant (fun added forest => forest.Holds added) .empty ?_ h
  intro _ node _ forest next _ hh hstep
  obtain ⟨handle, hadd⟩ := extend_eq_ok_iff.1 hstep
  exact hh.add hadd

/-- The children in a forest are those that its nodes refer to. -/
theorem Holds.mem_children_iff (hh : forest.Holds nodes) :
    (∃ parent : Nat, child ∈ forest.children parent) ↔ child ∈ nodes.flatMap Node.children := by
  rw [List.mem_flatMap]
  constructor
  · rintro ⟨p, hp⟩
    obtain ⟨node, hn⟩ := node?_isSome (lt_size_of_mem_children hp)
    rw [hh.built.sound.children_eq hn] at hp
    rw [hh.node?_eq] at hn
    exact ⟨node, List.mem_of_getElem? hn, hp⟩
  · rintro ⟨node, hmem, hc⟩
    obtain ⟨p, hp⟩ := List.mem_iff_getElem?.1 hmem
    rw [← hh.node?_eq] at hp
    exact ⟨p, by rw [hh.built.sound.children_eq hp]; exact hc⟩

theorem Holds.parent_eq_none_iff (hh : forest.Holds nodes) :
    forest.parent handle = none ↔ handle ∉ nodes.flatMap Node.children := by
  rw [hh.built.sound.parent_eq_none_iff, ← hh.mem_children_iff, not_exists]

/-- **When the forest of some nodes takes in one more.** -/
theorem Holds.admits_iff (hh : forest.Holds nodes) :
    forest.Admits node ↔ (∀ child ∈ node.children,
      child < nodes.length ∧ child ∉ nodes.flatMap Node.children) ∧ node.children.Nodup := by
  unfold Admits
  simp only [hh.size_eq, hh.parent_eq_none_iff]

theorem ofNodes_concat (nodes : List Node) (node : Node) :
    ofNodes (nodes ++ [node]) = ofNodes nodes >>= fun forest => forest.extend node := by
  unfold ofNodes
  rw [List.foldlM_append]
  congr 1
  funext forest
  rw [List.foldlM_cons]
  exact bind_pure _

/-- **The nodes of a listing make a forest exactly if they are consistent.** -/
theorem exists_ofNodes_iff : (∃ forest, ofNodes nodes = .ok forest) ↔ Consistent nodes := by
  induction nodes using List.reverseRecOn with
  | nil => exact iff_of_true ⟨{}, rfl⟩ consistent_nil
  | append_singleton nodes node ih =>
    rw [consistent_concat_iff, ← ih, ofNodes_concat]
    constructor
    · rintro ⟨next, h⟩
      obtain ⟨forest, hforest, h⟩ := bind_eq_ok_iff.1 h
      obtain ⟨handle, hadd⟩ := extend_eq_ok_iff.1 h
      exact ⟨⟨forest, hforest⟩, (Holds.ofNodes hforest).admits_iff.1 (exists_add_iff.1 ⟨_, _, hadd⟩)⟩
    · rintro ⟨⟨forest, hforest⟩, hlast⟩
      obtain ⟨handle, next, hadd⟩ :=
        exists_add_iff.2 ((Holds.ofNodes hforest).admits_iff.2 hlast)
      exact ⟨next, bind_eq_ok_iff.2 ⟨forest, hforest, extend_eq_ok_iff.2 ⟨handle, hadd⟩⟩⟩

/-! ### Roots -/

/-- The roots are the nodes that are nobody's child in the listing. -/
theorem Holds.roots_eq (hh : forest.Holds nodes) : forest.roots = orphans nodes := by
  unfold roots orphans
  rw [hh.size_eq]
  apply List.filter_congr
  intro handle _
  rw [Bool.eq_iff_iff, Option.isNone_iff_eq_none, hh.parent_eq_none_iff, decide_eq_true_eq]

/-- The last node is a root: parents come behind their children. -/
theorem Sound.last_mem_roots (hs : forest.Sound) (h : 0 < forest.size) :
    forest.size - 1 ∈ forest.roots := by
  refine hs.mem_roots_iff.2 ⟨by omega, fun parent hmem => ?_⟩
  have hlt := hs.child_lt hmem
  have hsize := lt_size_of_mem_children hmem
  omega

/-- The only root is the last node. -/
theorem Sound.root_eq_last (hs : forest.Sound) (h : forest.roots = [root]) :
    root + 1 = forest.size := by
  have hroot : root < forest.size := (hs.mem_roots_iff.1 (by rw [h]; exact List.mem_singleton_self _)).1
  have hlast := hs.last_mem_roots (by omega)
  rw [h, List.mem_singleton] at hlast
  omega

/-- **In a forest with one root, a walk from it visits every node**, and none twice. -/
theorem Sound.walk_perm_range (hs : forest.Sound) (h : forest.roots = [root]) :
    (forest.walk root).Perm (List.range forest.size) := by
  -- the way up from a node ends at a root, and there is no other
  have hall : ∀ node : Nat, node < forest.size → node ∈ forest.walk root := by
    intro node hlt
    obtain ⟨top, htop, hend⟩ := hs.getLast?_ancestors node hlt
    rw [h, List.mem_singleton] at htop
    rw [← htop]
    rcases List.mem_cons.1 (List.mem_of_getLast? hend) with hself | habove
    · rw [hself]
      exact hs.root_mem_walk node
    · exact ((hs.mem_ancestors_iff node top).1 habove).2
  have hlast := hs.root_eq_last h
  rw [List.perm_ext_iff_of_nodup (hs.nodup_walk root) List.nodup_range]
  intro node
  rw [List.mem_range]
  constructor
  · intro hmem
    have hle := hs.le_of_mem_walk hmem
    omega
  · exact hall node

end Forest

namespace Document

open Listing

variable {listing : Listing} {forest : Forest} {document : Document}

/-- The listing is refused under the given heading. -/
def Refused (listing : Listing) (problem : String) : Prop :=
  ∃ error, ofListing listing = .error error ∧ error.problem = problem

theorem ofListing_eq (h : Forest.ofNodes listing.nodes = .ok forest) :
    ofListing listing = (chooseRoot forest listing.root).map (Document.mk forest) := by
  unfold ofListing
  rw [h]
  show (do return Document.mk forest (← chooseRoot forest listing.root)) = _
  cases chooseRoot forest listing.root <;> rfl

theorem refused_of_not_consistent (h : ¬Consistent listing.nodes) :
    Refused listing "Inconsistent tree" := by
  cases hf : Forest.ofNodes listing.nodes with
  | ok forest => exact absurd (Forest.exists_ofNodes_iff.1 ⟨forest, hf⟩) h
  | error error =>
    refine ⟨.inconsistent error, ?_, rfl⟩
    unfold ofListing
    rw [hf]

section
variable (hh : forest.Holds listing.nodes)
include hh

/-- A named root has to be in the list. -/
theorem chooseRoot_some (root : Handle) : chooseRoot forest (some root) =
    if root < listing.nodes.length then .ok root else .error (.invalidRoot (.unknown root)) := by
  rw [← hh.size_eq]
  by_cases hlt : root < forest.size
  · obtain ⟨node, hn⟩ := Forest.node?_isSome hlt
    rw [if_pos hlt]
    simp only [chooseRoot, Forest.node, hn]
  · have hn := Forest.node?_eq_none (Nat.le_of_not_lt hlt)
    rw [if_neg hlt]
    simp only [chooseRoot, Forest.node, hn]

/-- A root that is not named has to be the only one. -/
theorem chooseRoot_none : chooseRoot forest none =
    if (orphans listing.nodes).length = 1 then .ok (listing.nodes.length - 1)
    else .error (.ambiguousRoot (orphans listing.nodes).length) := by
  have hs := hh.built.sound
  rw [← hh.roots_eq, ← hh.size_eq]
  simp only [chooseRoot]
  by_cases hone : forest.roots.length = 1
  · obtain ⟨root, hroot⟩ := List.length_eq_one_iff.1 hone
    have hlast := hs.root_eq_last hroot
    rw [if_pos hone, ← hlast, Nat.add_sub_cancel]
    simp only [hroot]
  · rw [if_neg hone]
    split
    · rename_i root hroot
      exact absurd (by rw [hroot]; rfl) hone
    · rfl

/-- A root can be chosen exactly if the listing has one. -/
theorem exists_chooseRoot_iff :
    (∃ root, chooseRoot forest listing.root = .ok root) ↔ listing.HasRoot := by
  unfold HasRoot
  cases hroot : listing.root with
  | some root =>
    simp only [chooseRoot_some hh]
    by_cases hlt : root < listing.nodes.length
    · simp [hlt]
    · simp [hlt]
  | none =>
    simp only [chooseRoot_none hh]
    by_cases hone : (orphans listing.nodes).length = 1
    · simp [hone]
    · simp [hone]

end

/-- What an accepted listing was made into. -/
theorem exists_of_ofListing (h : ofListing listing = .ok document) :
    Forest.ofNodes listing.nodes = .ok document.forest ∧
      chooseRoot document.forest listing.root = .ok document.root := by
  cases hf : Forest.ofNodes listing.nodes with
  | error error =>
    unfold ofListing at h
    rw [hf] at h
    cases h
  | ok forest =>
    rw [ofListing_eq hf] at h
    obtain ⟨root, hroot, rfl⟩ := map_eq_ok_iff.1 h
    exact ⟨rfl, hroot⟩

/-- **A listing is accepted exactly if its nodes are consistent and it has a root.** Else it is refused
for the first of these that fails. The document holds the nodes of the listing. A root that is not
named is the last node, and everything is beneath it. -/
theorem ofListing_accepts (listing : Listing) :
    (∀ text, Listing.read text = .ok listing → read text = ofListing listing) ∧
    ((∃ document, ofListing listing = .ok document) ↔
      Consistent listing.nodes ∧ listing.HasRoot) ∧
    (¬Consistent listing.nodes → Refused listing "Inconsistent tree") ∧
    (Consistent listing.nodes → ∀ root, listing.root = some root → ¬root < listing.nodes.length →
      Refused listing "Invalid root") ∧
    (Consistent listing.nodes → listing.root = none → (orphans listing.nodes).length ≠ 1 →
      Refused listing "Ambiguous root") ∧
    ∀ document, ofListing listing = .ok document →
      Forest.ofNodes listing.nodes = .ok document.forest ∧
      (∀ index : Nat, document.forest.node? index = listing.nodes[index]?) ∧
      (∀ root, listing.root = some root → document.root = root) ∧
      (listing.root = none → document.root + 1 = listing.nodes.length ∧
        (document.forest.walk document.root).Perm (List.range listing.nodes.length)) := by
  refine ⟨?_, ?_, refused_of_not_consistent, ?_, ?_, ?_⟩
  · intro text h
    unfold read
    rw [h]
  · rw [← Forest.exists_ofNodes_iff]
    constructor
    · rintro ⟨document, h⟩
      obtain ⟨hf, hroot⟩ := exists_of_ofListing h
      exact ⟨⟨_, hf⟩, (exists_chooseRoot_iff (.ofNodes hf)).1 ⟨_, hroot⟩⟩
    · rintro ⟨⟨forest, hf⟩, hroot⟩
      obtain ⟨root, hroot⟩ := (exists_chooseRoot_iff (.ofNodes hf)).2 hroot
      exact ⟨⟨forest, root⟩, by rw [ofListing_eq hf, hroot]; rfl⟩
  · intro hc root hroot hlt
    obtain ⟨forest, hf⟩ := Forest.exists_ofNodes_iff.2 hc
    refine ⟨.invalidRoot (.unknown root), ?_, rfl⟩
    rw [ofListing_eq hf, hroot, chooseRoot_some (.ofNodes hf), if_neg hlt]; rfl
  · intro hc hroot hmany
    obtain ⟨forest, hf⟩ := Forest.exists_ofNodes_iff.2 hc
    refine ⟨.ambiguousRoot (orphans listing.nodes).length, ?_, rfl⟩
    rw [ofListing_eq hf, hroot, chooseRoot_none (.ofNodes hf), if_neg hmany]; rfl
  · intro document h
    obtain ⟨hf, hroot⟩ := exists_of_ofListing h
    have hh := Forest.Holds.ofNodes hf
    refine ⟨hf, hh.node?_eq, fun root hnamed => ?_, fun hnone => ?_⟩
    · rw [hnamed, chooseRoot_some hh] at hroot
      by_cases hlt : root < listing.nodes.length
      · rw [if_pos hlt] at hroot
        exact (Except.ok.inj hroot).symm
      · rw [if_neg hlt] at hroot
        cases hroot
    · have hs := hh.built.sound
      rw [hnone] at hroot
      have honly : document.forest.roots = [document.root] := by
        simp only [chooseRoot] at hroot
        split at hroot
        · rename_i root heq
          cases hroot
          exact heq
        · cases hroot
      rw [← hh.size_eq]
      exact ⟨hs.root_eq_last honly, hs.walk_perm_range honly⟩

/-- A listing that is accepted, and one for each heading. The first that is refused also names a root
that it does not have. -/
theorem ofListing_accepts_each :
    (∃ document, ofListing ⟨[.identifier "x", .expressionStatement 0], none⟩ = .ok document ∧
      document.root = 1 ∧ (document.forest.walk document.root).Perm [0, 1]) ∧
    Refused ⟨[.expressionStatement 1, .identifier "x"], some 9⟩ "Inconsistent tree" ∧
    Refused ⟨[.identifier "x", .identifier "y"], some 2⟩ "Invalid root" ∧
    Refused ⟨[.identifier "x", .identifier "y"], none⟩ "Ambiguous root" := by
  have hpair : Consistent [.identifier "x", .identifier "y"] := Forest.exists_ofNodes_iff.1 ⟨_, rfl⟩
  refine ⟨?_, ?_, ?_, ?_⟩
  · obtain ⟨-, haccept, -, -, -, hdocument⟩ :=
      ofListing_accepts ⟨[.identifier "x", .expressionStatement 0], none⟩
    obtain ⟨document, h⟩ := haccept.2 ⟨Forest.exists_ofNodes_iff.1 ⟨_, rfl⟩, rfl⟩
    obtain ⟨-, -, -, hroot⟩ := hdocument document h
    exact ⟨document, h, Nat.succ.inj (hroot rfl).1, (hroot rfl).2⟩
  · obtain ⟨-, -, hrefused, -⟩ := ofListing_accepts ⟨[.expressionStatement 1, .identifier "x"], some 9⟩
    refine hrefused fun hc => ?_
    have hlt : 1 < 0 := hc.behind 0 (.expressionStatement 1) rfl 1 (List.mem_singleton_self 1)
    omega
  · obtain ⟨-, -, -, hrefused, -⟩ := ofListing_accepts ⟨[.identifier "x", .identifier "y"], some 2⟩
    exact hrefused hpair 2 rfl (Nat.lt_irrefl 2)
  · obtain ⟨-, -, -, -, hrefused, -⟩ := ofListing_accepts ⟨[.identifier "x", .identifier "y"], none⟩
    exact hrefused hpair rfl (by decide)

end Document

end SolText
