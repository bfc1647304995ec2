import SolText.Number.Binary
import SolText.Text.Order

/-!
# JSON values

A value as it stands in a JSON text: the members of an object keep their order and their
repetitions. In *canonical* form the members of every object are in increasing order of their names,
each name once; of a repeated name the last value counts.

* `canonical`: the canonical form of a value.
* `isCanonical_canonical`: it is canonical.
-/

namespace SolText

/-- A number is a whole number or a floating one; `100` and `100.0` differ. Zero floats with both
signs. -/
inductive Number where
  | whole (value : Int)
  | floating (negative : Bool) (magnitude : Binary)
  deriving DecidableEq, Repr

/-- A JSON value. -/
inductive Json where
  | null
  | bool (value : Bool)
  | num (value : Number)
  | str (value : String)
  | arr (items : List Json)
  | obj (members : List (String × Json))
  deriving Inhabited

namespace Json

/-- The named values of an object, in order. -/
abbrev Members := List (String × Json)

mutual
/-- How many levels of arrays and objects a value has. -/
def height : Json → Nat
  | .arr items => heightItems items + 1
  | .obj members => heightMembers members + 1
  | _ => 0

/-- The greatest height among the items. -/
def heightItems : List Json → Nat
  | [] => 0
  | item :: rest => max (height item) (heightItems rest)

/-- The greatest height among the members' values. -/
def heightMembers : Members → Nat
  | [] => 0
  | (_, value) :: rest => max (height value) (heightMembers rest)
end

/-- The names of the members are in strictly increasing order. -/
def Increasing (members : Members) : Prop := (members.map Prod.fst).Pairwise (Text.precedes · ·)

instance (members : Members) : Decidable (Increasing members) :=
  inferInstanceAs (Decidable ((members.map Prod.fst).Pairwise (Text.precedes · ·)))

mutual
/-- Whether the members of every object in the value are in strictly increasing order. -/
def isCanonical : Json → Bool
  | .arr items => areCanonical items
  | .obj members => decide (Increasing members) && haveCanonical members
  | _ => true

/-- Whether all items are canonical. -/
def areCanonical : List Json → Bool
  | [] => true
  | item :: rest => isCanonical item && areCanonical rest

/-- Whether the values of all members are canonical. -/
def haveCanonical : Members → Bool
  | [] => true
  | (_, value) :: rest => isCanonical value && haveCanonical rest
end

/-- Gives `name` the value `value` in members that are in increasing order. -/
def setMember (name : String) (value : Json) : Members → Members
  | [] => [(name, value)]
  | (other, old) :: rest =>
    if Text.precedes name other then (name, value) :: (other, old) :: rest
    else if name = other then (name, value) :: rest
    else (other, old) :: setMember name value rest

/-- Gives `name` the value `value` unless it has one. -/
def setMissing (name : String) (value : Json) (members : Members) : Members :=
  if members.any (·.1 == name) then members else setMember name value members

mutual
/-- The value with the members of every object in increasing order, the last of equal names kept. -/
def canonical : Json → Json
  | .arr items => .arr (canonicalItems items)
  | .obj members => .obj (canonicalMembers members)
  | .null => .null
  | .bool value => .bool value
  | .num value => .num value
  | .str value => .str value

/-- The canonical forms of the items. -/
def canonicalItems : List Json → List Json
  | [] => []
  | item :: rest => canonical item :: canonicalItems rest

/-- The members of the canonical object. -/
def canonicalMembers : Members → Members
  | [] => []
  | (name, value) :: rest => setMissing name (canonical value) (canonicalMembers rest)
end

/-! ### Canonical forms are canonical -/

/-- A text before `name` and before all names of the members is before them after `name` is set. -/
theorem precedes_of_mem_setMember {bound name : String} {value : Json} {members : Members}
    (hn : Text.precedes bound name) (hm : ∀ m ∈ members, Text.precedes bound m.1) :
    ∀ m ∈ setMember name value members, Text.precedes bound m.1 := by
  induction members with
  | nil => simpa [setMember] using hn
  | cons head rest ih =>
    obtain ⟨other, old⟩ := head
    have ho : Text.precedes bound other := hm (other, old) (by simp)
    have hr : ∀ m ∈ rest, Text.precedes bound m.1 := fun m h => hm m (by simp [h])
    intro m h
    rw [setMember] at h
    split at h
    · rcases List.mem_cons.1 h with rfl | h
      · exact hn
      · exact hm m h
    · split at h
      · rcases List.mem_cons.1 h with rfl | h
        · exact hn
        · exact hr m h
      · rcases List.mem_cons.1 h with rfl | h
        · exact ho
        · exact ih hr m h

theorem increasing_cons {name : String} {value : Json} {members : Members} :
    Increasing ((name, value) :: members) ↔
      (∀ m ∈ members, Text.precedes name m.1) ∧ Increasing members := by
  simp [Increasing]

theorem increasing_setMember {name : String} {value : Json} {members : Members}
    (h : Increasing members) : Increasing (setMember name value members) := by
  induction members with
  | nil => simp [setMember, Increasing]
  | cons head rest ih =>
    obtain ⟨other, old⟩ := head
    obtain ⟨hlt, hr⟩ := increasing_cons.1 h
    rw [setMember]
    split
    · rename_i hn
      refine increasing_cons.2 ⟨fun m hm => ?_, h⟩
      rcases List.mem_cons.1 hm with rfl | hm
      · exact hn
      · exact Text.precedes_trans hn (hlt m hm)
    · split
      · rename_i he
        subst he
        exact increasing_cons.2 ⟨hlt, hr⟩
      · rename_i hn he
        have hon := Text.precedes_of_not_precedes hn he
        exact increasing_cons.2 ⟨precedes_of_mem_setMember hon hlt, ih hr⟩

theorem haveCanonical_setMember {name : String} {value : Json} {members : Members}
    (hv : isCanonical value) (hm : haveCanonical members) :
    haveCanonical (setMember name value members) := by
  induction members with
  | nil => simp [setMember, haveCanonical, hv]
  | cons head rest ih =>
    obtain ⟨other, old⟩ := head
    simp only [haveCanonical, Bool.and_eq_true] at hm
    rw [setMember]
    split
    · simp [haveCanonical, hv, hm]
    · split
      · simp [haveCanonical, hv, hm]
      · simp [haveCanonical, hm, ih hm.2]

mutual
/-- **The canonical form is canonical.** -/
theorem isCanonical_canonical : ∀ value : Json, isCanonical (canonical value)
  | .null | .bool _ | .num _ | .str _ => rfl
  | .arr items => areCanonical_canonicalItems items
  | .obj members => by
    have h := canonicalMembers_ok members
    simp [canonical, isCanonical, h]

theorem areCanonical_canonicalItems : ∀ items : List Json, areCanonical (canonicalItems items)
  | [] => rfl
  | item :: rest => by
    simp [canonicalItems, areCanonical, isCanonical_canonical item,
      areCanonical_canonicalItems rest]

theorem canonicalMembers_ok : ∀ members : Members,
    Increasing (canonicalMembers members) ∧ haveCanonical (canonicalMembers members)
  | [] => ⟨by simp [canonicalMembers, Increasing], rfl⟩
  | (name, value) :: rest => by
    have hv := isCanonical_canonical value
    have hr := canonicalMembers_ok rest
    rw [canonicalMembers, setMissing]
    split
    · exact hr
    · exact ⟨increasing_setMember hr.1, haveCanonical_setMember hv hr.2⟩
end

end Json

end SolText
