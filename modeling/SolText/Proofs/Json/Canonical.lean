import SolText.Yul.Node

/-!
# Canonical values

A value in canonical form is its own canonical form. So the attributes of an assembly node are what
reading its object form makes of them.

* `Json.canonical_eq_self`: **a canonical value is its own canonical form.**
* `Json.Members.unrepeated_eq_ok`: names that occur at most once are not repeated.
* `Yul.Node.ofJson_toJson`: an assembly node is what its object form stands for.
-/

namespace SolText

namespace Text

theorem charsPrecede_self (chars : List Char) : charsPrecede chars chars = false := by
  induction chars with
  | nil => rfl
  | cons c rest ih => rw [charsPrecede, if_pos rfl, ih]

/-- No text precedes itself. -/
theorem ne_of_precedes {a b : String} (h : precedes a b) : a ≠ b := by
  rintro rfl
  unfold precedes at h
  rw [charsPrecede_self] at h
  cases h

end Text

namespace Json

/-- A name before all others is set in front of them. -/
theorem setMissing_eq_cons {name : String} {value : Json} {members : Members}
    (h : ∀ m ∈ members, Text.precedes name m.1) :
    setMissing name value members = (name, value) :: members := by
  have hany : members.any (·.1 == name) = false := by
    rw [List.any_eq_false]
    intro m hm
    have hne := Text.ne_of_precedes (h m hm)
    simpa using Ne.symm hne
  unfold setMissing
  rw [hany, if_neg Bool.false_ne_true]
  cases members with
  | nil => rfl
  | cons first rest => rw [setMember, if_pos (h first List.mem_cons_self)]

mutual
/-- **A canonical value is its own canonical form.** -/
theorem canonical_eq_self : ∀ value : Json, isCanonical value → canonical value = value
  | .null, _ | .bool _, _ | .num _, _ | .str _, _ => rfl
  | .arr items, h => congrArg Json.arr (canonicalItems_eq_self items h)
  | .obj members, h => by
    simp only [isCanonical, Bool.and_eq_true, decide_eq_true_eq] at h
    rw [canonical, canonicalMembers_eq_self members h.1 h.2]

theorem canonicalItems_eq_self : ∀ items : List Json, areCanonical items →
    canonicalItems items = items
  | [], _ => rfl
  | item :: rest, h => by
    simp only [areCanonical, Bool.and_eq_true] at h
    rw [canonicalItems, canonical_eq_self item h.1, canonicalItems_eq_self rest h.2]

theorem canonicalMembers_eq_self : ∀ members : Members, Increasing members →
    haveCanonical members → canonicalMembers members = members
  | [], _, _ => rfl
  | (name, value) :: rest, hi, hc => by
    simp only [haveCanonical, Bool.and_eq_true] at hc
    obtain ⟨hfirst, hrest⟩ := increasing_cons.1 hi
    rw [canonicalMembers, canonical_eq_self value hc.1, canonicalMembers_eq_self rest hrest hc.2,
      setMissing_eq_cons hfirst]
end

theorem asNat_ofNat (value : Nat) : asNat (ofNat value) = .ok value := by
  simp [ofNat, asNat]

/-- Known names that occur at most once are not repeated. -/
theorem Members.unrepeated_eq_ok {known : List String} {members : Members}
    (h : ∀ name ∈ known, (members.map Prod.fst).count name ≤ 1) :
    Members.unrepeated known members = .ok () := by
  induction members with
  | nil => rfl
  | cons field rest ih =>
    obtain ⟨name, value⟩ := field
    have hrest : ∀ other ∈ known, (rest.map Prod.fst).count other ≤ 1 := by
      intro other hother
      have hcount := h other hother
      rw [List.map_cons, List.count_cons] at hcount
      omega
    have htest : ¬(known.contains name && rest.any (·.1 == name)) = true := by
      rw [Bool.and_eq_true, List.contains_iff_mem, List.any_eq_true]
      rintro ⟨hknown, field, hfield, hname⟩
      have hmem : name ∈ rest.map Prod.fst := List.mem_map.2 ⟨field, hfield, by simpa using hname⟩
      have hpos := List.count_pos_iff.2 hmem
      have hcount := h name hknown
      rw [List.map_cons, List.count_cons_self] at hcount
      omega
    rw [unrepeated, if_neg htest]
    exact ih hrest

end Json

namespace Yul

open Json

/-- Attributes are what reading their members makes of them. -/
theorem Attributes.ofMembers_members (attributes : Attributes) :
    ofMembers attributes.members = attributes := by
  obtain ⟨members, canonical⟩ := attributes
  have h := canonical
  simp only [isCanonical, Bool.and_eq_true, decide_eq_true_eq] at h
  simp only [ofMembers, canonicalMembers_eq_self members h.1 h.2]

/-- **An assembly node is what its object form stands for**, unless an attribute passes for the
tag. -/
theorem Node.ofJson_toJson {node : Node} (h : node.attributes.get? tagField = none) :
    ofJson node.toJson = .ok node := by
  obtain ⟨tag, attributes⟩ := node
  have hnone : ∀ member ∈ attributes.members, member.1 ≠ tagField := by
    intro member hmember
    have hne := List.lookup_eq_none_iff.1 h member hmember
    exact Ne.symm (by simpa using hne)
  have hcount : (attributes.members.map Prod.fst).count tagField = 0 := by
    rw [List.count_eq_zero, List.mem_map]
    rintro ⟨member, hmember, hname⟩
    exact hnone member hmember hname
  have honce : ∀ name ∈ [tagField],
      (((tagField, Json.str tag) :: attributes.members).map Prod.fst).count name ≤ 1 := by
    intro name hname
    have hself : (((tagField, Json.str tag) :: attributes.members).map Prod.fst).count tagField =
        (attributes.members.map Prod.fst).count tagField + 1 := List.count_cons_self
    rw [List.mem_singleton.1 hname]
    omega
  have hfilter : ((tagField, Json.str tag) :: attributes.members).filter (·.1 != tagField) =
      attributes.members := by
    rw [List.filter_cons_of_neg (by simp), List.filter_eq_self]
    intro member hmember
    simpa using hnone member hmember
  have htag : Members.required ((tagField, .str tag) :: attributes.members) tagField asString =
      .ok tag := by
    unfold Members.required
    rw [List.lookup_cons_self]
    rfl
  simp only [toJson, ofJson, Members.unrepeated_eq_ok honce, htag, hfilter,
    attributes.ofMembers_members]
  rfl

end Yul

end SolText
