import Std.Data.TreeMap.Lemmas
import SolText.SourceMap.Search

/-!
# Maps from nodes

What is found in a map of ranges or texts after a change.
-/

namespace SolText.Map

variable {α : Type} {map other : Std.TreeMap Handle α} {key handle : Handle} {value : α}

theorem getElem?_insert :
    (map.insert handle value)[key]? = if key = handle then some value else map[key]? := by
  rw [Std.TreeMap.getElem?_insert]
  by_cases h : key = handle
  · rw [if_pos h, if_pos (by rw [h]; exact Std.ReflCmp.compare_self)]
  · rw [if_neg h, if_neg]
    intro hc
    exact h (Std.LawfulEqCmp.eq_of_compare hc).symm

/-- Everything in one map is in the other. -/
def Within (map other : Std.TreeMap Handle α) : Prop :=
  ∀ (key : Handle) (value : α), map[key]? = some value → other[key]? = some value

/-- A new entry leaves the others as they are. -/
theorem within_insert (h : map[handle]? = none) : Within map (map.insert handle value) := by
  intro key value' hkey
  rw [getElem?_insert, if_neg]
  · exact hkey
  · rintro rfl
    rw [h] at hkey; cases hkey

/-- A value that is there is kept. -/
theorem getElem?_insertIfNew :
    (map.insertIfNew handle value)[key]? =
      (map[key]?).or (if key = handle then some value else none) := by
  rw [Std.TreeMap.getElem?_insertIfNew]
  by_cases h : key = handle
  · subst h
    cases hk : map[key]? with
    | none =>
      have hmem : key ∉ map := by
        rw [← Std.TreeMap.isSome_getElem?_iff_mem, hk]; simp
      simp [hmem]
    | some v =>
      have hmem : key ∈ map := by
        rw [← Std.TreeMap.isSome_getElem?_iff_mem, hk]; simp
      simp [hmem]
  · have hc : ¬compare handle key = .eq := fun hc => h (Std.LawfulEqCmp.eq_of_compare hc).symm
    simp [h, hc]

theorem insertMany_eq_toList (map other : Std.TreeMap Handle α) :
    map.insertMany other = map.insertMany other.toList := by
  unfold Std.TreeMap.insertMany Std.DTreeMap.Const.insertMany
  congr 2
  unfold Std.DTreeMap.Internal.Impl.Const.insertMany
  simp only [Std.TreeMap.forIn_eq_forIn_toList]

/-- Values put over others take their places. -/
theorem getElem?_insertMany : (map.insertMany other)[key]? = (other[key]?).or map[key]? := by
  rw [insertMany_eq_toList, Std.TreeMap.getElem?_insertMany_list, List.findSomeRev?_eq_findSome?_reverse]
  congr 1
  cases hfind : other.toList.reverse.findSome?
      (fun x => match x with | (a, b) => if compare a key = .eq then some b else none) with
  | some v =>
    obtain ⟨⟨a, b⟩, hmem, hab⟩ := List.exists_of_findSome?_eq_some hfind
    simp only at hab
    by_cases hc : compare a key = .eq
    · rw [if_pos hc] at hab
      rw [List.mem_reverse, Std.TreeMap.mem_toList_iff_getElem?_eq_some,
        Std.LawfulEqCmp.eq_of_compare hc] at hmem
      rw [hmem, hab]
    · rw [if_neg hc] at hab
      cases hab
  | none =>
    rw [List.findSome?_eq_none_iff] at hfind
    cases hk : other[key]? with
    | none => rfl
    | some v =>
      have hmem : (key, v) ∈ other.toList.reverse :=
        List.mem_reverse.2 (Std.TreeMap.mem_toList_iff_getElem?_eq_some.2 hk)
      have := hfind (key, v) hmem
      simp at this

theorem getElem?_erase : (map.erase handle)[key]? = if key = handle then none else map[key]? := by
  rw [Std.TreeMap.getElem?_erase]
  by_cases h : key = handle
  · rw [if_pos h, if_pos (by rw [h]; exact Std.ReflCmp.compare_self)]
  · rw [if_neg h, if_neg]
    intro hc
    exact h (Std.LawfulEqCmp.eq_of_compare hc).symm

theorem text_insert {fragments : FragmentMap} {text : String} :
    FragmentMap.text (fragments.insert handle text) key =
      if key = handle then text else fragments.text key := by
  unfold FragmentMap.text
  rw [getElem?_insert]
  split <;> rfl

end SolText.Map
