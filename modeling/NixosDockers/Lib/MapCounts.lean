-- Counting the values of an ordered map that have a property, and how the count
-- changes when entries are entered, replaced or dropped.
import Mathlib

namespace tree_maps

variable {κ ν : Type} [Ord κ] [Std.TransOrd κ]

open Std.DTreeMap.Internal in
theorem values_eq (m : Std.ExtTreeMap κ ν) : m.values = m.toList.map Prod.snd := by
  rcases m with ⟨⟨q⟩⟩
  induction q using Quotient.ind with
  | _ t =>
    change Impl.values t.inner = (Impl.Const.toList t.inner).map Prod.snd
    rw [Impl.values_eq_map_snd, Impl.Const.toList_eq_toListModel_map]
    simp

/-- How many values have the property. -/
def countValues (p : ν → Bool) (m : Std.ExtTreeMap κ ν) : Nat := m.values.countP p

theorem countValues_eq_size (p : ν → Bool) (m : Std.ExtTreeMap κ ν) :
    countValues p m = (m.filter fun _ value => p value).size := by
  unfold countValues
  rw [values_eq, List.countP_map, List.countP_eq_length_filter, ← Std.ExtTreeMap.length_toList,
    Std.ExtTreeMap.toList_filter]
  rfl

theorem countValues_filter_le {p : ν → Bool} {m : Std.ExtTreeMap κ ν} {q : κ → ν → Bool} :
    countValues p (m.filter q) ≤ countValues p m := by
  unfold countValues
  rw [values_eq, values_eq, List.countP_map, List.countP_map, Std.ExtTreeMap.toList_filter]
  exact List.filter_sublist.countP_le

/-- No value gets the property when values are changed or dropped. -/
theorem countValues_filterMap_le {p : ν → Bool} {m : Std.ExtTreeMap κ ν} {f : κ → ν → Option ν}
    (hf : ∀ key old new, f key old = some new → p new = true → p old = true) :
    countValues p (m.filterMap f) ≤ countValues p m := by
  unfold countValues
  rw [values_eq, values_eq, List.countP_map, List.countP_map, Std.ExtTreeMap.toList_filterMap]
  generalize m.toList = entries
  induction entries with
  | nil => simp
  | cons entry entries ih =>
    rw [List.filterMap_cons]
    cases hnew : f entry.1 entry.2 with
    | none =>
      simp only [Option.map_none, List.countP_cons]
      omega
    | some new =>
      simp only [Option.map_some, List.countP_cons, Function.comp]
      by_cases hp : p new = true
      · simp only [hp, hf _ _ _ hnew hp, if_true]
        omega
      · simp only [hp, Bool.false_eq_true, if_false]
        omega

/-- The values that have a property and those that do not are all the values. -/
theorem size_eq_add (p : ν → Bool) (m : Std.ExtTreeMap κ ν) :
    m.size = countValues p m + countValues (fun value => !p value) m := by
  unfold countValues
  rw [← Std.ExtTreeMap.length_toList, ← List.length_map Prod.snd, ← values_eq,
    List.length_eq_countP_add_countP p]
  simp

section counts

variable [Std.LawfulEqOrd κ] {p : ν → Bool} {m : Std.ExtTreeMap κ ν} {key : κ} {value : ν}

theorem filter_insert_of_pos (hp : p value = true) :
    (m.insert key value).filter (fun _ value => p value) =
      (m.filter fun _ value => p value).insert key value := by
  refine Std.ExtTreeMap.ext_getElem? fun k => ?_
  rw [Std.ExtTreeMap.getElem?_filter', Std.ExtTreeMap.getElem?_insert,
    Std.ExtTreeMap.getElem?_insert, Std.ExtTreeMap.getElem?_filter']
  split_ifs
  · simp [Option.filter, hp]
  · rfl

theorem filter_insert_of_neg (hp : p value = false) :
    (m.insert key value).filter (fun _ value => p value) =
      (m.filter fun _ value => p value).erase key := by
  refine Std.ExtTreeMap.ext_getElem? fun k => ?_
  rw [Std.ExtTreeMap.getElem?_filter', Std.ExtTreeMap.getElem?_insert,
    Std.ExtTreeMap.getElem?_erase, Std.ExtTreeMap.getElem?_filter']
  split_ifs
  · simp [Option.filter, hp]
  · rfl

theorem filter_erase :
    (m.erase key).filter (fun _ value => p value) =
      (m.filter fun _ value => p value).erase key := by
  refine Std.ExtTreeMap.ext_getElem? fun k => ?_
  rw [Std.ExtTreeMap.getElem?_filter', Std.ExtTreeMap.getElem?_erase,
    Std.ExtTreeMap.getElem?_erase, Std.ExtTreeMap.getElem?_filter']
  split_ifs <;> rfl

theorem countValues_insert_of_neg (hp : p value = false) :
    countValues p (m.insert key value) ≤ countValues p m := by
  rw [countValues_eq_size, countValues_eq_size, filter_insert_of_neg hp]
  exact Std.ExtTreeMap.size_erase_le

theorem countValues_insert_le : countValues p (m.insert key value) ≤ countValues p m + 1 := by
  by_cases hp : p value = true
  · rw [countValues_eq_size, countValues_eq_size, filter_insert_of_pos hp]
    exact Std.ExtTreeMap.size_insert_le
  · have hle : countValues p (m.insert key value) ≤ countValues p m :=
      countValues_insert_of_neg (by simpa using hp)
    omega

/-- A value takes the place of one that has the property. -/
theorem countValues_replace {old : ν} (hold : m[key]? = some old)
    (hp : p value = true → p old = true) : countValues p (m.insert key value) ≤ countValues p m := by
  by_cases hvalue : p value = true
  · rw [countValues_eq_size, countValues_eq_size, filter_insert_of_pos hvalue,
      Std.ExtTreeMap.size_insert, if_pos]
    rw [Std.ExtTreeMap.contains_eq_isSome_getElem?, Std.ExtTreeMap.getElem?_filter', hold]
    simp [Option.filter, hp hvalue]
  · exact countValues_insert_of_neg (by simpa using hvalue)

theorem countValues_erase_le : countValues p (m.erase key) ≤ countValues p m := by
  rw [countValues_eq_size, countValues_eq_size, filter_erase]
  exact Std.ExtTreeMap.size_erase_le

theorem mem_values_iff : value ∈ m.values ↔ ∃ key : κ, m[key]? = some value := by
  rw [values_eq, List.mem_map]
  constructor
  · rintro ⟨entry, hentry, rfl⟩
    exact ⟨entry.1, Std.ExtTreeMap.mem_toList_iff_getElem?_eq_some.mp hentry⟩
  · rintro ⟨key, hkey⟩
    exact ⟨(key, value), Std.ExtTreeMap.mem_toList_iff_getElem?_eq_some.mpr hkey, rfl⟩

/-- Each value with the property has one of two others. -/
theorem countValues_le_add {q r : ν → Bool}
    (h : ∀ (key : κ) value, m[key]? = some value → p value = true →
      q value = true ∨ r value = true) :
    countValues p m ≤ countValues q m + countValues r m := by
  unfold countValues
  have hall : ∀ value ∈ m.values, p value = true → q value = true ∨ r value = true := by
    intro value hvalue
    obtain ⟨key, hkey⟩ := mem_values_iff.mp hvalue
    exact h key value hkey
  generalize m.values = values at hall
  induction values with
  | nil => simp
  | cons value values ih =>
    have hrest := ih fun other hother => hall other (List.mem_cons_of_mem value hother)
    simp only [List.countP_cons]
    by_cases hp : p value = true
    · rcases hall value List.mem_cons_self hp with hq | hr
      · simp only [hp, hq, if_true]
        omega
      · simp only [hp, hr, if_true]
        omega
    · simp only [hp, Bool.false_eq_true, if_false]
      omega

end counts

end tree_maps
