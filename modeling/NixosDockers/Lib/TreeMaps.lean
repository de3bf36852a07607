-- Ordered maps that are filled from a list, as a loop over the entries fills
-- them.
import Mathlib

namespace tree_maps

variable {κ ν : Type} [Ord κ] [Std.TransOrd κ] [Std.LawfulEqOrd κ]

/-- With one entry for each key, the map holds exactly the entries. -/
theorem getElem?_ofList_iff [BEq κ] [LawfulBEq κ] [Std.LawfulBEqOrd κ]
    {entries : List (κ × ν)} (hkeys : (entries.map Prod.fst).Nodup) {key : κ} {value : ν} :
    (Std.ExtTreeMap.ofList entries)[key]? = some value ↔ (key, value) ∈ entries := by
  have hdistinct : entries.Pairwise fun a b => ¬ compare a.1 b.1 = .eq := by
    refine (List.pairwise_map.mp hkeys).imp ?_
    intro a b hne he
    exact hne (Std.LawfulEqOrd.eq_of_compare he)
  constructor
  · intro h
    have hin : (entries.map Prod.fst).contains key := by
      by_contra hno
      rw [Std.ExtTreeMap.getElem?_ofList_of_contains_eq_false (by simpa using hno)] at h
      cases h
    rw [List.contains_iff_mem] at hin
    obtain ⟨⟨k, v⟩, hentry, rfl⟩ := List.mem_map.mp hin
    rw [Std.ExtTreeMap.getElem?_ofList_of_mem Std.ReflOrd.compare_self hdistinct hentry] at h
    obtain rfl := Option.some.inj h
    exact hentry
  · intro h
    exact Std.ExtTreeMap.getElem?_ofList_of_mem Std.ReflOrd.compare_self hdistinct h

/-- The map that a loop over the entries leaves, from `start` on. -/
def insertAll (start : Std.ExtTreeMap κ ν) (entries : List (κ × ν)) : Std.ExtTreeMap κ ν :=
  entries.foldl (fun values entry => values.insert entry.1 entry.2) start

theorem getElem?_insertAll_of_notMem {entries : List (κ × ν)} {key : κ}
    (h : key ∉ entries.map Prod.fst) (start : Std.ExtTreeMap κ ν) :
    (insertAll start entries)[key]? = start[key]? := by
  unfold insertAll
  induction entries generalizing start with
  | nil => rfl
  | cons entry entries ih =>
    rw [List.map_cons, List.mem_cons, not_or] at h
    rw [List.foldl_cons, ih h.2, Std.ExtTreeMap.getElem?_insert, if_neg]
    intro he
    exact h.1 (Std.LawfulEqOrd.eq_of_compare he).symm

theorem getElem?_insertAll_of_mem {entries : List (κ × ν)}
    (hkeys : (entries.map Prod.fst).Nodup) {key : κ} {value : ν} (h : (key, value) ∈ entries)
    (start : Std.ExtTreeMap κ ν) : (insertAll start entries)[key]? = some value := by
  induction entries generalizing start with
  | nil => cases h
  | cons entry entries ih =>
    rw [List.map_cons, List.nodup_cons] at hkeys
    rcases List.mem_cons.mp h with rfl | h
    · have hrest := getElem?_insertAll_of_notMem hkeys.1 (start.insert key value)
      unfold insertAll at hrest ⊢
      rw [List.foldl_cons, hrest]
      simp
    · exact ih hkeys.2 h (start.insert entry.1 entry.2)

/-- The entries of a map under other keys. -/
theorem getElem?_insertAll_map {μ : Type} (entries : Std.ExtTreeMap κ μ) {f : κ → κ} {g : μ → ν}
    (hf : Function.Injective f) (start : Std.ExtTreeMap κ ν) (key : κ) :
    (insertAll start (entries.toList.map fun entry => (f entry.1, g entry.2)))[f key]? =
      (entries[key]?.map g).or start[f key]? := by
  have hkeys : ((entries.toList.map fun entry => (f entry.1, g entry.2)).map Prod.fst).Nodup := by
    have hnames : (entries.toList.map Prod.fst).Nodup := by
      rw [Std.ExtTreeMap.map_fst_toList_eq_keys]
      exact Std.ExtTreeMap.nodup_keys
    have hmap := hnames.map hf
    rwa [List.map_map] at hmap ⊢
  cases hentry : entries[key]? with
  | some value =>
    refine getElem?_insertAll_of_mem hkeys (List.mem_map.mpr ⟨(key, value), ?_, rfl⟩) start
    exact Std.ExtTreeMap.mem_toList_iff_getElem?_eq_some.mpr hentry
  | none =>
    refine getElem?_insertAll_of_notMem ?_ start
    intro hmem
    simp only [List.map_map, List.mem_map] at hmem
    obtain ⟨⟨name, value⟩, hvalue, hname⟩ := hmem
    obtain rfl := hf hname
    rw [Std.ExtTreeMap.mem_toList_iff_getElem?_eq_some] at hvalue
    rw [hentry] at hvalue
    cases hvalue

/-- A map is filled again from its entries. -/
theorem insertAll_toList (values : Std.ExtTreeMap κ ν) : insertAll ∅ values.toList = values := by
  ext1 key
  have h := getElem?_insertAll_map values (f := id) (g := id) Function.injective_id ∅ key
  simpa using h

/-! ## The entries of a map -/

theorem notMem_toList {values : Std.ExtTreeMap κ ν} {key : κ} (h : values[key]? = none) :
    key ∉ values.toList.map Prod.fst := by
  rw [Std.ExtTreeMap.map_fst_toList_eq_keys, Std.ExtTreeMap.mem_keys]
  exact fun hmem => by simp [Std.ExtTreeMap.mem_iff_isSome_getElem?, h] at hmem

/-- An entry of a map stands at one place of its list. -/
theorem toList_at {values : Std.ExtTreeMap κ ν} {key : κ} {value : ν}
    (h : values[key]? = some value) :
    ∃ before after, values.toList = before ++ (key, value) :: after ∧
      key ∉ before.map Prod.fst ∧ key ∉ after.map Prod.fst := by
  obtain ⟨before, after, hsplit⟩ :=
    List.append_of_mem (Std.ExtTreeMap.mem_toList_iff_getElem?_eq_some.mpr h)
  have hnodup : (values.toList.map Prod.fst).Nodup := by
    rw [Std.ExtTreeMap.map_fst_toList_eq_keys]
    exact Std.ExtTreeMap.nodup_keys
  rw [hsplit, List.map_append, List.map_cons, List.nodup_middle, List.nodup_cons,
    List.mem_append, not_or] at hnodup
  exact ⟨before, after, hsplit, hnodup.1⟩

end tree_maps
