-- Hash maps as association lists without repeated keys: what stays after
-- entries were dropped, and what all entries together hold.
import Mathlib

namespace hash_maps

/-- A hash map. Its order is not one that a program may rely on. -/
abbrev HashMap (κ : Type) [DecidableEq κ] (ν : Type) := AList (fun _ : κ => ν)

namespace HashMap

variable {κ ν α : Type} [DecidableEq κ] {map : HashMap κ ν} {key other : κ} {value : ν}

/-- `HashMap::retain`. -/
def retain (map : HashMap κ ν) (keep : κ → ν → Bool) : HashMap κ ν :=
  ⟨map.entries.filter fun entry => keep entry.1 entry.2,
    map.nodupKeys.sublist List.filter_sublist⟩

theorem lookup_of_retain {keep : κ → ν → Bool} (h : (map.retain keep).lookup key = some value) :
    map.lookup key = some value := by
  have hentry : Sigma.mk key value ∈ (map.retain keep).entries := AList.mem_lookup_iff.mp h
  exact AList.mem_lookup_iff.mpr (List.mem_filter.mp hentry).1

theorem lookup_of_erase (h : (map.erase other).lookup key = some value) :
    map.lookup key = some value := by
  have hne : key ≠ other := by
    rintro rfl
    rw [AList.lookup_erase] at h
    cases h
  rwa [AList.lookup_erase_ne hne] at h

theorem lookup_of_insert {added : ν} (h : (map.insert other added).lookup key = some value) :
    key = other ∧ value = added ∨ key ≠ other ∧ map.lookup key = some value := by
  by_cases hkey : key = other
  · subst hkey
    rw [AList.lookup_insert] at h
    exact Or.inl ⟨rfl, (Option.some.inj h).symm⟩
  · rw [AList.lookup_insert_ne hkey] at h
    exact Or.inr ⟨hkey, h⟩

/-! ## What the entries hold together -/

/-- What all the entries hold. -/
def gathered (held : κ → ν → List α) (map : HashMap κ ν) : List α :=
  map.entries.flatMap fun entry => held entry.1 entry.2

variable {held : κ → ν → List α}

theorem mem_gathered {a : α} :
    a ∈ gathered held map ↔ ∃ key value, map.lookup key = some value ∧ a ∈ held key value := by
  unfold gathered
  rw [List.mem_flatMap]
  constructor
  · rintro ⟨⟨key, value⟩, hentry, ha⟩
    exact ⟨key, value, AList.mem_lookup_iff.mpr hentry, ha⟩
  · rintro ⟨key, value, hlookup, ha⟩
    exact ⟨⟨key, value⟩, AList.mem_lookup_iff.mp hlookup, ha⟩

theorem gathered_insert : gathered held (map.insert key value) =
    held key value ++ gathered held (map.erase key) := rfl

theorem gathered_erase (h : map.lookup key = some value) :
    (gathered held map).Perm (held key value ++ gathered held (map.erase key)) := by
  have hentry : Sigma.mk key value ∈ map.entries := AList.mem_lookup_iff.mp h
  obtain ⟨found, before, after, -, hmap, hrest⟩ :=
    List.exists_of_kerase (List.mem_keys_of_mem hentry)
  have hfound : Sigma.mk key found ∈ map.entries := by simp [hmap]
  obtain rfl : value = found := map.nodupKeys.eq_of_mk_mem hentry hfound
  have herase : (map.erase key).entries = before ++ after := hrest
  unfold gathered
  rw [hmap, herase, List.flatMap_append, List.flatMap_cons, List.flatMap_append]
  exact List.perm_append_comm_assoc _ _ _

theorem gathered_insert_of_none (h : map.lookup key = none) :
    gathered held (map.insert key value) = held key value ++ gathered held map := by
  unfold gathered
  rw [AList.entries_insert_of_notMem (AList.lookup_eq_none.mp h), List.flatMap_cons]

theorem filterMap_gathered {β : Type} {f : α → Option β} :
    (gathered held map).filterMap f = gathered (fun key value => (held key value).filterMap f) map := by
  unfold gathered
  rw [List.filterMap_flatMap]

theorem map_gathered {β : Type} {f : α → β} :
    (gathered held map).map f = gathered (fun key value => (held key value).map f) map := by
  unfold gathered
  rw [List.map_flatMap]

end HashMap

end hash_maps
