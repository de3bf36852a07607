-- Hash maps whose entries have a size and a time of their last use: the sizes
-- of all entries together, and the removal of the entries that were not used
-- for longest.
import NixosDockers.Lib.HashMaps

namespace hash_maps

namespace HashMap

variable {κ ν : Type} [DecidableEq κ] {map : HashMap κ ν} {key other : κ} {value : ν}

/-! ## Sizes -/

/-- The sizes of all entries together. -/
def total (size : ν → ℕ) (map : HashMap κ ν) : ℕ := (gathered (fun _ value => [size value]) map).sum

/-- The number of entries: `HashMap::len`. -/
def len (map : HashMap κ ν) : ℕ := map.entries.length

variable {size : ν → ℕ}

@[simp] theorem total_empty : total size (∅ : HashMap κ ν) = 0 := rfl

theorem total_insert :
    total size (map.insert key value) = size value + total size (map.erase key) := by
  unfold total
  rw [gathered_insert, List.sum_append, List.sum_singleton]

theorem total_erase (size : ν → ℕ) (h : map.lookup key = some value) :
    total size map = size value + total size (map.erase key) := by
  unfold total
  rw [(gathered_erase h).sum_eq, List.sum_append, List.sum_singleton]

theorem total_eq_sum : total size map = (map.entries.map fun entry => size entry.2).sum := by
  unfold total gathered
  rw [List.map_eq_flatMap]

theorem len_eq_total : len map = total (fun _ => 1) map := by
  rw [total_eq_sum]
  simp [len]

theorem len_erase (h : map.lookup key = some value) : len map = len (map.erase key) + 1 := by
  rw [len_eq_total, len_eq_total, total_erase _ h, Nat.add_comm]

theorem erase_of_lookup_none (h : map.lookup key = none) : map.erase key = map :=
  AList.ext (List.kerase_of_notMem_keys (AList.lookup_eq_none.mp h))

theorem total_congr {other : ν → ℕ}
    (h : ∀ key value, map.lookup key = some value → size value = other value) :
    total size map = total other map := by
  rw [total_eq_sum, total_eq_sum]
  refine congrArg List.sum (List.map_congr_left fun entry hentry => ?_)
  exact h entry.1 entry.2 (AList.mem_lookup_iff.mpr hentry)

theorem total_retain_le (map : HashMap κ ν) (size : ν → ℕ) (keep : κ → ν → Bool) :
    total size (map.retain keep) ≤ total size map := by
  rw [total_eq_sum, total_eq_sum]
  exact (List.filter_sublist.map _).sum_le_sum fun _ _ => Nat.zero_le _

theorem len_retain_le {keep : κ → ν → Bool} : len (map.retain keep) ≤ len map :=
  List.length_filter_le _ _

theorem keep_of_retain {keep : κ → ν → Bool} (h : (map.retain keep).lookup key = some value) :
    keep key value := by
  have hentry : Sigma.mk key value ∈ (map.retain keep).entries := AList.mem_lookup_iff.mp h
  exact (List.mem_filter.mp hentry).2

theorem len_insert {added : ν} (h : map.lookup key = some value) :
    len (map.insert key added) = len map := by
  rw [len_erase h, len_eq_total, total_insert, ← len_eq_total, Nat.add_comm]

theorem eq_empty_of_len (h : len map = 0) : map = ∅ := AList.ext (List.length_eq_zero_iff.mp h)

end HashMap

/-! ## The oldest entry -/

/-- How the entries of a map are passed through: all of them, in some order. -/
structure Iteration (κ ν : Type) [DecidableEq κ] where
  entries : HashMap κ ν → List (Sigma fun _ : κ => ν)
  perm : ∀ map, (entries map).Perm map.entries

namespace Iteration

variable {κ ν : Type} [DecidableEq κ] (iteration : Iteration κ ν) (used : ν → ℕ)
  {map : HashMap κ ν} {key other : κ} {value : ν}

/-- The first of the entries with the earliest use: `min_by_key`. -/
def oldest (map : HashMap κ ν) : Option κ :=
  ((iteration.entries map).argmin fun entry => used entry.2).map Sigma.fst

theorem oldest_eq_none (h : iteration.oldest used map = none) : map = ∅ := by
  have hnil := List.argmin_eq_none.mp (Option.map_eq_none_iff.mp h)
  have hperm := iteration.perm map
  rw [hnil] at hperm
  exact HashMap.eq_empty_of_len (by rw [HashMap.len, ← hperm.length_eq]; rfl)

/-- The oldest entry is there, and none was used before it. -/
theorem oldest_spec (h : iteration.oldest used map = some key) : ∃ value,
    map.lookup key = some value ∧
      ∀ other kept, map.lookup other = some kept → used value ≤ used kept := by
  obtain ⟨⟨first, value⟩, hmin, rfl⟩ := Option.map_eq_some_iff.mp h
  have hmem := (iteration.perm map).mem_iff.mp (List.argmin_mem hmin)
  refine ⟨value, AList.mem_lookup_iff.mpr hmem, fun other kept hkept => ?_⟩
  have hother := (iteration.perm map).mem_iff.mpr (AList.mem_lookup_iff.mp hkept)
  exact List.le_of_mem_argmin (f := fun entry : Sigma fun _ : κ => ν => used entry.2) hother hmin

end Iteration

end hash_maps
