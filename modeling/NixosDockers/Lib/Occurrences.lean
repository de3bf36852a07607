-- Lists that keep the first occurrence of each of their members.
import Mathlib

namespace occurrences

variable {α : Type*} [DecidableEq α]

/-- Take in a member that is not there yet. -/
def push (kept : List α) (a : α) : List α := if a ∈ kept then kept else kept ++ [a]

theorem removeAll_append_singleton (l kept : List α) (a : α) :
    l.removeAll (kept ++ [a]) = (l.removeAll kept).filter fun b => !b == a := by
  unfold List.removeAll
  rw [List.filter_filter]
  apply List.filter_congr
  intro b _
  by_cases hkept : b ∈ kept <;> by_cases ha : b = a <;> simp [hkept, ha]

/-- A loop that takes in what is not there yet keeps the first occurrences. -/
theorem foldl_push (kept l : List α) : l.foldl push kept = kept ++ (l.removeAll kept).eraseDups := by
  induction l generalizing kept with
  | nil => simp [List.removeAll]
  | cons a l ih =>
    rw [List.foldl_cons, ih]
    unfold push
    by_cases hkept : a ∈ kept
    · rw [if_pos hkept, List.cons_removeAll]
      simp [hkept]
    · rw [if_neg hkept, List.cons_removeAll, removeAll_append_singleton, List.append_assoc]
      simp [hkept, List.eraseDups_cons]

theorem foldl_push_nil (l : List α) : l.foldl push [] = l.eraseDups := by
  rw [foldl_push]
  simp [List.removeAll]

theorem filter_eraseDups (p : α → Bool) (l : List α) :
    (l.filter p).eraseDups = l.eraseDups.filter p := by
  induction hlength : l.length using Nat.strong_induction_on generalizing l with
  | _ n ih =>
    cases l with
    | nil => rfl
    | cons a l =>
      have hshort : (l.filter fun b => !b == a).length < n := by
        rw [← hlength, List.length_cons]
        exact Nat.lt_succ_of_le (List.length_filter_le _ _)
      have hrest := ih _ hshort _ rfl
      rw [List.eraseDups_cons, List.filter_cons, List.filter_cons, ← hrest]
      by_cases hp : p a = true
      · rw [if_pos hp, if_pos hp, List.eraseDups_cons, List.filter_comm]
      · rw [if_neg hp, if_neg hp]
        congr 1
        rw [List.filter_filter]
        apply List.filter_congr
        intro b _
        by_cases hb : b = a
        · subst hb
          simp [hp]
        · simp [hb]

/-- Members that are there already add nothing. -/
theorem eraseDups_append_of_subset {as bs : List α} (h : ∀ b ∈ bs, b ∈ as) :
    (as ++ bs).eraseDups = as.eraseDups := by
  have hnone : bs.removeAll as = [] := by
    unfold List.removeAll
    rw [List.filter_eq_nil_iff]
    intro b hb
    simp [h b hb]
  rw [List.eraseDups_append, hnone, List.eraseDups_nil, List.append_nil]

theorem eraseDups_eraseDups (l : List α) : l.eraseDups.eraseDups = l.eraseDups := by
  induction hlength : l.length using Nat.strong_induction_on generalizing l with
  | _ n ih =>
    cases l with
    | nil => rfl
    | cons a l =>
      have hshort : (l.filter fun b => !b == a).length < n := by
        rw [← hlength, List.length_cons]
        exact Nat.lt_succ_of_le (List.length_filter_le _ _)
      have hrest := ih _ hshort _ rfl
      rw [List.eraseDups_cons, List.eraseDups_cons, ← filter_eraseDups, List.filter_filter]
      simp only [Bool.and_self]
      rw [hrest]

/-- What was put in front once stays as it is when it is put in front again. -/
theorem eraseDups_prepend (as bs : List α) :
    (as ++ (as ++ bs).eraseDups).eraseDups = (as ++ bs).eraseDups := by
  have hrest : (as ++ bs).eraseDups.removeAll as = (bs.removeAll as).eraseDups := by
    unfold List.removeAll
    rw [← filter_eraseDups, List.filter_append]
    have hnone : (as.filter fun a => !as.elem a) = [] := by
      rw [List.filter_eq_nil_iff]
      intro a ha
      simp [ha]
    rw [hnone, List.nil_append]
  rw [List.eraseDups_append, hrest, eraseDups_eraseDups, ← List.eraseDups_append]

end occurrences
