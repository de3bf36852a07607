-- Patterns with wildcards over sequences of any kind: what they match, and a
-- table of answers that are already known.
import Mathlib.Data.List.Basic
import Mathlib.Data.List.Forall2

namespace wildcards

/-! ## The language of a pattern -/

/-- A piece of a pattern: a run of any length, or one place with a condition. -/
inductive Piece (α : Type) where
  | Run
  | Single (accepts : α → Prop)

variable {α : Type} {accepts : α → Prop} {pattern : List (Piece α)} {items rest : List α} {item : α}

/-- What one piece may stand for. -/
def Piece.Fits : Piece α → List α → Prop
  | .Run, _ => True
  | .Single accepts, group => ∃ item, group = [item] ∧ accepts item

/-- The items can be split into groups that the pieces stand for, in order. -/
def Matches (pattern : List (Piece α)) (items : List α) : Prop :=
  ∃ groups : List (List α), groups.flatten = items ∧ List.Forall₂ Piece.Fits pattern groups

@[simp] theorem matches_nil : Matches ([] : List (Piece α)) items ↔ items = [] := by
  constructor
  · rintro ⟨groups, rfl, hfits⟩
    rw [List.forall₂_nil_left_iff.mp hfits]
    rfl
  · rintro rfl
    exact ⟨[], rfl, .nil⟩

theorem matches_cons {piece : Piece α} : Matches (piece :: pattern) items ↔
    ∃ group rest, items = group ++ rest ∧ piece.Fits group ∧ Matches pattern rest := by
  constructor
  · rintro ⟨groups, rfl, hfits⟩
    obtain ⟨group, rest, hgroup, hrest, rfl⟩ := List.forall₂_cons_left_iff.mp hfits
    exact ⟨group, rest.flatten, rfl, hgroup, rest, rfl, hrest⟩
  · rintro ⟨group, rest, rfl, hgroup, groups, rfl, hfits⟩
    exact ⟨group :: groups, rfl, .cons hgroup hfits⟩

/-- A run stands for nothing, or for one item more. -/
theorem matches_run : Matches (.Run :: pattern) items ↔
    Matches pattern items ∨ ∃ item rest, items = item :: rest ∧ Matches (.Run :: pattern) rest := by
  rw [matches_cons]
  constructor
  · rintro ⟨group, rest, rfl, -, hrest⟩
    cases group with
    | nil => exact Or.inl hrest
    | cons item group =>
      exact Or.inr ⟨item, group ++ rest, rfl, matches_cons.mpr ⟨group, rest, rfl, trivial, hrest⟩⟩
  · rintro (hnone | ⟨item, rest, rfl, hmore⟩)
    · exact ⟨[], items, rfl, trivial, hnone⟩
    · obtain ⟨group, rest, rfl, -, hrest⟩ := matches_cons.mp hmore
      exact ⟨item :: group, rest, rfl, trivial, hrest⟩

@[simp] theorem matches_run_nil :
    Matches (.Run :: pattern) ([] : List α) ↔ Matches pattern [] := by
  rw [matches_run]
  simp

theorem matches_run_cons : Matches (.Run :: pattern) (item :: items) ↔
    Matches pattern (item :: items) ∨ Matches (.Run :: pattern) items := by
  rw [matches_run]
  simp

@[simp] theorem matches_single_nil : ¬ Matches (.Single accepts :: pattern) ([] : List α) := by
  rw [matches_cons]
  rintro ⟨group, rest, hitems, ⟨item, rfl, -⟩, -⟩
  cases hitems

theorem matches_single_cons : Matches (.Single accepts :: pattern) (item :: items) ↔
    accepts item ∧ Matches pattern items := by
  rw [matches_cons]
  constructor
  · rintro ⟨group, rest, hitems, ⟨first, rfl, haccepts⟩, hrest⟩
    cases hitems
    exact ⟨haccepts, hrest⟩
  · rintro ⟨haccepts, hrest⟩
    exact ⟨[item], items, rfl, ⟨item, rfl, haccepts⟩, hrest⟩

/-- A pattern of given items matches only these. -/
theorem matches_exact {given : List α} :
    Matches (given.map fun item => .Single (· = item)) items ↔ items = given := by
  induction given generalizing items with
  | nil => simp
  | cons first given ih =>
    cases items with
    | nil => simp
    | cons item items => rw [List.map_cons, matches_single_cons, ih, List.cons.injEq]

/-! ## Tables of answers -/

/-- A table of rows, `Vec<Vec<Option<β>>>`. -/
abbrev Memo (β : Type) := List (List (Option β))

namespace Memo

variable {β : Type} {memo memo' : Memo β} {rows columns i j k l : ℕ} {answer : β}

/-- A table without answers: `vec![vec![None; columns]; rows]`. -/
def empty (rows columns : ℕ) : Memo β := List.replicate rows (List.replicate columns none)

/-- What is at two indices, if they are in range. -/
def get (memo : Memo β) (i j : ℕ) : Option (Option β) := memo[i]?.bind fun row => row[j]?

/-- An answer is put at two indices, if they are in range. -/
def set (memo : Memo β) (i j : ℕ) (answer : β) : Option (Memo β) :=
  memo[i]?.bind fun row =>
    if j < row.length then some (List.set memo i (row.set j (some answer))) else none

/-- A table of this size, all answers of which are right. -/
structure Sound (right : ℕ → ℕ → β → Prop) (rows columns : ℕ) (memo : Memo β) : Prop where
  rows_eq : memo.length = rows
  columns_eq : ∀ row ∈ memo, row.length = columns
  right : ∀ i j answer, memo.get i j = some (some answer) → right i j answer

variable {right : ℕ → ℕ → β → Prop}

theorem sound_empty : Sound right rows columns (empty rows columns) where
  rows_eq := List.length_replicate
  columns_eq := fun row hrow => by rw [(List.mem_replicate.mp hrow).2, List.length_replicate]
  right := fun i j answer h => by
    obtain ⟨row, hrow, hentry⟩ := Option.bind_eq_some_iff.mp h
    rw [(List.mem_replicate.mp (List.mem_of_getElem? hrow)).2] at hentry
    have hnone := (List.mem_replicate.mp (List.mem_of_getElem? hentry)).2
    cases hnone

theorem Sound.exists_row (h : Sound right rows columns memo) (hi : i < rows) :
    ∃ row, memo[i]? = some row ∧ row.length = columns := by
  have hlength : i < memo.length := h.rows_eq.symm ▸ hi
  exact ⟨memo[i], List.getElem?_eq_getElem hlength, h.columns_eq _ (List.getElem_mem hlength)⟩

/-- In range there is an entry. -/
theorem Sound.exists_get (h : Sound right rows columns memo) (hi : i < rows) (hj : j < columns) :
    ∃ entry, memo.get i j = some entry := by
  obtain ⟨row, hrow, hlength⟩ := h.exists_row hi
  exact ⟨row[j], by rw [get, hrow, Option.bind_some, List.getElem?_eq_getElem]⟩

/-- In range a right answer can be put, and the table stays sound. -/
theorem Sound.exists_set (h : Sound right rows columns memo) (hi : i < rows) (hj : j < columns)
    (hanswer : right i j answer) : ∃ memo', memo.set i j answer = some memo' ∧
      Sound right rows columns memo' := by
  obtain ⟨row, hrow, hlength⟩ := h.exists_row hi
  refine ⟨_, by rw [set, hrow, Option.bind_some, if_pos (hlength.symm ▸ hj)], ?_, ?_, ?_⟩
  · rw [List.length_set, h.rows_eq]
  · intro other hother
    rcases List.mem_or_eq_of_mem_set hother with hmem | rfl
    · exact h.columns_eq other hmem
    · rw [List.length_set, hlength]
  · intro k l found hfound
    obtain ⟨other, hother, hentry⟩ := Option.bind_eq_some_iff.mp hfound
    rw [List.getElem?_set] at hother
    split_ifs at hother with hrowindex hbound
    · subst hrowindex
      obtain rfl := Option.some.inj hother
      rw [List.getElem?_set] at hentry
      split_ifs at hentry with hcolumn hin
      · subst hcolumn
        obtain rfl := Option.some.inj (Option.some.inj hentry)
        exact hanswer
      · exact h.right _ _ _ (by rw [get, hrow, Option.bind_some, hentry])
    · exact h.right _ _ _ (by rw [get, hother, Option.bind_some, hentry])

end Memo

end wildcards
