-- Paths and cycles of a graph, and the stack of a depth-first search, which is a path to the
-- node that comes next.
import NixosDockers.Lib.DepthFirst

namespace depth_first

variable {α : Type} {edges : α → List α}

/-- Every node but the last has an edge to the one that follows it. -/
def IsPath (edges : α → List α) (path : List α) : Prop := path.IsChain fun a b => b ∈ edges a

/-- A path of at least one edge that ends where it begins. -/
structure IsCycle (edges : α → List α) (cycle : List α) : Prop where
  path : IsPath edges cycle
  length : 2 ≤ cycle.length
  closed : cycle.head? = cycle.getLast?

theorem IsPath.reaches_last {path : List α} (h : IsPath edges path) {a last : α} (ha : a ∈ path)
    (hlast : path.getLast? = some last) : Reaches edges a last := by
  induction path generalizing a with
  | nil => cases ha
  | cons first rest ih =>
    cases rest with
    | nil =>
      simp only [List.getLast?_singleton, Option.some.injEq] at hlast
      rw [List.mem_singleton] at ha
      rw [ha, hlast]
      exact .refl
    | cons second rest =>
      obtain ⟨hedge, hrest⟩ := List.isChain_cons_cons.mp h
      rw [List.getLast?_cons_cons] at hlast
      rcases List.mem_cons.mp ha with rfl | ha
      · exact .head hedge (ih hrest List.mem_cons_self hlast)
      · exact ih hrest ha hlast

/-- The first node of a cycle lies on it. -/
theorem IsCycle.onCycle {cycle : List α} (h : IsCycle edges cycle) : ∃ a, OnCycle edges a := by
  obtain ⟨hpath, hlength, hclosed⟩ := h
  match cycle with
  | [] => simp at hlength
  | [_] => simp at hlength
  | first :: second :: rest =>
    have hlast : (first :: second :: rest).getLast? = some first := hclosed.symm
    obtain ⟨hedge, hrest⟩ := List.isChain_cons_cons.mp hpath
    have hback : Reaches edges second first :=
      IsPath.reaches_last hrest List.mem_cons_self (by rwa [List.getLast?_cons_cons] at hlast)
    exact ⟨first, .head' hedge hback⟩

/-! ## The stack of a search -/

/-- The nodes on the stack are different and lead down to the next one. -/
structure Stacked (edges : α → List α) (stack : List α) (next : α) : Prop where
  path : IsPath edges (stack ++ [next])
  nodup : stack.Nodup

theorem stacked_nil (edges : α → List α) (a : α) : Stacked edges [] a where
  path := by simp [IsPath]
  nodup := List.nodup_nil

variable {stack : List α} {a b : α}

theorem Stacked.push (h : Stacked edges stack a) (hnew : a ∉ stack) (hedge : b ∈ edges a) :
    Stacked edges (stack ++ [a]) b where
  path := by
    unfold IsPath
    refine List.isChain_append.mpr ⟨h.path, by simp, ?_⟩
    intro last hlast next hnext
    simp only [List.getLast?_append, List.getLast?_singleton, Option.some_or, Option.mem_def,
      Option.some.injEq, List.head?_cons] at hlast hnext
    rw [← hlast, ← hnext]
    exact hedge
  nodup := by
    refine List.nodup_append.mpr ⟨h.nodup, List.nodup_singleton a, ?_⟩
    intro c hc d hd
    rw [List.mem_singleton] at hd
    rintro rfl
    exact hnew (hd ▸ hc)

/-- A node that comes up again closes a cycle. -/
theorem Stacked.cycle [DecidableEq α] (h : Stacked edges stack a) (hin : a ∈ stack) :
    IsCycle edges (stack.drop (stack.idxOf a) ++ [a]) where
  path := by
    have hle := (List.idxOf_lt_length_of_mem hin).le
    rw [← List.drop_append_of_le_length hle]
    exact h.path.drop _
  length := by
    have hlt := List.idxOf_lt_length_of_mem hin
    rw [List.length_append, List.length_drop, List.length_singleton]
    omega
  closed := by
    have hlt := List.idxOf_lt_length_of_mem hin
    rw [List.getLast?_append, List.getLast?_singleton, Option.some_or,
      List.drop_eq_getElem_cons hlt, List.getElem_idxOf]
    rfl

end depth_first
