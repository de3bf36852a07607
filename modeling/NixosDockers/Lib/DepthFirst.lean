-- The order in which a depth-first search leaves the nodes of a graph: every
-- node once, after the nodes that its edges lead to.
import Mathlib

namespace depth_first

variable {α : Type} {edges : α → List α}

/-- From the nodes that are done, a search works through a list of nodes. A node that is done is
skipped. Another one is left after the nodes of its edges, and does not come up again below
itself. -/
inductive Search (edges : α → List α) : List α → List α → List α → Prop
  | nil {done : List α} : Search edges done [] done
  | skip {done todo result : List α} {a : α} (hdone : a ∈ done)
      (hrest : Search edges done todo result) : Search edges done (a :: todo) result
  | visit {done inner todo result : List α} {a : α} (hnew : a ∉ done)
      (hbelow : Search edges done (edges a) inner) (hfresh : a ∉ inner)
      (hrest : Search edges (inner ++ [a]) todo result) : Search edges done (a :: todo) result

/-- Every node comes after the nodes of its edges. -/
def Ordered (edges : α → List α) (l : List α) : Prop :=
  ∀ l₁ a l₂, l = l₁ ++ a :: l₂ → ∀ b ∈ edges a, b ∈ l₁

/-- Some edges lead from the first node to the second. -/
def Reaches (edges : α → List α) : α → α → Prop := Relation.ReflTransGen fun a b => b ∈ edges a

/-- Some edges, at least one, lead from the node back to it. -/
def OnCycle (edges : α → List α) (a : α) : Prop := Relation.TransGen (fun a b => b ∈ edges a) a a

theorem Ordered.nil : Ordered edges [] := by
  intro l₁ a l₂ h
  simp at h

theorem Ordered.snoc {l : List α} {a : α} (h : Ordered edges l) (ha : ∀ b ∈ edges a, b ∈ l) :
    Ordered edges (l ++ [a]) := by
  intro l₁ c l₂ hsplit b hb
  rcases List.eq_nil_or_concat l₂ with rfl | ⟨init, last, rfl⟩
  · obtain ⟨rfl, hlast⟩ := List.append_inj' hsplit rfl
    obtain rfl := List.head_eq_of_cons_eq hlast
    exact ha b hb
  · have heq : l ++ [a] = (l₁ ++ c :: init) ++ [last] := by simpa using hsplit
    obtain ⟨rfl, _⟩ := List.append_inj' heq rfl
    exact h l₁ c init rfl b hb

theorem Ordered.closed {l : List α} (h : Ordered edges l) {a : α} (ha : a ∈ l) :
    ∀ b ∈ edges a, b ∈ l := by
  intro b hb
  obtain ⟨l₁, l₂, rfl⟩ := List.append_of_mem ha
  exact List.mem_append_left _ (h l₁ a l₂ rfl b hb)

theorem Ordered.reaches {l : List α} (h : Ordered edges l) {a b : α} (ha : a ∈ l)
    (hreaches : Reaches edges a b) : b ∈ l := by
  induction hreaches with
  | refl => exact ha
  | tail _ hedge ih => exact h.closed ih _ hedge

theorem Ordered.idxOf_lt [DecidableEq α] {l : List α} (h : Ordered edges l) (hnodup : l.Nodup)
    {a b : α} (ha : a ∈ l) (hb : b ∈ edges a) : l.idxOf b < l.idxOf a := by
  obtain ⟨l₁, l₂, rfl⟩ := List.append_of_mem ha
  have hin := h l₁ a l₂ rfl b hb
  have hout : a ∉ l₁ := fun hm => (List.nodup_append.mp hnodup).2.2 a hm a (by simp) rfl
  rw [List.idxOf_append_of_mem hin, List.idxOf_append_of_notMem hout, List.idxOf_cons_self]
  exact List.idxOf_lt_length_of_mem hin

/-- No node of an order lies on a cycle. -/
theorem Ordered.no_cycle [DecidableEq α] {l : List α} (h : Ordered edges l) (hnodup : l.Nodup)
    {a : α} (ha : a ∈ l) : ¬ OnCycle edges a := by
  intro hcycle
  have hlower : ∀ b, Relation.TransGen (fun a b => b ∈ edges a) a b →
      b ∈ l ∧ l.idxOf b < l.idxOf a := by
    intro b hb
    induction hb with
    | single hedge => exact ⟨h.closed ha _ hedge, h.idxOf_lt hnodup ha hedge⟩
    | tail _ hedge ih => exact ⟨h.closed ih.1 _ hedge, (h.idxOf_lt hnodup ih.1 hedge).trans ih.2⟩
  exact lt_irrefl _ (hlower a hcycle).2

section search

variable {done todo result : List α}

theorem Search.subset (h : Search edges done todo result) : done ⊆ result := by
  induction h with
  | nil => exact fun _ ha => ha
  | skip _ _ ih => exact ih
  | visit _ _ _ _ ihbelow ihrest =>
    exact fun a ha => ihrest (List.mem_append_left _ (ihbelow ha))

theorem Search.todo_subset (h : Search edges done todo result) : todo ⊆ result := by
  induction h with
  | nil => exact List.nil_subset _
  | skip hdone hrest ih => exact List.cons_subset.mpr ⟨hrest.subset hdone, ih⟩
  | visit _ _ _ hrest _ ihrest =>
    exact List.cons_subset.mpr ⟨hrest.subset (by simp), ihrest⟩

theorem Search.nodup (h : Search edges done todo result) (hdone : done.Nodup) :
    result.Nodup := by
  induction h with
  | nil => exact hdone
  | skip _ _ ih => exact ih hdone
  | visit _ _ hfresh _ ihbelow ihrest =>
    have hinner := ihbelow hdone
    refine ihrest (List.nodup_append.mpr ⟨hinner, List.nodup_singleton _, ?_⟩)
    intro b hb c hc
    rw [List.mem_singleton] at hc
    rintro rfl
    exact hfresh (hc ▸ hb)

theorem Search.ordered (h : Search edges done todo result) (hdone : Ordered edges done) :
    Ordered edges result := by
  induction h with
  | nil => exact hdone
  | skip _ _ ih => exact ih hdone
  | visit _ hbelow _ _ ihbelow ihrest =>
    exact ihrest ((ihbelow hdone).snoc fun _ hb => hbelow.todo_subset hb)

theorem Search.reached (h : Search edges done todo result) :
    ∀ b ∈ result, b ∈ done ∨ ∃ a ∈ todo, Reaches edges a b := by
  induction h with
  | nil => exact fun b hb => Or.inl hb
  | skip _ _ ih =>
    intro b hb
    refine (ih b hb).imp_right ?_
    rintro ⟨a, ha, hreaches⟩
    exact ⟨a, List.mem_cons_of_mem _ ha, hreaches⟩
  | @visit done inner todo result a _ _ _ _ ihbelow ihrest =>
    intro b hb
    rcases ihrest b hb with hinner | ⟨c, hc, hreaches⟩
    · rcases List.mem_append.mp hinner with hinner | hlast
      · rcases ihbelow b hinner with hdone | ⟨c, hc, hreaches⟩
        · exact Or.inl hdone
        · exact Or.inr ⟨a, List.mem_cons_self, .head hc hreaches⟩
      · rw [List.mem_singleton] at hlast
        exact Or.inr ⟨a, List.mem_cons_self, hlast ▸ .refl⟩
    · exact Or.inr ⟨c, List.mem_cons_of_mem _ hc, hreaches⟩

/-- A search leaves exactly the nodes that its start reaches. -/
theorem Search.mem_iff {root b : α} (h : Search edges [] [root] result) :
    b ∈ result ↔ Reaches edges root b := by
  constructor
  · intro hb
    rcases h.reached b hb with hnone | ⟨a, ha, hreaches⟩
    · cases hnone
    · rw [List.mem_singleton] at ha
      exact ha ▸ hreaches
  · intro hreaches
    exact (h.ordered Ordered.nil).reaches (h.todo_subset List.mem_cons_self) hreaches

theorem Search.append {middle more : List α} (h₁ : Search edges done todo middle)
    (h₂ : Search edges middle more result) : Search edges done (todo ++ more) result := by
  induction h₁ with
  | nil => exact h₂
  | skip hdone _ ih => exact .skip hdone (ih h₂)
  | visit hnew hbelow hfresh _ _ ihrest => exact .visit hnew hbelow hfresh (ihrest h₂)

end search

end depth_first
