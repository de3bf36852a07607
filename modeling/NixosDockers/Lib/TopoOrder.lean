-- Orders of a finite set of nodes in which every node comes after its
-- dependencies. The greedy order always takes the ready node with the least
-- key: it is the least of all such orders, and it is stuck only on a cycle.
import Mathlib

namespace topo_order

section

variable {α κ : Type*} [DecidableEq α] [LinearOrder κ]
variable (nodes : Finset α) (deps : α → Finset α) (key : α → κ)

/-- The nodes that may come next: not placed, with every dependency placed. -/
def ready (placed : Finset α) : Finset α := {a ∈ nodes \ placed | deps a ⊆ placed}

/-- The node `a` is a dependency of the node `b`. -/
def DependsOn (a b : α) : Prop := b ∈ nodes ∧ a ∈ deps b

/-- Every node of the list comes after its dependencies. -/
def Respects : Finset α → List α → Prop
  | _, [] => True
  | placed, a :: l => deps a ⊆ placed ∧ Respects (insert a placed) l

/-- A list that places every node that is not placed yet. -/
structure Completes (placed : Finset α) (l : List α) : Prop where
  nodup : l.Nodup
  mem_iff : ∀ a, a ∈ l ↔ a ∈ nodes ∧ a ∉ placed
  respects : Respects deps placed l

/-- The greedy run: the next node is the ready one with the least key. -/
inductive Greedy : Finset α → List α → Prop
  | stop {placed : Finset α} : ready nodes deps placed = ∅ → Greedy placed []
  | next {placed : Finset α} {a : α} {l : List α} :
      a ∈ ready nodes deps placed → (∀ b ∈ ready nodes deps placed, key a ≤ key b) →
      Greedy (insert a placed) l → Greedy placed (a :: l)

variable {nodes deps key}

theorem mem_ready {placed : Finset α} {a : α} :
    a ∈ ready nodes deps placed ↔ a ∈ nodes ∧ a ∉ placed ∧ deps a ⊆ placed := by
  simp [ready, and_assoc]

/-! ## What the greedy run places -/

theorem Greedy.respects {placed : Finset α} {l : List α} (h : Greedy nodes deps key placed l) :
    Respects deps placed l := by
  induction h with
  | stop _ => trivial
  | next ha _ _ ih => exact ⟨(mem_ready.mp ha).2.2, ih⟩

theorem Greedy.mem {placed : Finset α} {l : List α} (h : Greedy nodes deps key placed l) :
    ∀ a ∈ l, a ∈ nodes ∧ a ∉ placed := by
  induction h with
  | stop _ => simp
  | next ha _ _ ih =>
    intro b hb
    rcases List.mem_cons.mp hb with rfl | hb
    · exact ⟨(mem_ready.mp ha).1, (mem_ready.mp ha).2.1⟩
    · have := ih b hb
      simp only [Finset.mem_insert, not_or] at this
      exact ⟨this.1, this.2.2⟩

theorem Greedy.nodup {placed : Finset α} {l : List α} (h : Greedy nodes deps key placed l) :
    l.Nodup := by
  induction h with
  | stop _ => simp
  | next _ _ hl ih =>
    refine List.nodup_cons.mpr ⟨fun hb => ?_, ih⟩
    exact (hl.mem _ hb).2 (Finset.mem_insert_self _ _)

/-- At the end of the run no node is ready. -/
theorem Greedy.ready_final {placed : Finset α} {l : List α}
    (h : Greedy nodes deps key placed l) : ready nodes deps (placed ∪ l.toFinset) = ∅ := by
  induction h with
  | stop hr => simpa using hr
  | @next placed a l _ _ _ ih =>
    rw [List.toFinset_cons, ← Finset.insert_union_comm]
    exact ih

/-- A run that leaves no node out is an order. -/
theorem Greedy.completes {l : List α} (h : Greedy nodes deps key ∅ l)
    (hall : l.length = nodes.card) : Completes nodes deps ∅ l := by
  have hsub : l.toFinset ⊆ nodes := fun a ha => (h.mem a (List.mem_toFinset.mp ha)).1
  have hcard : nodes.card ≤ l.toFinset.card := by
    rw [List.toFinset_card_of_nodup h.nodup, hall]
  refine ⟨h.nodup, fun a => ?_, h.respects⟩
  rw [← List.mem_toFinset, Finset.eq_of_subset_of_card_le hsub hcard]
  simp

/-! ## The least order -/

/-- The greedy list is the least one, by keys, of all lists that place the rest. -/
theorem Greedy.least {placed : Finset α} {l l' : List α} (h : Greedy nodes deps key placed l)
    (h' : Completes nodes deps placed l') (hkey : Function.Injective key) :
    l = l' ∨ List.Lex (· < ·) (l.map key) (l'.map key) := by
  induction h generalizing l' with
  | @stop placed hr =>
    rcases l' with _ | ⟨b, l'⟩
    · exact Or.inl rfl
    · have hb := (h'.mem_iff b).mp (by simp)
      have : b ∈ ready nodes deps placed := mem_ready.mpr ⟨hb.1, hb.2, h'.respects.1⟩
      simp [hr] at this
  | @next placed a l ha hmin _ ih =>
    have ha' := mem_ready.mp ha
    rcases l' with _ | ⟨b, l'⟩
    · have := (h'.mem_iff a).mpr ⟨ha'.1, ha'.2.1⟩
      simp at this
    · have hb := (h'.mem_iff b).mp (by simp)
      have hle := hmin b (mem_ready.mpr ⟨hb.1, hb.2, h'.respects.1⟩)
      rcases lt_or_eq_of_le hle with hlt | heq
      · exact Or.inr (List.Lex.rel hlt)
      · have hab : a = b := hkey heq
        subst hab
        have hn := List.nodup_cons.mp h'.nodup
        have htail : Completes nodes deps (insert a placed) l' := by
          refine ⟨hn.2, fun c => ?_, h'.respects.2⟩
          have hc := h'.mem_iff c
          rw [List.mem_cons] at hc
          constructor
          · intro hcl
            have hca : c ≠ a := fun he => hn.1 (he ▸ hcl)
            have := hc.mp (Or.inr hcl)
            simp [this, hca]
          · rintro ⟨h1, h2⟩
            simp only [Finset.mem_insert, not_or] at h2
            exact (hc.mpr ⟨h1, h2.2⟩).resolve_left h2.1
        rcases ih htail with rfl | hlex
        · exact Or.inl rfl
        · exact Or.inr (List.Lex.cons hlex)

/-! ## A rank that follows the keys -/

/-- A node of small rank in the list has one whose dependencies were placed before. -/
theorem Respects.exists_early {rank : α → ℕ} {early placed : Finset α} {l : List α} {b : α}
    (h : Respects deps placed l) (hrank : ∀ x ∈ l, ∀ y ∈ deps x, rank y ≤ rank x) (r : ℕ)
    (hlate : ∀ x ∈ placed, x ∉ early → r ≤ rank x) (hb : b ∈ l) (hlt : rank b < r) :
    ∃ c ∈ l, rank c < r ∧ deps c ⊆ early := by
  induction l generalizing placed with
  | nil => simp at hb
  | cons a l ih =>
    by_cases har : rank a < r
    · refine ⟨a, by simp, har, fun y hy => ?_⟩
      by_contra hy'
      have h1 := hlate y (h.1 hy) hy'
      have h2 := hrank a (by simp) y hy
      omega
    · have hbl : b ∈ l := by
        rcases List.mem_cons.mp hb with rfl | hbl
        · exact absurd hlt har
        · exact hbl
      obtain ⟨c, hc, hcr, hcd⟩ := ih h.2 (fun x hx => hrank x (by simp [hx])) (by
        intro x hx hxe
        rcases Finset.mem_insert.mp hx with rfl | hx
        · omega
        · exact hlate x hx hxe) hbl
      exact ⟨c, by simp [hc], hcr, hcd⟩

/-- When no dependency has a larger rank and the keys go by rank first, the ranks of the
greedy list never go down. -/
theorem Greedy.rank_sorted {rank : α → ℕ} {placed : Finset α} {l : List α}
    (h : Greedy nodes deps key placed l) (hkey : ∀ a b, key a ≤ key b → rank a ≤ rank b)
    (hrank : ∀ x ∈ nodes, ∀ y ∈ deps x, rank y ≤ rank x) :
    l.Pairwise fun a b => rank a ≤ rank b := by
  induction h with
  | stop _ => simp
  | @next placed a l ha hmin hl ih =>
    refine List.pairwise_cons.mpr ⟨fun b hb => ?_, ih⟩
    by_contra hlt
    have hlate : ∀ x ∈ insert a placed, x ∉ placed → rank a ≤ rank x := by
      intro x hx hxp
      rcases Finset.mem_insert.mp hx with rfl | hx
      · omega
      · exact absurd hx hxp
    obtain ⟨c, hc, hcr, hcd⟩ := hl.respects.exists_early
      (fun x hx => hrank x (hl.mem x hx).1) (rank a) hlate hb (by omega)
    have hcm := hl.mem c hc
    simp only [Finset.mem_insert, not_or] at hcm
    have := hkey a c (hmin c (mem_ready.mpr ⟨hcm.1, hcm.2.2, hcd⟩))
    omega

/-- Every node of the list finds its dependencies placed or before it. -/
theorem respects_iff_split {placed : Finset α} {l : List α} :
    Respects deps placed l ↔
      ∀ l₁ b l₂, l = l₁ ++ b :: l₂ → ∀ a ∈ deps b, a ∈ placed ∨ a ∈ l₁ := by
  induction l generalizing placed with
  | nil => simp [Respects]
  | cons c l ih =>
    simp only [Respects, ih]
    constructor
    · rintro ⟨hc, hl⟩ l₁ b l₂ he a ha
      rcases l₁ with _ | ⟨d, l₁⟩
      · obtain ⟨rfl, rfl⟩ := List.cons_eq_cons.mp he
        exact Or.inl (hc ha)
      · obtain ⟨rfl, rfl⟩ := List.cons_eq_cons.mp he
        rcases hl l₁ b l₂ rfl a ha with h | h
        · rcases Finset.mem_insert.mp h with rfl | h
          · exact Or.inr (by simp)
          · exact Or.inl h
        · exact Or.inr (by simp [h])
    · intro h
      refine ⟨fun a ha => ?_, fun l₁ b l₂ he a ha => ?_⟩
      · simpa using h [] c l rfl a ha
      · rcases h (c :: l₁) b l₂ (by rw [he, List.cons_append]) a ha with h | h
        · exact Or.inl (Finset.mem_insert_of_mem h)
        · rcases List.mem_cons.mp h with rfl | h
          · exact Or.inl (Finset.mem_insert_self _ _)
          · exact Or.inr h

/-! ## Cycles -/

/-- In a list that respects the dependencies, a dependency was placed or comes earlier. -/
theorem Respects.idxOf_lt {placed : Finset α} {l : List α} (h : Respects deps placed l)
    {a b : α} (hb : b ∈ l) (hab : a ∈ deps b) : a ∈ placed ∨ l.idxOf a < l.idxOf b := by
  induction l generalizing placed with
  | nil => simp at hb
  | cons c l ih =>
    by_cases hbc : c = b
    · subst hbc
      exact Or.inl (h.1 hab)
    · have hbl : b ∈ l := (List.mem_cons.mp hb).resolve_left (Ne.symm hbc)
      by_cases hca : c = a
      · subst hca
        right
        rw [List.idxOf_cons_self, List.idxOf_cons_ne _ hbc]
        omega
      · rcases ih h.2 hbl with h1 | h1
        · exact Or.inl ((Finset.mem_insert.mp h1).resolve_left (Ne.symm hca))
        · right
          rw [List.idxOf_cons_ne _ hbc, List.idxOf_cons_ne _ hca]
          omega

/-- A set of nodes that has an order has no cycle. -/
theorem Completes.no_cycle {l : List α} (h : Completes nodes deps ∅ l) (a : α) :
    ¬ Relation.TransGen (DependsOn nodes deps) a a := by
  have hstep : ∀ x y, Relation.TransGen (DependsOn nodes deps) x y → l.idxOf x < l.idxOf y := by
    intro x y hxy
    have hone : ∀ x y, DependsOn nodes deps x y → l.idxOf x < l.idxOf y := by
      intro x y hd
      rcases h.respects.idxOf_lt ((h.mem_iff y).mpr ⟨hd.1, by simp⟩) hd.2 with h1 | h1
      · simp at h1
      · exact h1
    induction hxy with
    | single hd => exact hone _ _ hd
    | tail _ hd ih => exact ih.trans (hone _ _ hd)
  intro hc
  exact absurd (hstep a a hc) (lt_irrefl _)

/-- When nodes are left but none is ready, the nodes that are left hold a cycle. -/
theorem exists_cycle {placed : Finset α} (hdeps : ∀ a ∈ nodes, deps a ⊆ nodes)
    (hr : ready nodes deps placed = ∅) (hleft : ∃ a ∈ nodes, a ∉ placed) :
    ∃ a, Relation.TransGen (DependsOn nodes deps) a a := by
  by_contra hno
  push Not at hno
  -- With no cycle the relation is well founded, and a minimal node that is left is ready.
  have hirr : Std.Irrefl (Relation.TransGen (DependsOn nodes deps)) := ⟨hno⟩
  have horder : IsStrictOrder α (Relation.TransGen (DependsOn nodes deps)) := {}
  have hwf : (nodes : Set α).WellFoundedOn (Relation.TransGen (DependsOn nodes deps)) :=
    Set.Finite.wellFoundedOn nodes.finite_toSet
  obtain ⟨a₀, ha₀, hp₀⟩ := hleft
  obtain ⟨⟨a, ha⟩, hap, hmin⟩ := hwf.has_min {x | x.1 ∉ placed} ⟨⟨a₀, ha₀⟩, hp₀⟩
  have hnot : ¬ deps a ⊆ placed := fun hsub => by
    have : a ∈ ready nodes deps placed := mem_ready.mpr ⟨ha, hap, hsub⟩
    simp [hr] at this
  obtain ⟨y, hy, hyp⟩ := Finset.not_subset.mp hnot
  exact hmin ⟨y, hdeps a ha hy⟩ hyp (Relation.TransGen.single ⟨ha, hy⟩)

end

end topo_order
