-- Machines that handle one event after the other: the record of a run, how a
-- run comes apart, and what every run keeps. The events of a partial machine
-- happen only where they can.
import Mathlib

namespace traces

variable {σ ε ω : Type*} (handle : σ → ε → ω) (state : ω → σ)

/-- The record of the events in their order, each with what it left behind. -/
def record : σ → List ε → List (ε × ω)
  | _, [] => []
  | s, e :: es => (e, handle s e) :: record (state (handle s e)) es

/-- A record of a run from one state to another. -/
inductive Trace : σ → List (ε × ω) → σ → Prop
  | nil (s : σ) : Trace s [] s
  | cons {s s' : σ} {e : ε} {l : List (ε × ω)} (h : Trace (state (handle s e)) l s') :
      Trace s ((e, handle s e) :: l) s'

variable {handle state}

theorem record_trace (s : σ) (es : List ε) :
    ∃ s', Trace handle state s (record handle state s es) s' := by
  induction es generalizing s with
  | nil => exact ⟨s, .nil s⟩
  | cons e es ih =>
    obtain ⟨s', h⟩ := ih (state (handle s e))
    exact ⟨s', .cons h⟩

theorem Trace.cons_inv {s s' : σ} {x : ε × ω} {l : List (ε × ω)}
    (h : Trace handle state s (x :: l) s') :
    x.2 = handle s x.1 ∧ Trace handle state (state x.2) l s' := by
  cases h with
  | cons h => exact ⟨rfl, h⟩

theorem Trace.split {s s' : σ} {l₁ l₂ : List (ε × ω)}
    (h : Trace handle state s (l₁ ++ l₂) s') :
    ∃ mid, Trace handle state s l₁ mid ∧ Trace handle state mid l₂ s' := by
  induction l₁ generalizing s with
  | nil => exact ⟨s, .nil s, h⟩
  | cons x l₁ ih =>
    obtain ⟨e, o⟩ := x
    obtain ⟨ho, hrest⟩ := h.cons_inv
    obtain ⟨mid, h₁, h₂⟩ := ih hrest
    dsimp only at ho
    subst ho
    exact ⟨mid, .cons h₁, h₂⟩

/-- A run cut right after one of its events. -/
theorem Trace.split_after {s s' : σ} {x : ε × ω} {l₁ l₂ : List (ε × ω)}
    (h : Trace handle state s (l₁ ++ x :: l₂) s') :
    Trace handle state s (l₁ ++ [x]) (state x.2) ∧ Trace handle state (state x.2) l₂ s' := by
  induction l₁ generalizing s with
  | nil =>
    obtain ⟨e, o⟩ := x
    obtain ⟨ho, hrest⟩ := h.cons_inv
    dsimp only at ho
    subst ho
    exact ⟨.cons (.nil _), hrest⟩
  | cons y l₁ ih =>
    obtain ⟨e, o⟩ := y
    obtain ⟨ho, hrest⟩ := h.cons_inv
    dsimp only at ho
    subst ho
    obtain ⟨h₁, h₂⟩ := ih hrest
    exact ⟨.cons h₁, h₂⟩

theorem Trace.handled {s s' : σ} {l : List (ε × ω)} (h : Trace handle state s l s') {x : ε × ω}
    (hx : x ∈ l) : ∃ before, x.2 = handle before x.1 := by
  obtain ⟨l₁, l₂, rfl⟩ := List.append_of_mem hx
  obtain ⟨mid, -, hrest⟩ := h.split
  exact ⟨mid, hrest.cons_inv.1⟩

/-- What every event keeps, every run keeps. -/
theorem Trace.invariant {I : σ → Prop} (hstep : ∀ s e, I s → I (state (handle s e))) {s s' : σ}
    {l : List (ε × ω)} (h : Trace handle state s l s') (hs : I s) :
    I s' ∧ ∀ x ∈ l, I (state x.2) := by
  induction h with
  | nil => exact ⟨hs, by simp⟩
  | @cons s s' e l _ ih =>
    have hnext := hstep s e hs
    obtain ⟨hfinal, hall⟩ := ih hnext
    refine ⟨hfinal, fun x hx => ?_⟩
    rcases List.mem_cons.mp hx with rfl | hx
    · exact hnext
    · exact hall x hx

theorem Trace.append {s mid s' : σ} {l₁ l₂ : List (ε × ω)} (h₁ : Trace handle state s l₁ mid)
    (h₂ : Trace handle state mid l₂ s') : Trace handle state s (l₁ ++ l₂) s' := by
  induction h₁ with
  | nil => exact h₂
  | cons _ ih => exact .cons (ih h₂)

theorem Trace.snoc {s s' : σ} {l : List (ε × ω)} (h : Trace handle state s l s') (e : ε) :
    Trace handle state s (l ++ [(e, handle s' e)]) (state (handle s' e)) :=
  h.append (.cons (.nil _))

/-! ## Partial machines -/

/-- The state after the events, if each of them can happen. -/
def follow (step : σ → ε → Option σ) : σ → List ε → Option σ
  | s, [] => some s
  | s, e :: es => (step s e).bind fun next => follow step next es

/-- What every event of a kind keeps, every run of such events keeps. -/
theorem follow_invariant {step : σ → ε → Option σ} {I : σ → Prop} {P : ε → Prop}
    (hstep : ∀ s e s', P e → step s e = some s' → I s → I s') {s s' : σ} {es : List ε}
    (h : follow step s es = some s') (hes : ∀ e ∈ es, P e) (hs : I s) : I s' := by
  induction es generalizing s with
  | nil =>
    obtain rfl := Option.some.inj h
    exact hs
  | cons e es ih =>
    rw [List.forall_mem_cons] at hes
    obtain ⟨next, hnext, hrest⟩ := Option.bind_eq_some_iff.mp h
    exact ih hrest hes.2 (hstep s e next hes.1 hnext hs)

end traces
