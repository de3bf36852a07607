-- Partial machines whose events of one kind lower a measure: how long such runs are, and
-- that they end where no event of the kind can happen.
import NixosDockers.Lib.Traces

namespace traces

variable {σ ε : Type*} {step : σ → ε → Option σ} {I : σ → Prop} {P : ε → Prop} {measure : σ → ℕ}

theorem follow_append {s s' s'' : σ} {es es' : List ε} (h : follow step s es = some s')
    (h' : follow step s' es' = some s'') : follow step s (es ++ es') = some s'' := by
  induction es generalizing s with
  | nil =>
    obtain rfl := Option.some.inj h
    exact h'
  | cons e es ih =>
    obtain ⟨next, hnext, hrest⟩ := Option.bind_eq_some_iff.mp h
    rw [List.cons_append, follow, hnext, Option.bind_some]
    exact ih hrest

/-- What every event keeps, every run keeps. -/
theorem follow_kept (hstep : ∀ s e s', step s e = some s' → I s → I s') {s s' : σ} {es : List ε}
    (h : follow step s es = some s') (hs : I s) : I s' :=
  follow_invariant (P := fun _ => True) (fun s e s' _ => hstep s e s') h (fun _ _ => trivial) hs

/-- A run of events that lower a measure has no more events than the measure falls by. -/
theorem follow_length_le (hstep : ∀ s e s', step s e = some s' → I s → I s')
    (hlower : ∀ s e s', P e → step s e = some s' → I s → measure s' < measure s) {s s' : σ}
    {es : List ε} (h : follow step s es = some s') (hes : ∀ e ∈ es, P e) (hs : I s) :
    es.length + measure s' ≤ measure s := by
  induction es generalizing s with
  | nil =>
    obtain rfl := Option.some.inj h
    simp
  | cons e es ih =>
    rw [List.forall_mem_cons] at hes
    obtain ⟨next, hnext, hrest⟩ := Option.bind_eq_some_iff.mp h
    have hfirst := hlower s e next hes.1 hnext hs
    have hlater := ih hrest hes.2 (hstep s e next hnext hs)
    simp only [List.length_cons]
    omega

/-- Such events can go on to a state in which none of them can happen. -/
theorem exists_quiet (hstep : ∀ s e s', step s e = some s' → I s → I s')
    (hlower : ∀ s e s', P e → step s e = some s' → I s → measure s' < measure s) (s : σ)
    (hs : I s) :
    ∃ es s', (∀ e ∈ es, P e) ∧ follow step s es = some s' ∧ ∀ e, P e → step s' e = none := by
  induction hn : measure s using Nat.strong_induction_on generalizing s with
  | _ n ih =>
    by_cases hquiet : ∀ e, P e → step s e = none
    · exact ⟨[], s, by simp, rfl, hquiet⟩
    · push Not at hquiet
      obtain ⟨e, he, hsome⟩ := hquiet
      obtain ⟨next, hnext⟩ := Option.ne_none_iff_exists'.mp hsome
      have hless := hlower s e next he hnext hs
      obtain ⟨es, s', hes, hrun, hend⟩ :=
        ih (measure next) (by omega) next (hstep s e next hnext hs) rfl
      refine ⟨e :: es, s', ?_, ?_, hend⟩
      · exact List.forall_mem_cons.mpr ⟨he, hes⟩
      · rw [follow, hnext, Option.bind_some]
        exact hrun

/-- A sum over a list, when one of its places changes. -/
theorem sum_modify {α : Type*} (weight : α → ℕ) (change : α → α) {l : List α} {n : ℕ} {x : α}
    (h : l[n]? = some x) :
    ((l.modify n change).map weight).sum + weight x = (l.map weight).sum + weight (change x) := by
  induction l generalizing n with
  | nil => simp at h
  | cons y l ih =>
    cases n with
    | zero =>
      obtain rfl : y = x := by simpa using h
      simp [List.modify_zero_cons]
      omega
    | succ n =>
      have hrest := ih (n := n) (by simpa using h)
      simp only [List.modify_succ_cons, List.map_cons, List.sum_cons]
      omega

end traces
