-- Steps that may fail, and which failures end a run: what all steps come to when none of
-- them ends it, and the run that stops at the first failure that does.
import Mathlib

namespace failure_runs

variable {ι σ ε α : Type}

/-! ## Runs -/

/-- What every step comes to, and the state after the last one. -/
def outcomes (attempt : ι → σ → Except ε α × σ) : List ι → σ → List (ι × Except ε α) × σ
  | [], state => ([], state)
  | step :: steps, state =>
    let made := attempt step state
    let rest := outcomes attempt steps made.2
    ((step, made.1) :: rest.1, rest.2)

/-- The error with which an outcome ends the run, if it does. -/
def stop (fatal : ι → ε → Bool) : ι × Except ε α → Option ε
  | (step, .error error) => if fatal step error then some error else none
  | (_, .ok _) => none

/-- The run over the steps, which ends with the first failure that is fatal. -/
def run (attempt : ι → σ → Except ε α × σ) (fatal : ι → ε → Bool) :
    List ι → σ → Except ε (List (ι × Except ε α)) × σ
  | [], state => (.ok [], state)
  | step :: steps, state =>
    let made := attempt step state
    match stop fatal (step, made.1) with
    | some error => (.error error, made.2)
    | none =>
      let rest := run attempt fatal steps made.2
      (rest.1.map ((step, made.1) :: ·), rest.2)

variable {attempt : ι → σ → Except ε α × σ} {fatal : ι → ε → Bool} {step : ι}
  {steps before after : List ι} {state : σ} {error : ε}

/-! ## Outcomes -/

/-- The outcomes are those of the steps, in their order. -/
theorem map_fst_outcomes (attempt : ι → σ → Except ε α × σ) (steps : List ι) (state : σ) :
    (outcomes attempt steps state).1.map Prod.fst = steps := by
  induction steps generalizing state with
  | nil => rfl
  | cons step steps ih => rw [outcomes, List.map_cons, ih]

/-- What every step comes to from every state holds of the outcomes. -/
theorem forall_outcomes {P : ι × Except ε α → Prop}
    (h : ∀ step ∈ steps, ∀ state, P (step, (attempt step state).1)) :
    ∀ entry ∈ (outcomes attempt steps state).1, P entry := by
  induction steps generalizing state with
  | nil => exact fun _ hentry => absurd hentry List.not_mem_nil
  | cons step steps ih =>
    rw [outcomes]
    intro entry hentry
    rcases List.mem_cons.mp hentry with rfl | hentry
    · exact h step List.mem_cons_self state
    · exact ih (fun other hother => h other (List.mem_cons_of_mem _ hother)) entry hentry

theorem stop_eq_none {made : Except ε α}
    (h : ∀ error, made = .error error → fatal step error = false) :
    stop fatal (step, made) = none := by
  cases made with
  | error error => simp [stop, h error rfl]
  | ok value => rfl

theorem stop_eq_some (h : fatal step error = true) :
    stop fatal (step, (.error error : Except ε α)) = some error := by
  simp [stop, h]

/-! ## Which runs end early -/

theorem run_cons_of_none (h : stop fatal (step, (attempt step state).1) = none) :
    run attempt fatal (step :: steps) state =
      ((run attempt fatal steps (attempt step state).2).1.map ((step, (attempt step state).1) :: ·),
        (run attempt fatal steps (attempt step state).2).2) := by
  rw [run, h]

theorem run_cons_of_some (h : stop fatal (step, (attempt step state).1) = some error) :
    run attempt fatal (step :: steps) state = (.error error, (attempt step state).2) := by
  rw [run, h]

/-- A run whose outcomes let it go on makes every step. -/
theorem run_of_none (h : ∀ entry ∈ (outcomes attempt steps state).1, stop fatal entry = none) :
    run attempt fatal steps state =
      (.ok (outcomes attempt steps state).1, (outcomes attempt steps state).2) := by
  induction steps generalizing state with
  | nil => rfl
  | cons step steps ih =>
    rw [outcomes] at h ⊢
    rw [run_cons_of_none (h _ List.mem_cons_self),
      ih fun entry hentry => h entry (List.mem_cons_of_mem _ hentry)]
    rfl

/-- The first outcome that stops a run ends it, in the state that its step leaves. -/
theorem run_of_some (h : ∀ entry ∈ (outcomes attempt before state).1, stop fatal entry = none)
    (hstop : stop fatal (step, (attempt step (outcomes attempt before state).2).1) = some error) :
    run attempt fatal (before ++ step :: after) state =
      (.error error, (attempt step (outcomes attempt before state).2).2) := by
  induction before generalizing state with
  | nil => exact run_cons_of_some hstop
  | cons first before ih =>
    rw [outcomes] at h hstop ⊢
    rw [List.cons_append, run_cons_of_none (h _ List.mem_cons_self),
      ih (fun entry hentry => h entry (List.mem_cons_of_mem _ hentry)) hstop]
    rfl

/-- A run over two lists is a run over the second one after a run over the first. -/
theorem run_append : run attempt fatal (before ++ after) state =
    match run attempt fatal before state with
    | (.error error, next) => (.error error, next)
    | (.ok made, next) =>
      ((run attempt fatal after next).1.map (made ++ ·), (run attempt fatal after next).2) := by
  induction before generalizing state with
  | nil =>
    rcases hrun : run attempt fatal after state with ⟨_ | _, next⟩ <;> simp [run, hrun, Except.map]
  | cons step before ih =>
    rw [List.cons_append]
    cases hstop : stop fatal (step, (attempt step state).1) with
    | some error => rw [run_cons_of_some hstop, run_cons_of_some hstop]
    | none =>
      rw [run_cons_of_none hstop, run_cons_of_none hstop, ih]
      rcases run attempt fatal before (attempt step state).2 with ⟨_ | made, next⟩
      · rfl
      · rcases hrest : run attempt fatal after next with ⟨_ | _, _⟩ <;> simp [Except.map, hrest]

/-- A run that is not ended early has the outcomes of all steps. -/
theorem outcomes_of_run {made : List (ι × Except ε α)} {last : σ}
    (h : run attempt fatal steps state = (.ok made, last)) :
    outcomes attempt steps state = (made, last) := by
  induction steps generalizing state made last with
  | nil =>
    obtain ⟨hmade, hlast⟩ := Prod.mk.inj h
    rw [← Except.ok.inj hmade, ← hlast]
    rfl
  | cons step steps ih =>
    cases hstop : stop fatal (step, (attempt step state).1) with
    | some error =>
      rw [run_cons_of_some hstop] at h
      exact absurd (congrArg Prod.fst h) nofun
    | none =>
      rw [run_cons_of_none hstop] at h
      rcases hrest : run attempt fatal steps (attempt step state).2 with ⟨_ | rest, next⟩
      · rw [hrest] at h
        exact absurd (congrArg Prod.fst h) nofun
      · rw [hrest] at h
        obtain ⟨hmade, hlast⟩ := Prod.mk.inj h
        rw [outcomes, ih hrest, ← Except.ok.inj hmade, ← hlast]

theorem map_fst_of_run {made : List (ι × Except ε α)} {last : σ}
    (h : run attempt fatal steps state = (.ok made, last)) : made.map Prod.fst = steps := by
  have hmade := map_fst_outcomes attempt steps state
  rwa [outcomes_of_run h] at hmade

end failure_runs
