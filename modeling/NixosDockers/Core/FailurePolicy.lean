-- The failure policy of an action: which failures of an action are recorded, and
-- which end the run although the policy is `warn` or `ignore`.
import NixosDockers.Core.ExecutorRun

open bootstrap_model results

namespace init_core

/-! ## The turns of a run -/

/-- The loop over a plan comes to the planned action, with the rest of the plan still to follow. -/
inductive Comes (run : Run) : List PlannedAction → RunState → PlannedAction →
    List PlannedAction → RunState → Prop where
  | here {planned rest state} : Comes run (planned :: rest) state planned rest state
  | later {first others start next planned rest state} : run.step start first = (next, none) →
      Comes run others next planned rest state → Comes run (first :: others) start planned rest state

theorem Comes.loop {run : Run} {plan rest : List PlannedAction} {start state next : RunState}
    {planned : PlannedAction} (h : Comes run plan start planned rest state)
    (hstep : run.step state planned = (next, none)) :
    run.loop plan start = run.loop rest next := by
  induction h with
  | here => rw [Run.loop, hstep]
  | later hfirst _ ih =>
    rw [Run.loop, hfirst]
    exact ih hstep

/-- An outcome that was recorded is among those of a loop that ends well. -/
theorem loop_keeps_outcomes {run : Run} {rest : List PlannedAction} {state final : RunState}
    (hloop : run.loop rest state = (final, none)) {outcome : ActionOutcome}
    (h : outcome ∈ state.outcomes) : outcome ∈ final.outcomes := by
  induction rest generalizing state with
  | nil =>
    obtain ⟨rfl, -⟩ := Prod.mk.inj hloop
    exact h
  | cons planned rest ih =>
    have hturn := step_turn run state planned
    rw [Run.loop] at hloop
    rcases hstep : run.step state planned with ⟨next, _ | failure⟩
    · rw [hstep] at hturn hloop
      obtain ⟨new, -, houtcomes, -⟩ := hturn.recorded
      apply ih hloop
      rw [houtcomes]
      exact List.mem_append_left _ h
    · rw [hstep] at hloop
      cases hloop

/-! ## Failures of an action -/

/-- The turn has come to perform the action. -/
structure Due (run : Run) (state : RunState) (planned : PlannedAction) (action : Action) :
    Prop where
  known : run.actions[planned.id]? = some action
  kind : planned.kind = action.kind
  dependencies : DependenciesSucceeded state.completed planned
  condition : run.conditionHolds action = .ok true

/-- An action fails in its run-as check, in its execution, or in the rendering of its path. -/
inductive PerformFails (run : Run) (planned : PlannedAction) (action : Action) : Prop where
  | runAs {error : CoreError} : run.privilegedSkip action = none →
      run.checkRunAs action planned = .error error → PerformFails run planned action
  | execution {error : CoreError} : run.privilegedSkip action = none →
      run.executeAction action = .error (.Core error) → PerformFails run planned action
  | path {error : CoreError} : run.actionPath action = .error error →
      PerformFails run planned action

/-- What the turn does with an action that is due. -/
theorem Due.step {run : Run} {state : RunState} {planned : PlannedAction} {action : Action}
    (h : Due run state planned action) :
    run.step state planned = match run.privilegedSkip action with
      | some message => run.finish state planned action .Succeeded message none
      | none => match run.checkRunAs action planned with
        | .error error =>
          (state.tried planned none true, some (.Core (Run.annotateActionError error action)))
        | .ok () => run.attempt state planned action := by
  have hany : ¬ planned.depends_on.any (fun name => state.completed[name]? ≠ some .Succeeded) := by
    intro hany
    obtain ⟨name, hname, hno⟩ := List.any_eq_true.mp hany
    simp [h.dependencies name hname] at hno
  rw [Run.step, h.known]
  dsimp only
  rw [if_neg (not_not.mpr h.kind), if_neg hany]
  exact h.condition ▸ rfl

/-- An action with the policy `warn` or `ignore` whose run-as check passes and whose path renders
is recorded when its execution fails. -/
theorem Due.recorded {run : Run} {state : RunState} {planned : PlannedAction} {action : Action}
    (h : Due run state planned action) {status : ActionStatus}
    (hpolicy : failedStatus action.failure = some status)
    (hskip : run.privilegedSkip action = none) (hcheck : run.checkRunAs action planned = .ok ())
    {path : Option String} (hpath : run.actionPath action = .ok path) {error : CoreError}
    (hfails : run.executeAction action = .error (.Core error)) :
    ∃ next outcome, run.step state planned = (next, none) ∧
      next.outcomes = state.outcomes ++ [outcome] ∧ outcome.id = planned.id ∧
      outcome.status = status ∧ outcome.error = some (Run.annotateActionError error action) := by
  have hstep : run.step state planned =
      ((state.tried planned (run.actionEffect action).toOption.join true).record planned status path
        "action failed according to its failure policy"
        (some (Run.annotateActionError error action)), none) := by
    rw [h.step, hskip, hcheck]
    dsimp only
    rw [Run.attempt, hfails, hpolicy]
    dsimp only
    rw [Run.finish, hpath]
    rfl
  exact ⟨_, _, hstep, rfl, rfl, rfl, rfl⟩

/-- A path that does not render ends the run, however the action went. -/
theorem finish_stops {run : Run} {state : RunState} {planned : PlannedAction} {action : Action}
    {error : CoreError} (hpath : run.actionPath action = .error error) (status : ActionStatus)
    (message : String) (recorded : Option CoreError) :
    run.finish state planned action status message recorded = (state, some (.Core error)) := by
  rw [Run.finish, hpath]

theorem attempt_stops {run : Run} {state : RunState} {planned : PlannedAction} {action : Action}
    {error : CoreError} (hpath : run.actionPath action = .error error) :
    (run.attempt state planned action).2 ≠ none := by
  unfold Run.attempt
  dsimp only
  split
  · rw [finish_stops hpath]
    exact Option.some_ne_none _
  · exact Option.some_ne_none _
  · split
    · exact Option.some_ne_none _
    · rw [finish_stops hpath]
      exact Option.some_ne_none _

theorem Due.stops {run : Run} {state : RunState} {planned : PlannedAction} {action : Action}
    (h : Due run state planned action) {error : CoreError}
    (hpath : run.actionPath action = .error error) : (run.step state planned).2 ≠ none := by
  rw [h.step]
  split
  · rw [finish_stops hpath]
    exact Option.some_ne_none _
  · split
    · exact Option.some_ne_none _
    · exact attempt_stops hpath

/-! ## The policy over a run -/

/-- The run records an action as failed with the status of its policy, and goes on with the rest of
the plan. -/
def GoesOn (executor : PlanExecutor) (host : Host) (plan : Plan) (command : List String)
    (identityOverride : Option ResolvedIdentity) (run : Run) (state : RunState)
    (planned : PlannedAction) (rest : List PlannedAction) (status : ActionStatus) : Prop :=
  ∃ next outcome, run.step state planned = (next, none) ∧
    outcome.id = planned.id ∧ outcome.status = status ∧ outcome.error.isSome = true ∧
    outcome ∈ next.outcomes ∧
    executor.executeInternal host plan command identityOverride =
      PlanExecutor.finishRun run (run.loop rest next) ∧
    ∀ report, (executor.executeInternal host plan command identityOverride).result = .ok report →
      outcome ∈ report.outcomes

/-- Whatever way an action with the policy `warn` or `ignore` fails, the run goes on. -/
def FollowsPolicy (executor : PlanExecutor) (host : Host) (plan : Plan) (command : List String)
    (identityOverride : Option ResolvedIdentity) : Prop :=
  ∀ run, executor.startRun host command identityOverride = .ok run →
    ∀ planned rest state action status, Comes run plan.actions {} planned rest state →
      Due run state planned action → failedStatus action.failure = some status →
      PerformFails run planned action →
      GoesOn executor host plan command identityOverride run state planned rest status

/-- The failures of the code that end a run under every policy do not happen. -/
structure Recordable (run : Run) (planned : PlannedAction) (action : Action) : Prop where
  runAs : run.privilegedSkip action = none → run.checkRunAs action planned = .ok ()
  path : ∃ path, run.actionPath action = .ok path

theorem GoesOn.step {executor : PlanExecutor} {host : Host} {plan : Plan} {command : List String}
    {identityOverride : Option ResolvedIdentity} {run : Run} {state : RunState}
    {planned : PlannedAction} {rest : List PlannedAction} {status : ActionStatus}
    (h : GoesOn executor host plan command identityOverride run state planned rest status) :
    (run.step state planned).2 = none := by
  obtain ⟨next, outcome, hstep, -⟩ := h
  rw [hstep]

/-- The executor follows the policies of the actions in exactly the runs where the actions that
may fail pass their run-as check and have a path that renders. -/
theorem follows_failure_policies_iff (executor : PlanExecutor) (host : Host) (plan : Plan)
    (command : List String) (identityOverride : Option ResolvedIdentity) :
    FollowsPolicy executor host plan command identityOverride ↔
      ∀ run, executor.startRun host command identityOverride = .ok run →
        ∀ planned rest state action, Comes run plan.actions {} planned rest state →
          Due run state planned action → action.failure ≠ .Error →
          Recordable run planned action := by
  constructor
  · intro h run hrun planned rest state action hcomes hdue hpolicy
    obtain ⟨status, hstatus⟩ : ∃ status, failedStatus action.failure = some status := by
      cases hfailure : action.failure with
      | Error => exact absurd hfailure hpolicy
      | Warn => exact ⟨_, rfl⟩
      | Ignore => exact ⟨_, rfl⟩
    have hgoes : PerformFails run planned action → (run.step state planned).2 = none :=
      fun hfails => (h run hrun planned rest state action status hcomes hdue hstatus hfails).step
    constructor
    · intro hskip
      cases hcheck : run.checkRunAs action planned with
      | ok value => rfl
      | error error =>
        have hnone := hgoes (.runAs hskip hcheck)
        rw [hdue.step, hskip, hcheck] at hnone
        cases hnone
    · cases hpath : run.actionPath action with
      | ok path => exact ⟨path, rfl⟩
      | error error =>
        exact absurd (hgoes (.path hpath)) (hdue.stops hpath)
  · intro h run hrun planned rest state action status hcomes hdue hstatus hfails
    have hrecordable := h run hrun planned rest state action hcomes hdue
      (failedStatus_ne_succeeded hstatus).1
    obtain ⟨path, hpath⟩ := hrecordable.path
    cases hfails with
    | runAs hskip hcheck =>
      rw [hrecordable.runAs hskip] at hcheck
      cases hcheck
    | path herror =>
      rw [hpath] at herror
      cases herror
    | execution hskip hexecution =>
      obtain ⟨next, outcome, hstep, houtcomes, hid, houtcome, herror⟩ :=
        hdue.recorded hstatus hskip (hrecordable.runAs hskip) hpath hexecution
      have hmem : outcome ∈ next.outcomes := by
        rw [houtcomes]
        exact List.mem_append_right _ (List.mem_singleton_self outcome)
      have hloop : executor.executeInternal host plan command identityOverride =
          PlanExecutor.finishRun run (run.loop rest next) := by
        rw [PlanExecutor.executeInternal, hrun, ← hcomes.loop hstep]
      refine ⟨next, outcome, hstep, hid, houtcome, by rw [herror]; rfl, hmem, hloop, ?_⟩
      intro report hreport
      rw [hloop] at hreport
      obtain ⟨hnone, hreported, -⟩ := finishRun_ok hreport
      rw [hreported]
      exact loop_keeps_outcomes (Prod.ext rfl hnone) hmem

/-- A directory under the home that an optional input gives, with the policy `warn`. -/
def cacheAction : Action where
  id := "cache"
  kind := .FilesystemEnsureDir
  path := some "${input.HOME_DIR}/.cache"
  failure := .Warn
  origin := imageOrigin

def cacheConfig : BootstrapConfig where
  workspace_root := "/w"
  identity := { default_uid := some 1000, default_gid := some 1000 }
  handoff := { runtime := "/bin/sh" }
  inputs := (∅ : Std.ExtTreeMap String BootstrapInput).insert "HOME_DIR"
    { target := "identity.home", input_type := .Path }
  actions := [cacheAction]

def cacheExecutor : PlanExecutor where
  config := cacheConfig
  context := { cwd := "/w" }

/-- Where the input is not set the action fails, and the run ends with the error. -/
theorem unset_input_ends_run :
    Plan.fromConfig cacheConfig = .ok (planOf cacheConfig) ∧
      (cacheExecutor.executeInternal (quietHost fun _ => false) (planOf cacheConfig) [] none).result =
        .error (.Core (.Invalid "bootstrap.actions.cache.path"
          "missing path interpolation value \"input.HOME_DIR\"")) ∧
      ¬ FollowsPolicy cacheExecutor (quietHost fun _ => false) (planOf cacheConfig) [] none := by
  refine ⟨by decide, by rfl, fun h => ?_⟩
  obtain ⟨run, hrun⟩ : ∃ run, cacheExecutor.startRun (quietHost fun _ => false) [] none = .ok run :=
    exists_of_isOk (by decide)
  have hfacts : (cacheExecutor.startRun (quietHost fun _ => false) [] none).toOption.map (fun run =>
      (run.actions["cache"]?, (run.conditionHolds cacheAction).toOption,
        (run.actionPath cacheAction).isOk)) = some (some cacheAction, some true, false) := by
    decide
  rw [hrun] at hfacts
  simp only [Except.toOption, Option.map_some, Option.some.injEq, Prod.mk.injEq] at hfacts
  obtain ⟨hknown, hcondition, hnopath⟩ := hfacts
  obtain ⟨planned, hplan⟩ : ∃ planned, (planOf cacheConfig).actions = [planned] :=
    List.length_eq_one_iff.mp (by decide)
  have hplanned : (planOf cacheConfig).actions.map (fun planned =>
      (planned.id, planned.kind, planned.depends_on)) =
        [("cache", .FilesystemEnsureDir, [])] := by
    decide
  rw [hplan, List.map_singleton] at hplanned
  obtain ⟨hid, hkind, hdepends⟩ : planned.id = "cache" ∧ planned.kind = .FilesystemEnsureDir ∧
      planned.depends_on = [] := by
    simpa using hplanned
  have hdue : Due run {} planned cacheAction := by
    refine ⟨by rw [hid, hknown], hkind, ?_, ?_⟩
    · intro name hname
      rw [hdepends] at hname
      cases hname
    · cases hvalue : run.conditionHolds cacheAction with
      | error error =>
        rw [hvalue] at hcondition
        cases hcondition
      | ok value =>
        rw [hvalue] at hcondition
        cases hcondition
        rfl
  cases hpath : run.actionPath cacheAction with
  | ok path =>
    rw [hpath] at hnopath
    cases hnopath
  | error error =>
    have hgoes := h run hrun planned [] {} cacheAction .FailedWarn
      (by rw [hplan]; exact .here) hdue rfl (.path hpath)
    exact hdue.stops hpath hgoes.step

end init_core
