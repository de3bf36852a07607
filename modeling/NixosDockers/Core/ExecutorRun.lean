-- What one turn of the executor does, and what follows for a whole run of a
-- plan: which actions are carried out, and which are skipped.
import NixosDockers.Core.Executor
import NixosDockers.BootstrapModel.PlanOrder
import NixosDockers.Lib.TreeMaps

open bootstrap_model results

namespace init_core

/-! ## One turn -/

/-- Every dependency of the planned action has succeeded. -/
def DependenciesSucceeded (completed : Std.ExtTreeMap String ActionStatus)
    (planned : PlannedAction) : Prop :=
  ∀ name ∈ planned.depends_on, completed[name]? = some .Succeeded

/-- The exits of one turn: with an outcome, or with a failure that ends the run. -/
inductive Turn (run : Run) (state : RunState) (planned : PlannedAction) :
    RunState → Option RunFailure → Prop
  | skipDependency {message : String} (hdep : ¬ DependenciesSucceeded state.completed planned) :
      Turn run state planned (state.record planned .SkippedDependency none message none) none
  | skipCondition {action : Action} {message : String}
      (haction : run.actions[planned.id]? = some action)
      (hdep : DependenciesSucceeded state.completed planned)
      (hcond : run.conditionHolds action = .ok false) :
      Turn run state planned (state.record planned .SkippedCondition none message none) none
  | privileged {action : Action} {path : Option String} {message : String}
      (haction : run.actions[planned.id]? = some action)
      (hdep : DependenciesSucceeded state.completed planned)
      (hcond : run.conditionHolds action = .ok true)
      (hskip : run.privilegedSkip action = some message) :
      Turn run state planned (state.record planned .Succeeded path message none) none
  | succeeded {action : Action} {path : Option String} {message : String} {effect : Option Effect}
      {handoff prepared : Option HandoffCommand}
      (haction : run.actions[planned.id]? = some action)
      (hdep : DependenciesSucceeded state.completed planned)
      (hcond : run.conditionHolds action = .ok true)
      (hskip : run.privilegedSkip action = none)
      (hdone : run.executeAction action = .ok (message, prepared)) :
      Turn run state planned
        (RunState.record { state.tried planned effect false with handoff } planned .Succeeded path
          message none) none
  | failed {action : Action} {path : Option String} {message : String} {effect : Option Effect}
      {error : CoreError} {recorded : Option CoreError} {status : ActionStatus}
      (haction : run.actions[planned.id]? = some action)
      (hdep : DependenciesSucceeded state.completed planned)
      (hcond : run.conditionHolds action = .ok true)
      (hskip : run.privilegedSkip action = none)
      (herror : run.executeAction action = .error (.Core error))
      (hpolicy : failedStatus action.failure = some status) :
      Turn run state planned
        ((state.tried planned effect true).record planned status path message recorded) none
  | stopBefore {failure : RunFailure} : Turn run state planned state (some failure)
  | stopAfter {next : RunState} {effect : Option Effect} {failed : Bool} {failure : RunFailure}
      (hdep : DependenciesSucceeded state.completed planned)
      (hcompleted : next.completed = state.completed)
      (hattempts : next.attempts = (state.tried planned effect failed).attempts) :
      Turn run state planned next (some failure)

theorem failedStatus_ne_succeeded {policy : FailurePolicy} {status : ActionStatus}
    (h : failedStatus policy = some status) :
    policy ≠ .Error ∧ status ≠ .Succeeded ∧ status ≠ .SkippedDependency := by
  cases policy <;> simp [failedStatus] at h <;> subst h <;> simp

theorem attempt_turn {run : Run} {state : RunState} {planned : PlannedAction} {action : Action}
    (haction : run.actions[planned.id]? = some action)
    (hdep : DependenciesSucceeded state.completed planned)
    (hcond : run.conditionHolds action = .ok true) (hskip : run.privilegedSkip action = none) :
    Turn run state planned (run.attempt state planned action).1
      (run.attempt state planned action).2 := by
  unfold Run.attempt Run.finish
  rcases hresult : run.executeAction action with (error | message) | ⟨message, prepared⟩
  · rcases hpolicy : failedStatus action.failure with _ | status
    · exact .stopAfter hdep rfl rfl
    · rcases run.actionPath action with error' | path
      · exact .stopAfter hdep rfl rfl
      · exact .failed haction hdep hcond hskip hresult hpolicy
  · exact .stopAfter hdep rfl rfl
  · rcases run.actionPath action with error' | path
    · exact .stopAfter hdep rfl rfl
    · exact .succeeded haction hdep hcond hskip hresult

theorem step_turn (run : Run) (state : RunState) (planned : PlannedAction) :
    Turn run state planned (run.step state planned).1 (run.step state planned).2 := by
  unfold Run.step
  rcases haction : run.actions[planned.id]? with _ | action
  · exact .stopBefore
  · dsimp only
    split
    · exact .stopBefore
    · split
      · rename_i hany
        refine .skipDependency fun hdep => ?_
        obtain ⟨name, hn, hno⟩ := List.any_eq_true.mp hany
        simp [hdep name hn] at hno
      · rename_i hany
        have hdep : DependenciesSucceeded state.completed planned := by
          intro name hn
          by_contra hno
          exact hany (List.any_eq_true.mpr ⟨name, hn, by simpa using hno⟩)
        rcases hcond : run.conditionHolds action with error | _ | _
        · exact .stopBefore
        · exact .skipCondition haction hdep hcond
        · rcases hskip : run.privilegedSkip action with _ | message
          · rcases hrunas : run.checkRunAs action planned with error | _
            · exact .stopAfter hdep rfl rfl
            · exact attempt_turn haction hdep hcond hskip
          · unfold Run.finish
            rcases run.actionPath action with error | path
            · exact .stopBefore
            · exact .privileged haction hdep hcond hskip

/-- Why an action has its status, by the statuses of its dependencies. -/
inductive Verdict (run : Run) (completed : Std.ExtTreeMap String ActionStatus)
    (planned : PlannedAction) : ActionStatus → Prop
  | dependency (hdep : ¬ DependenciesSucceeded completed planned) :
      Verdict run completed planned .SkippedDependency
  | condition {action : Action} (haction : run.actions[planned.id]? = some action)
      (hdep : DependenciesSucceeded completed planned)
      (hcond : run.conditionHolds action = .ok false) :
      Verdict run completed planned .SkippedCondition
  | succeeded {action : Action} (haction : run.actions[planned.id]? = some action)
      (hdep : DependenciesSucceeded completed planned)
      (hcond : run.conditionHolds action = .ok true)
      (hdone : (run.privilegedSkip action).isSome ∨ ∃ result, run.executeAction action = .ok result) :
      Verdict run completed planned .Succeeded
  | failed {action : Action} {error : CoreError} {status : ActionStatus}
      (haction : run.actions[planned.id]? = some action)
      (hdep : DependenciesSucceeded completed planned)
      (hcond : run.conditionHolds action = .ok true)
      (hskip : run.privilegedSkip action = none)
      (herror : run.executeAction action = .error (.Core error))
      (hpolicy : failedStatus action.failure = some status) :
      Verdict run completed planned status

theorem Verdict.congr {run : Run} {completed completed' : Std.ExtTreeMap String ActionStatus}
    {planned : PlannedAction} {status : ActionStatus} (h : Verdict run completed planned status)
    (hsame : DependenciesSucceeded completed planned ↔ DependenciesSucceeded completed' planned) :
    Verdict run completed' planned status := by
  cases h with
  | dependency hdep => exact .dependency fun h => hdep (hsame.mpr h)
  | condition haction hdep hcond => exact .condition haction (hsame.mp hdep) hcond
  | succeeded haction hdep hcond hdone => exact .succeeded haction (hsame.mp hdep) hcond hdone
  | failed haction hdep hcond hskip herror hpolicy =>
    exact .failed haction (hsame.mp hdep) hcond hskip herror hpolicy

/-- A turn that lets the run go on records one outcome. -/
theorem Turn.recorded {run : Run} {state next : RunState} {planned : PlannedAction}
    (h : Turn run state planned next none) :
    ∃ o, o.id = planned.id ∧ next.outcomes = state.outcomes ++ [o] ∧
      next.completed = state.completed.insert planned.id o.status ∧
      Verdict run state.completed planned o.status := by
  cases h with
  | skipDependency hdep => exact ⟨_, rfl, rfl, rfl, .dependency hdep⟩
  | skipCondition haction hdep hcond => exact ⟨_, rfl, rfl, rfl, .condition haction hdep hcond⟩
  | privileged haction hdep hcond hskip =>
    exact ⟨_, rfl, rfl, rfl, .succeeded haction hdep hcond (Or.inl (by simp [hskip]))⟩
  | succeeded haction hdep hcond hskip hdone =>
    exact ⟨_, rfl, rfl, rfl, .succeeded haction hdep hcond (Or.inr ⟨_, hdone⟩)⟩
  | failed haction hdep hcond hskip herror hpolicy =>
    exact ⟨_, rfl, rfl, rfl, .failed haction hdep hcond hskip herror hpolicy⟩

/-- A turn that ends the run records nothing. -/
theorem Turn.stopped {run : Run} {state next : RunState} {planned : PlannedAction}
    {failure : RunFailure} (h : Turn run state planned next (some failure)) :
    next.completed = state.completed := by
  cases h with
  | stopBefore => rfl
  | stopAfter _ hcompleted _ => exact hcompleted

/-- A turn carries out its own action at most, and only after its dependencies. An action
that failed under the policy `error` ends the run. -/
theorem Turn.attempts {run : Run} {state next : RunState} {planned : PlannedAction}
    {failure : Option RunFailure} (h : Turn run state planned next failure) :
    ∃ here, next.attempts = state.attempts ++ here ∧
      ∀ a ∈ here, a.id = planned.id ∧ DependenciesSucceeded state.completed planned ∧
        (a.failed = true → failure = none →
          ∃ action, run.actions[planned.id]? = some action ∧ action.failure ≠ .Error) := by
  cases h with
  | skipDependency => exact ⟨[], by simp [RunState.record], by simp⟩
  | skipCondition => exact ⟨[], by simp [RunState.record], by simp⟩
  | privileged => exact ⟨[], by simp [RunState.record], by simp⟩
  | stopBefore => exact ⟨[], by simp, by simp⟩
  | succeeded _ hdep =>
    refine ⟨_, rfl, fun a ha => ?_⟩
    obtain rfl := List.mem_singleton.mp ha
    exact ⟨rfl, hdep, by simp⟩
  | failed haction hdep _ _ _ hpolicy =>
    refine ⟨_, rfl, fun a ha => ?_⟩
    obtain rfl := List.mem_singleton.mp ha
    exact ⟨rfl, hdep, fun _ _ => ⟨_, haction, (failedStatus_ne_succeeded hpolicy).1⟩⟩
  | stopAfter hdep _ hattempts =>
    refine ⟨_, hattempts, fun a ha => ?_⟩
    obtain rfl := List.mem_singleton.mp ha
    exact ⟨rfl, hdep, by simp⟩

/-! ## The loop -/

/-- The rest of a plan that a run can take up in a state: its actions are new, and each
dependency is recorded or comes earlier in the rest. -/
structure Pending (state : RunState) (rest : List PlannedAction) : Prop where
  nodup : (rest.map (·.id)).Nodup
  fresh : ∀ p ∈ rest, state.completed[p.id]? = none
  before : ∀ l₁ p l₂, rest = l₁ ++ p :: l₂ → ∀ name ∈ p.depends_on,
    (∃ status, state.completed[name]? = some status) ∨ ∃ q ∈ l₁, q.id = name

/-- What a state knows, a later state knows too. -/
def Extends (early late : Std.ExtTreeMap String ActionStatus) : Prop :=
  ∀ (name : String) (status : ActionStatus), early[name]? = some status → late[name]? = some status

theorem Pending.known {state : RunState} {p : PlannedAction} {rest : List PlannedAction}
    (h : Pending state (p :: rest)) {name : String} (hn : name ∈ p.depends_on) :
    ∃ status, state.completed[name]? = some status := by
  rcases h.before [] p rest rfl name hn with hk | ⟨q, hq, _⟩
  · exact hk
  · cases hq

theorem Pending.next {state next : RunState} {p : PlannedAction} {rest : List PlannedAction}
    (h : Pending state (p :: rest)) {status : ActionStatus}
    (hnext : next.completed = state.completed.insert p.id status) : Pending next rest := by
  obtain ⟨hp, hnodup⟩ := List.nodup_cons.mp h.nodup
  have hget : ∀ name : String, next.completed[name]? =
      if p.id = name then some status else state.completed[name]? := by
    intro name
    rw [hnext, Std.ExtTreeMap.getElem?_insert]
    simp
  refine ⟨hnodup, fun q hq => ?_, fun l₁ q l₂ hsplit name hn => ?_⟩
  · have hne : p.id ≠ q.id := fun he => hp (List.mem_map.mpr ⟨q, hq, he.symm⟩)
    rw [hget, if_neg hne]
    exact h.fresh q (by simp [hq])
  · rw [hget]
    rcases h.before (p :: l₁) q l₂ (by rw [hsplit, List.cons_append]) name hn with ⟨s, hs⟩ | ⟨r, hr, he⟩
    · left
      split
      · exact ⟨_, rfl⟩
      · exact ⟨s, hs⟩
    · rcases List.mem_cons.mp hr with rfl | hr
      · left
        rw [if_pos he]
        exact ⟨_, rfl⟩
      · exact Or.inr ⟨r, hr, he⟩

theorem Pending.extends_insert {state : RunState} {p : PlannedAction} {rest : List PlannedAction}
    (h : Pending state (p :: rest)) (status : ActionStatus) :
    Extends state.completed (state.completed.insert p.id status) := by
  intro name s hs
  rw [Std.ExtTreeMap.getElem?_insert]
  split
  · rename_i he
    rw [← Std.LawfulEqOrd.eq_of_compare he, h.fresh p (by simp)] at hs
    cases hs
  · exact hs

/-- Of an action whose dependencies are all known, later statuses say the same. -/
theorem dependenciesSucceeded_iff {early late : Std.ExtTreeMap String ActionStatus}
    {planned : PlannedAction} (hext : Extends early late)
    (hknown : ∀ name ∈ planned.depends_on, ∃ status, early[name]? = some status) :
    DependenciesSucceeded early planned ↔ DependenciesSucceeded late planned := by
  constructor
  · intro h name hn
    exact hext name _ (h name hn)
  · intro h name hn
    obtain ⟨status, hs⟩ := hknown name hn
    have := h name hn
    rw [hext name status hs] at this
    rw [hs, this]

theorem loop_extends (run : Run) {rest : List PlannedAction} {state : RunState}
    (h : Pending state rest) : Extends state.completed (run.loop rest state).1.completed := by
  induction rest generalizing state with
  | nil => exact fun _ _ hs => hs
  | cons p rest ih =>
    have hturn := step_turn run state p
    unfold Run.loop
    rcases hstep : run.step state p with ⟨next, _ | failure⟩
    · rw [hstep] at hturn
      obtain ⟨o, _, _, hcompleted, _⟩ := hturn.recorded
      intro name status hs
      refine ih (h.next hcompleted) name status ?_
      rw [hcompleted]
      exact h.extends_insert o.status name status hs
    · rw [hstep] at hturn
      intro name status hs
      rw [hturn.stopped]
      exact hs

/-- A loop that ends well has one outcome for each action, and each has its verdict by the
final statuses. -/
theorem loop_outcomes {run : Run} {rest : List PlannedAction} {state final : RunState}
    (h : Pending state rest) (hloop : run.loop rest state = (final, none)) :
    ∃ new, final.outcomes = state.outcomes ++ new ∧
      List.Forall₂ (fun p o => o.id = p.id ∧ final.completed[p.id]? = some o.status ∧
        Verdict run final.completed p o.status) rest new := by
  induction rest generalizing state with
  | nil =>
    obtain ⟨rfl, -⟩ := Prod.mk.inj hloop
    exact ⟨[], by simp, .nil⟩
  | cons p rest ih =>
    have hturn := step_turn run state p
    have hext : Extends state.completed final.completed := by
      have := loop_extends run h
      rwa [hloop] at this
    unfold Run.loop at hloop
    rcases hstep : run.step state p with ⟨next, _ | failure⟩
    · rw [hstep] at hturn hloop
      obtain ⟨o, hid, houtcomes, hcompleted, hverdict⟩ := hturn.recorded
      have hpending := h.next hcompleted
      obtain ⟨new, hnew, hall⟩ := ih hpending hloop
      have hstatus : final.completed[p.id]? = some o.status := by
        have := loop_extends run hpending
        rw [show run.loop rest next = (final, none) from hloop] at this
        exact this p.id o.status (by rw [hcompleted, Std.ExtTreeMap.getElem?_insert_self])
      refine ⟨o :: new, ?_, .cons ⟨hid, hstatus, hverdict.congr ?_⟩ hall⟩
      · rw [hnew, houtcomes, List.append_assoc, List.singleton_append]
      · exact dependenciesSucceeded_iff hext fun name hn => h.known hn
    · rw [hstep] at hloop
      cases hloop

/-- However a loop ends, what it has recorded is a verdict by the final statuses. -/
theorem loop_judged {run : Run} {rest : List PlannedAction} {state : RunState}
    (h : Pending state rest) {p : PlannedAction} (hp : p ∈ rest) {status : ActionStatus}
    (hstatus : (run.loop rest state).1.completed[p.id]? = some status) :
    Verdict run (run.loop rest state).1.completed p status := by
  induction rest generalizing state with
  | nil => cases hp
  | cons r rest ih =>
    have hturn := step_turn run state r
    have hext := loop_extends run h
    rcases hstep : run.step state r with ⟨next, _ | failure⟩
    · have hloop : run.loop (r :: rest) state = run.loop rest next := by
        rw [Run.loop, hstep]
      rw [hstep] at hturn
      rw [hloop] at hstatus hext ⊢
      obtain ⟨o, -, -, hcompleted, hverdict⟩ := hturn.recorded
      have hpending := h.next hcompleted
      rcases List.mem_cons.mp hp with rfl | hp
      · have hrecorded := loop_extends run hpending p.id o.status
          (by rw [hcompleted, Std.ExtTreeMap.getElem?_insert_self])
        rw [hrecorded] at hstatus
        rw [← Option.some.inj hstatus]
        exact hverdict.congr (dependenciesSucceeded_iff hext fun name hn => h.known hn)
      · exact ih hpending hp hstatus
    · have hloop : run.loop (r :: rest) state = (next, some failure) := by
        rw [Run.loop, hstep]
      rw [hstep] at hturn
      rw [hloop, hturn.stopped, h.fresh p hp] at hstatus
      cases hstatus

/-- The actions that a loop carries out: each after its dependencies, and none after an
action that failed under the policy `error`. -/
theorem loop_attempts (run : Run) {rest : List PlannedAction} {state : RunState}
    (h : Pending state rest) :
    ∃ tried, (run.loop rest state).1.attempts = state.attempts ++ tried ∧
      (∀ a ∈ tried, ∃ p ∈ rest, a.id = p.id ∧
        DependenciesSucceeded (run.loop rest state).1.completed p) ∧
      ∀ l₁ p l₂, rest = l₁ ++ p :: l₂ → ∀ a ∈ tried, a.id = p.id → a.failed = true →
        (∀ action, run.actions[p.id]? = some action → action.failure = .Error) →
        ∀ b ∈ tried, ∀ q ∈ l₂, b.id ≠ q.id := by
  induction rest generalizing state with
  | nil => exact ⟨[], by simp [Run.loop], by simp, by simp⟩
  | cons r rest ih =>
    obtain ⟨hr, _⟩ := List.nodup_cons.mp h.nodup
    have hother : ∀ q ∈ rest, r.id ≠ q.id := fun q hq he => hr (List.mem_map.mpr ⟨q, hq, he.symm⟩)
    have hturn := step_turn run state r
    have hext := loop_extends run h
    obtain ⟨here, hhere, hone⟩ := hturn.attempts
    have hdep : DependenciesSucceeded state.completed r →
        DependenciesSucceeded (run.loop (r :: rest) state).1.completed r :=
      (dependenciesSucceeded_iff hext fun name hn => h.known hn).mp
    rcases hstep : run.step state r with ⟨next, _ | failure⟩
    · -- The run goes on, so an action of this turn that failed has another policy.
      have hloop : run.loop (r :: rest) state = run.loop rest next := by
        rw [Run.loop, hstep]
      rw [hstep] at hturn hhere hone
      obtain ⟨o, _, _, hcompleted, _⟩ := hturn.recorded
      obtain ⟨tried, htried, hafter, hstop⟩ := ih (h.next hcompleted)
      rw [hloop] at hdep ⊢
      refine ⟨here ++ tried, ?_, fun a ha => ?_, fun l₁ p l₂ hsplit a ha hid hfailed hpolicy b hb q hq => ?_⟩
      · rw [htried, hhere, List.append_assoc]
      · rcases List.mem_append.mp ha with ha | ha
        · exact ⟨r, by simp, (hone a ha).1, hdep (hone a ha).2.1⟩
        · obtain ⟨p, hp, hap⟩ := hafter a ha
          exact ⟨p, by simp [hp], hap⟩
      · rcases l₁ with _ | ⟨c, l₁⟩
        · obtain ⟨rfl, rfl⟩ := List.cons_eq_cons.mp hsplit
          rcases List.mem_append.mp ha with ha | ha
          · obtain ⟨action, haction, hne⟩ := (hone a ha).2.2 hfailed rfl
            exact absurd (hpolicy action haction) hne
          · obtain ⟨p, hp, hap, _⟩ := hafter a ha
            exact absurd (hid.symm.trans hap) (hother p hp)
        · obtain ⟨rfl, rfl⟩ := List.cons_eq_cons.mp hsplit
          have hq' : q ∈ l₁ ++ p :: l₂ := by simp [hq]
          rcases List.mem_append.mp hb with hb | hb
          · rw [(hone b hb).1]
            exact hother q hq'
          · rcases List.mem_append.mp ha with ha | ha
            · exact absurd ((hone a ha).1.symm.trans hid) (hother p (by simp))
            · exact hstop l₁ p l₂ rfl a ha hid hfailed hpolicy b hb q hq
    · -- The run ends here.
      have hloop : run.loop (r :: rest) state = (next, some failure) := by
        rw [Run.loop, hstep]
      rw [hstep] at hhere hone
      rw [hloop] at hdep ⊢
      refine ⟨here, hhere, fun a ha => ⟨r, by simp, (hone a ha).1, hdep (hone a ha).2.1⟩,
        fun l₁ p l₂ hsplit _ _ _ _ _ b hb q hq => ?_⟩
      rw [(hone b hb).1]
      refine hother q ?_
      rcases l₁ with _ | ⟨c, l₁⟩
      · obtain ⟨rfl, rfl⟩ := List.cons_eq_cons.mp hsplit
        exact hq
      · obtain ⟨rfl, rfl⟩ := List.cons_eq_cons.mp hsplit
        simp [hq]

/-! ## The run of a plan -/

theorem plan_pending {config : BootstrapConfig} {plan : Plan}
    (hplan : Plan.fromConfig config = .ok plan) : Pending {} plan.actions where
  nodup := plan_ids_nodup hplan
  fresh := fun _ _ => rfl
  before := fun _ _ _ hsplit _ hname => Or.inr (plan_dependency_before hplan hsplit hname)

theorem startRun_ok {executor : PlanExecutor} {host : Host} {command : List String}
    {identityOverride : Option ResolvedIdentity} {run : Run}
    (h : executor.startRun host command identityOverride = .ok run) :
    run.executor = executor ∧ run.host = host ∧ run.command = command ∧
      run.root_service_handoff = executor.isRootServiceHandoff host command := by
  unfold PlanExecutor.startRun at h
  cases identityOverride with
  | none =>
    simp only [bind_ok_iff, pure_ok_iff] at h
    obtain ⟨_, _, _, _, rfl⟩ := h
    exact ⟨rfl, rfl, rfl, rfl⟩
  | some identity =>
    simp only [bind_ok_iff, pure_ok_iff] at h
    obtain ⟨_, _, _, _, rfl⟩ := h
    exact ⟨rfl, rfl, rfl, rfl⟩

/-- A run with no given identity resolves it, and the inputs, first. -/
theorem startRun_resolved {executor : PlanExecutor} {host : Host} {command : List String}
    {run : Run} (h : executor.startRun host command none = .ok run) :
    resolvePrevalidated host.posix executor.config executor.context = .ok run.identity ∧
      resolveInputs executor.config executor.context = .ok run.inputs := by
  unfold PlanExecutor.startRun at h
  simp only [bind_ok_iff, pure_ok_iff] at h
  obtain ⟨identity, hidentity, inputs, hinputs, rfl⟩ := h
  exact ⟨hidentity, hinputs⟩

/-- The map of the declared actions. -/
theorem actions_getElem? {run : Run} (hids : (run.executor.config.actions.map (·.id)).Nodup)
    {name : String} {action : Action} :
    run.actions[name]? = some action ↔
      action ∈ run.executor.config.actions ∧ action.id = name := by
  have hkeys : ((run.executor.config.actions.map fun a => (a.id, a)).map Prod.fst).Nodup := by
    rw [List.map_map]
    exact hids
  rw [Run.actions, tree_maps.getElem?_ofList_iff hkeys, List.mem_map]
  constructor
  · rintro ⟨a, ha, he⟩
    obtain ⟨rfl, rfl⟩ := Prod.mk.inj he
    exact ⟨ha, rfl⟩
  · rintro ⟨ha, rfl⟩
    exact ⟨action, ha, rfl⟩

/-- A report is the outcomes of a loop that ended well. -/
theorem finishRun_ok {run : Run} {final : RunState × Option RunFailure} {report : ExecutionReport}
    (h : (PlanExecutor.finishRun run final).result = .ok report) :
    final.2 = none ∧ report.outcomes = final.1.outcomes ∧ report.identity = run.identity ∧
      report.root_service_handoff = run.root_service_handoff := by
  obtain ⟨state, _ | failure⟩ := final
  · simp only [PlanExecutor.finishRun] at h
    split at h
    · obtain ⟨_, _, rfl⟩ := map_ok_iff.mp h
      exact ⟨rfl, rfl, rfl, rfl⟩
    · cases h
      exact ⟨rfl, rfl, rfl, rfl⟩
  · cases h

/-- The identity of a report is the one that was resolved, whatever the plan is. -/
theorem executeInternal_identity {executor : PlanExecutor} {host : Host} {plan : Plan}
    {command : List String} {report : ExecutionReport}
    (h : (executor.executeInternal host plan command none).result = .ok report) :
    resolvePrevalidated host.posix executor.config executor.context = .ok report.identity := by
  unfold PlanExecutor.executeInternal at h
  rcases hstart : executor.startRun host command none with error | run
  · rw [hstart] at h
    cases h
  · rw [hstart] at h
    obtain ⟨_, _, hidentity, _⟩ := finishRun_ok h
    rw [hidentity]
    exact (startRun_resolved hstart).1

/-- With one outcome for each planned action, a report gives the recorded statuses. -/
theorem statusOf_eq {run : Run} {plan : List PlannedAction} {report : ExecutionReport}
    {completed : Std.ExtTreeMap String ActionStatus} (hnodup : (plan.map (·.id)).Nodup)
    (h : List.Forall₂ (fun p o => o.id = p.id ∧ completed[p.id]? = some o.status ∧
      Verdict run completed p o.status) plan report.outcomes) {p : PlannedAction} (hp : p ∈ plan) :
    report.statusOf p.id = completed[p.id]? := by
  unfold ExecutionReport.statusOf
  generalize report.outcomes = outcomes at h
  induction h with
  | nil => cases hp
  | @cons q o plan outcomes hqo _ ih =>
    obtain ⟨hq, hnodup⟩ := List.nodup_cons.mp hnodup
    rcases List.mem_cons.mp hp with rfl | hp
    · simp [hqo.1, hqo.2.1]
    · have hne : o.id ≠ p.id := by
        rw [hqo.1]
        exact fun he => hq (List.mem_map.mpr ⟨p, hp, he.symm⟩)
      rw [List.find?_cons_of_neg (by simpa using hne)]
      exact ih hnodup hp

/-- What the parts of a run that ended well say together. -/
theorem executeInternal_ok {executor : PlanExecutor} {host : Host} {plan : Plan}
    {command : List String} {identityOverride : Option ResolvedIdentity} {report : ExecutionReport}
    (hplan : Plan.fromConfig executor.config = .ok plan)
    (h : (executor.executeInternal host plan command identityOverride).result = .ok report) :
    ∃ run, executor.startRun host command identityOverride = .ok run ∧
      report.identity = run.identity ∧ report.root_service_handoff = run.root_service_handoff ∧
      List.Forall₂ (fun p o => o.id = p.id ∧
        (executor.executeInternal host plan command identityOverride).completed[p.id]? =
          some o.status ∧
        Verdict run (executor.executeInternal host plan command identityOverride).completed p
          o.status) plan.actions report.outcomes := by
  unfold PlanExecutor.executeInternal at h ⊢
  rcases hstart : executor.startRun host command identityOverride with error | run
  · rw [hstart] at h
    cases h
  · rw [hstart] at h
    dsimp only at h ⊢
    obtain ⟨hnone, houtcomes, hidentity, hroot⟩ := finishRun_ok h
    obtain ⟨new, hnew, hall⟩ := loop_outcomes (plan_pending hplan)
      (show run.loop plan.actions {} = ((run.loop plan.actions {}).1, none) from
        Prod.ext rfl hnone)
    refine ⟨run, rfl, hidentity, hroot, ?_⟩
    rw [houtcomes, hnew]
    exact hall

/-- The actions that a run carries out, whether it ends well or not. -/
theorem executeInternal_attempts {executor : PlanExecutor} (host : Host) {plan : Plan}
    (command : List String) (identityOverride : Option ResolvedIdentity)
    (hplan : Plan.fromConfig executor.config = .ok plan) :
    let run := executor.executeInternal host plan command identityOverride
    (∀ a ∈ run.attempts, ∃ p ∈ plan.actions, a.id = p.id ∧
      DependenciesSucceeded run.completed p) ∧
    ∀ l₁ p l₂, plan.actions = l₁ ++ p :: l₂ →
      (∃ action ∈ executor.config.actions, action.id = p.id ∧ action.failure = .Error) →
      (∃ a ∈ run.attempts, a.id = p.id ∧ a.failed = true) →
      ∀ b ∈ run.attempts, ∀ q ∈ l₂, b.id ≠ q.id := by
  unfold PlanExecutor.executeInternal
  rcases hstart : executor.startRun host command identityOverride with error | run
  · simp
  · obtain ⟨rfl, -⟩ := startRun_ok hstart
    obtain ⟨tried, htried, hafter, hstop⟩ := loop_attempts run (plan_pending hplan)
    have hattempts : (run.loop plan.actions {}).1.attempts = tried := by simpa using htried
    dsimp only [PlanExecutor.finishRun]
    rw [hattempts]
    refine ⟨hafter, fun l₁ p l₂ hsplit => ?_⟩
    rintro ⟨action, haction, hid, hpolicy⟩ ⟨a, ha, hap, hfailed⟩
    refine hstop l₁ p l₂ hsplit a ha hap hfailed fun other hother => ?_
    have hids := (fromConfig_ok hplan).1.ids
    obtain ⟨hmem, hoid⟩ := (actions_getElem? hids).mp hother
    rw [eq_of_same_id hids hmem haction (hoid.trans hid.symm)]
    exact hpolicy

/-- What a run has recorded is a verdict, whether it ends well or not. -/
theorem executeInternal_judged {executor : PlanExecutor} (host : Host) {plan : Plan}
    (command : List String) (identityOverride : Option ResolvedIdentity)
    (hplan : Plan.fromConfig executor.config = .ok plan) {p : PlannedAction}
    (hp : p ∈ plan.actions) {status : ActionStatus}
    (hstatus : (executor.executeInternal host plan command identityOverride).completed[p.id]? =
      some status) :
    ∃ run, Verdict run (executor.executeInternal host plan command identityOverride).completed p
      status := by
  unfold PlanExecutor.executeInternal at hstatus ⊢
  rcases hstart : executor.startRun host command identityOverride with error | run
  · rw [hstart] at hstatus
    simp at hstatus
  · rw [hstart] at hstatus
    exact ⟨run, loop_judged (plan_pending hplan) hp hstatus⟩

/-- In a plan, `p` declares a dependency on `q`. -/
def PlanDepends (plan : Plan) (q p : PlannedAction) : Prop :=
  q ∈ plan.actions ∧ p ∈ plan.actions ∧ q.id ∈ p.depends_on

theorem planDepends_source {plan : Plan} {q p : PlannedAction}
    (h : Relation.TransGen (PlanDepends plan) q p) : q ∈ plan.actions := by
  induction h with
  | single h => exact h.1
  | tail _ _ ih => exact ih

theorem planDepends_target {plan : Plan} {q p : PlannedAction}
    (h : Relation.TransGen (PlanDepends plan) q p) : p ∈ plan.actions := by
  cases h with
  | single h => exact h.2.1
  | tail _ h => exact h.2.1

/-- An action whose dependency did not succeed is skipped for it. -/
theorem Verdict.skipped {run : Run} {completed : Std.ExtTreeMap String ActionStatus}
    {p : PlannedAction} {status : ActionStatus} (h : Verdict run completed p status)
    {name : String} (hname : name ∈ p.depends_on) (hfail : completed[name]? ≠ some ActionStatus.Succeeded) :
    status = .SkippedDependency := by
  cases h with
  | dependency => rfl
  | condition _ hdep => exact absurd (hdep name hname) hfail
  | succeeded _ hdep => exact absurd (hdep name hname) hfail
  | failed _ hdep => exact absurd (hdep name hname) hfail

theorem Verdict.dependencies {run : Run} {completed : Std.ExtTreeMap String ActionStatus}
    {p : PlannedAction} (h : Verdict run completed p .Succeeded) :
    DependenciesSucceeded completed p := by
  generalize hs : ActionStatus.Succeeded = status at h
  cases h with
  | dependency => cases hs
  | condition => cases hs
  | succeeded _ hdep => exact hdep
  | failed _ hdep => exact hdep

/-- The verdict of each action of a plan, by the statuses that a run recorded. -/
def Judged (run : Run) (completed : Std.ExtTreeMap String ActionStatus) (plan : Plan) : Prop :=
  ∀ p ∈ plan.actions, ∃ status, completed[p.id]? = some status ∧ Verdict run completed p status

theorem judged_of_outcomes {run : Run} {completed : Std.ExtTreeMap String ActionStatus}
    {plan : Plan} {outcomes : List ActionOutcome}
    (h : List.Forall₂ (fun p o => o.id = p.id ∧ completed[p.id]? = some o.status ∧
      Verdict run completed p o.status) plan.actions outcomes) : Judged run completed plan := by
  intro p hp
  obtain ⟨l₁, l₂, hsplit⟩ := List.append_of_mem hp
  rw [hsplit] at h
  obtain ⟨_, o, _, _, _, ⟨_, hs, hv⟩, _⟩ := forall₂_split h
  exact ⟨o.status, hs, hv⟩

theorem Judged.succeeded {run : Run} {completed : Std.ExtTreeMap String ActionStatus} {plan : Plan}
    (h : Judged run completed plan) {p : PlannedAction} (hp : p ∈ plan.actions)
    (hs : completed[p.id]? = some ActionStatus.Succeeded) : Verdict run completed p .Succeeded := by
  obtain ⟨status, hstatus, hverdict⟩ := h p hp
  rw [hs] at hstatus
  obtain rfl := Option.some.inj hstatus
  exact hverdict

/-- A run of a plan follows the dependencies of the plan. -/
theorem run_follows_dependencies (executor : PlanExecutor) (host : Host) (plan : Plan)
    (command : List String) (identityOverride : Option ResolvedIdentity)
    (hplan : Plan.fromConfig executor.config = .ok plan) :
    let run := executor.executeInternal host plan command identityOverride
    (∀ report, run.result = .ok report →
      report.outcomes.map (·.id) = plan.actions.map (·.id) ∧
      (∀ p ∈ plan.actions,
        (report.statusOf p.id = some .Succeeded ∨ ∃ a ∈ run.attempts, a.id = p.id) →
        ∀ name ∈ p.depends_on, report.statusOf name = some .Succeeded) ∧
      (∀ q p, Relation.TransGen (PlanDepends plan) q p →
        report.statusOf q.id ≠ some .Succeeded →
        report.statusOf p.id = some .SkippedDependency)) ∧
    (∀ p ∈ plan.actions,
      (run.completed[p.id]? = some .Succeeded ∨ ∃ a ∈ run.attempts, a.id = p.id) →
      ∀ name ∈ p.depends_on, run.completed[name]? = some .Succeeded) ∧
    (∀ q p, Relation.TransGen (PlanDepends plan) q p →
      run.completed[q.id]? ≠ some .Succeeded →
      (∀ a ∈ run.attempts, a.id ≠ p.id) ∧
        ∀ status, run.completed[p.id]? = some status → status = .SkippedDependency) ∧
    (∀ l₁ p l₂, plan.actions = l₁ ++ p :: l₂ →
      (∃ action ∈ executor.config.actions, action.id = p.id ∧ action.failure = .Error) →
      (∃ a ∈ run.attempts, a.id = p.id ∧ a.failed = true) →
      ∀ b ∈ run.attempts, ∀ q ∈ l₂, b.id ≠ q.id) := by
  intro run
  have hnodup := plan_ids_nodup hplan
  have hinj : ∀ p ∈ plan.actions, ∀ q ∈ plan.actions, p.id = q.id → p = q :=
    fun p hp q hq => List.inj_on_of_nodup_map hnodup hp hq
  have hdeps : ∀ p ∈ plan.actions,
      (run.completed[p.id]? = some .Succeeded ∨ ∃ a ∈ run.attempts, a.id = p.id) →
      DependenciesSucceeded run.completed p := by
    rintro p hp (hdone | ⟨a, ha, hap⟩)
    · obtain ⟨_, hverdict⟩ := executeInternal_judged host command identityOverride hplan hp hdone
      exact hverdict.dependencies
    · obtain ⟨p', hp', hap', hdeps⟩ :=
        (executeInternal_attempts host command identityOverride hplan).1 a ha
      rw [hinj p hp p' hp' (hap.symm.trans hap')]
      exact hdeps
  -- A dependency that did not succeed skips its dependents, one level down.
  have hskip : ∀ q p, PlanDepends plan q p → run.completed[q.id]? ≠ some .Succeeded →
      ∀ status, run.completed[p.id]? = some status → status = .SkippedDependency := by
    rintro q p ⟨-, hp, hdep⟩ hfail status hstatus
    obtain ⟨_, hverdict⟩ := executeInternal_judged host command identityOverride hplan hp hstatus
    exact hverdict.skipped hdep hfail
  have hskips : ∀ q p, Relation.TransGen (PlanDepends plan) q p →
      run.completed[q.id]? ≠ some .Succeeded → run.completed[p.id]? ≠ some .Succeeded ∧
        ∀ status, run.completed[p.id]? = some status → status = .SkippedDependency := by
    intro q p hqp hfail
    have hnot : ∀ {p : PlannedAction}, (∀ status, run.completed[p.id]? = some status →
        status = ActionStatus.SkippedDependency) → run.completed[p.id]? ≠ some .Succeeded :=
      fun h hs => (by cases h _ hs)
    induction hqp with
    | single h => exact ⟨hnot (hskip _ _ h hfail), hskip _ _ h hfail⟩
    | tail _ h ih => exact ⟨hnot (hskip _ _ h ih.1), hskip _ _ h ih.1⟩
  refine ⟨fun report hreport => ?_, hdeps, fun q p hqp hfail => ⟨?_, (hskips q p hqp hfail).2⟩,
    (executeInternal_attempts host command identityOverride hplan).2⟩
  · obtain ⟨inner, _, _, _, hall⟩ := executeInternal_ok hplan hreport
    have hstatus : ∀ p ∈ plan.actions, report.statusOf p.id = run.completed[p.id]? :=
      fun p hp => statusOf_eq hnodup hall hp
    have hname : ∀ p ∈ plan.actions, ∀ name ∈ p.depends_on, ∃ q ∈ plan.actions, q.id = name := by
      intro p hp name hn
      obtain ⟨l₁, l₂, hsplit⟩ := List.append_of_mem hp
      obtain ⟨q, hq, he⟩ := plan_dependency_before hplan hsplit hn
      exact ⟨q, by simp [hsplit, hq], he⟩
    refine ⟨?_, fun p hp hdone name hn => ?_, fun q p hqp hfail => ?_⟩
    · exact (map_eq_of_forall₂ (hall.imp fun _ _ h => h.1.symm)).symm
    · obtain ⟨q, hq, rfl⟩ := hname p hp name hn
      rw [hstatus p hp] at hdone
      rw [hstatus q hq]
      exact hdeps p hp hdone q.id hn
    · rw [hstatus q (planDepends_source hqp)] at hfail
      have hp := planDepends_target hqp
      obtain ⟨status, hs, -⟩ := judged_of_outcomes hall p hp
      rw [hstatus p hp, hs, (hskips q p hqp hfail).2 status hs]
  · -- An action that is carried out has the last link of the chain among its dependencies.
    rintro a ha hap
    cases hqp with
    | single h => exact hfail (hdeps p h.2.1 (.inr ⟨a, ha, hap⟩) q.id h.2.2)
    | tail hqr h => exact (hskips q _ hqr hfail).1 (hdeps p h.2.1 (.inr ⟨a, ha, hap⟩) _ h.2.2)

/-- A system that carries out every action but the ones that `fails` names. -/
def quietHost (fails : String → Bool) : Host where
  posix := {
    current_ids := (0, 0)
    lookup_user_by_name := fun _ => .ok none
    lookup_user_by_uid := fun _ => .ok none
    observe_workspace := fun _ => .NotMounted "not a mount"
    map_uid_from_parent := .ok
    map_gid_from_parent := .ok }
  platform := { os := "linux", arch := "x86_64" }
  effectiveUid := fun _ => 0
  files := fun _ => { pathExists := fun _ => true, isWritable := fun _ => true }
  perform := fun action _ _ =>
    if fails action.id then .error (.Action action.id none "refused") else .ok "changed"
  writeReceipt := fun _ => .ok ()

/-- A target user, a drop, and a handoff. -/
def dropConfig (condition : Option String) (failure : FailurePolicy) : BootstrapConfig where
  workspace_root := "/w"
  identity := { default_uid := some 1000, default_gid := some 1000 }
  handoff := { runtime := "/bin/sh" }
  actions := [
    { id := "handoff", kind := .HandoffExec, origin := imageOrigin },
    { id := "drop", kind := .ProcessDropPrivileges, run_as := .Root, origin := imageOrigin,
      when := condition, failure },
    { id := "resolve", kind := .IdentityResolve, run_as := .Root, origin := imageOrigin }]

def dropExecutor (condition : Option String) (failure : FailurePolicy) : PlanExecutor where
  config := dropConfig condition failure
  context := { cwd := "/w" }

def planOf (config : BootstrapConfig) : Plan := (Plan.fromConfig config).toOption.getD ⟨[]⟩

theorem runs_of_dropConfig :
    (∃ report, ((dropExecutor none .Warn).executeInternal (quietHost (· = "drop"))
        (planOf (dropConfig none .Warn)) ["ls"] none).result = .ok report ∧
      report.statusOf "drop" = some .FailedWarn ∧
      report.statusOf "handoff" = some .SkippedDependency) ∧
    ∀ b ∈ ((dropExecutor none .Error).executeInternal (quietHost (· = "drop"))
      (planOf (dropConfig none .Error)) ["ls"] none).attempts, b.id ≠ "handoff" := by
  constructor
  · have hplan : Plan.fromConfig (dropConfig none .Warn) = .ok (planOf (dropConfig none .Warn)) := by
      decide
    obtain ⟨report, hreport⟩ : ∃ report, ((dropExecutor none .Warn).executeInternal
        (quietHost (· = "drop")) (planOf (dropConfig none .Warn)) ["ls"] none).result =
          .ok report := exists_of_isOk (by decide)
    have hdrop : report.statusOf "drop" = some .FailedWarn := by
      have hsome : (((dropExecutor none .Warn).executeInternal (quietHost (· = "drop"))
          (planOf (dropConfig none .Warn)) ["ls"] none).result.toOption.bind
            (·.statusOf "drop")) = some .FailedWarn := by decide
      rw [hreport] at hsome
      exact hsome
    obtain ⟨p, hp, q, hq, hpid, hqid, hdep⟩ : ∃ p ∈ (planOf (dropConfig none .Warn)).actions,
        ∃ q ∈ (planOf (dropConfig none .Warn)).actions,
        p.id = "handoff" ∧ q.id = "drop" ∧ q.id ∈ p.depends_on := by decide
    have hskipped := ((run_follows_dependencies (dropExecutor none .Warn) (quietHost (· = "drop"))
      _ ["ls"] none hplan).1 report hreport).2.2 q p (.single ⟨hq, hp, hdep⟩)
      (by simp [hqid, hdrop])
    exact ⟨report, hreport, hdrop, hpid ▸ hskipped⟩
  · have hplan : Plan.fromConfig (dropConfig none .Error) =
        .ok (planOf (dropConfig none .Error)) := by decide
    have hids : (planOf (dropConfig none .Error)).actions.map (·.id) =
        ["resolve", "drop", "handoff"] := by decide
    obtain ⟨resolve, _, hresolve, _, htail⟩ := List.map_eq_cons_iff.mp hids
    obtain ⟨drop, _, rfl, hdrop, htail⟩ := List.map_eq_cons_iff.mp htail
    obtain ⟨handoff, _, rfl, hhandoff, _⟩ := List.map_eq_cons_iff.mp htail
    have hpolicy : ∃ action ∈ (dropConfig none .Error).actions,
        action.id = "drop" ∧ action.failure = .Error := by decide
    have hfailed : ∃ a ∈ ((dropExecutor none .Error).executeInternal (quietHost (· = "drop"))
        (planOf (dropConfig none .Error)) ["ls"] none).attempts,
        a.id = "drop" ∧ a.failed = true := by decide
    intro b hb
    rw [← hhandoff]
    exact (run_follows_dependencies (dropExecutor none .Error) (quietHost (· = "drop")) _ ["ls"]
      none hplan).2.2.2 [resolve] drop _ hresolve (hdrop.symm ▸ hpolicy) (hdrop.symm ▸ hfailed) b hb
      handoff (by simp)

/-! ## The chain of an action -/

/-- The condition of the action holds, and carrying it out goes well. -/
def Done (run : Run) (p : PlannedAction) : Prop :=
  ∃ action, run.actions[p.id]? = some action ∧ run.conditionHolds action = .ok true ∧
    ((run.privilegedSkip action).isSome ∨ ∃ result, run.executeAction action = .ok result)

theorem Verdict.done {run : Run} {completed : Std.ExtTreeMap String ActionStatus}
    {p : PlannedAction} (h : Verdict run completed p .Succeeded) : Done run p := by
  generalize hs : ActionStatus.Succeeded = status at h
  cases h with
  | dependency => cases hs
  | condition => cases hs
  | succeeded haction _ hcond hdone => exact ⟨_, haction, hcond, hdone⟩
  | failed _ _ _ _ _ hpolicy => exact absurd hs.symm (failedStatus_ne_succeeded hpolicy).2.1

/-- After its dependencies, an action that is done succeeds. -/
theorem Verdict.succeeded_of_done {run : Run} {completed : Std.ExtTreeMap String ActionStatus}
    {p : PlannedAction} {status : ActionStatus} (h : Verdict run completed p status)
    (hdeps : DependenciesSucceeded completed p) (hdone : Done run p) : status = .Succeeded := by
  obtain ⟨action, haction, hcond, hdone⟩ := hdone
  cases h with
  | dependency hdep => exact absurd hdeps hdep
  | condition haction' _ hcond' =>
    obtain rfl := Option.some.inj (haction.symm.trans haction')
    rw [hcond] at hcond'
    cases hcond'
  | succeeded => rfl
  | failed haction' _ _ hskip herror _ =>
    obtain rfl := Option.some.inj (haction.symm.trans haction')
    rcases hdone with hsome | ⟨result, hok⟩
    · simp [hskip] at hsome
    · rw [hok] at herror
      cases herror

/-- An action succeeds exactly when it and everything it depends on is done. -/
theorem Judged.succeeded_iff {config : BootstrapConfig} {plan : Plan} {run : Run}
    {completed : Std.ExtTreeMap String ActionStatus}
    (hplan : Plan.fromConfig config = .ok plan) (h : Judged run completed plan)
    {p : PlannedAction} (hp : p ∈ plan.actions) :
    completed[p.id]? = some ActionStatus.Succeeded ↔
      ∀ q, Relation.ReflTransGen (PlanDepends plan) q p → Done run q := by
  constructor
  · intro hs q hqp
    have hall : q ∈ plan.actions ∧ completed[q.id]? = some .Succeeded := by
      induction hqp using Relation.ReflTransGen.head_induction_on with
      | refl => exact ⟨hp, hs⟩
      | head hqr _ ih => exact ⟨hqr.1, (h.succeeded ih.1 ih.2).dependencies _ hqr.2.2⟩
    exact (h.succeeded hall.1 hall.2).done
  · -- The dependencies of an action are before it in the plan, so they are settled first.
    intro hchain
    obtain ⟨l₁, l₂, hsplit⟩ := List.append_of_mem hp
    induction hlen : l₁.length using Nat.strong_induction_on generalizing l₁ l₂ p with
    | _ n ih =>
      have hdeps : DependenciesSucceeded completed p := by
        intro name hn
        obtain ⟨q, hq, rfl⟩ := plan_dependency_before hplan hsplit hn
        obtain ⟨m₁, m₂, rfl⟩ := List.append_of_mem hq
        have hq' : q ∈ plan.actions := by simp [hsplit]
        refine ih m₁.length ?_ hq' ?_ m₁ (m₂ ++ p :: l₂) ?_ rfl
        · simp at hlen
          omega
        · exact fun r hr => hchain r (hr.tail ⟨hq', hp, hn⟩)
        · simp [hsplit]
      obtain ⟨status, hs, hv⟩ := h p hp
      rw [hs, hv.succeeded_of_done hdeps (hchain p .refl)]

end init_core
