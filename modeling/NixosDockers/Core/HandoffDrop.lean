-- When `execute_and_handoff` comes to its `exec` after a privilege drop: the
-- command is rebuilt when `handoff.exec` was skipped, so a drop that was skipped
-- or that failed does not stop it.
import NixosDockers.Core.ExecutorRun

open bootstrap_model results

namespace init_core

/-- The condition of the action holds, and the system carries it out. -/
def CarriedOut (run : Run) (action : Action) : Prop :=
  run.conditionHolds action = .ok true ∧ ∃ result, run.executeAction action = .ok result

/-- The action, and every action it depends on in the plan, is carried out. -/
def ChainCarriedOut (run : Run) (plan : Plan) (p : PlannedAction) : Prop :=
  ∀ q, Relation.ReflTransGen (PlanDepends plan) q p →
    ∀ action ∈ run.executor.config.actions, action.id = q.id → CarriedOut run action

/-- An `exec` is reached after a run of the plan that ended well. -/
theorem executeAndHandoff_ok {executor : PlanExecutor} {host : Host} {plan : Plan}
    {command : List String} {reached : PlanExecutor.ReachedExec}
    (h : executor.executeAndHandoff host plan command = .ok reached) :
    (executor.executeInternal host plan command none).result = .ok reached.report ∧
      reached.as_root_service = reached.report.root_service_handoff := by
  simp only [PlanExecutor.executeAndHandoff, bind_ok_iff, pure_ok_iff] at h
  obtain ⟨report, hreport, _, _, rfl⟩ := h
  refine ⟨?_, rfl⟩
  unfold PlanExecutor.execute at hreport
  rcases hvalid : executor.validatePlan plan with failure | _
  · rw [hvalid] at hreport
    cases hreport
  · rw [hvalid] at hreport
    exact hreport

/-- For a target that is not root, no action is skipped as a privileged one. -/
theorem privilegedSkip_none {run : Run} (huid : run.identity.uid ≠ 0)
    (hroot : run.root_service_handoff = false) (action : Action) :
    run.privilegedSkip action = none := by
  simp [Run.privilegedSkip, huid, hroot]

theorem done_iff_carriedOut {run : Run} (hids : (run.executor.config.actions.map (·.id)).Nodup)
    (huid : run.identity.uid ≠ 0) (hroot : run.root_service_handoff = false) {p : PlannedAction}
    (hp : ∃ action ∈ run.executor.config.actions, action.id = p.id) :
    Done run p ↔ ∀ action ∈ run.executor.config.actions, action.id = p.id →
      CarriedOut run action := by
  constructor
  · rintro ⟨found, hfound, hcond, hdone⟩ action haction hid
    obtain rfl := Option.some.inj (((actions_getElem? hids).mpr ⟨haction, hid⟩).symm.trans hfound)
    rcases hdone with hsome | hok
    · simp [privilegedSkip_none huid hroot] at hsome
    · exact ⟨hcond, hok⟩
  · intro hall
    obtain ⟨action, haction, hid⟩ := hp
    obtain ⟨hcond, hok⟩ := hall action haction hid
    exact ⟨action, (actions_getElem? hids).mpr ⟨haction, hid⟩, hcond, Or.inr hok⟩

/-- A handoff of a target that is not root comes after a drop that succeeded exactly when
the drop and everything it depends on was carried out. -/
theorem handoff_after_drop_iff_chain_carried_out (executor : PlanExecutor) (host : Host)
    (plan : Plan) (command : List String) (run : Run) (reached : PlanExecutor.ReachedExec)
    (hplan : Plan.fromConfig executor.config = .ok plan)
    (hstart : executor.startRun host command none = .ok run)
    (hreached : executor.executeAndHandoff host plan command = .ok reached)
    (huid : reached.report.identity.uid ≠ 0) (hroot : reached.as_root_service = false) :
    ∀ drop ∈ plan.actions, drop.kind = .ProcessDropPrivileges →
      (reached.report.statusOf drop.id = some .Succeeded ↔ ChainCarriedOut run plan drop) := by
  intro drop hdrop _
  obtain ⟨hreport, hservice⟩ := executeAndHandoff_ok hreached
  obtain ⟨inner, hinner, hidentity, hinnerRoot, hall⟩ := executeInternal_ok hplan hreport
  obtain rfl := Except.ok.inj (hstart.symm.trans hinner)
  obtain ⟨rfl, -⟩ := startRun_ok hstart
  rw [hidentity] at huid
  rw [hservice, hinnerRoot] at hroot
  have hids := (fromConfig_ok hplan).1.ids
  rw [statusOf_eq (plan_ids_nodup hplan) hall hdrop,
    (judged_of_outcomes hall).succeeded_iff hplan hdrop]
  refine forall_congr' fun q => imp_congr_right fun hq => ?_
  refine done_iff_carriedOut hids huid hroot ?_
  have hmem : q ∈ plan.actions := by
    rcases Relation.ReflTransGen.cases_head hq with rfl | ⟨_, hstep, _⟩
    · exact hdrop
    · exact hstep.1
  obtain ⟨action, haction, hfrom⟩ := plan_action_declared hplan hmem
  exact ⟨action, haction, hfrom.id.symm⟩

/-- With a drop that has no condition and does not fail, the chain of the drop is carried out. -/
theorem drop_before_quiet_handoff :
    ∃ run reached, (dropExecutor none .Error).startRun (quietHost fun _ => false) ["ls"] none =
        .ok run ∧
      (dropExecutor none .Error).executeAndHandoff (quietHost fun _ => false)
        (planOf (dropConfig none .Error)) ["ls"] = .ok reached ∧
      ∃ drop ∈ (planOf (dropConfig none .Error)).actions, drop.kind = .ProcessDropPrivileges ∧
        ChainCarriedOut run (planOf (dropConfig none .Error)) drop := by
  have hplan : Plan.fromConfig (dropConfig none .Error) = .ok (planOf (dropConfig none .Error)) := by
    decide
  obtain ⟨run, hrun⟩ : ∃ run, (dropExecutor none .Error).startRun (quietHost fun _ => false) ["ls"]
      none = .ok run := exists_of_isOk (by decide)
  obtain ⟨reached, hreached⟩ : ∃ reached, (dropExecutor none .Error).executeAndHandoff
      (quietHost fun _ => false) (planOf (dropConfig none .Error)) ["ls"] = .ok reached :=
    exists_of_isOk (by decide)
  have hfacts : reached.report.identity.uid ≠ 0 ∧ reached.as_root_service = false ∧
      reached.report.statusOf "drop" = some .Succeeded := by
    have hsome : (((dropExecutor none .Error).executeAndHandoff (quietHost fun _ => false)
        (planOf (dropConfig none .Error)) ["ls"]).toOption.map fun reached =>
          (reached.report.identity.uid, reached.as_root_service,
            reached.report.statusOf "drop")) = some (1000, false, some .Succeeded) := by
      decide
    rw [hreached] at hsome
    obtain ⟨huid, hroot, hstatus⟩ := by simpa [Except.toOption] using hsome
    exact ⟨by simp [huid], hroot, hstatus⟩
  obtain ⟨drop, hdrop, hid, hkind⟩ : ∃ drop ∈ (planOf (dropConfig none .Error)).actions,
      drop.id = "drop" ∧ drop.kind = .ProcessDropPrivileges := by decide
  refine ⟨run, reached, hrun, hreached, drop, hdrop, hkind, ?_⟩
  exact (handoff_after_drop_iff_chain_carried_out _ _ _ _ run reached hplan hrun hreached hfacts.1
    hfacts.2.1 drop hdrop hkind).mp (hid ▸ hfacts.2.2)

/-- A drop with a false condition is skipped, `handoff.exec` is skipped for it, and the
handoff of the target user comes all the same. -/
theorem handoff_after_skipped_drop :
    Plan.fromConfig (dropConfig (some "false") .Error) =
        .ok (planOf (dropConfig (some "false") .Error)) ∧
      ∃ reached, (dropExecutor (some "false") .Error).executeAndHandoff (quietHost fun _ => false)
          (planOf (dropConfig (some "false") .Error)) ["ls"] = .ok reached ∧
        reached.report.identity.uid = 1000 ∧ reached.as_root_service = false ∧
        reached.report.statusOf "drop" = some .SkippedCondition := by
  refine ⟨by decide, ?_⟩
  obtain ⟨reached, hreached⟩ : ∃ reached, (dropExecutor (some "false") .Error).executeAndHandoff
      (quietHost fun _ => false) (planOf (dropConfig (some "false") .Error)) ["ls"] = .ok reached :=
    exists_of_isOk (by decide)
  have hsome : (((dropExecutor (some "false") .Error).executeAndHandoff (quietHost fun _ => false)
      (planOf (dropConfig (some "false") .Error)) ["ls"]).toOption.map fun reached =>
        (reached.report.identity.uid, reached.as_root_service,
          reached.report.statusOf "drop")) = some (1000, false, some .SkippedCondition) := by
    decide
  rw [hreached] at hsome
  exact ⟨reached, hreached, by simpa [Except.toOption] using hsome⟩

end init_core
