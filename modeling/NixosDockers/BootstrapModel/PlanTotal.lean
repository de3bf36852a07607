-- The plan of any configuration whatever: a value or an error of the model, and
-- never one of the panics.
import NixosDockers.BootstrapModel.PlanOrder

open rust_text results

namespace bootstrap_model

/-- The lookups of a plan find every declared action. -/
theorem checkPhase_error {config : BootstrapConfig} (hids : (config.actions.map (·.id)).Nodup)
    {action : Action} {name : String} (hname : ∃ a ∈ config.actions, a.id = name)
    {failure : PlanFailure} (h : checkPhase config action name = .error failure) :
    ∃ error, failure = .Model error := by
  obtain ⟨a, ha, rfl⟩ := hname
  obtain ⟨i, hi⟩ := List.getElem?_of_mem ha
  have hindex := (indexById_eq_some hids).mpr ⟨a, hi, rfl⟩
  unfold checkPhase at h
  simp only [hindex, hi, expect, ok_bind, throw_eq] at h
  split_ifs at h
  · exact ⟨_, (Except.error.inj h).symm⟩
  · cases h

theorem liftModel_error {α : Type} {result : Except ModelError α} {failure : PlanFailure}
    (h : liftModel result = .error failure) : ∃ error, failure = .Model error := by
  cases result with
  | ok value => cases h
  | error error => exact ⟨error, (Except.error.inj h).symm⟩

/-- Every check before the sort fails with an error of the model. -/
theorem planDependencies_error {config : BootstrapConfig} {failure : PlanFailure}
    (h : planDependencies config = .error failure) : ∃ error, failure = .Model error := by
  unfold planDependencies at h
  rcases bind_error_iff.mp h with hvalidate | ⟨_, hvalidate, h⟩
  · exact liftModel_error hvalidate
  have hvalid := liftModel_ok_iff.mp hvalidate
  have hids := (validate_actions hvalid).1
  simp only [throw_eq, error_bind] at h
  by_cases hresolve : (ofKind config .IdentityResolve).length > 1
  · rw [if_pos hresolve] at h
    exact ⟨_, (Except.error.inj h).symm⟩
  rw [if_neg hresolve] at h
  rcases bind_error_iff.mp h with hmap | ⟨declared, hmap, h⟩
  · exact liftModel_error hmap
  obtain ⟨hdecl, _, _, rfl⟩ := (mapM_actionDependencies_ok_iff hids).mp (liftModel_ok_iff.mp hmap)
  by_cases hhandoff : (ofKind config .HandoffExec).length > 1
  · rw [if_pos hhandoff] at h
    exact ⟨_, (Except.error.inj h).symm⟩
  rw [if_neg hhandoff] at h
  by_cases hdrop : (ofKind config .ProcessDropPrivileges).length > 1
  · rw [if_pos hdrop] at h
    exact ⟨_, (Except.error.inj h).symm⟩
  rw [if_neg hdrop] at h
  have hone : SpecialsUnique config := ⟨not_lt.mp hresolve, not_lt.mp hhandoff, not_lt.mp hdrop⟩
  rcases bind_error_iff.mp h with hphase | ⟨_, _, hreturn⟩
  · -- every name in the lists is the id of an action
    obtain ⟨⟨action, names⟩, hzip, hnames⟩ := forM_error hphase
    obtain ⟨name, hname, hcheck⟩ := forM_error hnames
    obtain ⟨j, hj⟩ := List.getElem?_of_mem hzip
    obtain ⟨haction, hlist⟩ := List.getElem?_zip_eq_some.mp hj
    obtain ⟨a, ha, hid, _⟩ := (mem_dependencyLists hids hone hdecl haction hlist).mp hname
    exact checkPhase_error hids ⟨a, ha, hid⟩ hcheck
  · cases hreturn

/-- Every field that an effect expects is there after the validation. -/
theorem fromAction_of_valid_config {config : BootstrapConfig} (h : config.validate = .ok ())
    {action : Action} (haction : action ∈ config.actions) :
    ∃ effect, PlanEffect.fromAction action = .ok effect :=
  fromAction_of_validate ((validate_actions h).2 action haction)

theorem fromConfig_total (config : BootstrapConfig) :
    (∃ plan, Plan.fromConfig config = .ok plan) ∨
      ∃ error, Plan.fromConfig config = .error (.Model error) := by
  cases hlists : planDependencies config with
  | error failure =>
    obtain ⟨error, rfl⟩ := planDependencies_error hlists
    refine Or.inr ⟨error, ?_⟩
    rw [Plan.fromConfig, hlists, error_bind]
  | ok lists =>
    obtain ⟨hplan, _⟩ := planDependencies_ok_iff.mp hlists
    rcases hplan.fromConfig_cases with ⟨_, ids, hcycle⟩ | ⟨_, plan, hok⟩
    · exact Or.inr ⟨_, hcycle⟩
    · exact Or.inl ⟨plan, hok⟩

/-- A plan is built, or an error of the model is returned: no lookup of a dependency fails, and no
count of open dependencies goes below zero. After the validation, no field that an effect expects
is missing. -/
theorem plan_never_panics (config : BootstrapConfig) :
    (∀ message, Plan.fromConfig config ≠ .error (.Panic message)) ∧
      (config.validate = .ok () → ∀ action ∈ config.actions,
        ∃ effect, PlanEffect.fromAction action = .ok effect) := by
  refine ⟨?_, fun h action => fromAction_of_valid_config h⟩
  intro message hpanic
  rcases fromConfig_total config with ⟨plan, hplan⟩ | ⟨error, herror⟩
  · rw [hplan] at hpanic
    cases hpanic
  · rw [herror] at hpanic
    cases hpanic

end bootstrap_model
