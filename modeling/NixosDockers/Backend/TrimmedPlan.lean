-- The plans of the trimmed configurations: they build when the full plan does,
-- hold the kept actions, and keep the order of dependencies among kept actions.
import NixosDockers.Backend.RequestPlan
import NixosDockers.BootstrapModel.PlanOrder

open bootstrap_model init_core rust_text results

namespace init_backend

/-! ## The actions of a trimmed configuration -/

/-- An action with fewer dependencies. -/
def withDependencies (keep : String → Bool) (action : Action) : Action :=
  { action with depends_on := action.depends_on.filter keep }

section trim

variable {keep : Action → Bool} {config : BootstrapConfig}

theorem mem_trimmed {action : Action} :
    action ∈ (trimmed keep config).actions ↔
      ∃ full ∈ config.actions, keep full = true ∧
        action = withDependencies ((config.actions.filter keep).map Action.id).contains full := by
  unfold trimmed withDependencies
  simp only [List.mem_map, List.mem_filter, and_assoc, eq_comm]

theorem validateFields_withDependencies {kept : String → Bool} {action : Action}
    (h : action.validateFields = .ok ()) : (withDependencies kept action).validateFields = .ok () := by
  have hwhen : (withDependencies kept action).when = action.when := rfl
  have hkind : (withDependencies kept action).kind = action.kind := rfl
  have hdependencies : ∀ f : String → Except ModelError Unit,
      action.depends_on.forM f = .ok () → (action.depends_on.filter kept).forM f = .ok () := by
    intro f hf
    rw [forM_ok_iff] at hf ⊢
    exact fun name hname => hf name (List.mem_of_mem_filter hname)
  unfold Action.validateFields at h ⊢
  rw [hwhen, hkind]
  -- the dependencies come last before the fields of the kind
  have hlast : ∀ f : String → Except ModelError Unit,
      (action.depends_on.forM f >>= fun _ => action.validateKindFields) = .ok () →
      ((withDependencies kept action).depends_on.forM f >>= fun _ =>
        (withDependencies kept action).validateKindFields) = .ok () := by
    intro f hf
    obtain ⟨_, hnames, hfields⟩ := bind_ok_iff.mp hf
    exact bind_ok_iff.mpr ⟨(), hdependencies f hnames, hfields⟩
  revert h
  by_cases hcgroup : action.kind ≠ .CgroupV2Init <;> cases action.when <;>
    simp only [hcgroup, if_true, if_false, not_false_eq_true, ne_eq] <;>
    intro h
  · refine bind_ok_mono h fun _ h => bind_ok_mono h fun _ h => ?_
    refine bind_ok_mono h fun _ h => bind_ok_mono h fun _ h => bind_ok_mono h fun _ h => ?_
    refine bind_ok_mono h fun _ h => bind_ok_mono h fun _ h => bind_ok_mono h fun _ h => ?_
    exact hlast _ h
  · refine bind_ok_mono h fun _ h => bind_ok_mono h fun _ h => bind_ok_mono h fun _ h => ?_
    refine bind_ok_mono h fun _ h => bind_ok_mono h fun _ h => bind_ok_mono h fun _ h => ?_
    refine bind_ok_mono h fun _ h => bind_ok_mono h fun _ h => bind_ok_mono h fun _ h => ?_
    exact hlast _ h
  · refine bind_ok_mono h fun _ h => bind_ok_mono h fun _ h => ?_
    refine bind_ok_mono h fun _ h => bind_ok_mono h fun _ h => bind_ok_mono h fun _ h => ?_
    refine bind_ok_mono h fun _ h => bind_ok_mono h fun _ h => ?_
    exact hlast _ h
  · refine bind_ok_mono h fun _ h => bind_ok_mono h fun _ h => bind_ok_mono h fun _ h => ?_
    refine bind_ok_mono h fun _ h => bind_ok_mono h fun _ h => bind_ok_mono h fun _ h => ?_
    refine bind_ok_mono h fun _ h => bind_ok_mono h fun _ h => ?_
    exact hlast _ h

theorem validateAction_withDependencies {kept : String → Bool} {action : Action}
    (h : config.validateAction action = .ok ()) :
    (trimmed keep config).validateAction (withDependencies kept action) = .ok () := by
  unfold BootstrapConfig.validateAction at h ⊢
  simp only [throw_bind, ite_error_ok_iff, bind_ok_iff] at h ⊢
  obtain ⟨hid, _, htrust, hroot, hfields⟩ := h
  exact ⟨hid, (), htrust, hroot, validateFields_withDependencies hfields⟩

theorem validateActions_of_forall {ids : List String} {actions : List Action}
    (hnodup : (actions.map Action.id).Nodup)
    (hall : ∀ action ∈ actions, action.id ∉ ids ∧ config.validateAction action = .ok ()) :
    config.validateActions ids actions = .ok () := by
  induction actions generalizing ids with
  | nil => rfl
  | cons action actions ih =>
    simp only [List.map_cons, List.nodup_cons, List.mem_map, not_exists, not_and] at hnodup
    obtain ⟨hfresh, hvalid⟩ := hall action (by simp)
    simp only [BootstrapConfig.validateActions, throw_bind, ite_error_ok_iff, bind_ok_iff]
    refine ⟨by simpa using hfresh, (), hvalid, ih hnodup.2 fun other hother => ?_⟩
    obtain ⟨hother_fresh, hother_valid⟩ := hall other (by simp [hother])
    refine ⟨?_, hother_valid⟩
    simp only [List.mem_cons, not_or]
    exact ⟨hnodup.1 other hother, hother_fresh⟩

/-- A trimmed configuration is as valid as the full one. -/
theorem trimmed_valid (h : config.validate = .ok ()) :
    (trimmed keep config).validate = .ok () := by
  obtain ⟨hnodup, hall⟩ := validate_actions h
  have hactions : (trimmed keep config).validateActions [] (trimmed keep config).actions = .ok () := by
    refine validateActions_of_forall (trimmed_nodup keep hnodup) fun action haction => ?_
    obtain ⟨full, hfull, _, rfl⟩ := mem_trimmed.mp haction
    exact ⟨by simp, validateAction_withDependencies (hall full hfull)⟩
  have hlength : (trimmed keep config).actions.length ≤ config.actions.length := by
    unfold trimmed
    simpa using List.length_filter_le keep config.actions
  unfold BootstrapConfig.validate at h ⊢
  simp only [throw_bind, ite_error_ok_iff, bind_ok_iff] at h ⊢
  obtain ⟨hlong, hschema, _, hroot, hconcrete, _, hidentity, _, hhandoff, _, hinputs, _, hnames, _,
    hspaces, _, _, hinvariance⟩ := h
  refine ⟨by omega, hschema, (), hroot, hconcrete, (), hidentity, (), hhandoff, (), hinputs, (),
    hnames, (), hspaces, (), hactions, ?_⟩
  unfold BootstrapConfig.validateRuntimeInvariance at hinvariance ⊢
  rw [forM_ok_iff] at hinvariance ⊢
  intro action haction
  obtain ⟨full, hfull, _, rfl⟩ := mem_trimmed.mp haction
  exact hinvariance full hfull

/-! ## The trimmed graph -/

theorem before_of_withDependencies {kept kept' : String → Bool} {a b : Action}
    (h : Before (withDependencies kept a) (withDependencies kept' b)) : Before a b := by
  rcases h with hdeclared | hkinds
  · exact Or.inl (List.mem_of_mem_filter hdeclared)
  · exact Or.inr hkinds

/-- Among kept actions no dependency is lost. -/
theorem before_withDependencies {kept : String → Bool} {a b : Action} (h : Before a b)
    (hkept : kept a.id = true) : Before (withDependencies kept a) (withDependencies kept b) := by
  rcases h with hdeclared | hkinds
  · exact Or.inl (List.mem_filter.mpr ⟨hdeclared, hkept⟩)
  · exact Or.inr hkinds

theorem length_ofKind_trimmed (kind : ActionKind) :
    (ofKind (trimmed keep config) kind).length ≤ (ofKind config kind).length := by
  unfold ofKind trimmed
  rw [List.filter_map, List.length_map]
  exact (List.filter_sublist.filter _).length_le

/-- Past the checks before the sort, a trimmed configuration that still resolves the
identity passes them too. -/
theorem trimmed_plannable (hresolve : ∀ a ∈ config.actions, a.kind = .IdentityResolve → keep a = true)
    (h : Plannable config) : Plannable (trimmed keep config) where
  valid := trimmed_valid h.valid
  unique :=
    ⟨(length_ofKind_trimmed _).trans h.unique.resolve,
      (length_ofKind_trimmed _).trans h.unique.handoff,
      (length_ofKind_trimmed _).trans h.unique.drop⟩
  declared := by
    intro b hb name hname
    obtain ⟨full, hfull, _, rfl⟩ := mem_trimmed.mp hb
    have hkept := (List.mem_filter.mp hname).2
    have hids : name ∈ (trimmed keep config).actions.map Action.id := by
      rw [trimmed_ids]
      simpa using hkept
    exact List.mem_map.mp hids
  no_self := by
    intro b hb hself
    obtain ⟨full, hfull, _, rfl⟩ := mem_trimmed.mp hb
    exact h.no_self full hfull (List.mem_of_mem_filter hself)
  resolved := by
    intro b hb hkind hreads
    obtain ⟨full, hfull, _, rfl⟩ := mem_trimmed.mp hb
    obtain ⟨a, ha, hakind⟩ := h.resolved full hfull hkind hreads
    exact ⟨_, mem_trimmed.mpr ⟨a, ha, hresolve a ha hakind, rfl⟩, hakind⟩
  phases := by
    intro a ha b hb hbefore
    obtain ⟨a', ha', _, rfl⟩ := mem_trimmed.mp ha
    obtain ⟨b', hb', _, rfl⟩ := mem_trimmed.mp hb
    exact h.phases a' ha' b' hb' (before_of_withDependencies hbefore)

end trim

/-! ## Places in an order -/

section order

variable {config : BootstrapConfig} {order : List Action}

theorem dependencyOrder_idxOf_lt (horder : DependencyOrder config order) (hnodup : order.Nodup)
    {a b : Action} (ha : a ∈ config.actions) (hb : b ∈ config.actions) (hbefore : Before a b) :
    order.idxOf a < order.idxOf b := by
  obtain ⟨l₁, l₂, rfl⟩ := List.append_of_mem (horder.perm.mem_iff.mpr hb)
  have hin := horder.before l₁ b l₂ rfl a ha hbefore
  have hout : b ∉ l₁ := fun hm => (List.nodup_append.mp hnodup).2.2 b hm b (by simp) rfl
  rw [List.idxOf_append_of_mem hin, List.idxOf_append_of_notMem hout, List.idxOf_cons_self]
  exact List.idxOf_lt_length_of_mem hin

theorem idxOf_lt_of_rank (hsorted : (order.map (·.phase.rank)).Pairwise (· ≤ ·)) {a b : Action}
    (ha : a ∈ order) (hb : b ∈ order) (hrank : a.phase.rank < b.phase.rank) :
    order.idxOf a < order.idxOf b := by
  by_contra hle
  have hplaces : order.idxOf b < order.idxOf a := by
    refine lt_of_le_of_ne (not_lt.mp hle) fun heq => ?_
    have hsame := (List.idxOf_inj hb).mp heq
    rw [hsame] at hrank
    exact lt_irrefl _ hrank
  have hranks := List.pairwise_iff_getElem.mp (List.pairwise_map.mp hsorted) _ _
    (List.idxOf_lt_length_of_mem hb) (List.idxOf_lt_length_of_mem ha) hplaces
  rw [List.getElem_idxOf, List.getElem_idxOf] at hranks
  omega

theorem sublist_of_idxOf_lt {a b : Action} (hb : b ∈ order) (h : order.idxOf a < order.idxOf b) :
    [a, b].Sublist order := by
  have hplace := List.idxOf_lt_length_of_mem hb
  have ha : a ∈ order.take (order.idxOf b) := by
    refine List.mem_take_iff_getElem.mpr ⟨order.idxOf a, by omega, ?_⟩
    exact List.getElem_idxOf (by omega)
  have htail : [b].Sublist (order.drop (order.idxOf b)) := by
    rw [List.singleton_sublist, List.drop_eq_getElem_cons hplace, List.getElem_idxOf]
    exact List.mem_cons_self
  rw [← List.take_append_drop (order.idxOf b) order]
  exact (List.singleton_sublist.mpr ha).append htail

end order

/-! ## The plans -/

/-- One action depends on another by a chain of dependencies among the given actions. -/
def DependsIn (actions : List Action) : Action → Action → Prop :=
  Relation.TransGen fun a b => a ∈ actions ∧ b ∈ actions ∧ Before a b

/-- The ids stand in a plan in this order. -/
def Precedes (plan : Plan) (first second : String) : Prop :=
  [first, second].Sublist (plan.actions.map PlannedAction.id)

instance (plan : Plan) (first second : String) : Decidable (Precedes plan first second) :=
  inferInstanceAs (Decidable (List.Sublist _ _))

/-- The plan of a trimmed configuration: it holds the kept actions, and keeps the
dependencies that go through kept actions or into a later phase. -/
structure RetainedInOrder (keep : Action → Bool) (config : BootstrapConfig) (plan : Plan) :
    Prop where
  retained : (plan.actions.map PlannedAction.id).Perm ((config.actions.filter keep).map Action.id)
  ordered : ∀ a ∈ config.actions, ∀ b ∈ config.actions, keep a = true → keep b = true →
    DependsIn config.actions a b →
    DependsIn (config.actions.filter keep) a b ∨ a.phase.rank < b.phase.rank →
    Precedes plan a.id b.id

section plans

variable {keep : Action → Bool} {config : BootstrapConfig} {full : Plan}

theorem actions_nodup (h : Plannable config) : config.actions.Nodup := h.ids.of_map _

/-- A dependency of the trimmed configuration raises the place in the full order. -/
theorem trimmed_acyclic (hfull : Plan.fromConfig config = .ok full) :
    ¬ ∃ i, Relation.TransGen (Requires (trimmed keep config)) i i := by
  obtain ⟨order, horder, _⟩ := fromConfig_order hfull
  have hplannable := (fromConfig_ok hfull).1
  have hnodup : order.Nodup := horder.perm.nodup_iff.mpr (actions_nodup hplannable)
  -- the place in the full order of the action that an index of the trimmed one comes from
  let place := fun i : Nat => ((config.actions.filter keep)[i]?.map order.idxOf).getD 0
  have hstep : ∀ i j, Requires (trimmed keep config) i j → place i < place j := by
    rintro i j ⟨a, b, ha, hb, hbefore⟩
    unfold trimmed at ha hb
    rw [List.getElem?_map, Option.map_eq_some_iff] at ha hb
    obtain ⟨a', ha', rfl⟩ := ha
    obtain ⟨b', hb', rfl⟩ := hb
    have hlt := dependencyOrder_idxOf_lt horder hnodup
      (List.mem_of_mem_filter (List.mem_of_getElem? ha'))
      (List.mem_of_mem_filter (List.mem_of_getElem? hb')) (before_of_withDependencies hbefore)
    simpa only [place, ha', hb', Option.map_some, Option.getD_some] using hlt
  rintro ⟨i, hcycle⟩
  have hlt : Relation.TransGen (fun m n : Nat => m < n) (place i) (place i) := hcycle.lift place hstep
  rw [Relation.transGen_eq_self] at hlt
  exact lt_irrefl _ hlt

theorem dependsIn_idxOf_lt {order : List Action}
    (horder : DependencyOrder (trimmed keep config) order) (hnodup : order.Nodup) {a b : Action}
    (h : DependsIn (config.actions.filter keep) a b) :
    let kept := ((config.actions.filter keep).map Action.id).contains
    order.idxOf (withDependencies kept a) < order.idxOf (withDependencies kept b) := by
  intro kept
  have hstep : ∀ a b, a ∈ config.actions.filter keep ∧ b ∈ config.actions.filter keep ∧ Before a b →
      order.idxOf (withDependencies kept a) < order.idxOf (withDependencies kept b) := by
    rintro a b ⟨ha, hb, hbefore⟩
    obtain ⟨ha_full, ha_keep⟩ := List.mem_filter.mp ha
    obtain ⟨hb_full, hb_keep⟩ := List.mem_filter.mp hb
    have hkept : kept a.id = true := by
      simpa [kept] using ⟨a, ⟨ha_full, ha_keep⟩, rfl⟩
    exact dependencyOrder_idxOf_lt horder hnodup (mem_trimmed.mpr ⟨a, ha_full, ha_keep, rfl⟩)
      (mem_trimmed.mpr ⟨b, hb_full, hb_keep, rfl⟩) (before_withDependencies hbefore hkept)
  unfold DependsIn at h
  have hlt : Relation.TransGen (fun m n : Nat => m < n) _ _ :=
    h.lift (fun a => order.idxOf (withDependencies kept a)) hstep
  rwa [Relation.transGen_eq_self] at hlt

theorem trimmed_plan (hresolve : ∀ a ∈ config.actions, a.kind = .IdentityResolve → keep a = true)
    (hfull : Plan.fromConfig config = .ok full) :
    ∃ plan, Plan.fromConfig (trimmed keep config) = .ok plan ∧ RetainedInOrder keep config plan := by
  have hplannable := trimmed_plannable hresolve (fromConfig_ok hfull).1
  rcases hplannable.fromConfig_cases with ⟨hcycle, _⟩ | ⟨_, plan, hplan⟩
  · exact absurd hcycle (trimmed_acyclic hfull)
  obtain ⟨order, horder, hfrom, hsorted, _⟩ := fromConfig_order hplan
  have hnodup : order.Nodup := horder.perm.nodup_iff.mpr (actions_nodup hplannable)
  have hids : plan.actions.map PlannedAction.id = order.map Action.id :=
    map_eq_of_forall₂ (hfrom.imp fun _ _ hp => hp.id)
  refine ⟨plan, hplan, ?_, ?_⟩
  · rw [hids, ← trimmed_ids]
    exact horder.perm.map Action.id
  · intro a ha b hb ha_keep hb_keep _ hchain
    have ha_in := horder.perm.mem_iff.mpr (mem_trimmed.mpr ⟨a, ha, ha_keep, rfl⟩)
    have hb_in := horder.perm.mem_iff.mpr (mem_trimmed.mpr ⟨b, hb, hb_keep, rfl⟩)
    have hlt := hchain.elim (fun hkept => dependsIn_idxOf_lt horder hnodup hkept)
      fun hrank => idxOf_lt_of_rank hsorted ha_in hb_in hrank
    unfold Precedes
    rw [hids]
    exact (sublist_of_idxOf_lt hb_in hlt).map Action.id

/-- An action that resolves the identity is not a workspace action. -/
theorem resolve_not_workspace (h : Plannable config) {a : Action} (ha : a ∈ config.actions)
    (hkind : a.kind = .IdentityResolve) : a.origin.source.isWorkspace = false := by
  have hvalid := (validate_actions h.valid).2 a ha
  unfold BootstrapConfig.validateAction BootstrapConfig.validateTrust at hvalid
  simp only [throw_bind, ite_error_ok_iff, bind_ok_iff, hkind] at hvalid
  obtain ⟨_, _, htrust, hroot, _⟩ := hvalid
  by_contra hworkspace
  rw [Bool.not_eq_false] at hworkspace
  have hrun : a.run_as = .Root := by simpa [BootstrapConfig.mustRunAsRoot] using hroot
  simp [hworkspace, hrun, ite_error_ok_iff] at htrust

/-- Where the full plan builds, the plans of the startup and of the request configuration
build. They hold exactly the kept actions, and a kept action stays before the kept actions
that depend on it through kept actions, or that depend on it and run in a later phase. -/
theorem trimmed_plans_build_in_order (config : BootstrapConfig) (full : Plan)
    (hfull : Plan.fromConfig config = .ok full) :
    (∃ plan, Plan.fromConfig (startupConfig config) = .ok plan ∧
      RetainedInOrder isStartupAction config plan) ∧
    ∃ plan, Plan.fromConfig (requestConfig config) = .ok plan ∧
      RetainedInOrder isRequestAction config plan := by
  have hplannable := (fromConfig_ok hfull).1
  constructor
  · refine trimmed_plan (fun a ha hkind => ?_) hfull
    simp [isStartupAction, resolve_not_workspace hplannable ha hkind, hkind]
  · refine trimmed_plan (fun a ha hkind => ?_) hfull
    simp [isRequestAction, reconcilesIdentity, hkind]

end plans

/-- The home directory waits for a directory that waits for the mapped user. -/
def directoryBetween : BootstrapConfig where
  workspace_root := "/w"
  identity := {}
  handoff := { runtime := "/bin/sh" }
  actions := [
    { id := "home", kind := .IdentityEnsureHome, run_as := .Root, depends_on := ["dir"],
      origin := imageOrigin },
    { id := "map", kind := .IdentityMapUser, run_as := .Root, origin := imageOrigin },
    { id := "dir", kind := .FilesystemEnsureDir, run_as := .Root, depends_on := ["map"],
      origin := imageOrigin, path := some "/x", mode := some "0755" },
    { id := "resolve", kind := .IdentityResolve, run_as := .Root, origin := imageOrigin }]

theorem planned_ids_ok (config : BootstrapConfig) (ids : List String)
    (h : (Plan.fromConfig config).toOption.map (fun plan => plan.actions.map PlannedAction.id) =
      some ids) :
    ∃ plan, Plan.fromConfig config = .ok plan ∧ plan.actions.map PlannedAction.id = ids := by
  cases hplan : Plan.fromConfig config with
  | ok plan => exact ⟨plan, rfl, by simpa [hplan, Except.toOption] using h⟩
  | error e => simp [hplan, Except.toOption] at h

theorem trimmed_plans_of_directoryBetween :
    ∃ full, Plan.fromConfig directoryBetween = .ok full ∧
      (∃ plan, Plan.fromConfig (startupConfig directoryBetween) = .ok plan ∧
        RetainedInOrder isStartupAction directoryBetween plan) ∧
      ∃ plan, Plan.fromConfig (requestConfig directoryBetween) = .ok plan ∧
        RetainedInOrder isRequestAction directoryBetween plan := by
  obtain ⟨full, hfull, _⟩ := planned_ids_ok directoryBetween
    ["resolve", "map", "dir", "home"] (by decide +kernel)
  exact ⟨full, hfull, trimmed_plans_build_in_order directoryBetween full hfull⟩

/-- The request plan drops the directory, and prepares the home before the user is mapped. -/
theorem removed_directory_loses_order :
    ∃ full plan, Plan.fromConfig directoryBetween = .ok full ∧
      Plan.fromConfig (requestConfig directoryBetween) = .ok plan ∧
      ∃ map ∈ directoryBetween.actions, ∃ home ∈ directoryBetween.actions,
        isRequestAction map = true ∧ isRequestAction home = true ∧
        DependsIn directoryBetween.actions map home ∧ ¬ Precedes plan map.id home.id := by
  obtain ⟨full, hfull, _⟩ := planned_ids_ok directoryBetween
    ["resolve", "map", "dir", "home"] (by decide +kernel)
  obtain ⟨plan, hplan, hids⟩ := planned_ids_ok (requestConfig directoryBetween)
    ["resolve", "home", "map"] (by decide +kernel)
  obtain ⟨home, map, dir, resolve, hactions⟩ : ∃ home map dir resolve,
      directoryBetween.actions = [home, map, dir, resolve] := ⟨_, _, _, _, rfl⟩
  refine ⟨full, plan, hfull, hplan, map, by simp [hactions], home, by simp [hactions], ?_⟩
  obtain ⟨rfl, rfl, rfl, rfl⟩ : _ = home ∧ _ = map ∧ _ = dir ∧ _ = resolve := by
    simpa [directoryBetween] using hactions
  refine ⟨rfl, rfl, ?_, ?_⟩
  · exact .head ⟨by simp [hactions], by simp [hactions], Or.inl (by simp)⟩
      (.single ⟨List.mem_cons_of_mem _ (List.mem_cons_of_mem _ List.mem_cons_self),
        by simp [hactions], Or.inl (by simp)⟩)
  · unfold Precedes
    rw [hids]
    decide

end init_backend
