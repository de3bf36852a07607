-- What a workspace overlay can add: with it the configuration is the same but
-- for actions at the end that the policy allows.
import NixosDockers.BootstrapLoader.Merge
import NixosDockers.BootstrapModel.PlanGraph

open bootstrap_model rust_text results

namespace bootstrap_loader

/-! ## The merge of an overlay -/

/-- Only actions of workspace overlays have been added, at the end. -/
structure OnlyAdds (merged next : MergedBootstrap) : Prop where
  scalars : next.scalars = merged.scalars
  policy : next.policy = merged.policy
  inputs : next.inputs = merged.inputs
  actions : ∃ extra, next.actions = merged.actions ++ extra ∧
    ∀ action ∈ extra, action.origin.source = .WorkspaceOverlay

theorem OnlyAdds.refl (merged : MergedBootstrap) : OnlyAdds merged merged :=
  ⟨rfl, rfl, rfl, [], by simp, by simp⟩

theorem OnlyAdds.trans {first second third : MergedBootstrap} (h₁ : OnlyAdds first second)
    (h₂ : OnlyAdds second third) : OnlyAdds first third := by
  obtain ⟨extra₁, hactions₁, hextra₁⟩ := h₁.actions
  obtain ⟨extra₂, hactions₂, hextra₂⟩ := h₂.actions
  refine ⟨h₂.scalars.trans h₁.scalars, h₂.policy.trans h₁.policy, h₂.inputs.trans h₁.inputs,
    extra₁ ++ extra₂, ?_, ?_⟩
  · rw [hactions₂, hactions₁, List.append_assoc]
  · intro action haction
    rcases List.mem_append.mp haction with haction | haction
    · exact hextra₁ action haction
    · exact hextra₂ action haction

/-- What the merge of an action does: the action is new, or the recorded one has the same
definition, or a trusted profile replaces it with an override. -/
theorem mergeAction_cases {entry : ProfileEntry} {overrides : OverrideCatalog}
    {merged next : MergedBootstrap} {action : Action}
    (h : mergeAction entry overrides merged action = .ok next) :
    (merged.action_indexes[action.id]? = none ∧ next = merged.pushAction action) ∨
      ∃ index existing, merged.action_indexes[action.id]? = some index ∧
        merged.actions[index]? = some existing ∧
        ((sameActionDefinition existing action = true ∧ next = merged) ∨
          (sameActionDefinition existing action = false ∧ entry.source.source.isTrusted = true ∧
            ∃ reason, overrides.reason (actionPath action.id) = some reason ∧
              next = merged.replaceAction index action reason)) := by
  unfold mergeAction at h
  split at h
  · rename_i hnew
    simp only [throw_eq, error_bind, ite_error_ok_iff, pure_ok_iff] at h
    exact .inl ⟨hnew, h.2.symm⟩
  · rename_i index hindex
    dsimp only at h
    split at h
    · cases h
    · rename_i existing hexisting
      refine .inr ⟨index, existing, hindex, hexisting, ?_⟩
      split_ifs at h with hsame htrusted
      · exact .inl ⟨hsame, (pure_ok_iff.mp h).symm⟩
      · cases h
      · split at h
        · cases h
        · rename_i reason hreason
          exact .inr ⟨by simpa using hsame, by simpa using htrusted, reason, hreason,
            (pure_ok_iff.mp h).symm⟩

section overlay

variable {overlay : ProfileEntry} {overrides : OverrideCatalog} {bootstrap : RawBootstrap}
  {merged next : MergedBootstrap}

theorem mergeAction_onlyAdds (hsource : overlay.source.source = .WorkspaceOverlay)
    {action : Action} (horigin : action.origin.source = .WorkspaceOverlay)
    (h : mergeAction overlay overrides merged action = .ok next) : OnlyAdds merged next := by
  rcases mergeAction_cases h with ⟨-, rfl⟩ | ⟨_, _, -, -, ⟨-, rfl⟩ | ⟨-, htrusted, -⟩⟩
  · exact ⟨rfl, rfl, rfl, [action], rfl, by simpa using horigin⟩
  · exact OnlyAdds.refl next
  · simp [hsource, SourceKind.isTrusted] at htrusted

theorem mergeActions_onlyAdds (hsource : overlay.source.source = .WorkspaceOverlay) {index : Nat}
    {seen : List String} {actions : List Action}
    (h : mergeActions overlay overrides index seen actions merged = .ok next) :
    OnlyAdds merged next := by
  induction actions generalizing index seen merged with
  | nil =>
    obtain rfl := Except.ok.inj h
    exact OnlyAdds.refl merged
  | cons action actions ih =>
    simp only [mergeActions, throw_eq, error_bind, ite_error_ok_iff, bind_ok_iff] at h
    obtain ⟨-, middle, hfirst, hrest⟩ := h
    exact (mergeAction_onlyAdds hsource hsource hfirst).trans (ih hrest)

/-- A namespace without configuration sets no scalar, but for a schema beside it. -/
theorem incoming_none (hplain : bootstrap.hasConfiguration = false) (profile : RawProfile)
    {key : ScalarKey} (hkey : key ≠ .Schema) : key.incoming profile bootstrap = none := by
  simp only [RawBootstrap.hasConfiguration, Bool.or_eq_false_iff, Option.isSome_eq_false_iff,
    Option.isNone_iff_eq_none] at hplain
  obtain ⟨⟨⟨⟨⟨⟨⟨⟨⟨hschema, hmode⟩, hroot⟩, hallow⟩, hinteractive⟩, hidentity⟩, hhandoff⟩, -⟩, -⟩, -⟩ :=
    hplain
  cases key with
  | Schema => exact absurd rfl hkey
  | _ =>
    unfold ScalarKey.incoming
    simp only [hmode, hroot, hallow, hinteractive, hidentity, hhandoff]
    rfl

/-- Without an override a scalar that is set stays as it is. -/
theorem mergeScalar_kept {origin : Origin} {key : ScalarKey} {incoming : Option key.Value}
    (hset : (merged.scalars key).isSome) (hnone : overrides.contains key.path = false)
    (h : mergeScalar overrides origin merged key incoming = .ok next) : next = merged := by
  unfold mergeScalar at h
  split at h
  · exact (Except.ok.inj h).symm
  · split at h
    · rename_i hmissing
      simp [hmissing] at hset
    · split_ifs at h with hsame hoverride
      · exact (Except.ok.inj h).symm
      · simp [hnone] at hoverride

theorem mergeScalars_kept {origin : Origin} {profile : RawProfile}
    (hplain : bootstrap.hasConfiguration = false) (hempty : overrides.hasBootstrapEntries = false)
    (hschema : (merged.scalars .Schema).isSome)
    (h : mergeScalars overrides origin profile bootstrap merged = .ok next) : next = merged := by
  have hnone : ∀ path, overrides.contains path = false := by
    intro path
    simp only [OverrideCatalog.hasBootstrapEntries, Bool.not_eq_false',
      Std.ExtTreeMap.isEmpty_iff] at hempty
    simp [OverrideCatalog.contains, hempty]
  refine foldlM_invariant (I := fun state => state = merged) (fun state key state' _ hstate hstep => ?_) rfl h
  subst hstate
  by_cases hkey : key = .Schema
  · subst hkey
    exact mergeScalar_kept hschema (hnone _) hstep
  · rw [incoming_none hplain profile hkey] at hstep
    exact (Except.ok.inj hstep).symm

theorem checkUntrusted_overlay (hsource : overlay.source.source = .WorkspaceOverlay)
    (h : checkUntrusted overlay bootstrap overrides = .ok ()) :
    bootstrap.hasConfiguration = false ∧ overrides.hasBootstrapEntries = false := by
  unfold checkUntrusted rejectUntrustedBootstrapFields at h
  simp only [hsource, SourceKind.isTrusted, Bool.not_false, if_true, ne_eq, not_true_eq_false,
    if_false, throw_eq] at h
  cases hplain : bootstrap.hasConfiguration <;> cases hempty : overrides.hasBootstrapEntries <;>
    simp_all [bind, Except.bind, pure, Except.pure]

theorem mergeBootstrap_onlyAdds (hsource : overlay.source.source = .WorkspaceOverlay)
    (hschema : (merged.scalars .Schema).isSome)
    (h : mergeBootstrap merged overlay bootstrap overrides = .ok next) : OnlyAdds merged next := by
  simp only [mergeBootstrap, bind_ok_iff] at h
  obtain ⟨_, hcheck, scalars, hscalars, inputs, hinputs, hactions⟩ := h
  obtain ⟨hplain, hempty⟩ := checkUntrusted_overlay hsource hcheck
  have hkept : scalars = { merged with saw_bootstrap := true } := by
    apply mergeScalars_kept hplain hempty ?_ hscalars
    exact hschema
  subst hkept
  have hsame : inputs = { merged with saw_bootstrap := true } := by
    simp only [RawBootstrap.hasConfiguration, Bool.or_eq_false_iff, Option.isSome_eq_false_iff,
      Option.isNone_iff_eq_none, Bool.not_eq_false', Std.ExtTreeMap.isEmpty_iff] at hplain
    obtain ⟨⟨⟨-, hpolicy⟩, hinputsEmpty⟩, -⟩ := hplain
    rw [hpolicy, hinputsEmpty] at hinputs
    exact (Except.ok.inj hinputs).symm
  have hadds := mergeActions_onlyAdds hsource hactions
  rw [hsame] at hadds
  exact ⟨hadds.scalars, hadds.policy, hadds.inputs, hadds.actions⟩

theorem mergeProfile_onlyAdds (hsource : overlay.source.source = .WorkspaceOverlay)
    (hschema : (merged.scalars .Schema).isSome) (h : mergeProfile merged overlay = .ok next) :
    OnlyAdds merged next := by
  simp only [mergeProfile, bind_ok_iff] at h
  obtain ⟨overrides, -, h⟩ := h
  split at h
  · simp only [throw_eq, error_bind, ite_error_ok_iff, pure_ok_iff] at h
    obtain ⟨-, rfl⟩ := h
    exact OnlyAdds.refl merged
  · exact mergeBootstrap_onlyAdds hsource hschema h

end overlay

/-! ## The configuration with an overlay -/

theorem required_ok {merged : MergedBootstrap} {key : ScalarKey} {value : key.Value}
    (h : merged.required key = .ok value) : merged.scalars key = some value := by
  unfold MergedBootstrap.required at h
  split at h
  · rename_i hsome
    rw [hsome, Except.ok.inj h]
  · cases h

theorem finish_ok {merged : MergedBootstrap} {config : BootstrapConfig}
    (h : finish merged = .ok config) :
    ∃ schema workspace_root runtime, merged.scalars .Schema = some schema ∧
      merged.scalars .WorkspaceRoot = some workspace_root ∧
      merged.scalars .Runtime = some runtime ∧
      config = merged.config schema workspace_root runtime ∧ config.validate = .ok () := by
  simp only [finish, throw_eq, error_bind, ite_error_ok_iff, bind_ok_iff] at h
  obtain ⟨-, schema, hschema, root, hroot, runtime, hruntime, h⟩ := h
  split at h
  · cases h
  · rename_i hvalid
    simp only [bind_ok_iff, pure_ok_iff] at h
    obtain ⟨_, -, rfl⟩ := h
    exact ⟨schema, root, runtime, required_ok hschema, required_ok hroot, required_ok hruntime, rfl,
      hvalid⟩

/-- What the policy and the kinds allow to a workspace action. -/
structure WorkspaceSafe (policy : BootstrapPolicy) (action : Action) : Prop where
  origin : action.origin.source = .WorkspaceOverlay
  safe : action.kind ∈ policy.workspace_safe_action_kinds
  not_intrinsic : action.kind.intrinsicAdminOnly = false
  not_admin_only : action.kind ∉ policy.admin_only_action_kinds
  as_target : action.run_as = .Target

theorem validateAction_workspace {config : BootstrapConfig} {action : Action}
    (horigin : action.origin.source = .WorkspaceOverlay)
    (h : config.validateAction action = .ok ()) : WorkspaceSafe config.policy action := by
  simp only [BootstrapConfig.validateAction, throw_eq, error_bind, ite_error_ok_iff,
    bind_ok_iff] at h
  obtain ⟨-, _, htrust, -⟩ := h
  simp only [BootstrapConfig.validateTrust, horigin, SourceKind.isTrusted, SourceKind.isWorkspace,
    throw_eq, error_bind, ite_error_ok_iff] at htrust
  obtain ⟨hintrinsic, hadmin, -, hworkspace⟩ := htrust
  rw [if_pos trivial] at hworkspace
  simp only [ite_error_ok_iff] at hworkspace
  obtain ⟨-, hsafe, htarget, -⟩ := hworkspace
  exact ⟨horigin, by simpa using hsafe, by simpa using hintrinsic, by simpa using hadmin,
    by simpa using htarget⟩

/-- With a workspace overlay at the end of a chain, the configuration has the same fields and the
same actions, and after them only actions that the policy allows to a workspace. -/
theorem overlay_only_adds_safe_actions {entries : List ProfileEntry} {overlay : ProfileEntry}
    {config extended : BootstrapConfig} (hsource : overlay.source.source = .WorkspaceOverlay)
    (hconfig : load entries = .ok config) (hextended : load (entries ++ [overlay]) = .ok extended) :
    { extended with actions := config.actions } = config ∧
      ∃ extra, extended.actions = config.actions ++ extra ∧
        ∀ action ∈ extra, WorkspaceSafe config.policy action := by
  simp only [load, bind_ok_iff] at hconfig hextended
  obtain ⟨merged, hmerged, hfinish⟩ := hconfig
  obtain ⟨next, hnext, hfinish'⟩ := hextended
  unfold mergeProfiles at hmerged hnext
  rw [List.foldlM_append, hmerged, ok_bind] at hnext
  simp only [List.foldlM_cons, List.foldlM_nil, bind_ok_iff, pure_ok_iff] at hnext
  obtain ⟨next, hnext, rfl⟩ := hnext
  obtain ⟨schema, root, runtime, hschema, hroot, hruntime, rfl, -⟩ := finish_ok hfinish
  obtain ⟨schema', root', runtime', hschema', hroot', hruntime', rfl, hvalid⟩ := finish_ok hfinish'
  have hadds := mergeProfile_onlyAdds hsource (by simp [hschema]) hnext
  rw [hadds.scalars] at hschema' hroot' hruntime'
  obtain rfl := Option.some.inj (hschema.symm.trans hschema')
  obtain rfl := Option.some.inj (hroot.symm.trans hroot')
  obtain rfl := Option.some.inj (hruntime.symm.trans hruntime')
  obtain ⟨extra, hactions, horigin⟩ := hadds.actions
  refine ⟨?_, extra, hactions, fun action haction => ?_⟩
  · simp only [MergedBootstrap.config, MergedBootstrap.identityConfig,
      MergedBootstrap.handoffConfig, hadds.scalars, hadds.policy, hadds.inputs]
  · have hmem : action ∈ next.actions := hactions ▸ List.mem_append_right _ haction
    have hsafe := validateAction_workspace (horigin action haction)
      ((validate_actions hvalid).2 action hmem)
    change WorkspaceSafe next.policy action at hsafe
    rw [hadds.policy] at hsafe
    exact hsafe

/-- A profile with a bootstrap namespace. -/
def profileEntry (id : String) (source : SourceKind) (bootstrap : RawBootstrap) : ProfileEntry where
  profile := { id, bootstrap := some bootstrap }
  source := { id, source }
  info := { id, source }

/-- An action that makes sure of a directory. -/
def directoryAction (id path : String) (run_as : RunAs) : Action where
  id
  kind := .FilesystemEnsureDir
  path := some path
  run_as
  origin := .unknown

def imageEntry : ProfileEntry :=
  profileEntry "image" .ImageProfile {
    schema := some 1
    workspace_root := some "/work"
    allow_workspace_overlay := some true
    handoff := some { runtime := some "/bin/runtime" }
    policy := some { workspace_safe_action_kinds := {.FilesystemEnsureDir} }
    actions := [directoryAction "state" "/var/state" .Root] }

def overlayEntry : ProfileEntry :=
  profileEntry "workspace" .WorkspaceOverlay {
    actions := [directoryAction "cache" "/work/cache" .Target] }

theorem overlay_adds_cache_directory :
    ∃ config extended, load [imageEntry] = .ok config ∧
      load ([imageEntry] ++ [overlayEntry]) = .ok extended ∧
      { extended with actions := config.actions } = config ∧
      ∃ extra, extended.actions = config.actions ++ extra ∧
        ∀ action ∈ extra, WorkspaceSafe config.policy action := by
  obtain ⟨config, hconfig⟩ : ∃ config, load [imageEntry] = .ok config :=
    exists_of_isOk (by decide +kernel)
  obtain ⟨extended, hextended⟩ : ∃ extended, load ([imageEntry] ++ [overlayEntry]) = .ok extended :=
    exists_of_isOk (by decide +kernel)
  exact ⟨config, extended, hconfig, hextended,
    overlay_only_adds_safe_actions rfl hconfig hextended⟩

end bootstrap_loader
