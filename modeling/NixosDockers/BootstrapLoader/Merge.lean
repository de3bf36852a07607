-- The merge of the bootstrap namespaces of a profile chain (`merge.rs`).
import NixosDockers.BootstrapLoader.Raw

open bootstrap_model rust_text

namespace bootstrap_loader

/-! ## The state of the merge -/

/-- `MergedBootstrap`, with its scalars by key. -/
structure MergedBootstrap where
  scalars : (key : ScalarKey) → Option key.Value := fun _ => none
  policy : BootstrapPolicy := {}
  inputs : Std.ExtTreeMap String BootstrapInput := ∅
  input_origins : Std.ExtTreeMap String Origin := ∅
  actions : List Action := []
  action_indexes : Std.ExtTreeMap String Nat := ∅
  field_origins : Std.ExtTreeMap String Origin := ∅
  saw_bootstrap : Bool := false

/-- A profile of the chain. -/
structure ProfileEntry where
  profile : RawProfile
  source : ProfileSource
  info : LoadedProfile

def profileOrigin (info : LoadedProfile) (source : ProfileSource) (suffix : String) : Origin where
  profile := info.id
  source := source.source
  location := some (source.location.getD info.id ++ ":" ++ suffix)

def conflictError (path : String) (previous incoming : Origin) (remedy : String) : LoadFailure :=
  .Loader (.Conflict path previous incoming remedy)

/-- A conflict with a value whose origin the code expects to know. -/
def conflictWith (path : String) (previous : Option Origin) (incoming : Origin)
    (remedy expected : String) : LoadFailure :=
  match previous with
  | some previous => conflictError path previous incoming remedy
  | none => .Panic expected

def overrideRemedy : String := "declare an explicit override with a non-empty reason"

/-! ## Scalars -/

def MergedBootstrap.setScalar (merged : MergedBootstrap) (key : ScalarKey) (value : key.Value)
    (origin : Origin) : MergedBootstrap :=
  { merged with
    scalars := Function.update merged.scalars key (some value)
    field_origins := merged.field_origins.insert key.path origin }

def mergeScalar (overrides : OverrideCatalog) (origin : Origin) (merged : MergedBootstrap)
    (key : ScalarKey) (incoming : Option key.Value) : Except LoadFailure MergedBootstrap :=
  match incoming with
  | none => .ok merged
  | some value =>
    match merged.scalars key with
    | none => .ok (merged.setScalar key value origin)
    | some current =>
      if current = value then .ok merged
      else if !overrides.contains key.path then
        .error (conflictWith key.path merged.field_origins[key.path]? origin overrideRemedy
          "scalar origin exists")
      else .ok (merged.setScalar key value origin)

def mergeScalars (overrides : OverrideCatalog) (origin : Origin) (profile : RawProfile)
    (bootstrap : RawBootstrap) (merged : MergedBootstrap) : Except LoadFailure MergedBootstrap :=
  ScalarKey.all.foldlM (fun merged key =>
    mergeScalar overrides origin merged key (key.incoming profile bootstrap)) merged

/-! ## Policy and inputs -/

/-- Policy sets are additive. -/
def mergePolicy (policy : Option RawPolicy) (merged : MergedBootstrap) : MergedBootstrap :=
  match policy with
  | none => merged
  | some policy => { merged with
    policy := {
      workspace_safe_action_kinds :=
        merged.policy.workspace_safe_action_kinds ∪ policy.workspace_safe_action_kinds
      admin_only_action_kinds :=
        merged.policy.admin_only_action_kinds ∪ policy.admin_only_action_kinds } }

def MergedBootstrap.setInput (merged : MergedBootstrap) (name : String) (input : BootstrapInput)
    (origin : Origin) : MergedBootstrap :=
  { merged with
    inputs := merged.inputs.insert name input
    input_origins := merged.input_origins.insert name origin }

def mergeInput (entry : ProfileEntry) (overrides : OverrideCatalog) (merged : MergedBootstrap)
    (name : String) (input : BootstrapInput) : Except LoadFailure MergedBootstrap :=
  let origin := profileOrigin entry.info entry.source (inputPath name)
  match merged.inputs[name]? with
  | none => .ok (merged.setInput name input origin)
  | some previous =>
    if previous = input then .ok merged
    else if !overrides.contains (inputPath name) then
      .error (conflictWith (inputPath name) merged.input_origins[name]? origin overrideRemedy
        "input origin exists")
    else .ok (merged.setInput name input origin)

def mergeInputs (entry : ProfileEntry) (overrides : OverrideCatalog)
    (inputs : Std.ExtTreeMap String BootstrapInput) (merged : MergedBootstrap) :
    Except LoadFailure MergedBootstrap :=
  inputs.toList.foldlM (fun merged input =>
    mergeInput entry overrides merged input.1 input.2) merged

/-! ## Actions -/

def sameActionDefinition (left right : Action) : Bool :=
  ({ left with origin := .unknown } : Action) = { right with origin := .unknown }

/-- An action of a profile with the place it comes from. -/
def ProfileEntry.placed (entry : ProfileEntry) (index : Nat) (action : Action) : Action :=
  { action with
    origin := profileOrigin entry.info entry.source
      ("bootstrap.actions[" ++ toString index ++ "]") }

/-- Add an action with a new id. -/
def MergedBootstrap.pushAction (merged : MergedBootstrap) (action : Action) : MergedBootstrap :=
  { merged with
    actions := merged.actions ++ [action]
    action_indexes := merged.action_indexes.insert action.id merged.actions.length }

/-- Replace an action by one that has the reason of its override, unless it has its own. -/
def MergedBootstrap.replaceAction (merged : MergedBootstrap) (index : Nat) (action : Action)
    (reason : String) : MergedBootstrap :=
  { merged with
    actions := merged.actions.set index { action with reason := action.reason.or (some reason) } }

def mergeAction (entry : ProfileEntry) (overrides : OverrideCatalog) (merged : MergedBootstrap)
    (action : Action) : Except LoadFailure MergedBootstrap := do
  match merged.action_indexes[action.id]? with
  | none =>
    if merged.actions.length ≥ MAX_BOOTSTRAP_ACTIONS then
      throw (.Loader (.Model (.Invalid "bootstrap.actions"
        ("merged profile graph exceeds the " ++ toString MAX_BOOTSTRAP_ACTIONS ++
          " action limit"))))
    return merged.pushAction action
  | some index =>
    let path := actionPath action.id
    match merged.actions[index]? with
    | none => throw (.Panic "index out of bounds")
    | some existing =>
      if sameActionDefinition existing action then return merged
      if !entry.source.source.isTrusted then
        throw (.Loader (.TrustViolation entry.profile.id entry.source.source path
          "untrusted profiles may not replace inherited actions"))
      match overrides.reason path with
      | none =>
        throw (conflictError path existing.origin action.origin
          "declare override.\"bootstrap.actions.<id>\" with a non-empty reason")
      | some reason => return merged.replaceAction index action reason

/-- The loop over the actions of a profile from `index` on, with the ids that came before. -/
def mergeActions (entry : ProfileEntry) (overrides : OverrideCatalog) :
    Nat → List String → List Action → MergedBootstrap → Except LoadFailure MergedBootstrap
  | _, _, [], merged => .ok merged
  | index, seen, action :: actions, merged => do
    if seen.contains action.id then
      throw (.Loader (.DuplicateActionId entry.profile.id action.id))
    let merged ← mergeAction entry overrides merged (entry.placed index action)
    mergeActions entry overrides (index + 1) (action.id :: seen) actions merged

/-! ## Profiles -/

/-- What a namespace sets besides actions. -/
def RawBootstrap.hasConfiguration (bootstrap : RawBootstrap) : Bool :=
  bootstrap.schema.isSome || bootstrap.mode.isSome || bootstrap.workspace_root.isSome ||
    bootstrap.allow_workspace_overlay.isSome || bootstrap.non_interactive.isSome ||
    bootstrap.identity.isSome || bootstrap.handoff.isSome || bootstrap.policy.isSome ||
    !bootstrap.inputs.isEmpty || !bootstrap.overrides.isEmpty

def rejectUntrustedBootstrapFields (bootstrap : RawBootstrap) (source : ProfileSource) :
    Except LoadFailure Unit :=
  if bootstrap.hasConfiguration then
    .error (.Loader (.TrustViolation source.id source.source "bootstrap"
      "untrusted profiles may contribute only bootstrap.actions"))
  else .ok ()

/-- The checks of a profile that is not trusted. -/
def checkUntrusted (entry : ProfileEntry) (bootstrap : RawBootstrap) (overrides : OverrideCatalog) :
    Except LoadFailure Unit := do
  let source := entry.source.source
  if !source.isTrusted then
    if source ≠ .WorkspaceOverlay then
      throw (.Loader (.TrustViolation entry.profile.id source "bootstrap"
        "only workspace overlays may contribute bootstrap actions"))
    rejectUntrustedBootstrapFields bootstrap entry.source
    if overrides.hasBootstrapEntries then
      throw (.Loader (.TrustViolation entry.profile.id source "override"
        "untrusted profiles may not override bootstrap declarations"))

/-- The part of `merge_profile` for a profile with a bootstrap namespace. -/
def mergeBootstrap (merged : MergedBootstrap) (entry : ProfileEntry) (bootstrap : RawBootstrap)
    (overrides : OverrideCatalog) : Except LoadFailure MergedBootstrap := do
  checkUntrusted entry bootstrap overrides
  let origin := profileOrigin entry.info entry.source "bootstrap"
  let merged ← mergeScalars overrides origin entry.profile bootstrap
    { merged with saw_bootstrap := true }
  let merged ← mergeInputs entry overrides bootstrap.inputs (mergePolicy bootstrap.policy merged)
  mergeActions entry overrides 0 [] bootstrap.actions merged

/-- `MergedBootstrap::merge_profile`. -/
def mergeProfile (merged : MergedBootstrap) (entry : ProfileEntry) :
    Except LoadFailure MergedBootstrap := do
  let overrides ← OverrideCatalog.new entry.profile entry.source.source
  match entry.profile.bootstrap with
  | none =>
    if overrides.hasBootstrapEntries then
      throw (.Loader (.Invalid ("profile " ++ entry.profile.id ++ ".override")
        "bootstrap overrides require a bootstrap namespace"))
    return merged
  | some bootstrap => mergeBootstrap merged entry bootstrap overrides

def mergeProfiles (entries : List ProfileEntry) : Except LoadFailure MergedBootstrap :=
  entries.foldlM mergeProfile {}

/-! ## The configuration -/

def missing (location : String) : LoadFailure :=
  .Loader (.Invalid location "required bootstrap value is missing from the profile graph")

/-- A scalar that must be there. -/
def MergedBootstrap.required (merged : MergedBootstrap) (key : ScalarKey) :
    Except LoadFailure key.Value :=
  match merged.scalars key with
  | some value => .ok value
  | none => .error (missing key.path)

/-- `validate_input_aliases`: the names and aliases of an input, in the order of the names. -/
def registerNames (owner : String) : List String → List (String × String) →
    Except LoadFailure (List (String × String))
  | [], names => .ok names
  | name :: rest, names =>
    match names.lookup name with
    | some previous =>
      if previous ≠ owner then
        .error (.Loader (.Invalid "bootstrap.inputs" ("input name or alias " ++ debugText name ++
          " is declared by both " ++ debugText previous ++ " and " ++ debugText owner)))
      else registerNames owner rest ((name, owner) :: names)
    | none => registerNames owner rest ((name, owner) :: names)

def validateInputAliases (config : BootstrapConfig) : Except LoadFailure Unit :=
  discard (config.inputs.toList.foldlM (fun names entry =>
    registerNames entry.1 (entry.1 :: entry.2.aliases) names) [])

def MergedBootstrap.identityConfig (merged : MergedBootstrap) : IdentityConfig where
  default_user := merged.scalars .DefaultUser
  default_uid := merged.scalars .DefaultUid
  default_gid := merged.scalars .DefaultGid
  default_home := merged.scalars .DefaultHome
  auto_mapping := (merged.scalars .AutoMapping).getD false
  run_as_root_input := merged.scalars .RunAsRootInput
  uid_input := merged.scalars .UidInput
  gid_input := merged.scalars .GidInput
  home_input := merged.scalars .HomeInput

def MergedBootstrap.handoffConfig (merged : MergedBootstrap) (runtime : String) :
    HandoffConfig where
  runtime
  exec_prefix := Option.getD (merged.scalars .ExecPrefix) []
  initial_exec_prefix :=
    Option.getD ((merged.scalars .InitialExecPrefix).or (merged.scalars .ExecPrefix)) []
  shell_prefix := Option.getD (merged.scalars .ShellPrefix) []
  root_service := (merged.scalars .RootService).getD false
  ssh_daemon := merged.scalars .SshDaemon
  login_shell := merged.scalars .LoginShell

/-- The configuration of a merge that has what must be there. -/
def MergedBootstrap.config (merged : MergedBootstrap) (schema : UInt32)
    (workspace_root runtime : String) : BootstrapConfig where
  schema
  mode := Option.getD (merged.scalars .Mode) .Strict
  workspace_root
  allow_workspace_overlay := (merged.scalars .AllowWorkspaceOverlay).getD false
  non_interactive := Option.getD (merged.scalars .NonInteractive) .Deny
  identity := merged.identityConfig
  handoff := merged.handoffConfig runtime
  policy := merged.policy
  inputs := merged.inputs
  actions := merged.actions

/-- `MergedBootstrap::finish`. -/
def finish (merged : MergedBootstrap) : Except LoadFailure BootstrapConfig := do
  if !merged.saw_bootstrap then
    throw (.Loader (.Invalid "bootstrap"
      "the selected profile graph declares no bootstrap namespace"))
  let schema ← merged.required .Schema
  let workspace_root ← merged.required .WorkspaceRoot
  let runtime ← merged.required .Runtime
  let config := merged.config schema workspace_root runtime
  match config.validate with
  | .error error => throw (.Loader (.Model error))
  | .ok () =>
    validateInputAliases config
    return config

/-- `ProfileLoader::load` for the profiles of a chain, parents first. -/
def load (entries : List ProfileEntry) : Except LoadFailure BootstrapConfig := do
  finish (← mergeProfiles entries)

end bootstrap_loader
