-- The configurations of the backend (`server/runtime.rs`): the actions that run
-- at startup, those that run again for a request, and the names that a client
-- may send.
import NixosDockers.Core.Types

open bootstrap_model init_core rust_text

namespace init_backend

/-! ## The trimmed configurations -/

/-- Keep some actions, and of their dependencies those on kept actions. -/
def trimmed (keep : Action → Bool) (config : BootstrapConfig) : BootstrapConfig :=
  let kept := config.actions.filter keep
  let action_ids := kept.map Action.id
  { config with
    actions := kept.map fun action =>
      { action with depends_on := action.depends_on.filter action_ids.contains } }

def isStartupAction (action : Action) : Bool :=
  !action.origin.source.isWorkspace &&
    match action.kind with
    | .ProcessDropPrivileges | .HandoffExec => false
    | _ => true

/-- The kinds that bring an identity up to date for a request. -/
def reconcilesIdentity : ActionKind → Bool
  | .IdentityResolve | .IdentityMapUser | .IdentityEnsureHome | .ProcessSetUserShell => true
  | _ => false

def isRequestAction (action : Action) : Bool :=
  action.origin.source.isWorkspace || reconcilesIdentity action.kind

def startupConfig (config : BootstrapConfig) : BootstrapConfig := trimmed isStartupAction config

def requestConfig (config : BootstrapConfig) : BootstrapConfig := trimmed isRequestAction config

theorem trimmed_ids (keep : Action → Bool) (config : BootstrapConfig) :
    (trimmed keep config).actions.map Action.id = (config.actions.filter keep).map Action.id := by
  unfold trimmed
  rw [List.map_map]
  rfl

theorem trimmed_nodup (keep : Action → Bool) {config : BootstrapConfig}
    (h : (config.actions.map Action.id).Nodup) :
    ((trimmed keep config).actions.map Action.id).Nodup := by
  rw [trimmed_ids]
  exact h.sublist (List.filter_sublist.map Action.id)

/-! ## The names of a client -/

structure AllowedClientValues where
  runtime_inputs : List String
  environment_names : List String

def valueEnvironmentName : ConditionValue → List String
  | .Reference reference => (stripStart reference "env.").toList
  | _ => []

/-- `collect_environment_names`: templates are not looked at. -/
def collectEnvironmentNames : Condition → List String
  | .Equal left right | .NotEqual left right =>
    valueEnvironmentName left ++ valueEnvironmentName right
  | .And parts | .Or parts => collectAll parts
  | .Not part => collectEnvironmentNames part
  | .Always | .Boolean _ | .ContextPathExistsOrCreate | .Exists _ | .Writable _ | .InputSet _
  | .Feature _ => []
where
  collectAll : List Condition → List String
    | [] => []
    | part :: parts => collectEnvironmentNames part ++ collectAll parts

/-- `allowed_client_values`. Conditions of workspace actions are not looked at. -/
def allowedClientValues (config : BootstrapConfig) : Except CoreError AllowedClientValues := do
  let conditions ← (config.actions.filter fun action => reconcilesIdentity action.kind).mapM
    fun action => liftModel action.condition
  return {
    runtime_inputs := config.runtimeInputNames
    environment_names := config.runtimeInputNames ++ conditions.flatMap collectEnvironmentNames }

end init_backend
