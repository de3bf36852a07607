-- `BootstrapConfig::validate` (`config.rs`): the configuration as a whole, the
-- trust of each action, and the actions that a request does not run again.
import NixosDockers.BootstrapModel.Validate

open rust_text

namespace bootstrap_model

/-! ## Identity and handoff -/

namespace IdentityConfig

/-- The four identity inputs with the names of their fields. -/
def inputFields (identity : IdentityConfig) : List (String × Option String) :=
  [("run_as_root_input", identity.run_as_root_input), ("uid_input", identity.uid_input),
    ("gid_input", identity.gid_input), ("home_input", identity.home_input)]

def validate (identity : IdentityConfig) : Except ModelError Unit := do
  Action.checkField identity.default_user
    (Action.validateUserName "bootstrap.identity.default_user")
  Action.checkField identity.default_home (validateTemplate "bootstrap.identity.default_home")
  identity.inputFields.forM fun (field, value) =>
    Action.checkField value fun name =>
      if isEnvName name then .ok ()
      else .error (.Invalid ("bootstrap.identity." ++ field)
        (debugText name ++ " is not a valid environment input name"))

end IdentityConfig

namespace HandoffConfig

def MAX_HANDOFF_PREFIX_ITEMS : Nat := 64

def MAX_HANDOFF_PREFIX_ITEM_BYTES : Nat := 64 * 1024

def MAX_HANDOFF_PREFIX_TOTAL_BYTES : Nat := 256 * 1024

/-- The arguments of a handoff list, from `index` on. The total of at most 64 lengths that
fit in memory does not overflow a `usize`. -/
def validateItems (field : String) : Nat → List String → Except ModelError Unit
  | _, [] => .ok ()
  | index, argument :: rest => do
    let location := "bootstrap.handoff." ++ field ++ "[" ++ toString index ++ "]"
    Action.validateArgvValue location argument
    if byteLen argument > MAX_HANDOFF_PREFIX_ITEM_BYTES then
      throw (.Invalid location ("is " ++ toString (byteLen argument) ++ " bytes; maximum is " ++
        toString MAX_HANDOFF_PREFIX_ITEM_BYTES ++ " bytes"))
    validateItems field (index + 1) rest

def validatePrefix (field : String) (items : List String) : Except ModelError Unit := do
  let location := "bootstrap.handoff." ++ field
  if items.length > MAX_HANDOFF_PREFIX_ITEMS then
    throw (.Invalid location ("contains " ++ toString items.length ++ " arguments; maximum is " ++
      toString MAX_HANDOFF_PREFIX_ITEMS))
  validateItems field 0 items
  let total := (items.map byteLen).sum
  if total > MAX_HANDOFF_PREFIX_TOTAL_BYTES then
    throw (.Invalid location ("contains " ++ toString total ++ " argument bytes; maximum is " ++
      toString MAX_HANDOFF_PREFIX_TOTAL_BYTES ++ " bytes"))

def validate (handoff : HandoffConfig) : Except ModelError Unit := do
  Action.validateExecutable "bootstrap.handoff.runtime" handoff.runtime
  validatePrefix "exec_prefix" handoff.exec_prefix
  validatePrefix "initial_exec_prefix" handoff.initial_exec_prefix
  validatePrefix "shell_prefix" handoff.shell_prefix
  Action.checkField handoff.ssh_daemon (Action.validateExecutable "bootstrap.handoff.ssh_daemon")
  Action.checkField handoff.login_shell (Action.validateExecutable "bootstrap.handoff.login_shell")

end HandoffConfig

/-! ## References to request data -/

/-- The loop of `runtime_reference`: every round passes one `$\x7b...\x7d`. -/
def runtimeReferenceFuel (runtimeInputs : List String) : Nat → List Char → Option String
  | 0, _ => none
  | fuel + 1, rest =>
    match splitOnce ['$', '\x7b'] rest with
    | none => none
    | some (_, after) =>
      match splitOnce ['\x7d'] after with
      | none => none
      | some (text, tail) =>
        let reference := String.ofList text
        match stripStart reference "input." with
        | some name =>
          if runtimeInputs.contains name then some ("runtime input " ++ name)
          else runtimeReferenceFuel runtimeInputs fuel tail
        | none =>
          if startsWith reference "env." then some ("runtime environment " ++ reference)
          else if startsWith reference "identity." then some "request identity"
          else runtimeReferenceFuel runtimeInputs fuel tail

def runtimeReference (value : String) (runtimeInputs : List String) : Option String :=
  if value = "identity.target" || hasText value "identity." then some "request identity"
  else runtimeReferenceFuel runtimeInputs value.length value.toList

def valueRuntimeReference (runtimeInputs : List String) : ConditionValue → Option String
  | .Reference reference =>
    if startsWith reference "identity." then some "request identity"
    else
      match stripStart reference "input." with
      | some name =>
        if runtimeInputs.contains name then some ("runtime input " ++ name)
        else if startsWith reference "env." then some ("runtime environment " ++ reference)
        else none
      | none =>
        if startsWith reference "env." then some ("runtime environment " ++ reference) else none
  | _ => none

def conditionRuntimeReference (runtimeInputs : List String) : Condition → Option String
  | .Equal left right | .NotEqual left right =>
    valueRuntimeReference runtimeInputs left <|> valueRuntimeReference runtimeInputs right
  | .And parts | .Or parts => partsRuntimeReference parts
  | .Not part => conditionRuntimeReference runtimeInputs part
  | .Exists path | .Writable path => runtimeReference path.text runtimeInputs
  | .InputSet name =>
    if runtimeInputs.contains name then some ("runtime input " ++ name) else none
  | .Always | .Boolean _ | .ContextPathExistsOrCreate | .Feature _ => none
where
  partsRuntimeReference : List Condition → Option String
    | [] => none
    | part :: parts =>
      conditionRuntimeReference runtimeInputs part <|> partsRuntimeReference parts

/-! ## The configuration -/

namespace BootstrapConfig

/-- The names and aliases of the runtime inputs. -/
def runtimeInputNames (config : BootstrapConfig) : List String :=
  config.inputs.toList.flatMap fun entry =>
    if entry.2.runtime then entry.1 :: entry.2.aliases else []

/-- The fields that `validate_runtime_invariance` reads. -/
def invarianceFields (action : Action) : List (String × Option String) :=
  [("path", action.path), ("link", action.link), ("target", action.target),
    ("mode", action.mode), ("parent_mode", action.parent_mode), ("owner", action.owner),
    ("user", action.user), ("shell", action.shell), ("content", action.content),
    ("host_key_dir", action.host_key_dir), ("authorized_keys_dir", action.authorized_keys_dir),
    ("authorized_keys_source", action.authorized_keys_source),
    ("runtime_dir", action.runtime_dir), ("ssh_keygen", action.ssh_keygen),
    ("subgroup", action.subgroup), ("shadow_path", action.shadow_path)]

/-- The actions that a request runs again, which may read request data. -/
def rerunsPerRequest (action : Action) : Bool :=
  action.origin.source.isWorkspace ||
    match action.kind with
    | .IdentityResolve | .IdentityMapUser | .IdentityEnsureHome | .ProcessSetUserShell
    | .ProcessDropPrivileges | .HandoffExec => true
    | _ => false

def validateActionInvariance (runtimeInputs : List String) (action : Action) :
    Except ModelError Unit := do
  if rerunsPerRequest action then return ()
  (invarianceFields action).forM fun (field, value) =>
    Action.checkField value fun value =>
      match runtimeReference value runtimeInputs with
      | none => .ok ()
      | some reference =>
        .error (.Invalid (action.fieldLocation field) ("startup action depends on " ++ reference ++
          ", but request reconciliation does not rerun it"))
  Action.checkField action.when fun text => do
    let condition ← Condition.parse text
    match conditionRuntimeReference runtimeInputs condition with
    | none => .ok ()
    | some reference =>
      .error (.Invalid (action.fieldLocation "when")
        ("startup action condition depends on " ++ reference ++
          ", but request reconciliation does not rerun it"))

def validateRuntimeInvariance (config : BootstrapConfig) : Except ModelError Unit :=
  config.actions.forM (validateActionInvariance config.runtimeInputNames)

/-- The kinds that must run as root. -/
def mustRunAsRoot : ActionKind → Bool
  | .IdentityResolve | .IdentityMapUser | .IdentityEnsureHome | .ServiceSshPrepare
  | .ProcessDropPrivileges | .CgroupV2Init => true
  | _ => false

/-- The part of `validate_action` that asks where the action comes from. -/
def validateTrust (config : BootstrapConfig) (action : Action) : Except ModelError Unit := do
  let source := action.origin.source
  let violation := fun message => ModelError.TrustViolation action.id source message
  if action.kind.intrinsicAdminOnly && !source.isTrusted then
    throw (violation "this action is restricted to an image or admin profile")
  if action.kind ∈ config.policy.admin_only_action_kinds && !source.isTrusted then
    throw (violation "the configured policy marks this action kind admin-only")
  if action.run_as = .Root && !source.isTrusted then
    throw (violation "root actions require an image or admin profile")
  if source.isWorkspace then
    if !config.allow_workspace_overlay then throw (.WorkspaceOverlayDisabled action.id)
    if action.kind ∉ config.policy.workspace_safe_action_kinds then
      throw (violation "workspace overlays may use only workspace-safe action kinds")
    if action.run_as ≠ .Target then
      throw (violation "workspace actions must run as identity.target")
  if !source.isTrusted && !source.isWorkspace then
    throw (violation ("bootstrap actions may originate only from an image, admin, or explicitly " ++
      "allowed workspace profile"))

def validateAction (config : BootstrapConfig) (action : Action) : Except ModelError Unit := do
  if action.id = "" || !Action.isActionId action.id then
    throw (.Invalid ("bootstrap.actions[" ++ action.id ++ "].id")
      ("action id must contain only letters, digits, '.', '_' or '-' and may not be empty"))
  config.validateTrust action
  if mustRunAsRoot action.kind && action.run_as ≠ .Root then
    throw (.Invalid (action.fieldLocation "run_as") "this action kind must run as root")
  action.validateFields

/-- The loop over the actions, with the ids that came before. -/
def validateActions (config : BootstrapConfig) : List String → List Action → Except ModelError Unit
  | _, [] => .ok ()
  | ids, action :: actions => do
    if ids.contains action.id then throw (.DuplicateActionId action.id)
    config.validateAction action
    validateActions config (action.id :: ids) actions

def validateInput (name : String) (input : BootstrapInput) : Except ModelError Unit := do
  if name ≠ toAsciiUppercase name || !isEnvName name then
    throw (.Invalid ("bootstrap.inputs." ++ name) "input name must be an uppercase environment name")
  input.validate name

/-- The identity inputs are declared, by name or as an alias. -/
def validateIdentityInputs (config : BootstrapConfig) : Except ModelError Unit :=
  config.identity.inputFields.forM fun (field, value) =>
    Action.checkField value fun name =>
      if config.inputs.contains name ||
          config.inputs.values.any (fun input => input.aliases.contains name) then .ok ()
      else .error (.Invalid ("bootstrap.identity." ++ field)
        ("input " ++ debugText name ++ " is not declared in bootstrap.inputs"))

def namespaceOf (config : BootstrapConfig) (name : Option String) : Option InputNamespace := do
  let declaration ← inputDeclaration config.inputs (← name)
  declaration.namespace_

def validateNamespaces (config : BootstrapConfig) : Except ModelError Unit :=
  match config.namespaceOf config.identity.uid_input, config.namespaceOf config.identity.gid_input with
  | some uid, some gid =>
    if uid = gid then .ok ()
    else .error (.Invalid "bootstrap.identity"
      ("identity UID input and GID input must use the same namespace; got " ++ uid.debugName ++
        " and " ++ gid.debugName))
  | _, _ => .ok ()

def validate (config : BootstrapConfig) : Except ModelError Unit := do
  if config.actions.length > MAX_BOOTSTRAP_ACTIONS then
    throw (.Invalid "bootstrap.actions" ("contains " ++ toString config.actions.length ++
      " actions; maximum is " ++ toString MAX_BOOTSTRAP_ACTIONS))
  if config.schema ≠ BOOTSTRAP_SCHEMA_V1 then
    throw (.Invalid "bootstrap.schema" ("unsupported bootstrap schema " ++
      toString config.schema.toNat ++ "; expected " ++ toString BOOTSTRAP_SCHEMA_V1.toNat))
  validateTemplate "bootstrap.workspace_root" config.workspace_root
  if startsWith config.workspace_root "$\x7b" then
    throw (.Invalid "bootstrap.workspace_root" "workspace_root must be a concrete absolute path")
  config.identity.validate
  config.handoff.validate
  config.inputs.toList.forM fun entry => validateInput entry.1 entry.2
  config.validateIdentityInputs
  config.validateNamespaces
  config.validateActions [] config.actions
  config.validateRuntimeInvariance

end BootstrapConfig
end bootstrap_model
