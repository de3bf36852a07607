-- The data of the Bootstrap DSL (crate `container-init-bootstrap-model`): the
-- actions, the inputs, the configuration and the errors of the model.
import NixosDockers.Lib.RustText

open rust_text

namespace bootstrap_model

/-! ## Actions -/

inductive RunAs where
  | Root
  | Target
  | Current
  deriving DecidableEq, Repr

inductive FailurePolicy where
  | Error
  | Warn
  | Ignore
  deriving DecidableEq, Repr

inductive Sensitivity where
  | Public
  | Sensitive
  | Secret
  deriving DecidableEq, Repr

inductive Idempotency where
  | Idempotent
  | NonIdempotent
  deriving DecidableEq, Repr

inductive SourceKind where
  | ImageProfile
  | AdminProfile
  | UserOverlay
  | WorkspaceOverlay
  | Runtime
  | Cli
  | Unknown
  deriving DecidableEq, Repr

def SourceKind.isTrusted : SourceKind → Bool
  | .ImageProfile | .AdminProfile => true
  | _ => false

def SourceKind.isWorkspace : SourceKind → Bool
  | .WorkspaceOverlay => true
  | _ => false

structure Origin where
  profile : String
  source : SourceKind
  location : Option String
  deriving DecidableEq, Repr

def Origin.unknown : Origin := { profile := "<unknown>", source := .Unknown, location := none }

inductive ActionKind where
  | IdentityResolve
  | IdentityMapUser
  | IdentityEnsureHome
  | FilesystemEnsureDir
  | FilesystemEnsureFile
  | FilesystemEnsureSymlink
  | FilesystemChown
  | FilesystemChmod
  | ProcessSetUserShell
  | ProcessDropPrivileges
  | ServiceSshPrepare
  | CgroupV2Init
  | HandoffExec
  deriving DecidableEq, Repr

inductive PlanPhase where
  | Root
  | Current
  | Target
  | Handoff
  deriving DecidableEq, Repr

/-- The place of a phase in the derived order of the Rust enumeration. -/
def PlanPhase.rank : PlanPhase → Nat
  | .Root => 0
  | .Current => 1
  | .Target => 2
  | .Handoff => 3

def ActionKind.idempotency : ActionKind → Idempotency
  | .HandoffExec => .NonIdempotent
  | _ => .Idempotent

def ActionKind.intrinsicAdminOnly : ActionKind → Bool
  | .IdentityMapUser | .ProcessSetUserShell | .ProcessDropPrivileges | .ServiceSshPrepare
  | .CgroupV2Init | .HandoffExec => true
  | _ => false

def ActionKind.phase (kind : ActionKind) (run_as : RunAs) : PlanPhase :=
  match kind, run_as with
  | .HandoffExec, _ | .ProcessDropPrivileges, _ => .Handoff
  | .IdentityResolve, .Root | .IdentityMapUser, .Root | .IdentityEnsureHome, .Root => .Root
  | .CgroupV2Init, _ => .Root
  | _, .Root => .Root
  | _, .Current => .Current
  | _, .Target => .Target

structure Action where
  id : String
  kind : ActionKind
  path : Option String := none
  link : Option String := none
  target : Option String := none
  mode : Option String := none
  parent_mode : Option String := none
  owner : Option String := none
  user : Option String := none
  shell : Option String := none
  content : Option String := none
  host_key_dir : Option String := none
  authorized_keys_dir : Option String := none
  authorized_keys_source : Option String := none
  runtime_dir : Option String := none
  host_key_types : Option (List String) := none
  ssh_keygen : Option String := none
  subgroup : Option String := none
  controllers : Option (List String) := none
  optional_controllers : Option (List String) := none
  subgroup_type : Option String := none
  subgroup_controllers : Option (List String) := none
  subgroup_controller_values : Option (Std.ExtTreeMap String String) := none
  mount_mode : Option String := none
  shadow_path : Option String := none
  when : Option String := none
  failure : FailurePolicy := .Error
  run_as : RunAs := .Current
  depends_on : List String := []
  reason : Option String := none
  sensitivity : Sensitivity := .Public
  recursive : Bool := false
  origin : Origin
  deriving DecidableEq

namespace Action

def phase (action : Action) : PlanPhase := action.kind.phase action.run_as

/-- The identity mark in a path template. -/
def identityMark : String := "$\x7bidentity."

def referencesIdentity (action : Action) : Bool :=
  (action.kind ≠ .IdentityResolve &&
    [action.path, action.link, action.target, action.owner, action.user, action.shell,
      action.host_key_dir, action.authorized_keys_dir, action.authorized_keys_source,
      action.runtime_dir, action.subgroup, action.shadow_path].reduceOption.any
        fun value => hasText value identityMark) ||
    action.owner = some "identity.target" ||
    action.user = some "identity.target" ||
    match action.kind with
    | .IdentityMapUser | .IdentityEnsureHome | .ServiceSshPrepare | .ProcessDropPrivileges => true
    | _ => false

def sshHostKeyDir (action : Action) : Option String := action.host_key_dir <|> action.path

def sshAuthorizedKeysDir (action : Action) : Option String :=
  action.authorized_keys_dir <|> action.target

def sshRuntimeDir (action : Action) : Option String := action.runtime_dir <|> action.link

def sshHostKeyTypes (action : Action) : List String := action.host_key_types.getD []

def cgroupMountMode (action : Action) : String :=
  match action.mount_mode <|> action.mode with
  | some mode =>
    if mode = "bind_mount" || mode = "mount_shadow" || mode = "shadow" then "bind_mount"
    else "default"
  | none => "default"

end Action

/-! ## Inputs -/

inductive InputType where
  | UidPair
  | Gid
  | Bool
  | Path
  deriving DecidableEq, Repr

/-- The `Debug` name of an input type. -/
def InputType.debugName : InputType → String
  | .UidPair => "UidPair"
  | .Gid => "Gid"
  | .Bool => "Bool"
  | .Path => "Path"

inductive InputNamespace where
  | Host
  | Container
  deriving DecidableEq, Repr

def InputNamespace.debugName : InputNamespace → String
  | .Host => "Host"
  | .Container => "Container"

inductive InputValue where
  | Bool (value : Bool)
  | Integer (value : UInt64)
  | String (value : String)
  deriving DecidableEq, Repr

/-- `InputValue::to_string_value`, and `input_value_string` of the resolver. -/
def inputValueString : InputValue → String
  | .Bool value => if value then "true" else "false"
  | .Integer value => toString value.toNat
  | .String value => value

inductive ParsedInput where
  | UidPair (uid : UInt32) (gid : Option UInt32)
  | Gid (gid : UInt32)
  | Bool (value : Bool)
  | Path (path : String)
  deriving DecidableEq, Repr

structure BootstrapInput where
  target : String
  input_type : InputType
  aliases : List String := []
  runtime : Bool := false
  format : Option String := none
  namespace_ : Option InputNamespace := none
  default : Option InputValue := none
  allow_outside_workspace : Bool := false
  deriving DecidableEq, Repr

/-! ## The configuration -/

structure IdentityConfig where
  default_user : Option String := none
  default_uid : Option UInt32 := none
  default_gid : Option UInt32 := none
  default_home : Option String := none
  auto_mapping : Bool := false
  run_as_root_input : Option String := none
  uid_input : Option String := none
  gid_input : Option String := none
  home_input : Option String := none
  deriving DecidableEq, Repr

structure HandoffConfig where
  runtime : String
  exec_prefix : List String := []
  initial_exec_prefix : List String := []
  shell_prefix : List String := []
  root_service : Bool := false
  ssh_daemon : Option String := none
  login_shell : Option String := none
  deriving DecidableEq, Repr

inductive BootstrapMode where
  | Strict
  deriving DecidableEq, Repr

inductive NonInteractivePolicy where
  | Deny
  | Allow
  deriving DecidableEq, Repr

structure BootstrapPolicy where
  workspace_safe_action_kinds : Finset ActionKind := ∅
  admin_only_action_kinds : Finset ActionKind := ∅
  deriving DecidableEq

structure BootstrapConfig where
  schema : UInt32 := 1
  mode : BootstrapMode := .Strict
  workspace_root : String
  allow_workspace_overlay : Bool := false
  non_interactive : NonInteractivePolicy := .Deny
  identity : IdentityConfig
  handoff : HandoffConfig
  policy : BootstrapPolicy := {}
  inputs : Std.ExtTreeMap String BootstrapInput := ∅
  actions : List Action := []
  deriving DecidableEq

def BOOTSTRAP_SCHEMA_V1 : UInt32 := 1

def MAX_BOOTSTRAP_ACTIONS : Nat := 8192

/-! ## Errors -/

inductive ModelError where
  | Invalid (location message : String)
  | DuplicateActionId (id : String)
  | MissingDependency (action dependency : String)
  | MissingIdentityResolve (action : String)
  | DependencyCycle (actions : List String)
  | PhaseViolation (action dependency : String)
  | TrustViolation (action : String) (source : SourceKind) (message : String)
  | WorkspaceOverlayDisabled (action : String)
  deriving DecidableEq, Repr

end bootstrap_model
