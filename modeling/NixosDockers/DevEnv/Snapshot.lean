-- The values that the dev-env backend keeps and compares (`dev-env-model`,
-- `dev-env-core`): snapshots of the configuration, the key of a
-- materialization, and what a materialization is given and gives.
import NixosDockers.Lib.RustText

open rust_text

namespace dev_env

/-! ## Paths -/

/-- The text of a path that was pushed together from its components. -/
def joinComponents : List String → String
  | "/" :: rest => "/" ++ String.intercalate "/" rest
  | parts => String.intercalate "/" parts

/-- The text of a path with the components that `==` and `Hash` of `PathBuf` look at. -/
def canonicalPath (path : String) : String := joinComponents (components path)

/-- `BackendSupport::normalize_path`: the root is not popped. -/
def normalizePath (path : String) : String :=
  joinComponents ((components path).foldl (fun output component =>
    if component = "." then output
    else if component = ".." then (if output = ["/"] then output else output.dropLast)
    else output ++ [component]) [])

/-- `normalize_absolute_path`. -/
def normalizeAbsolutePath (path : String) : String :=
  joinComponents ((components path).foldl (fun normalized component =>
    if component = "." then normalized
    else if component = ".." then
      (if normalized.getLast?.any (· ≠ "/") then normalized.dropLast else normalized)
    else normalized ++ [component]) [])

/-! ## Identities -/

inductive IdentityRequest where
  | Peer
  | Root
  | User (name : String)
  deriving DecidableEq, Repr

structure IdentityPeer where
  pid : UInt32
  uid : UInt32
  gid : UInt32
  deriving DecidableEq, Repr

inductive IdentitySource where
  | Root
  | Peer
  | NamedUser
  | Broker
  deriving DecidableEq, Repr

inductive WorkspaceStatus where
  | Mounted
  | NotMounted
  | Unavailable
  deriving DecidableEq, Repr

structure EffectiveIdentity where
  uid : UInt32
  gid : UInt32
  user : String
  home : String
  supplementary_groups : List UInt32 := []
  run_as_root : Bool := false
  source : IdentitySource := .Broker
  workspace : WorkspaceStatus := .Unavailable
  deriving DecidableEq, Repr

inductive IdentityError where
  | InvalidUser
  | InvalidHome
  | RootGroupMismatch
  deriving DecidableEq, Repr

def IdentityError.message : IdentityError → String
  | .InvalidUser => "resolved identity user is invalid"
  | .InvalidHome => "resolved identity HOME must be an absolute path"
  | .RootGroupMismatch => "root identity must use gid 0"

def EffectiveIdentity.validate (identity : EffectiveIdentity) : Except IdentityError Unit := do
  if identity.user = "" || hasChar identity.user nul then throw .InvalidUser
  if identity.home = "" || !isAbsolute identity.home then throw .InvalidHome
  if identity.uid = 0 && identity.gid ≠ 0 then throw .RootGroupMismatch

/-! ## Snapshots -/

/-- The generation of the configuration. -/
structure Generation where
  value : UInt64
  deriving DecidableEq, Repr

def Generation.INITIAL : Generation := ⟨1⟩

/-- A SHA-256 digest. -/
abbrev Fingerprint := Vector UInt8 32

/-- `BackendSupport::hex`. -/
def hex (bytes : Fingerprint) : String :=
  String.ofList (bytes.toList.flatMap fun byte =>
    [Nat.digitChar (byte.toNat / 16), Nat.digitChar (byte.toNat % 16)])

structure ShellSelection where
  default : String
  deriving DecidableEq, Repr

structure EnvironmentConfig where
  inherit_process : Bool := true
  «variables» : Std.ExtTreeMap String String := ∅
  deriving DecidableEq

structure ShellConfig where
  command : String
  login_args : List String := []
  interactive_args : List String := []
  command_arg : Option String := none
  deriving DecidableEq, Repr

structure InputSpec where
  target : String
  runtime : Bool := false
  deriving DecidableEq, Repr

/-- A resolved configuration, as far as the backend reads it. -/
structure ResolvedConfig where
  shell : ShellSelection
  environment : EnvironmentConfig := {}
  shells : Std.ExtTreeMap String ShellConfig := ∅
  inputs : Std.ExtTreeMap String InputSpec := ∅
  deriving DecidableEq

/-- All configuration that a backend request needs, captured at the start or at a reload. -/
structure ConfigSnapshot where
  generation : Generation
  config_fingerprint : Fingerprint
  profile_chain : List String := []
  resolved_config : ResolvedConfig
  shells : Std.ExtTreeMap String ShellConfig := ∅
  runtime_inputs : Std.ExtTreeMap String InputSpec := ∅
  provider_order : List String := []
  workspace_root : String
  deriving DecidableEq

/-! ## The key of a materialization -/

/-- The complete input of the materialization cache. -/
structure MaterializationKey where
  generation : Generation
  config_fingerprint : Fingerprint
  workspace : String
  cwd : String
  shell : String
  identity : EffectiveIdentity
  runtime_inputs : Std.ExtTreeMap String String
  ambient_environment : Std.ExtTreeMap String String
  provider_detect_fingerprints : Std.ExtTreeMap String Fingerprint
  deriving DecidableEq

inductive MaterializationKeyError where
  | InvalidPath (name path : String)
  | CwdOutsideWorkspace
  | InvalidShell
  | InvalidEnvironmentName (name : String)
  | NulValue (name : String)
  | Identity (source : IdentityError)
  deriving DecidableEq, Repr

def MaterializationKeyError.message : MaterializationKeyError → String
  | .InvalidPath name path => "materialization " ++ name ++ " must be absolute: " ++ path
  | .CwdOutsideWorkspace => "materialization cwd is outside workspace"
  | .InvalidShell => "materialization shell is invalid"
  | .InvalidEnvironmentName name =>
    "materialization environment name " ++ debugText name ++ " is invalid"
  | .NulValue name => "materialization value " ++ debugText name ++ " contains NUL"
  | .Identity source => source.message

def validateAbsolute (name path : String) : Except MaterializationKeyError Unit :=
  if path = "" || !isAbsolute path || hasChar path nul then .error (.InvalidPath name path)
  else .ok ()

/-- An uppercase environment name, which does not start with a digit. -/
def isKeyName (name : String) : Bool :=
  match name.toList with
  | [] => false
  | first :: rest => (first.isUpper || first = '_') &&
    rest.all fun c => c.isUpper || c.isDigit || c = '_'

/-- The loop of `validate_values`. -/
def validateEntries : List (String × String) → Except MaterializationKeyError Unit
  | [] => .ok ()
  | (name, value) :: entries => do
    if !isKeyName name then throw (.InvalidEnvironmentName name)
    if hasChar value nul then throw (.NulValue name)
    validateEntries entries

def validateValues (values : Std.ExtTreeMap String String) : Except MaterializationKeyError Unit :=
  validateEntries values.toList

def MaterializationKey.validate (key : MaterializationKey) :
    Except MaterializationKeyError Unit := do
  validateAbsolute "workspace" key.workspace
  validateAbsolute "cwd" key.cwd
  if !pathStartsWith key.cwd key.workspace then throw .CwdOutsideWorkspace
  if key.shell = "" || hasChar key.shell nul then throw .InvalidShell
  match key.identity.validate with
  | .error source => throw (.Identity source)
  | .ok () => pure ()
  validateValues key.runtime_inputs
  validateValues key.ambient_environment

structure MaterializationKeyBuilder where
  key : MaterializationKey

namespace MaterializationKeyBuilder

/-- `MaterializationKeyBuilder::new`. The home is kept by its components, by which keys are
compared. -/
def new (generation : Generation) (workspace cwd shell : String) (identity : EffectiveIdentity) :
    MaterializationKeyBuilder where
  key := {
    generation
    config_fingerprint := Vector.replicate 32 0
    workspace := normalizeAbsolutePath workspace
    cwd := normalizeAbsolutePath cwd
    shell
    identity := { identity with home := canonicalPath identity.home }
    runtime_inputs := ∅
    ambient_environment := ∅
    provider_detect_fingerprints := ∅ }

def withConfigFingerprint (builder : MaterializationKeyBuilder) (fingerprint : Fingerprint) :
    MaterializationKeyBuilder :=
  ⟨{ builder.key with config_fingerprint := fingerprint }⟩

def withRuntimeInputs (builder : MaterializationKeyBuilder)
    (runtime_inputs : Std.ExtTreeMap String String) : MaterializationKeyBuilder :=
  ⟨{ builder.key with runtime_inputs }⟩

def withAmbientEnvironment (builder : MaterializationKeyBuilder)
    (ambient_environment : Std.ExtTreeMap String String) : MaterializationKeyBuilder :=
  ⟨{ builder.key with ambient_environment }⟩

def withProviderDetectFingerprints (builder : MaterializationKeyBuilder)
    (provider_detect_fingerprints : Std.ExtTreeMap String Fingerprint) :
    MaterializationKeyBuilder :=
  ⟨{ builder.key with provider_detect_fingerprints }⟩

def build (builder : MaterializationKeyBuilder) :
    Except MaterializationKeyError MaterializationKey := do
  builder.key.validate
  pure builder.key

end MaterializationKeyBuilder

/-! ## Materializations -/

structure RuntimeContext where
  workspace : String
  cwd : String
  shell : Option String
  process_environment : Std.ExtTreeMap String String
  user_id : UInt32 := 0
  workspace_writable : Option Bool := none
  workspace_config_present : Bool := false
  deriving DecidableEq

structure MaterializationMetadata where
  request_id : String
  generation : Generation
  identity : EffectiveIdentity
  deriving DecidableEq, Repr

inductive Sensitivity where
  | Public
  | Sensitive
  | Secret
  deriving DecidableEq, Repr

structure EnvValue where
  value : String
  sensitivity : Sensitivity := .Public
  provider : Option String := none
  deriving DecidableEq, Repr

structure ProviderReceipt where
  provider : String
  config_fingerprint : Fingerprint
  workspace_fingerprint : Fingerprint
  version : Option String := none
  completed_at : Option String := none
  deriving DecidableEq

structure MaterializedEnv where
  values : Std.ExtTreeMap String EnvValue := ∅
  config_fingerprint : Fingerprint
  provider_receipts : List ProviderReceipt := []
  deriving DecidableEq

inductive MaterializationDiagnostic where
  | Provider (provider : String)
  | ProviderDisabled (provider : String)
  deriving DecidableEq, Repr

structure Materialization where
  environment : MaterializedEnv
  diagnostics : List MaterializationDiagnostic := []
  deriving DecidableEq

/-- What runs the providers of one configuration. -/
structure Materializer where
  config : ResolvedConfig
  deriving DecidableEq

end dev_env
