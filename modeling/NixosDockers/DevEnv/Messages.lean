-- The messages between a client and the dev-env backend (`request.rs`,
-- `backend.rs`).
import NixosDockers.DevEnv.Snapshot

open rust_text

namespace dev_env

/-! ## Requests -/

inductive RequestMode where
  | Exec
  | Shell
  | LoginShell
  | Shim
  | Print
  deriving DecidableEq, Repr

structure RequestContext where
  request_id : String
  mode : RequestMode
  cwd : String
  shell : String
  shell_args : List String := []
  requested_identity : IdentityRequest := .Peer
  typed_runtime_inputs : Std.ExtTreeMap String String := ∅
  filtered_ambient_environment : Std.ExtTreeMap String String := ∅
  deriving DecidableEq

inductive TrustTarget where
  | Path (path : String)
  | Sha256 (digest : Fingerprint)
  deriving DecidableEq

inductive BackendRequest where
  | Hello
  | Prepare (context : RequestContext)
  | Status
  | Plan
  | Explain (path : Option String)
  | Doctor
  | Trust (target : TrustTarget)
  | Reload (wait : Bool)
  | Stop
  deriving DecidableEq

structure BackendRequestMessage where
  request_id : String
  request : BackendRequest
  deriving DecidableEq

/-! ## Responses -/

inductive ControlPlaneState where
  | Starting
  | Serving
  | Reloading
  | Stopping
  | Failed
  deriving DecidableEq, Repr

inductive InitialRuntimeState where
  | Preparing
  | Running
  | Exited
  | Failed
  deriving DecidableEq, Repr

structure HelloInfo where
  control_plane : ControlPlaneState
  initial_runtime : InitialRuntimeState
  startup_phase : Option String
  initial_runtime_exit_code : Option Int
  initial_runtime_error : Option String
  generation : Generation
  config_fingerprint : Fingerprint
  runtime_inputs : List String
  environment_names : List String
  deriving DecidableEq

structure BackendStatus where
  control_plane : ControlPlaneState
  initial_runtime : InitialRuntimeState
  startup_phase : Option String
  initial_runtime_exit_code : Option Int
  initial_runtime_error : Option String
  generation : Generation
  config_fingerprint : Fingerprint
  backend_pid : UInt32
  active_requests : Nat
  deriving DecidableEq

/-- The value of a `Plan` response. -/
structure PlanValue where
  generation : Generation
  config_fingerprint : String
  profile_chain : List String
  workspace_root : String
  provider_order : List String
  deriving DecidableEq, Repr

/-- The value of an `Explain` response, without the provenance. -/
structure ExplainValue where
  generation : Generation
  config_fingerprint : String
  profile_chain : List String
  path : Option String
  deriving DecidableEq, Repr

/-- The value of a `Doctor` response: what it found of the workspace, the shells and the
providers. -/
structure DoctorValue where
  ok : Bool
  peer_uid : UInt32
  allowed_peer_uid : UInt32
  workspace : String
  is_directory : Bool
  shells : List (String × Bool)
  providers : List (String × Bool)
  deriving DecidableEq, Repr

structure ShellInvocation where
  executable : String
  args : List String := []
  deriving DecidableEq, Repr

structure ProviderDiagnosticSummary where
  provider : String
  diagnostic_class : String
  operation : Option String := none
  status : Option Int := none
  timed_out : Bool := false
  orphaned_children : UInt32 := 0
  deriving DecidableEq, Repr

structure ReceiptSummary where
  succeeded : Bool
  action_count : Nat
  warning_count : Nat
  deriving DecidableEq, Repr

structure PreparedResponse where
  generation : Generation
  config_fingerprint : Fingerprint
  cwd : String
  shell_invocation : ShellInvocation
  materialized_environment : MaterializedEnv
  identity : EffectiveIdentity
  supplemental_groups : List UInt32
  diagnostics : List ProviderDiagnosticSummary
  cache_hit : Bool
  receipt_summary : ReceiptSummary
  deriving DecidableEq

structure BackendError where
  error_class : String
  retryable : Bool
  message : String
  generation : Option Generation := none
  request_id : Option String := none
  deriving DecidableEq, Repr

inductive BackendResponse where
  | Hello (info : HelloInfo)
  | Prepared (response : PreparedResponse)
  | Status (status : BackendStatus)
  | Plan (value : PlanValue)
  | Explain (value : ExplainValue)
  | Doctor (value : DoctorValue)
  | Trusted (generation : Generation)
  | Reloaded (generation : Generation) (config_fingerprint : Fingerprint)
  | Stopped
  | Error (error : BackendError)
  deriving DecidableEq

structure BackendResponseMessage where
  request_id : String
  response : BackendResponse
  deriving DecidableEq

def DEVENV_BACKEND_PROTOCOL_VERSION : UInt16 := 5

/-- `BackendSupport::protocol_mismatch_response`. -/
def protocolMismatchResponse (version : UInt16) : BackendResponseMessage where
  request_id := "protocol-mismatch"
  response := .Error {
    error_class := "BACKEND-PROTOCOL-MISMATCH"
    retryable := false
    message := "received dev-env backend protocol v" ++ toString version.toNat ++
      "; this backend requires v" ++ toString DEVENV_BACKEND_PROTOCOL_VERSION.toNat }

/-- `BackendSupport::plan_value`. -/
def planValue (snapshot : ConfigSnapshot) : PlanValue where
  generation := snapshot.generation
  config_fingerprint := hex snapshot.config_fingerprint
  profile_chain := snapshot.profile_chain
  workspace_root := snapshot.workspace_root
  provider_order := snapshot.provider_order

/-- `BackendSupport::explain_value`. -/
def explainValue (snapshot : ConfigSnapshot) (path : Option String) : ExplainValue where
  generation := snapshot.generation
  config_fingerprint := hex snapshot.config_fingerprint
  profile_chain := snapshot.profile_chain
  path

/-- `BackendSupport::requested_identity`. -/
def requestedIdentity (context : RequestContext) (peer : IdentityPeer) : IdentityRequest :=
  match context.requested_identity with
  | .User name => .User name
  | .Root => .Root
  | .Peer => if peer.uid = 0 then .Root else .Peer

end dev_env
