-- The state of the backend (`server/runtime.rs`) and what its requests ask the
-- system for.
import NixosDockers.Backend.Protocol
import NixosDockers.Core.Executor

open bootstrap_model init_core rust_text

namespace init_backend

/-! ## Errors -/

/-- `RuntimeErrors::backend`. -/
def backendError (error_class : String) (retryable : Bool) (message : String) : BackendError :=
  { error_class, retryable, message }

inductive ErrorClass where
  | InvalidArguments
  | Configuration
  | Trust
  | Identity
  | Action
  | Handoff
  deriving DecidableEq, Repr

def ErrorClass.debugName : ErrorClass → String
  | .InvalidArguments => "InvalidArguments"
  | .Configuration => "Configuration"
  | .Trust => "Trust"
  | .Identity => "Identity"
  | .Action => "Action"
  | .Handoff => "Handoff"

/-- `CoreError::class`. -/
def coreErrorClass : CoreError → ErrorClass
  | .Model _ | .Invalid .. => .Configuration
  | .Identity _ => .Identity
  | .Permission .. => .Trust
  | .Action .. | .Io .. | .Serialization .. => .Action
  | .Handoff .. => .Handoff
  | .Annotated _ _ source => coreErrorClass source

/-- `RuntimeErrors::core`. -/
def coreError (error : CoreError) : BackendError :=
  { error_class := toAsciiLowercase (coreErrorClass error).debugName
    retryable := false
    message := "request identity could not be reconciled" }

/-! ## The system -/

structure ResolvedCwd where
  canonical_path : String
  object : CwdObject

/-- The answers of the system while the backend handles one request. -/
structure RequestHost where
  host : Host
  resolve_cwd_object : String → Except String ResolvedCwd
  supplementary_groups : ResolvedIdentity → Except String (List UInt32)
  peer_groups : UInt32 → UInt32 → Except String (List UInt32)
  geteuid : UInt32
  new_prepare_id : Except String String
  is_file : String → Bool := fun _ => false
  is_executable : String → Bool := fun _ => false

/-! ## The state -/

/-- Moments and durations are counted in milliseconds. -/
def PREPARE_TTL : Nat := 30000

def MAX_TRANSACTIONS : Nat := 256

def MAX_TRANSACTIONS_PER_PEER : Nat := 8

inductive ExecTransactionStateData where
  | Prepared (context : RuntimeContext) (identity : ResolvedIdentity)
  | Committing
  | Committed (summary : ReceiptSummary)
  | Aborted
  | Failed (error : BackendError)

structure ExecTransaction where
  owner_uid : UInt32
  owner_gid : UInt32
  snapshot_id : String
  deadline : Nat
  state : ExecTransactionStateData

structure BackendRuntime where
  snapshot_id : String
  state : BackendState
  config : BootstrapConfig
  request_config : BootstrapConfig
  request_plan : Plan
  startup_identity : ResolvedIdentity
  allowed_runtime_inputs : Std.ExtTreeSet String := ∅
  allowed_environment_names : Std.ExtTreeSet String := ∅
  options : ExecutionOptions := {}
  transactions : Std.ExtTreeMap String ExecTransaction := ∅
  profile : String := ""
  plan : Plan := { actions := [] }
  active_connections : Nat := 0

/-! ## The inputs of a request -/

/-- `validate_inputs`: each name is a declared runtime input, no target is set twice, and
each value parses. -/
def validateInputsFrom (config : BootstrapConfig) :
    List String → List (String × String) → Except BackendError Unit
  | _, [] => .ok ()
  | targets, (name, value) :: rest => do
    match (inputDeclaration config.inputs name).filter (·.runtime) with
    | none => throw (backendError "invalid_input" false "runtime input is not declared")
    | some declaration =>
      if targets.contains declaration.target then
        throw (backendError "invalid_input" false "request sets an input target more than once")
      match declaration.parseValue value with
      | .error _ =>
        throw (backendError "invalid_input" false "runtime input has an invalid value")
      | .ok _ => validateInputsFrom config (declaration.target :: targets) rest

def validateInputs (config : BootstrapConfig) (inputs : Std.ExtTreeMap String String) :
    Except BackendError Unit :=
  validateInputsFrom config [] inputs.toList

/-- An answer of the system whose failure has a text of its own. -/
def answer {α : Type} (result : Except String α) (error_class message : String) :
    Except BackendError α :=
  match result with
  | .ok value => .ok value
  | .error _ => .error (backendError error_class false message)

end init_backend
