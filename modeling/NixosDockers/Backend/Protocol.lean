-- The messages between a client and the backend (`protocol_types.rs`), and the
-- limits of a command line (`validate_argv`).
import NixosDockers.Core.Types

open init_core rust_text

namespace init_backend

inductive BackendState where
  | Starting
  | Ready
  | Failed
  | Stopping
  deriving DecidableEq, Repr

inductive IdentityRequest where
  | Peer (uid gid : UInt32)
  | Root
  | User (name : String)
  deriving DecidableEq, Repr

structure PeerCredentials where
  pid : UInt32
  uid : UInt32
  gid : UInt32
  deriving DecidableEq, Repr

structure CwdObject where
  device : UInt64
  inode : UInt64
  deriving DecidableEq, Repr

structure BackendError where
  error_class : String
  retryable : Bool
  message : String
  action_id : Option String := none
  path : Option String := none
  deriving DecidableEq, Repr

structure PreparedIdentity where
  uid : UInt32
  gid : UInt32
  user : String
  home : String
  supplemental_groups : List UInt32
  run_as_root : Bool
  deriving DecidableEq, Repr

structure PreparedHandoff where
  prepare_id : String
  snapshot_id : String
  command : HandoffCommand
  cwd : String
  cwd_object : CwdObject
  login_environment : List (String × String)
  identity : ResolvedIdentity
  supplemental_groups : List UInt32
  root_service : Bool
  deriving DecidableEq, Repr

inductive ExecTransactionState where
  | Prepared
  | Committing
  | Committed
  | Aborted
  | Failed
  | OutcomeUnknown
  deriving DecidableEq, Repr

structure ReceiptSummary where
  succeeded : Bool
  action_count : Nat
  warning_count : Nat
  deriving DecidableEq, Repr

structure CommitResult where
  prepare_id : String
  state : ExecTransactionState
  receipt_summary : Option ReceiptSummary
  error : Option BackendError
  deriving DecidableEq, Repr

structure HelloInfo where
  state : BackendState
  profile : String
  snapshot_id : String
  runtime_inputs : List String
  environment_names : List String
  deriving DecidableEq, Repr

structure BackendStatus where
  state : BackendState
  profile : String
  snapshot_id : String
  active_connections : Nat
  deriving DecidableEq, Repr

/-- A part of the plan. An action stands for its JSON value. -/
structure PlanPage where
  online : Bool
  profile : String
  snapshot_id : String
  offset : Nat
  next_offset : Option Nat
  total_actions : Nat
  actions : List bootstrap_model.PlannedAction
  deriving DecidableEq

/-- What `doctor` finds out about the runtime of the handoff. -/
structure DoctorReport where
  runtime : String
  found : Bool
  executable : Bool
  deriving DecidableEq, Repr

inductive ServerResponse where
  | Hello (hello : HelloInfo)
  | PreparedExec (handoff : PreparedHandoff)
  | CommitResult (result : CommitResult)
  | Identity (identity : PreparedIdentity)
  | Status (status : BackendStatus)
  | PlanPage (page : PlanPage)
  | Doctor (report : DoctorReport)
  | Error (error : BackendError)
  deriving DecidableEq

/-! ## The limits of a command line -/

def MAX_ARGV_ITEMS : Nat := 512

def MAX_ARGV_ITEM_BYTES : Nat := 64 * 1024

def MAX_ARGV_TOTAL_BYTES : Nat := 1024 * 1024

/-- The errors of the protocol that a command line can give. -/
inductive ArgvError where
  | InvalidFrame (message : String)
  | LimitExceeded (error_class field : String) (observed limit : Nat)
  deriving DecidableEq, Repr

def checkArgument (index : Nat) (argument : String) : Except ArgvError Unit := do
  if hasChar argument nul then
    throw (.InvalidFrame ("argv[" ++ toString index ++ "] contains NUL"))
  if byteLen argument > MAX_ARGV_ITEM_BYTES then
    throw (.LimitExceeded "argument_too_large" ("argv[" ++ toString index ++ "]")
      (byteLen argument) MAX_ARGV_ITEM_BYTES)

/-- The sum of the lengths of at most 512 arguments of at most 64 KiB does not overflow. -/
def validateArgv (argv : List String) : Except ArgvError Unit := do
  if argv.length > MAX_ARGV_ITEMS then
    throw (.LimitExceeded "argv_too_large" "argv.items" argv.length MAX_ARGV_ITEMS)
  argv.zipIdx.forM fun (argument, index) => checkArgument index argument
  let total := (argv.map byteLen).sum
  if total > MAX_ARGV_TOTAL_BYTES then
    throw (.LimitExceeded "argv_too_large" "argv.total_bytes" total MAX_ARGV_TOTAL_BYTES)

end init_backend
