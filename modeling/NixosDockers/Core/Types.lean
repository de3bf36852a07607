-- The data of the core crate: the runtime context (`context.rs`), the resolved
-- identity (`identity.rs`), the errors (`error.rs`) and the reports (`report.rs`).
-- A path is its text, and an error of the system is its text.
import NixosDockers.BootstrapModel.Plan

open bootstrap_model

namespace init_core

/-! ## The system around the process -/

inductive WorkspaceObservation where
  | Mounted (uid gid : UInt32) (mount_point : String) (mount_id : UInt64)
  | NotMounted (reason : String)
  | Unavailable (reason : String)
  deriving DecidableEq, Repr

structure PosixUser where
  name : String
  uid : UInt32
  gid : UInt32
  home : String
  shell : String
  deriving DecidableEq, Repr

/-- What the code asks `PosixSystem` for. The answers come from the kernel and the account
files, so they are a parameter. -/
structure PosixSystem where
  current_ids : UInt32 × UInt32
  lookup_user_by_name : String → Except String (Option PosixUser)
  lookup_user_by_uid : UInt32 → Except String (Option PosixUser)
  observe_workspace : String → WorkspaceObservation
  map_uid_from_parent : UInt32 → Except String UInt32
  map_gid_from_parent : UInt32 → Except String UInt32

/-- `std::env::consts`. -/
structure Platform where
  os : String
  arch : String
  deriving DecidableEq, Repr

structure RuntimeContext where
  cwd : String
  env : Std.ExtTreeMap String String := ∅
  cli_inputs : Std.ExtTreeMap String String := ∅
  features : Std.ExtTreeSet String := ∅
  workspace_observation : Option WorkspaceObservation := none

/-! ## The identity -/

inductive IdentitySource where
  | RunAsRoot
  | ExplicitHost
  | ExplicitContainer
  | WorkspaceMount
  | ProfileDefault
  | Current
  deriving DecidableEq, Repr

inductive WorkspaceStatus where
  | Mounted
  | NotMounted
  | Unavailable
  deriving DecidableEq, Repr

def WorkspaceStatus.fromObservation : WorkspaceObservation → WorkspaceStatus
  | .Mounted .. => .Mounted
  | .NotMounted _ => .NotMounted
  | .Unavailable _ => .Unavailable

def WorkspaceStatus.debugName : WorkspaceStatus → String
  | .Mounted => "Mounted"
  | .NotMounted => "NotMounted"
  | .Unavailable => "Unavailable"

structure ResolvedIdentity where
  uid : UInt32
  gid : UInt32
  user : String
  home : String
  run_as_root : Bool
  uid_source : IdentitySource
  gid_source : IdentitySource
  workspace : WorkspaceStatus
  deriving DecidableEq, Repr

structure RuntimeInput where
  name : String
  raw : String
  parsed : ParsedInput
  deriving DecidableEq, Repr

structure UidPair where
  uid : UInt32
  gid : Option UInt32
  deriving DecidableEq, Repr

/-- `ResolvedInputs`: the inputs that have a value, under their names and their aliases. -/
abbrev ResolvedInputs := Std.ExtTreeMap String RuntimeInput

/-! ## Errors -/

inductive CoreError where
  | Model (error : ModelError)
  | Invalid (location message : String)
  | Identity (message : String)
  | Permission (action : Option String) (message : String)
  | Action (action : String) (path : Option String) (message : String)
  | Io (action path : Option String) (source : String)
  | Serialization (operation source : String)
  | Handoff (program : String) (args : List String) (source : String)
  | Annotated (action : String) (origin : Origin) (source : CoreError)
  deriving DecidableEq, Repr

def liftModel {α : Type} : Except ModelError α → Except CoreError α
  | .ok value => .ok value
  | .error error => .error (.Model error)

/-! ## Reports -/

inductive ActionStatus where
  | Succeeded
  | SkippedCondition
  | SkippedDependency
  | FailedWarn
  | FailedIgnore
  deriving DecidableEq, Repr

structure ActionOutcome where
  id : String
  kind : ActionKind
  phase : PlanPhase
  origin : Origin
  status : ActionStatus
  path : Option String
  message : String
  error : Option CoreError
  deriving DecidableEq, Repr

structure HandoffCommand where
  program : String
  args : List String
  deriving DecidableEq, Repr

structure ExecutionReport where
  identity : ResolvedIdentity
  outcomes : List ActionOutcome
  handoff : Option HandoffCommand
  root_service_handoff : Bool
  warnings : List String
  deriving DecidableEq, Repr

end init_core
