-- The executor (`executor.rs`) and the handoff command (`handoff.rs`). What the
-- system answers is a parameter, given for each action by its id: a run comes to
-- an action at most once. The actions it came to are kept beside the report.
import NixosDockers.Core.Identity
import NixosDockers.Core.Condition

open bootstrap_model rust_text

namespace init_core

/-! ## The handoff command -/

namespace HandoffCommand

def fromPrefix (handoff : HandoffConfig) (start command : List String) :
    Except CoreError HandoffCommand :=
  if command.any fun argument => argument = "" || hasChar argument nul then
    .error (.Invalid "handoff.command" "command arguments must be non-empty and contain no NUL")
  else .ok { program := handoff.runtime, args := start ++ command }

def fromConfig (handoff : HandoffConfig) (command : List String) : Except CoreError HandoffCommand :=
  fromPrefix handoff (if command.isEmpty then handoff.shell_prefix else handoff.exec_prefix) command

end HandoffCommand

/-! ## What an action asks the system for -/

/-- The calls into the system that an action makes, with the values they get. -/
inductive Effect where
  | MapUser
  | EnsureDir (path : String) (mode owner : Option String)
  | EnsureFile (path : String) (content mode owner : Option String)
  | EnsureSymlink (link target : String) (parent_mode owner : Option String)
  | Chown (path owner : String) (recursive : Bool)
  | Chmod (path mode : String) (recursive : Bool)
  | SetUserShell (user shell : String)
  | DropPrivileges
  | SshPrepare
  | CgroupInit (preserve_current_process : Bool)
  deriving DecidableEq, Repr

/-- A run ends early with an error, or with a panic of the code. -/
inductive RunFailure where
  | Core (error : CoreError)
  | Panic (message : String)
  deriving DecidableEq, Repr

def liftCore {α : Type} : Except CoreError α → Except RunFailure α
  | .ok value => .ok value
  | .error error => .error (.Core error)

def expectField (value : Option String) (message : String) : Except RunFailure String :=
  match value with
  | some value => .ok value
  | none => .error (.Panic message)

/-- The answers of the system, by the id of the action that asks. -/
structure Host where
  posix : PosixSystem
  platform : Platform
  effectiveUid : String → UInt32
  files : String → FileView
  perform : Action → ResolvedIdentity → Effect → Except CoreError String
  writeReceipt : ExecutionReport → Except CoreError Unit

/-- The status of an action in a report. -/
def ExecutionReport.statusOf (report : ExecutionReport) (name : String) : Option ActionStatus :=
  (report.outcomes.find? fun outcome => outcome.id = name).map (·.status)

structure ExecutionOptions where
  ssh : Bool := false
  preserve_current_process_in_cgroup : Bool := false
  receipt : Bool := false

structure PlanExecutor where
  config : BootstrapConfig
  context : RuntimeContext
  options : ExecutionOptions := {}

/-- What stays the same during one run. -/
structure Run where
  executor : PlanExecutor
  host : Host
  command : List String
  identity : ResolvedIdentity
  inputs : ResolvedInputs
  root_service_handoff : Bool

namespace Run

def conditionContext (run : Run) : ConditionContext where
  platform := run.host.platform
  identity := run.identity
  inputs := run.inputs
  runtime := run.executor.context
  workspace_root := run.executor.config.workspace_root

def values (run : Run) : Std.ExtTreeMap String String := interpolationValues run.conditionContext

/-- `Filesystem::render_path`. -/
def renderPath (run : Run) (action field value : String) : Except CoreError String := do
  let template ← liftModel (PathTemplate.new value)
  match template.render run.values with
  | .ok path => return path
  | .error message => throw (.Invalid ("bootstrap.actions." ++ action ++ "." ++ field) message)

/-- The closure `path` of `execute_action`. -/
def requiredPath (run : Run) (action : Action) (field : String) (value : Option String) :
    Except CoreError String :=
  match value with
  | some value => run.renderPath action.id field value
  | none =>
    .error (.Invalid ("bootstrap.actions." ++ action.id ++ "." ++ field) "field is required")

/-- The call that an action makes. `identity.resolve` makes none. -/
def actionEffect (run : Run) (action : Action) : Except RunFailure (Option Effect) :=
  match action.kind with
  | .IdentityResolve | .HandoffExec => .ok none
  | .IdentityMapUser => .ok (some .MapUser)
  | .IdentityEnsureHome => do
    let home ← match action.path with
      | some path => liftCore (run.renderPath action.id "path" path)
      | none => .ok run.identity.home
    return some (.EnsureDir home (action.mode <|> some "0755")
      (action.owner <|> some "identity.target"))
  | .FilesystemEnsureDir => do
    let path ← liftCore (run.requiredPath action "path" action.path)
    return some (.EnsureDir path action.mode action.owner)
  | .FilesystemEnsureFile => do
    let path ← liftCore (run.requiredPath action "path" action.path)
    return some (.EnsureFile path action.content action.mode action.owner)
  | .FilesystemEnsureSymlink => do
    let link ← liftCore (run.requiredPath action "link" action.link)
    let target ← liftCore (run.requiredPath action "target" action.target)
    return some (.EnsureSymlink link target action.parent_mode action.owner)
  | .FilesystemChown => do
    let path ← liftCore (run.requiredPath action "path" action.path)
    return some (.Chown path (← expectField action.owner "validated owner") action.recursive)
  | .FilesystemChmod => do
    let path ← liftCore (run.requiredPath action "path" action.path)
    return some (.Chmod path (← expectField action.mode "validated mode") action.recursive)
  | .ProcessSetUserShell => do
    let user ← if action.user = some "identity.target" then .ok run.identity.user
      else expectField action.user "validated user"
    let shell ← expectField action.shell "validated shell"
    return some (.SetUserShell user (← liftCore (run.renderPath action.id "shell" shell)))
  | .ProcessDropPrivileges => .ok (some .DropPrivileges)
  | .ServiceSshPrepare =>
    if run.executor.options.ssh then .ok (some .SshPrepare)
    else .error (.Core (.Action action.id none
      "SSH preparation requires an enabled service capability"))
  | .CgroupV2Init =>
    .ok (some (.CgroupInit run.executor.options.preserve_current_process_in_cgroup))

/-- `execute_action`: the message of the change, and the handoff command of `handoff.exec`. -/
def executeAction (run : Run) (action : Action) :
    Except RunFailure (String × Option HandoffCommand) := do
  if action.kind = .HandoffExec then
    let handoff ← liftCore (HandoffCommand.fromConfig run.executor.config.handoff run.command)
    return ("handoff command prepared", some handoff)
  match ← run.actionEffect action with
  | none => return ("identity resolved", none)
  | some effect => return (← liftCore (run.host.perform action run.identity effect), none)

/-! ## One turn of the loop -/

def actions (run : Run) : Std.ExtTreeMap String Action :=
  Std.ExtTreeMap.ofList (run.executor.config.actions.map fun action => (action.id, action))

def actionPath (run : Run) (action : Action) : Except CoreError (Option String) :=
  (if action.kind = .FilesystemEnsureSymlink then action.link else action.path).mapM fun value =>
    run.renderPath action.id "path" value

def annotateActionError (error : CoreError) (action : Action) : CoreError :=
  .Annotated action.id action.origin error

def checkRunAs (run : Run) (action : Action) (planned : PlannedAction) : Except CoreError Unit :=
  let uid := run.host.effectiveUid planned.id
  if action.run_as = .Root ∧ uid ≠ 0 then
    .error (.Permission (some planned.id) "action requires effective root")
  else if action.run_as = .Target ∧ uid ≠ 0 ∧ uid ≠ run.identity.uid then
    .error (.Permission (some planned.id)
      ("action requires the target UID " ++ toString run.identity.uid ++ " or effective root"))
  else .ok ()

/-- The value of the condition of an action. -/
def conditionHolds (run : Run) (action : Action) : Except CoreError Bool := do
  let condition ← liftModel action.condition
  match run.conditionContext.evaluate (run.host.files action.id) condition with
  | .ok value => return value
  | .error error => throw (annotateActionError error action)

/-- The two cases where an action counts as done with nothing to do. -/
def privilegedSkip (run : Run) (action : Action) : Option String :=
  if action.kind = .ProcessDropPrivileges ∧ run.root_service_handoff then
    some "privilege drop skipped for root service handoff"
  else if run.identity.uid = 0 ∧
      action.kind ∈ [.IdentityMapUser, .ProcessSetUserShell, .ProcessDropPrivileges] then
    some "ordinary target identity action skipped for root"
  else none

end Run

/-- An action that the run came to carry out: the call it made, and whether it failed. -/
structure Attempt where
  id : String
  effect : Option Effect
  failed : Bool
  deriving DecidableEq, Repr

structure RunState where
  completed : Std.ExtTreeMap String ActionStatus := ∅
  outcomes : List ActionOutcome := []
  handoff : Option HandoffCommand := none
  attempts : List Attempt := []

def RunState.record (state : RunState) (planned : PlannedAction) (status : ActionStatus)
    (path : Option String) (message : String) (error : Option CoreError) : RunState :=
  { state with
    completed := state.completed.insert planned.id status
    outcomes := state.outcomes ++ [{
      id := planned.id
      kind := planned.kind
      phase := planned.phase
      origin := planned.origin
      status
      path
      message
      error }] }

def RunState.tried (state : RunState) (planned : PlannedAction) (effect : Option Effect)
    (failed : Bool) : RunState :=
  { state with attempts := state.attempts ++ [{ id := planned.id, effect, failed }] }

def failedStatus : FailurePolicy → Option ActionStatus
  | .Error => none
  | .Warn => some .FailedWarn
  | .Ignore => some .FailedIgnore

namespace Run

/-- Record an outcome with the path of the action. -/
def finish (run : Run) (state : RunState) (planned : PlannedAction) (action : Action)
    (status : ActionStatus) (message : String) (error : Option CoreError) :
    RunState × Option RunFailure :=
  match run.actionPath action with
  | .ok path => (state.record planned status path message error, none)
  | .error error => (state, some (.Core error))

/-- Start the action, and record how it went. -/
def attempt (run : Run) (state : RunState) (planned : PlannedAction) (action : Action) :
    RunState × Option RunFailure :=
  let result := run.executeAction action
  let effect := (run.actionEffect action).toOption.join
  let tried := state.tried planned effect (!result.isOk)
  match result with
  | .ok (message, prepared) =>
    let prepared := { tried with handoff := prepared <|> tried.handoff }
    run.finish prepared planned action .Succeeded message none
  | .error (.Panic message) => (tried, some (.Panic message))
  | .error (.Core error) =>
    let error := annotateActionError error action
    match failedStatus action.failure with
    | none => (tried, some (.Core error))
    | some status =>
      run.finish tried planned action status "action failed according to its failure policy"
        (some error)

def planError (planned : PlannedAction) (message : String) : RunFailure :=
  .Core (.Invalid ("bootstrap.plan." ++ planned.id) message)

/-- One turn of the loop of `execute_internal`. -/
def step (run : Run) (state : RunState) (planned : PlannedAction) :
    RunState × Option RunFailure :=
  match run.actions[planned.id]? with
  | none =>
    (state, some (planError planned "plan references an action absent from the configuration"))
  | some action =>
    if planned.kind ≠ action.kind then
      (state, some (planError planned "plan action kind does not match the configuration"))
    else if planned.depends_on.any fun name => state.completed[name]? ≠ some .Succeeded then
      (state.record planned .SkippedDependency none "dependency did not complete successfully" none,
        none)
    else
      match run.conditionHolds action with
      | .error error => (state, some (.Core error))
      | .ok false =>
        (state.record planned .SkippedCondition none "condition evaluated to false" none, none)
      | .ok true =>
        match run.privilegedSkip action with
        | some message => run.finish state planned action .Succeeded message none
        | none =>
          match run.checkRunAs action planned with
          | .error error =>
            (state.tried planned none true, some (.Core (annotateActionError error action)))
          | .ok () => run.attempt state planned action

/-- The loop over the plan, up to the first failure that ends the run. -/
def loop (run : Run) : List PlannedAction → RunState → RunState × Option RunFailure
  | [], state => (state, none)
  | planned :: rest, state =>
    match run.step state planned with
    | (next, none) => run.loop rest next
    | (next, some failure) => (next, some failure)

end Run

/-! ## The whole run -/

namespace PlanExecutor

def isRootServiceHandoff (executor : PlanExecutor) (host : Host) (command : List String) : Bool :=
  host.posix.current_ids.1 = 0 &&
    (executor.config.handoff.root_service ||
      executor.config.handoff.ssh_daemon.any fun daemon => command.head? = some daemon)

def identityWarnings (config : BootstrapConfig) (identity : ResolvedIdentity) : List String :=
  if config.identity.auto_mapping && identity.workspace ≠ .Mounted then
    ["workspace auto-mapping was not used (" ++ identity.workspace.debugName ++ ")"]
  else []

/-- What `execute_internal` works out before the loop. -/
def startRun (executor : PlanExecutor) (host : Host) (command : List String)
    (identityOverride : Option ResolvedIdentity) : Except CoreError Run := do
  let identity ← match identityOverride with
    | some identity => pure identity
    | none => resolvePrevalidated host.posix executor.config executor.context
  let inputs ← resolveInputs executor.config executor.context
  return {
    executor
    host
    command
    identity
    inputs
    root_service_handoff := executor.isRootServiceHandoff host command }

/-- A run: its result, the statuses it recorded, and the actions it came to carry out. -/
structure RunResult where
  result : Except RunFailure ExecutionReport
  completed : Std.ExtTreeMap String ActionStatus := ∅
  attempts : List Attempt := []

def finishRun (run : Run) (final : RunState × Option RunFailure) : RunResult where
  completed := final.1.completed
  attempts := final.1.attempts
  result :=
    match final.2 with
    | some failure => .error failure
    | none =>
      let report : ExecutionReport := {
        identity := run.identity
        outcomes := final.1.outcomes
        handoff := final.1.handoff
        root_service_handoff := run.root_service_handoff
        warnings := identityWarnings run.executor.config run.identity }
      if run.executor.options.receipt then
        (liftCore (run.host.writeReceipt report)).map fun _ => report
      else .ok report

def executeInternal (executor : PlanExecutor) (host : Host) (plan : Plan) (command : List String)
    (identityOverride : Option ResolvedIdentity) : RunResult :=
  match executor.startRun host command identityOverride with
  | .error error => { result := .error (.Core error) }
  | .ok run => finishRun run (run.loop plan.actions {})

def validatePlan (executor : PlanExecutor) (plan : Plan) : Except RunFailure Unit := do
  liftCore (liftModel executor.config.validate)
  match Plan.fromConfig executor.config with
  | .error (.Model error) => throw (.Core (.Model error))
  | .error (.Panic message) => throw (.Panic message)
  | .ok expected =>
    if expected ≠ plan then
      throw (.Core (.Invalid "bootstrap.plan"
        "plan was not produced from the supplied configuration"))

/-- `execute`: check the plan, then run it. -/
def execute (executor : PlanExecutor) (host : Host) (plan : Plan) (command : List String) :
    RunResult :=
  match executor.validatePlan plan with
  | .error failure => { result := .error failure }
  | .ok () => executor.executeInternal host plan command none

/-- The `exec` that a run ends in. -/
structure ReachedExec where
  report : ExecutionReport
  handoff : HandoffCommand
  as_root_service : Bool

/-- `execute_and_handoff`, up to the `exec`. The command is built also when the report has
one, so a bad argument ends the run in both cases. -/
def executeAndHandoff (executor : PlanExecutor) (host : Host) (plan : Plan)
    (command : List String) : Except RunFailure ReachedExec := do
  let report ← (executor.execute host plan command).result
  let built ← liftCore (HandoffCommand.fromConfig executor.config.handoff command)
  return {
    report
    handoff := report.handoff.getD built
    as_root_service := report.root_service_handoff }

end PlanExecutor

end init_core
