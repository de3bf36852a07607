-- The exec transactions of the backend (`server/transaction.rs`): prepare,
-- commit, abort and the question for the result.
import NixosDockers.Backend.Runtime
import NixosDockers.Lib.Traces

open bootstrap_model init_core rust_text

namespace init_backend

/-! ## Prepare -/

structure PrepareExecOptions where
  argv : List String
  cwd : String
  inputs : Std.ExtTreeMap String String := ∅
  environment : Std.ExtTreeMap String String := ∅
  request_budget : Nat

/-- `BackendSupervisor::is_root_service`. -/
def isRootService (config : BootstrapConfig) (command : List String) (ownerUid : UInt32)
    (initialHandoff : Bool) : Bool :=
  ownerUid = 0 && initialHandoff &&
    (config.handoff.root_service ||
      config.handoff.ssh_daemon.any fun daemon => command.head? = some daemon)

def handoffArgvError : ArgvError → BackendError
  | .LimitExceeded error_class field observed limit =>
    backendError error_class false ("final handoff " ++ field ++ " is " ++ toString observed ++
      "; maximum is " ++ toString limit)
  | .InvalidFrame message =>
    backendError "invalid_snapshot" false ("invalid protocol frame: " ++ message)

/-- What the checks of a prepare work out. -/
structure PrepareDraft where
  context : RuntimeContext
  identity : ResolvedIdentity
  command : HandoffCommand
  cwd : ResolvedCwd
  login_environment : List (String × String)
  supplemental_groups : List UInt32
  root_service : Bool

def checkValues (runtime : BackendRuntime) (options : PrepareExecOptions) :
    Except BackendError Unit := do
  if runtime.state ≠ .Ready then
    throw (backendError "backend_not_ready" true "backend is not ready to prepare commands")
  if options.inputs.keys.any fun name => !runtime.allowed_runtime_inputs.contains name then
    throw (backendError "invalid_input" false
      "request contains an undeclared or non-runtime input")
  if options.environment.keys.any fun name => !runtime.allowed_environment_names.contains name then
    throw (backendError "invalid_environment" false
      "request contains an environment name not used by identity reconciliation")
  if (options.inputs.values ++ options.environment.values).any (hasChar · nul) then
    throw (backendError "invalid_request" false "runtime values may not contain NUL bytes")

/-- The checks of the resolved identity against the peer, and the groups of the handoff. -/
def checkPeer (host : RequestHost) (peer : PeerCredentials) (identity : ResolvedIdentity)
    (rootService : Bool) : Except BackendError (List UInt32) := do
  if rootService ∧ peer.uid ≠ 0 then
    throw (backendError "permission" false "root service handoff requires a root peer")
  if peer.uid ≠ 0 ∧
      (identity.uid ≠ peer.uid ∨ identity.gid ≠ peer.gid ∨ identity.run_as_root = true) then
    throw (backendError "permission" false
      "non-root peers may only hand off with their current UID and GID")
  let groups ← if rootService then pure [] else
    answer (host.supplementary_groups identity) "identity" "supplementary groups unavailable"
  if peer.uid ≠ 0 then
    let observed ← answer (host.peer_groups peer.pid peer.gid) "permission"
      "could not verify peer supplementary groups"
    if observed ≠ groups then
      throw (backendError "permission" false
        "non-root peers may only hand off with their current supplementary groups")
  return groups

def liftCoreError {α : Type} : Except CoreError α → Except BackendError α
  | .ok value => .ok value
  | .error error => .error (coreError error)

def checkCommand (runtime : BackendRuntime) (argv : List String) :
    Except BackendError HandoffCommand := do
  let command ← liftCoreError (HandoffCommand.fromConfig runtime.request_config.handoff argv)
  match validateArgv (command.program :: command.args) with
  | .error error => throw (handoffArgvError error)
  | .ok () =>
    if !isAbsolute command.program || command.args.any (hasChar · nul) then
      throw (backendError "invalid_snapshot" false "snapshot produced an invalid handoff command")
    return command

/-- `prepare_exec` up to the generation of the id. -/
def checkPrepare (runtime : BackendRuntime) (host : RequestHost) (peer : PeerCredentials)
    (options : PrepareExecOptions) : Except BackendError PrepareDraft := do
  checkValues runtime options
  let cwd ← answer (host.resolve_cwd_object options.cwd) "invalid_cwd"
    "request working directory cannot be resolved as a directory"
  validateInputs runtime.request_config options.inputs
  let context : RuntimeContext := {
    cwd := cwd.canonical_path
    env := options.environment
    cli_inputs := options.inputs }
  let identity ← liftCoreError
    (resolvePrevalidated host.host.posix runtime.request_config context)
  -- A request is always the handoff of a client, never the initial one.
  let root_service := isRootService runtime.config options.argv host.geteuid false
  let supplemental_groups ← checkPeer host peer identity root_service
  let command ← checkCommand runtime options.argv
  let user := if root_service then "root" else identity.user
  return {
    context
    identity
    command
    cwd
    login_environment := [("HOME", if root_service then "/root" else identity.home),
      ("LOGNAME", user), ("USER", user)]
    supplemental_groups
    root_service }

def ExecTransactionStateData.isActive : ExecTransactionStateData → Bool
  | .Prepared .. | .Committing => true
  | _ => false

/-- A transaction past its deadline is dropped, unless it is committing. -/
def ExecTransaction.isKept (transaction : ExecTransaction) (now : Nat) : Bool :=
  transaction.deadline > now || transaction.state matches .Committing

/-- The `retain` of a prepare. -/
def purge (transactions : Std.ExtTreeMap String ExecTransaction) (now : Nat) :
    Std.ExtTreeMap String ExecTransaction :=
  transactions.filter fun _ transaction => transaction.isKept now

def peerTransactions (transactions : Std.ExtTreeMap String ExecTransaction)
    (peer : PeerCredentials) : Nat :=
  transactions.values.countP fun transaction =>
    transaction.owner_uid = peer.uid && transaction.owner_gid = peer.gid &&
      transaction.state.isActive

/-- The deadline of a prepare that began at `start`. -/
def requestDeadline (options : PrepareExecOptions) (start : Nat) : Nat :=
  start + min options.request_budget PREPARE_TTL

/-- `prepare_exec`. It reads the clock at its start and again before it enters the
transaction. -/
def prepareExec (runtime : BackendRuntime) (host : RequestHost) (peer : PeerCredentials)
    (options : PrepareExecOptions) (start now : Nat) :
    BackendRuntime × Except BackendError PreparedHandoff :=
  match checkPrepare runtime host peer options, host.new_prepare_id with
  | .error error, _ => (runtime, .error error)
  | .ok _, .error _ =>
    (runtime, .error (backendError "internal" false "could not generate prepare transaction id"))
  | .ok draft, .ok prepare_id =>
    let deadline := requestDeadline options start
    if deadline ≤ now then
      (runtime, .error (backendError "request_timeout" false
        "request deadline expired before Prepare completed"))
    else
      let kept := purge runtime.transactions now
      if kept.size ≥ MAX_TRANSACTIONS ∨ peerTransactions kept peer ≥ MAX_TRANSACTIONS_PER_PEER then
        ({ runtime with transactions := kept }, .error (backendError "capacity" true
          "backend transaction capacity is temporarily exhausted"))
      else
        let transaction : ExecTransaction := {
          owner_uid := peer.uid
          owner_gid := peer.gid
          snapshot_id := runtime.snapshot_id
          deadline
          state := .Prepared draft.context draft.identity }
        ({ runtime with transactions := kept.insert prepare_id transaction }, .ok {
          prepare_id
          snapshot_id := runtime.snapshot_id
          command := draft.command
          cwd := draft.cwd.canonical_path
          cwd_object := draft.cwd.object
          login_environment := draft.login_environment
          identity := draft.identity
          supplemental_groups := draft.supplemental_groups
          root_service := draft.root_service })

/-! ## Commit, abort and the result -/

def transactionResponse (prepare_id : String) : ExecTransactionStateData → CommitResult
  | .Prepared .. => { prepare_id, state := .Prepared, receipt_summary := none, error := none }
  | .Committing => { prepare_id, state := .Committing, receipt_summary := none, error := none }
  | .Committed summary =>
    { prepare_id, state := .Committed, receipt_summary := some summary, error := none }
  | .Aborted => { prepare_id, state := .Aborted, receipt_summary := none, error := none }
  | .Failed error =>
    { prepare_id, state := .Failed, receipt_summary := none, error := some error }

def unknownTransaction : ServerResponse :=
  .Error (backendError "unknown_transaction" false "prepared transaction is unknown or expired")

def wrongOwner : ServerResponse :=
  .Error (backendError "permission" false
    "transaction credentials do not match the authenticated peer")

def staleSnapshot : ServerResponse :=
  .Error (backendError "invalid_snapshot" false
    "transaction snapshot no longer matches this backend")

/-- What a request leaves behind: the state, the response, and the transaction whose plan it
executed. There is no response when the code panics. -/
structure Handled where
  runtime : BackendRuntime
  response : Option ServerResponse
  executed : Option String := none

def ExecTransaction.ownedBy (transaction : ExecTransaction) (peer : PeerCredentials) : Bool :=
  transaction.owner_uid = peer.uid && transaction.owner_gid = peer.gid

def setState (runtime : BackendRuntime) (prepare_id : String) (transaction : ExecTransaction)
    (state : ExecTransactionStateData) : BackendRuntime :=
  { runtime with
    transactions := runtime.transactions.insert prepare_id { transaction with state } }

def receiptSummary (report : ExecutionReport) : ReceiptSummary where
  succeeded := report.outcomes.all fun outcome => outcome.status = .Succeeded
  action_count := report.outcomes.length
  warning_count := report.warnings.length

/-- Execute the request plan for a transaction that is committing. -/
def executeCommit (runtime : BackendRuntime) (host : RequestHost) (prepare_id : String)
    (transaction : ExecTransaction) (context : RuntimeContext) (identity : ResolvedIdentity) :
    Handled :=
  let committing := setState runtime prepare_id transaction .Committing
  let executor : PlanExecutor := {
    config := runtime.request_config
    context
    options := runtime.options }
  match (executor.executeInternal host.host runtime.request_plan [] (some identity)).result with
  | .error (.Panic _) => { runtime := committing, response := none, executed := some prepare_id }
  | .error (.Core error) =>
    let state := .Failed (coreError error)
    { runtime := setState committing prepare_id transaction state
      response := some (.CommitResult (transactionResponse prepare_id state))
      executed := some prepare_id }
  | .ok report =>
    let state := .Committed (receiptSummary report)
    { runtime := setState committing prepare_id transaction state
      response := some (.CommitResult (transactionResponse prepare_id state))
      executed := some prepare_id }

/-- Answer with the state of a transaction. -/
def answerState (runtime : BackendRuntime) (prepare_id : String)
    (state : ExecTransactionStateData) : Handled where
  runtime
  response := some (.CommitResult (transactionResponse prepare_id state))

/-- Abort a transaction that is prepared. -/
def abortPrepared (runtime : BackendRuntime) (prepare_id : String) (transaction : ExecTransaction) :
    Handled :=
  answerState (setState runtime prepare_id transaction .Aborted) prepare_id .Aborted

/-- The lookup of a transaction and the check of its owner, before what the request does. -/
def withTransaction (runtime : BackendRuntime) (peer : PeerCredentials) (prepare_id : String)
    (next : ExecTransaction → Handled) : Handled :=
  match runtime.transactions[prepare_id]? with
  | none => { runtime, response := some unknownTransaction }
  | some transaction =>
    if !transaction.ownedBy peer then { runtime, response := some wrongOwner }
    else next transaction

def commitExec (runtime : BackendRuntime) (host : RequestHost) (peer : PeerCredentials)
    (prepare_id : String) (now : Nat) : Handled :=
  withTransaction runtime peer prepare_id fun transaction =>
    if transaction.snapshot_id ≠ runtime.snapshot_id then
      { runtime, response := some staleSnapshot }
    else
      match transaction.state with
      | .Prepared context identity =>
        if transaction.deadline > now then
          executeCommit runtime host prepare_id transaction context identity
        else abortPrepared runtime prepare_id transaction
      | state => answerState runtime prepare_id state

def abortExec (runtime : BackendRuntime) (peer : PeerCredentials) (prepare_id : String) : Handled :=
  withTransaction runtime peer prepare_id fun transaction =>
    match transaction.state with
    | .Prepared .. => abortPrepared runtime prepare_id transaction
    | state => answerState runtime prepare_id state

def getExecResult (runtime : BackendRuntime) (peer : PeerCredentials) (prepare_id : String)
    (now : Nat) : Handled :=
  withTransaction runtime peer prepare_id fun transaction =>
    match transaction.state with
    | .Prepared context identity =>
      if transaction.deadline ≤ now then abortPrepared runtime prepare_id transaction
      else answerState runtime prepare_id (.Prepared context identity)
    | state => answerState runtime prepare_id state

/-! ## The server -/

inductive TransactionRequest where
  | PrepareExec (options : PrepareExecOptions)
  | CommitExec (prepare_id : String)
  | AbortExec (prepare_id : String)
  | GetExecResult (prepare_id : String)

/-- A request of a peer, with the clock at its start and when the transactions are read, and
with the answers of the system while it is handled. -/
structure Event where
  peer : PeerCredentials
  host : RequestHost
  start : Nat
  now : Nat
  request : TransactionRequest

def handle (runtime : BackendRuntime) (event : Event) : Handled :=
  match event.request with
  | .PrepareExec options =>
    let prepared := prepareExec runtime event.host event.peer options event.start event.now
    { runtime := prepared.1
      response := some (match prepared.2 with
        | .ok handoff => .PreparedExec handoff
        | .error error => .Error error) }
  | .CommitExec prepare_id => commitExec runtime event.host event.peer prepare_id event.now
  | .AbortExec prepare_id => abortExec runtime event.peer prepare_id
  | .GetExecResult prepare_id => getExecResult runtime event.peer prepare_id event.now

/-- The requests in their order, each with what it left behind. -/
def serve (runtime : BackendRuntime) (events : List Event) : List (Event × Handled) :=
  traces.record handle (·.runtime) runtime events

end init_backend
