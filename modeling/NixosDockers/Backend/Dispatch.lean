-- How a request reaches the runtime (`server/connection.rs`): the first message
-- of a connection, and the one that follows a hello.
import NixosDockers.Backend.Connection
import NixosDockers.Backend.Identity
import NixosDockers.Backend.Inspection
import NixosDockers.Backend.Transaction

open bootstrap_model init_core rust_text results

namespace init_backend

inductive ClientRequest where
  | Hello
  | PrepareExec (options : PrepareExecOptions)
  | CommitExec (prepare_id : String)
  | AbortExec (prepare_id : String)
  | GetExecResult (prepare_id : String)
  | PrepareIdentity (options : IdentityRequestOptions)
  | Status
  | Plan (snapshot_id : Option String) (offset : Nat)
  | Doctor

/-- The answers of the system while a request is handled, and the clock at its start and when
it reads the transactions. -/
structure Moment where
  host : RequestHost
  start : Nat
  now : Nat

/-- What a request leaves behind: the state, the response, whether the connection is kept after
it, and whether a plan was executed. There is no response when the code panics. -/
structure Dispatched where
  runtime : BackendRuntime
  response : Option ServerResponse
  keepalive : Bool := false
  executed : Bool := false

/-- A response that leaves the runtime as it is. -/
def respond (runtime : BackendRuntime) (response : ServerResponse) : Dispatched where
  runtime
  response := some response

/-- A request about a transaction. -/
def dispatchTransaction (moment : Moment) (runtime : BackendRuntime) (peer : PeerCredentials)
    (request : TransactionRequest) : Dispatched :=
  let handled := handle runtime
    { peer, host := moment.host, start := moment.start, now := moment.now, request }
  { runtime := handled.runtime
    response := handled.response
    executed := handled.executed.isSome }

/-- `prepare_identity` up to the run of the request plan. -/
def identityExecutor (runtime : BackendRuntime) (host : RequestHost) (peer : PeerCredentials)
    (options : IdentityRequestOptions) : Except BackendError PlanExecutor := do
  checkRequest runtime peer options.requested
  let cwd ← answer (host.resolve_cwd_object options.cwd) "permission"
    "identity request working directory is unavailable"
  let config := requestedConfig runtime.request_config options.requested
  let context := requestedContext runtime.request_config cwd.canonical_path options
  validateInputs config context.cli_inputs
  return { config, context, options := runtime.options }

def dispatchIdentity (moment : Moment) (runtime : BackendRuntime) (peer : PeerCredentials)
    (options : IdentityRequestOptions) : Dispatched where
  runtime
  response := match prepareIdentity runtime moment.host peer options with
    | .ok identity => some (.Identity identity)
    | .error (.Error error) => some (.Error error)
    | .error (.Panic _) => none
  executed := (identityExecutor runtime moment.host peer options).isOk

def helloRequired : BackendError :=
  backendError "protocol" false
    "execution requests require hello as the first message on this connection"

def prepareRequired : BackendError :=
  backendError "protocol" false
    "hello must be followed by exactly one prepare_exec or prepare_identity request"

def helloInfo (runtime : BackendRuntime) : HelloInfo where
  state := runtime.state
  profile := runtime.profile
  snapshot_id := runtime.snapshot_id
  runtime_inputs := runtime.allowed_runtime_inputs.toList
  environment_names := runtime.allowed_environment_names.toList

/-- `prepare_response`: the message after a hello. -/
def prepareResponse (moment : Moment) (runtime : BackendRuntime) (peer : PeerCredentials) :
    ClientRequest → Dispatched
  | .PrepareExec options => dispatchTransaction moment runtime peer (.PrepareExec options)
  | .PrepareIdentity options => dispatchIdentity moment runtime peer options
  | _ => respond runtime (.Error prepareRequired)

/-- `ConnectionService::dispatch`. -/
def dispatch (lengths : JsonLengths) (moment : Moment) (runtime : BackendRuntime)
    (peer : PeerCredentials) (request : ClientRequest) (hello_completed : Bool) : Dispatched :=
  if hello_completed then prepareResponse moment runtime peer request
  else
    match request with
    | .Status => respond runtime (.Status runtime.status)
    | .Plan snapshot_id offset =>
      respond runtime (match planPageResponse lengths runtime snapshot_id offset with
        | .ok response => response
        | .error error => .Error error)
    | .Doctor => respond runtime (.Doctor (doctorResponse runtime moment.host))
    | .CommitExec prepare_id => dispatchTransaction moment runtime peer (.CommitExec prepare_id)
    | .AbortExec prepare_id => dispatchTransaction moment runtime peer (.AbortExec prepare_id)
    | .GetExecResult prepare_id =>
      dispatchTransaction moment runtime peer (.GetExecResult prepare_id)
    | .Hello => { respond runtime (.Hello (helloInfo runtime)) with keepalive := true }
    | .PrepareExec _ | .PrepareIdentity _ => respond runtime (.Error helloRequired)

/-! ## The runtime behind the connections -/

/-- How messages are read and written, which serde decides. -/
structure Codec where
  decode : List UInt8 → Except BackendError ClientRequest
  encode : ServerResponse → List UInt8
  lengths : JsonLengths

/-- The runtime and the system as an event of a connection finds them, and whether a plan was
executed or the code panicked while the event was handled. -/
structure Site where
  runtime : BackendRuntime
  moment : Moment
  executed : Bool := false
  panicked : Bool := false

/-- A panic ends the process, so nothing sends this response. -/
def afterPanic : ServerResponse := .Error (backendError "panic" false "")

def Codec.service (codec : Codec) : Service Site ClientRequest where
  decode := codec.decode
  dispatch := fun site peer request hello_completed =>
    let dispatched := dispatch codec.lengths site.moment site.runtime peer request hello_completed
    ({ site with
        runtime := dispatched.runtime
        executed := site.executed || dispatched.executed
        panicked := site.panicked || dispatched.response.isNone },
      dispatched.response.getD afterPanic, dispatched.keepalive)
  encode := codec.encode

theorem prepareIdentity_eq (runtime : BackendRuntime) (host : RequestHost) (peer : PeerCredentials)
    (options : IdentityRequestOptions) :
    prepareIdentity runtime host peer options =
      (do
        let executor ← liftBackend (identityExecutor runtime host peer options)
        let report ← liftRun
          (executor.executeInternal host.host runtime.request_plan [] none).result
        let groups ← liftBackend (answer (host.supplementary_groups report.identity) "identity"
          "supplementary groups unavailable")
        return {
          uid := report.identity.uid
          gid := report.identity.gid
          user := report.identity.user
          home := report.identity.home
          supplemental_groups := groups
          run_as_root := report.identity.run_as_root }) := by
  unfold prepareIdentity identityExecutor
  cases checkRequest runtime peer options.requested with
  | error error => rfl
  | ok _ =>
    cases answer (host.resolve_cwd_object options.cwd) "permission"
        "identity request working directory is unavailable" with
    | error error => rfl
    | ok cwd =>
      simp only [liftBackend, ok_bind]
      cases validateInputs (requestedConfig runtime.request_config options.requested)
          (requestedContext runtime.request_config cwd.canonical_path options).cli_inputs with
      | error error => rfl
      | ok _ => rfl

end init_backend
