-- The coordinator of the dev-env backend (`coordinator.rs`), which alone owns
-- the snapshot, the control plane, the cache and the table of the
-- materializations in flight. It handles one event after the other.
import NixosDockers.DevEnv.Messages
import NixosDockers.DevEnv.Service

open rust_text hash_maps

namespace dev_env

def MAX_ACTIVE_CONNECTIONS : Nat := 32

def MAX_ACTIVE_REQUESTS : Nat := 16

/-! ## What the coordinator asks of its host -/

inductive BrokerIdentityRequest where
  | Peer (uid gid : UInt32)
  | Root
  | User (name : String)
  deriving DecidableEq, Repr

/-- The identity that the broker answers with. -/
structure BrokerIdentity where
  uid : UInt32
  gid : UInt32
  user : String
  home : String
  supplemental_groups : List UInt32
  run_as_root : Bool
  deriving DecidableEq, Repr

/-- What the backend finds outside while it handles one event: the clock, the file system, the
identity broker, the trust store, and the functions of other crates that read them. -/
structure Host where
  now : Nat
  backend_pid : UInt32
  is_file : String → Bool
  broker : BrokerIdentityRequest → String → Std.ExtTreeMap String String →
    Std.ExtTreeMap String String → Except String BrokerIdentity
  provider_detect_fingerprints : ConfigSnapshot → RuntimeContext → Std.ExtTreeMap String Fingerprint
  build_shell_invocation : RequestContext → String → ShellConfig → ShellInvocation
  doctor_value : ConfigSnapshot → UInt32 → UInt32 → DoctorValue
  trust : String → Except String Unit

/-- `IdentityBroker::resolve`. -/
def Host.resolve (host : Host) (request : IdentityRequest) (peer : IdentityPeer) (cwd : String)
    (inputs environment : Std.ExtTreeMap String String) : Except String EffectiveIdentity := do
  let requested := match request with
    | .Peer => BrokerIdentityRequest.Peer peer.uid peer.gid
    | .Root => .Root
    | .User name => .User name
  let identity ← host.broker requested cwd inputs environment
  pure {
    uid := identity.uid
    gid := identity.gid
    user := identity.user
    home := identity.home
    supplementary_groups := identity.supplemental_groups
    run_as_root := identity.run_as_root
    source := if identity.uid = 0 then .Root else .Broker
    workspace := .Unavailable }

/-! ## The state -/

/-- The sending end of a channel on which one answer is awaited. -/
abbrev Reply := Nat

structure BackendFailure where
  failure_class : String
  message : String
  deriving DecidableEq, Repr

structure PrepareRoute where
  request_id : String
  snapshot : ConfigSnapshot
  cwd : String
  shell_invocation : ShellInvocation
  identity : EffectiveIdentity
  deriving DecidableEq

structure PrepareWaiter where
  route : PrepareRoute
  reply : Reply
  cache_hit : Bool
  deriving DecidableEq

structure PrepareFlight where
  generation : Generation
  waiters : List PrepareWaiter
  deriving DecidableEq

structure ReloadWaiter where
  request_id : String
  reply : Reply
  deriving DecidableEq, Repr

structure RunSummary where
  failure : Option BackendFailure
  exit_code : Int
  deriving DecidableEq, Repr

inductive CoordinatorEvent where
  | ConnectionOpened (reply : Reply)
  | ConnectionClosed
  | Request (request : BackendRequestMessage) (peer : IdentityPeer) (reply : Reply)
  | RequestFinished
  | AuthenticationRejected (request_id : String) (peer : IdentityPeer) (reply : Reply)
  | ProtocolRejected (version : UInt16) (reply : Reply)
  | PrepareCompleted (generation : Generation) (key : MaterializationKey)
      (result : Except (String × String) Materialization)
  | ReloadCompleted (result : Except String (ConfigSnapshot × Materializer))
  | CurrentSnapshot (reply : Reply)
  | InitialRunning (pid : UInt32)
  | InitialExited (exit_code : Int)
  | InitialFinished
  | Fail (failure_class message : String)
  | RequestStop
  | CheckStopping (reply : Reply)
  | ActiveConnections (reply : Reply)
  | Shutdown (reply : Reply)

structure BackendState where
  snapshot : ConfigSnapshot
  materialization : MaterializationService
  allowed_peer_uid : UInt32
  control_plane : ControlPlaneState := .Serving
  initial_runtime : InitialRuntimeState := .Preparing
  startup_phase : Option String := some "initial_runtime_preparing"
  active_connections : Nat := 0
  active_requests : Nat := 0
  stopping : Bool := false
  initial_pid : Option UInt32 := none
  initial_exit_code : Option Int := none
  initial_runtime_error : Option String := none
  failure : Option BackendFailure := none
  in_flight : HashMap MaterializationKey PrepareFlight := ∅
  pending_reload : Option ReloadWaiter := none
  pending_shutdown : Option Reply := none

structure BackendStateConfig where
  snapshot : ConfigSnapshot
  materializer : Materializer
  allowed_peer_uid : UInt32

def BackendState.new (config : BackendStateConfig) : BackendState where
  snapshot := config.snapshot
  materialization := .new config.materializer
  allowed_peer_uid := config.allowed_peer_uid

/-! ## Turns -/

/-- What a worker thread that materializes takes along. -/
structure PrepareJob where
  key : MaterializationKey
  generation : Generation
  materializer : Materializer
  runtime_context : RuntimeContext
  metadata : MaterializationMetadata
  deriving DecidableEq

/-- What the coordinator does besides changing its state. -/
inductive Effect where
  | Accepted (reply : Reply) (accepted : Bool)
  | Respond (reply : Reply) (message : BackendResponseMessage)
  | Snapshot (reply : Reply) (snapshot : ConfigSnapshot)
  | Stopping (reply : Reply) (stopping : Bool)
  | Connections (reply : Reply) (active_connections : Nat)
  | Summary (reply : Reply) (summary : RunSummary)
  | RecordRejectedPeer (uid : UInt32)
  | SpawnPrepare (job : PrepareJob)
  | SpawnReload (current : ConfigSnapshot)
  | KillGroup (pid : UInt32)

/-- What handling an event leaves behind. The loop ends after a finished turn. -/
structure Turn where
  state : BackendState
  effects : List Effect := []
  finished : Bool := false

namespace BackendState

/-- `error`. -/
def error (state : BackendState) (request_id error_class message : String) (retryable : Bool) :
    BackendResponseMessage where
  request_id
  response := .Error {
    error_class
    retryable
    message
    generation := some state.snapshot.generation
    request_id := some request_id }

/-! ## Preparing -/

/-- The diagnostics of a `Prepared` response. -/
def diagnosticSummary : MaterializationDiagnostic → ProviderDiagnosticSummary
  | .Provider provider => { provider, diagnostic_class := "provider" }
  | .ProviderDisabled provider => { provider, diagnostic_class := "disabled" }

/-- `prepared_response`. -/
def preparedResponse (route : PrepareRoute) (materialization : Materialization)
    (cache_hit : Bool) : BackendResponseMessage where
  request_id := route.request_id
  response := .Prepared {
    generation := route.snapshot.generation
    config_fingerprint := route.snapshot.config_fingerprint
    cwd := route.cwd
    shell_invocation := route.shell_invocation
    materialized_environment := materialization.environment
    supplemental_groups := route.identity.supplementary_groups
    identity := route.identity
    diagnostics := materialization.diagnostics.map diagnosticSummary
    cache_hit
    receipt_summary := {
      succeeded := true
      action_count := materialization.environment.provider_receipts.length
      warning_count := materialization.diagnostics.length } }

/-- Why a control plane that does not serve refuses a `Prepare`. -/
def refusal : ControlPlaneState → Option (String × String)
  | .Serving => none
  | .Starting | .Reloading =>
    some ("backend_starting", "backend control plane is not serving Prepare yet")
  | .Failed =>
    some ("backend_startup_failed", "backend failed while preparing its initial runtime")
  | .Stopping => some ("backend_stopping", "backend is stopping")

/-- What a `Prepare` request asks for, once it is accepted. -/
structure PrepareTarget where
  route : PrepareRoute
  job : PrepareJob

def prepareShell (snapshot : ConfigSnapshot) (context : RequestContext) : String :=
  if context.shell = "default" then snapshot.resolved_config.shell.default else context.shell

def processEnvironment (snapshot : ConfigSnapshot) (context : RequestContext) :
    Std.ExtTreeMap String String :=
  if snapshot.resolved_config.environment.inherit_process then
    context.filtered_ambient_environment
  else ∅

/-- The context in which a request is materialized. -/
def prepareContext (host : Host) (snapshot : ConfigSnapshot) (context : RequestContext)
    (identity : EffectiveIdentity) : RuntimeContext where
  workspace := snapshot.workspace_root
  cwd := normalizePath context.cwd
  shell := some (prepareShell snapshot context)
  process_environment := processEnvironment snapshot context
  user_id := identity.uid
  workspace_config_present :=
    host.is_file (joinComponents (components snapshot.workspace_root ++ [".dev-env.toml"]))

/-- The key of what a request asks for. -/
def prepareKey (host : Host) (snapshot : ConfigSnapshot) (context : RequestContext)
    (identity : EffectiveIdentity) : Except MaterializationKeyError MaterializationKey :=
  let builder := MaterializationKeyBuilder.new snapshot.generation snapshot.workspace_root
    (normalizePath context.cwd) (prepareShell snapshot context) identity
  let builder := builder.withConfigFingerprint snapshot.config_fingerprint
  let builder := builder.withRuntimeInputs context.typed_runtime_inputs
  let builder := builder.withAmbientEnvironment (processEnvironment snapshot context)
  let builder := builder.withProviderDetectFingerprints
    (host.provider_detect_fingerprints snapshot (prepareContext host snapshot context identity))
  builder.build

/-- The first part of `start_prepare`: the checks of a request, and what it asks for. -/
def prepareTarget (host : Host) (state : BackendState) (request_id : String)
    (context : RequestContext) (peer : IdentityPeer) :
    Except BackendResponseMessage PrepareTarget := do
  match refusal state.control_plane with
  | some (error_class, message) => throw (state.error request_id error_class message true)
  | none => pure ()
  let snapshot := state.snapshot
  let cwd := normalizePath context.cwd
  if !pathStartsWith cwd snapshot.workspace_root then
    throw (state.error request_id "invalid_input" ("request cwd " ++ cwd ++
      " is outside the snapshot workspace " ++ snapshot.workspace_root) false)
  if context.typed_runtime_inputs.keys.any fun name => !snapshot.runtime_inputs.contains name then
    throw (state.error request_id "invalid_input" "unknown runtime input" false)
  let requested_identity := requestedIdentity context peer
  if requested_identity ≠ .Peer ∧ peer.uid ≠ 0 then
    throw (state.error request_id "unauthorized"
      "non-root clients may only request their peer identity" false)
  let identity ← (host.resolve requested_identity peer cwd context.typed_runtime_inputs
      (processEnvironment snapshot context)).mapError
    fun error => state.error request_id "identity_broker" error true
  let key ← (prepareKey host snapshot context identity).mapError
    fun error => state.error request_id "materialization" error.message false
  match snapshot.shells[prepareShell snapshot context]? with
  | none => throw (state.error request_id "invalid_input" "unknown shell" false)
  | some shell_config =>
    pure {
      route := {
        request_id
        snapshot
        cwd
        shell_invocation :=
          host.build_shell_invocation context (prepareShell snapshot context) shell_config
        identity }
      job := {
        key
        generation := snapshot.generation
        materializer := state.materialization.materializer
        runtime_context := prepareContext host snapshot context identity
        metadata := { request_id, generation := snapshot.generation, identity } } }

/-- `start_prepare`. -/
def startPrepare (host : Host) (state : BackendState) (request : BackendRequestMessage)
    (context : RequestContext) (peer : IdentityPeer) (reply : Reply) : Turn :=
  match state.prepareTarget host request.request_id context peer with
  | .error response => { state, effects := [.Respond reply response] }
  | .ok { route, job } =>
    match state.materialization.cached host.now job.key with
    | (some cached, materialization) =>
      { state := { state with materialization }
        effects := [.Respond reply (preparedResponse route cached true)] }
    | (none, materialization) =>
      match state.in_flight.lookup job.key with
      | some flight =>
        let waiters := flight.waiters ++ [{ route, reply, cache_hit := true }]
        { state := { state with
            materialization
            in_flight := state.in_flight.insert job.key { flight with waiters } } }
      | none =>
        let flight : PrepareFlight := {
          generation := job.generation
          waiters := [{ route, reply, cache_hit := false }] }
        { state := { state with
            materialization
            in_flight := state.in_flight.insert job.key flight }
          effects := [.SpawnPrepare job] }

/-! ## Reloading -/

/-- `maybe_start_reload`. -/
def maybeStartReload (state : BackendState) : List Effect :=
  if state.in_flight.entries ≠ [] then []
  else match state.pending_reload with
    | none => []
    | some _ => [.SpawnReload state.snapshot]

/-- `start_reload`. -/
def startReload (state : BackendState) (request_id : String) (reply : Reply) : Turn :=
  if state.pending_reload.isSome ∨ state.control_plane = .Reloading then
    { state
      effects := [.Respond reply (state.error request_id "reload_busy"
        "another backend reload is already in progress" true)] }
  else
    let reloading := { state with
      control_plane := .Reloading
      pending_reload := some { request_id, reply } }
    { state := reloading, effects := reloading.maybeStartReload }

/-- `reload_completed`. -/
def reloadCompleted (state : BackendState)
    (result : Except String (ConfigSnapshot × Materializer)) : Turn :=
  match state.pending_reload with
  | none => { state }
  | some waiter =>
    let taken := { state with pending_reload := none }
    match result with
    | .ok (snapshot, materializer) =>
      { state := { taken with
          snapshot
          materialization := .new materializer
          control_plane := .Serving }
        effects := [.Respond waiter.reply {
          request_id := waiter.request_id
          response := .Reloaded snapshot.generation snapshot.config_fingerprint }] }
    | .error message =>
      { state := { taken with control_plane := .Serving }
        effects := [.Respond waiter.reply
          (taken.error waiter.request_id "reload_failed" message false)] }

/-- What a waiter of a flight is answered. -/
def completion (state : BackendState) (generation : Generation)
    (result : Except (String × String) Materialization) (waiter : PrepareWaiter) :
    BackendResponseMessage :=
  match result with
  | .ok materialization =>
    if generation = waiter.route.snapshot.generation then
      preparedResponse waiter.route materialization waiter.cache_hit
    else
      state.error waiter.route.request_id "stale_generation"
        "materialization completed for a stale configuration generation" true
  | .error (error_class, message) =>
    state.error waiter.route.request_id error_class message false

/-- `prepare_completed`. -/
def prepareCompleted (host : Host) (state : BackendState) (generation : Generation)
    (key : MaterializationKey) (result : Except (String × String) Materialization) : Turn :=
  match state.in_flight.lookup key with
  | none => { state }
  | some flight =>
    let landed := { state with in_flight := state.in_flight.erase key }
    let current_generation := state.snapshot.generation
    let stored := match result with
      | .ok materialization =>
        if generation = current_generation ∧ flight.generation = generation then
          { landed with materialization :=
              landed.materialization.cacheSuccess host.now key materialization }
        else landed
      | .error _ => landed
    { state := stored
      effects := (flight.waiters.map fun waiter =>
        .Respond waiter.reply (stored.completion generation result waiter)) ++
          stored.maybeStartReload }

/-! ## Requests -/

/-- `handle_trust`. -/
def handleTrust (host : Host) (state : BackendState) (request_id : String)
    (target : TrustTarget) : BackendResponseMessage :=
  let path := match target with
    | .Path path => path
    | .Sha256 digest => hex digest
  match host.trust path with
  | .ok () => { request_id, response := .Trusted state.snapshot.generation }
  | .error error => state.error request_id "trust" error false

/-- The refusal of a request that only the root owner may make. -/
def unauthorized (state : BackendState) (request_id message : String) : BackendResponseMessage :=
  state.error request_id "unauthorized" message false

/-- `dispatch_request`, and the sending of its response. A `Prepare` request, which
`handle_request` takes off before, is started. -/
def dispatchRequest (host : Host) (state : BackendState) (request : BackendRequestMessage)
    (peer : IdentityPeer) (reply : Reply) : Turn :=
  let snapshot := state.snapshot
  let respond (response : BackendResponse) : Turn :=
    { state, effects := [.Respond reply { request_id := request.request_id, response }] }
  match request.request with
  | .Hello => respond (.Hello {
      control_plane := state.control_plane
      initial_runtime := state.initial_runtime
      startup_phase := state.startup_phase
      initial_runtime_exit_code := state.initial_exit_code
      initial_runtime_error := state.initial_runtime_error
      generation := snapshot.generation
      config_fingerprint := snapshot.config_fingerprint
      runtime_inputs := snapshot.runtime_inputs.keys
      environment_names := snapshot.resolved_config.environment.variables.keys })
  | .Status => respond (.Status {
      control_plane := state.control_plane
      initial_runtime := state.initial_runtime
      startup_phase := state.startup_phase
      initial_runtime_exit_code := state.initial_exit_code
      initial_runtime_error := state.initial_runtime_error
      generation := snapshot.generation
      config_fingerprint := snapshot.config_fingerprint
      backend_pid := host.backend_pid
      active_requests := state.active_requests - 1 })
  | .Plan => respond (.Plan (planValue snapshot))
  | .Explain path => respond (.Explain (explainValue snapshot path))
  | .Doctor => respond (.Doctor (host.doctor_value snapshot peer.uid state.allowed_peer_uid))
  | .Prepare context => state.startPrepare host request context peer reply
  | .Trust target =>
    if peer.uid = 0 then
      { state, effects := [.Respond reply (state.handleTrust host request.request_id target)] }
    else
      { state
        effects := [.Respond reply (state.unauthorized request.request_id
          "trust updates require a root backend owner")] }
  | .Reload _ =>
    if peer.uid = 0 then state.startReload request.request_id reply
    else
      { state
        effects := [.Respond reply (state.unauthorized request.request_id
          "reload requires a root backend owner")] }
  | .Stop =>
    if peer.uid = 0 then
      { state := { state with control_plane := .Stopping, stopping := true }
        effects := [.Respond reply { request_id := request.request_id, response := .Stopped }] }
    else
      { state
        effects := [.Respond reply (state.unauthorized request.request_id
          "stop requires a root backend owner")] }

/-- `handle_request`. -/
def handleRequest (host : Host) (state : BackendState) (request : BackendRequestMessage)
    (peer : IdentityPeer) (reply : Reply) : Turn :=
  let counted := { state with active_requests := state.active_requests + 1 }
  if counted.active_requests > MAX_ACTIVE_REQUESTS then
    { state := counted
      effects := [.Respond reply
        (counted.error request.request_id "busy" "backend request limit reached" true)] }
  else counted.dispatchRequest host request peer reply

/-! ## Stopping -/

/-- `fail_with_class`. -/
def failWithClass (state : BackendState) (failure_class message : String) : BackendState :=
  if state.stopping then state
  else { state with
    control_plane := .Failed
    initial_runtime := .Failed
    startup_phase := some "initial_runtime_failed"
    initial_runtime_error := some message
    failure := state.failure.or (some { failure_class, message })
    stopping := true }

/-- `stop_initial_runtime`. -/
def stopInitialRuntime (state : BackendState) : List Effect :=
  match state.initial_pid with
  | none => []
  | some pid => [.KillGroup pid]

def stoppingError (state : BackendState) (request_id : String) : BackendResponseMessage :=
  state.error request_id "backend_stopping" "backend is stopping" true

/-- `finish_pending_requests`. -/
def finishPendingRequests (state : BackendState) : Turn where
  state := { state with in_flight := ∅, pending_reload := none }
  effects :=
    (HashMap.gathered (fun _ flight => flight.waiters.map fun waiter =>
      Effect.Respond waiter.reply (state.stoppingError waiter.route.request_id))
      state.in_flight) ++
    match state.pending_reload with
    | none => []
    | some waiter => [.Respond waiter.reply (state.stoppingError waiter.request_id)]

/-- `run_summary`, which takes the failure. -/
def runSummary (state : BackendState) : RunSummary × BackendState :=
  ({ failure := state.failure, exit_code := state.initial_exit_code.getD 0 },
    { state with failure := none })

end BackendState

/-! ## Events -/

open BackendState in
/-- `handle_event`. -/
def handleEvent (host : Host) (state : BackendState) : CoordinatorEvent → Turn
  | .ConnectionOpened reply =>
    let accepted : Bool := state.active_connections < MAX_ACTIVE_CONNECTIONS
    { state := if accepted then
        { state with active_connections := state.active_connections + 1 } else state
      effects := [.Accepted reply accepted] }
  | .ConnectionClosed =>
    { state := { state with active_connections := state.active_connections - 1 } }
  | .Request request peer reply => state.handleRequest host request peer reply
  | .RequestFinished => { state := { state with active_requests := state.active_requests - 1 } }
  | .AuthenticationRejected request_id peer reply =>
    let message := "peer uid " ++ toString peer.uid ++ " is not allowed; configured peer uid is " ++
      toString state.allowed_peer_uid
    { state
      effects := [
        .Respond reply (state.error request_id "BACKEND-PEER-REJECTED" message false),
        .RecordRejectedPeer peer.uid] }
  | .ProtocolRejected version reply =>
    { state, effects := [.Respond reply (protocolMismatchResponse version)] }
  | .PrepareCompleted generation key result => state.prepareCompleted host generation key result
  | .ReloadCompleted result => state.reloadCompleted result
  | .CurrentSnapshot reply => { state, effects := [.Snapshot reply state.snapshot] }
  | .InitialRunning pid =>
    { state := { state with
        initial_pid := some pid
        initial_runtime := .Running
        startup_phase := none } }
  | .InitialExited exit_code =>
    { state := { state with initial_exit_code := some exit_code, initial_runtime := .Exited } }
  | .InitialFinished =>
    let stopped := { state with initial_pid := none, stopping := true }
    match state.pending_shutdown with
    | none => { state := stopped }
    | some reply =>
      let (summary, finished) := { stopped with pending_shutdown := none }.runSummary
      { state := finished, effects := [.Summary reply summary], finished := true }
  | .Fail failure_class message => { state := state.failWithClass failure_class message }
  | .RequestStop =>
    { state := { state with
        control_plane := if state.control_plane = .Failed then .Failed else .Stopping
        stopping := true } }
  | .CheckStopping reply => { state, effects := [.Stopping reply state.stopping] }
  | .ActiveConnections reply =>
    { state, effects := [.Connections reply state.active_connections] }
  | .Shutdown reply =>
    let killed := state.stopInitialRuntime
    let drained := state.finishPendingRequests
    if state.initial_pid.isSome then
      { state := { drained.state with pending_shutdown := some reply }
        effects := killed ++ drained.effects }
    else
      let (summary, finished) := drained.state.runSummary
      { state := finished
        effects := killed ++ drained.effects ++ [.Summary reply summary]
        finished := true }

/-- `run`: the turns of the loop, which ends after a finished turn. -/
def run : BackendState → List (Host × CoordinatorEvent) → List ((Host × CoordinatorEvent) × Turn)
  | _, [] => []
  | state, (host, event) :: events =>
    let turn := handleEvent host state event
    ((host, event), turn) :: if turn.finished then [] else run turn.state events

end dev_env
