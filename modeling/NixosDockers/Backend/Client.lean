-- The commit of a client (`client.rs`): `commit_until` with its questions for
-- the result, and the run of it against the server over connections that may
-- lose a request or a reply.
import NixosDockers.Backend.Connection
import NixosDockers.Backend.Transaction

open bootstrap_model init_core

namespace init_backend

/-! ## The errors of a client -/

/-- What the client looks at of an `io::Error`. -/
inductive IoError where
  | TimedOut
  | Other (message : String)
  deriving DecidableEq, Repr

inductive ProtocolError where
  | Io (error : IoError)
  | InvalidFrame (message : String)
  | UnsupportedVersion (version : UInt16)
  | FrameTooLarge (length limit : Nat)
  | LimitExceeded (error_class field : String) (observed limit : Nat)
  | IncompatibleLimits
  deriving DecidableEq, Repr

inductive BackendClientError where
  | Io (error : IoError)
  | Protocol (error : ProtocolError)
  | Backend (error : BackendError)
  | UnexpectedResponse
  | TimedOut
  | OutcomeUnknown
  deriving DecidableEq, Repr

def protocolClientError : ProtocolError → BackendClientError
  | .Io .TimedOut => .TimedOut
  | error => .Protocol error

def transportFailure : BackendClientError → Bool
  | .Io _ | .Protocol (.Io _) | .TimedOut => true
  | _ => false

/-! ## The commit -/

def commitFailedError : BackendError :=
  backendError "commit_failed" false "backend request plan failed"

def transactionAbortedError : BackendError :=
  backendError "transaction_aborted" false "prepared request was aborted before commit"

/-- What `commit_until` returns. -/
abbrev CommitOutcome := Except BackendClientError ReceiptSummary

def commitResultIfDone (result : CommitResult) : Option CommitOutcome :=
  match result.state with
  | .Committed => some (match result.receipt_summary with
    | some summary => .ok summary
    | none => .error .UnexpectedResponse)
  | .Failed => some (.error (.Backend (result.error.getD commitFailedError)))
  | .OutcomeUnknown => some (.error .OutcomeUnknown)
  | .Prepared | .Committing => none
  | .Aborted => some (.error (.Backend transactionAbortedError))

/-- `get_exec_result_until` after its request was answered. -/
def execResultOf (prepare_id : String) :
    Except BackendClientError ServerResponse → Except BackendClientError CommitResult
  | .error error => .error error
  | .ok (.CommitResult result) =>
    if result.prepare_id = prepare_id then .ok result else .error .UnexpectedResponse
  | .ok (.Error error) =>
    if error.error_class = "unknown_transaction" then .error .OutcomeUnknown
    else .error (.Backend error)
  | .ok _ => .error .UnexpectedResponse

/-- Where `commit_until` is: it waits for the reply to the commit, it is at the head of the loop
of `poll_exec_result`, it waits for a reply there, or it has returned. -/
inductive ClientPhase where
  | Committing (connection : Nat)
  | Polling
  | Asking (connection : Nat)
  | Returned (result : CommitOutcome)
  deriving DecidableEq, Repr

/-- `commit_until` after the reply to its first request. -/
def commitReply (prepare_id : String) : Except BackendClientError ServerResponse → ClientPhase
  | .ok (.CommitResult result) =>
    if result.prepare_id ≠ prepare_id then .Returned (.error .UnexpectedResponse)
    else match commitResultIfDone result with
      | some outcome => .Returned outcome
      | none => .Polling
  | .ok (.Error error) =>
    if error.error_class = "unknown_transaction" then .Polling
    else .Returned (.error (.Backend error))
  | .ok _ => .Returned (.error .UnexpectedResponse)
  | .error _ => .Polling

/-- The rest of a turn of the loop of `poll_exec_result` after the reply to its question. -/
def pollReply (prepare_id : String) (deadline now : Nat)
    (reply : Except BackendClientError ServerResponse) : ClientPhase :=
  match execResultOf prepare_id reply with
  | .ok result =>
    match commitResultIfDone result with
    | some outcome => .Returned outcome
    | none => if deadline ≤ now then .Returned (.error .OutcomeUnknown) else .Polling
  | .error error =>
    if transportFailure error then .Returned (.error .OutcomeUnknown)
    else .Returned (.error error)

/-! ## The client and the server -/

/-- A call of `commit_until`. -/
structure Call where
  peer : PeerCredentials
  prepare_id : String
  deadline : Nat

/-- The server with what it has handled, oldest first, the connections of the client with the
request and the replies of each, and the client. -/
structure World where
  runtime : BackendRuntime
  log : List (Event × Handled)
  sent : List TransactionRequest
  replies : List (Nat × ServerResponse)
  client : ClientPhase
  commit_lost : Bool := false

/-- The errors with which the server answers a connection before it has a request. -/
inductive ConnectionError where
  | Capacity
  | RequestTimeout
  deriving DecidableEq, Repr

def ConnectionError.toBackend : ConnectionError → BackendError
  | .Capacity => bodyCapacityError
  | .RequestTimeout => frameTimeoutError

/-- How a request or its reply gets lost. -/
inductive Loss where
  | Connect (error : IoError)
  | Frame (error : IoError)
  | Deadline
  deriving DecidableEq, Repr

def Loss.toError : Loss → BackendClientError
  | .Connect error => .Io error
  | .Frame error => protocolClientError (.Io error)
  | .Deadline => .TimedOut

/-- What can happen next. A request can be handled at any time after it was sent, or never. -/
inductive Act where
  | Serve (event : Event)
  | Deliver (connection : Nat) (host : RequestHost) (start now : Nat)
  | Refuse (connection : Nat) (error : ConnectionError)
  | Receive (response : ServerResponse) (now : Nat)
  | Lose (loss : Loss) (now : Nat)
  | Look (now : Nat)

/-- The server handles a request. -/
def World.serve (world : World) (event : Event) : World :=
  let handled := handle world.runtime event
  { world with runtime := handled.runtime, log := world.log ++ [(event, handled)] }

/-- The client goes on with the reply on the connection it waits for. -/
def World.reply (world : World) (call : Call) (now : Nat)
    (reply : Except BackendClientError ServerResponse) : Option World :=
  match world.client with
  | .Committing _ =>
    some { world with
      client := commitReply call.prepare_id reply
      commit_lost := !reply.isOk }
  | .Asking _ =>
    some { world with client := pollReply call.prepare_id call.deadline now reply }
  | _ => none

/-- The connection that the client waits for. -/
def ClientPhase.connection : ClientPhase → Option Nat
  | .Committing connection | .Asking connection => some connection
  | _ => none

def World.step (call : Call) (world : World) : Act → Option World
  | .Serve event => some (world.serve event)
  | .Deliver connection host start now => do
    let request ← world.sent[connection]?
    let event : Event := { peer := call.peer, host, start, now, request }
    let replies := (handle world.runtime event).response.toList.map (connection, ·)
    return { world.serve event with replies := world.replies ++ replies }
  | .Refuse connection error =>
    if connection < world.sent.length then
      some { world with replies := world.replies ++ [(connection, .Error error.toBackend)] }
    else none
  | .Receive response now => do
    let connection ← world.client.connection
    if (connection, response) ∈ world.replies then world.reply call now (.ok response) else none
  | .Lose loss now => world.reply call now (.error loss.toError)
  | .Look now =>
    if world.client = .Polling then
      if call.deadline ≤ now then
        some { world with client := .Returned (.error .OutcomeUnknown) }
      else
        some { world with
          sent := world.sent ++ [.GetExecResult call.prepare_id]
          client := .Asking world.sent.length }
    else none

/-- `commit_until` is called. -/
def World.start (runtime : BackendRuntime) (log : List (Event × Handled)) (call : Call) : World where
  runtime
  log
  sent := [.CommitExec call.prepare_id]
  replies := []
  client := .Committing 0

end init_backend
