-- The connections of the backend (`server/lifecycle.rs`): how a request is read
-- in parts, how its response is written in parts, and how a connection expires.
import NixosDockers.Backend.Runtime
import NixosDockers.Lib.Frames
import NixosDockers.Lib.Sockets

open rust_text frames sockets

namespace init_backend

/-! ## The state of a connection -/

def MAX_REQUEST_FRAME_BYTES : Nat := 16 * 1024 * 1024

def MAX_BODY_READERS : Nat := 4

def FRAME_TIMEOUT : Nat := 30000

/-- The size of the buffer for the reads of a body. -/
def SCRATCH_BYTES : Nat := 8192

structure Connection where
  peer : PeerCredentials
  frame_deadline : Nat
  header : List UInt8 := [0, 0, 0, 0]
  header_read : Nat := 0
  expected_payload : Option Nat := none
  payload : List UInt8 := []
  body_admitted : Bool := false
  output : Option (List UInt8) := none
  output_offset : Nat := 0
  hello_completed : Bool := false
  keepalive_after_write : Bool := false
  deriving DecidableEq, Repr

/-- The connection that `accept_connections` enters. -/
def Connection.accepted (peer : PeerCredentials) (now : Nat) : Connection where
  peer
  frame_deadline := now + FRAME_TIMEOUT

/-- `ConnectionService`: what the connections need of the messages and of the runtime. A
dispatch also says whether the connection is kept after the response. -/
structure Service (ρ μ : Type) where
  decode : List UInt8 → Except BackendError μ
  dispatch : ρ → PeerCredentials → μ → Bool → ρ × ServerResponse × Bool
  encode : ServerResponse → List UInt8

/-- What happens on a connection: bytes are read, a request goes to the runtime, a response is
queued, bytes of it are written, and a response is finished with the connection kept. -/
inductive ConnectionAction where
  | Read (bytes : List UInt8)
  | Dispatched (payload : List UInt8)
  | Queued (response : List UInt8)
  | Wrote (bytes : List UInt8)
  | Finished
  deriving DecidableEq, Repr

/-- A connection, the runtime and what happened so far on the connection, newest first. -/
structure Conversation (ρ : Type) where
  connection : Connection
  runtime : ρ
  log : List ConnectionAction := []

variable {ρ μ : Type} (service : Service ρ μ)

/-! ## The errors of a connection -/

def emptyFrameError : BackendError :=
  backendError "protocol" false "frame length must be nonzero"

def frameTooLargeError : BackendError :=
  backendError "request_too_large" false "request frame exceeds the maximum frame size"

def bodyCapacityError : BackendError :=
  backendError "capacity" true "request body admission limit is full"

def frameTimeoutError : BackendError :=
  backendError "request_timeout" true "request frame deadline expired"

def queueError (c : Conversation ρ) (error : BackendError) : Conversation ρ :=
  let response := service.encode (.Error error)
  { c with
    connection := { c.connection with
      output := some response
      output_offset := 0
      keepalive_after_write := false }
    log := .Queued response :: c.log }

/-! ## Reading -/

/-- The room for the next read: the rest of the header, or the scratch buffer. -/
def Connection.room (connection : Connection) : Nat :=
  if connection.expected_payload.isNone then
    connection.header.length - connection.header_read
  else SCRATCH_BYTES

/-- The header with bytes written into it from the place that was read up to. -/
def Connection.fillHeader (connection : Connection) (bytes : List UInt8) : List UInt8 :=
  connection.header.take connection.header_read ++ bytes ++
    connection.header.drop (connection.header_read + bytes.length)

/-- What a complete header asks for: the body, or an error. -/
def checkHeader (readers : Nat) (header : List UInt8) : Except BackendError Nat := do
  let length := fromBeBytes header
  if length = 0 then throw emptyFrameError
  if length > MAX_REQUEST_FRAME_BYTES then throw frameTooLargeError
  if readers ≥ MAX_BODY_READERS then throw bodyCapacityError
  return length

/-- Bytes of the header have been read. -/
def readHeader (readers : Nat) (c : Conversation ρ) (bytes : List UInt8) : Conversation ρ :=
  let filled : Conversation ρ := { c with
    connection := { c.connection with
      header := c.connection.fillHeader bytes
      header_read := c.connection.header_read + bytes.length }
    log := .Read bytes :: c.log }
  if filled.connection.header_read = filled.connection.header.length then
    match checkHeader readers filled.connection.header with
    | .error error => queueError service filled error
    | .ok length => { filled with
      connection := { filled.connection with
        expected_payload := some length
        payload := []
        body_admitted := true } }
  else filled

/-- Dispatch a body that is complete. -/
def dispatchBody (c : Conversation ρ) : Conversation ρ :=
  let closed := { c with connection := { c.connection with body_admitted := false } }
  match service.decode closed.connection.payload with
  | .error error => queueError service closed error
  | .ok message =>
    let (runtime, response, keepalive) := service.dispatch closed.runtime closed.connection.peer
      message closed.connection.hello_completed
    let output := service.encode response
    { connection := { closed.connection with
        output := some output
        output_offset := 0
        keepalive_after_write := keepalive }
      runtime
      log := .Queued output :: .Dispatched closed.connection.payload :: closed.log }

/-- Bytes of the body have been read. What goes beyond the body is dropped. -/
def readBody (expected : Nat) (c : Conversation ρ) (bytes : List UInt8) : Conversation ρ :=
  let remaining := expected - c.connection.payload.length
  let filled : Conversation ρ := { c with
    connection := { c.connection with
      payload := c.connection.payload ++ bytes.take remaining }
    log := .Read bytes :: c.log }
  if filled.connection.payload.length = expected then dispatchBody service filled else filled

/-- One turn of the loop of `read_connection` that reads some bytes. -/
def readBytes (readers : Nat) (c : Conversation ρ) (bytes : List UInt8) : Conversation ρ :=
  match c.connection.expected_payload with
  | none => readHeader service readers c bytes
  | some expected => readBody service expected c bytes

/-- `read_connection`: read until there is no more or a response is queued. It also says
whether the connection stays, and what is left to read. -/
def readConnection (readers : Nat) (c : Conversation ρ) (stream : List ReadItem) :
    Conversation ρ × Bool × List ReadItem :=
  match _hread : read c.connection.room stream with
  | (.Ok [], rest) => (c, false, rest)
  | (.Ok (first :: more), rest) =>
    let next := readBytes service readers c (first :: more)
    if next.connection.output.isSome then (next, true, rest)
    else readConnection readers next rest
  | (.WouldBlock, rest) => (c, true, rest)
  | (.Interrupted, rest) => readConnection readers c rest
  | (.Failed, rest) => (c, false, rest)
termination_by weight stream
decreasing_by
  · exact read_data_weight _hread
  · exact read_interrupted_weight _hread

/-! ## Writing -/

/-- The framing state is cleared for the next request. -/
def Connection.keepAlive (connection : Connection) (now : Nat) : Connection :=
  { connection with
    hello_completed := true
    header := [0, 0, 0, 0]
    header_read := 0
    expected_payload := none
    payload := []
    body_admitted := false
    output := none
    output_offset := 0
    keepalive_after_write := false
    frame_deadline := now + FRAME_TIMEOUT }

/-- The loop of `write_connection`. It also says whether the connection stays. -/
def writeOutput (now : Nat) (output : List UInt8) :
    Conversation ρ → List WriteItem → Conversation ρ × Bool
  | c, [] => (c, true)
  | c, .WouldBlock :: _ => (c, true)
  | c, .Interrupted :: rest => writeOutput now output c rest
  | c, .Failed :: _ => (c, false)
  | c, .Takes count :: rest =>
    let bytes := (output.drop c.connection.output_offset).take count
    if bytes = [] then (c, false)
    else
      let written : Conversation ρ := { c with
        connection := { c.connection with
          output_offset := c.connection.output_offset + bytes.length }
        log := .Wrote bytes :: c.log }
      if written.connection.output_offset = output.length then
        if written.connection.keepalive_after_write then
          ({ written with
            connection := written.connection.keepAlive now
            log := .Finished :: written.log }, true)
        else (written, false)
      else writeOutput now output written rest

def writeConnection (now : Nat) (c : Conversation ρ) (items : List WriteItem) :
    Conversation ρ × Bool :=
  match c.connection.output with
  | none => (c, true)
  | some output => writeOutput now output c items

/-! ## The events of a connection -/

/-- What the poll loop finds for a connection: the flags of `poll`, with POLLIN and POLLHUP as
one, and what the socket and the other connections are like. Or the check of its deadline. -/
inductive ConnectionEvent (ρ : Type) where
  | Ready (readable writable : Bool) (readers : Nat) (runtime : ρ) (stream : List ReadItem)
      (items : List WriteItem) (now : Nat)
  | Expire (now : Nat)

/-- The part of `handle_connection` that reads. -/
def hear (readable : Bool) (readers : Nat) (c : Conversation ρ) (stream : List ReadItem) :
    Conversation ρ × Bool :=
  if readable then
    let result := readConnection service readers c stream
    (result.1, result.2.1)
  else (c, true)

/-- `handle_connection`. It also says whether the connection stays. -/
def handleConnection (readable writable : Bool) (readers now : Nat) (c : Conversation ρ)
    (stream : List ReadItem) (items : List WriteItem) : Conversation ρ × Bool :=
  let heard := hear service readable readers c stream
  if heard.2 && writable then writeConnection now heard.1 items else heard

/-- `expire_connections` for one connection. -/
def expireConnection (now : Nat) (c : Conversation ρ) : Conversation ρ × Bool :=
  if now ≥ c.connection.frame_deadline then
    if c.connection.output.isNone then
      let response := service.encode (.Error frameTimeoutError)
      ({ c with
        connection := { c.connection with
          output := some response
          output_offset := 0
          frame_deadline := now + FRAME_TIMEOUT }
        log := .Queued response :: c.log }, true)
    else (c, false)
  else (c, true)

def onEvent (c : Conversation ρ) : ConnectionEvent ρ → Conversation ρ × Bool
  | .Ready readable writable readers runtime stream items now =>
    handleConnection service readable writable readers now { c with runtime } stream items
  | .Expire now => expireConnection service now c

/-- The conversation after the events, and whether the connection is still there. The events
after its end do not reach it. -/
def converse (c : Conversation ρ) : List (ConnectionEvent ρ) → Conversation ρ × Bool
  | [] => (c, true)
  | event :: events =>
    let next := onEvent service c event
    if next.2 then converse next.1 events else next

end init_backend
