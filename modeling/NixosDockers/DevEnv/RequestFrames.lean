-- The frames of requests to the dev-env backend (`request.rs`, `backend.rs`): what a
-- valid request may hold, its JSON text, and the limit of a frame.
import NixosDockers.DevEnv.Messages
import NixosDockers.Lib.JsonText
import NixosDockers.Lib.Results

open rust_text results json_text

namespace dev_env

/-! ## Errors -/

inductive IdentityRequestError where
  | InvalidUser
  deriving DecidableEq, Repr

inductive RequestValidationError where
  | InvalidRequestId
  | InvalidCwd (path : String)
  | InvalidShell
  | Identity (source : IdentityRequestError)
  | TooManyRuntimeInputs
  | TooManyShellArguments
  | InvalidEnvironmentName (name : String)
  | NulValue (name : String)
  deriving DecidableEq, Repr

inductive BackendProtocolError where
  | Json (source : String)
  | UnsupportedVersion (version : UInt16)
  | InvalidRequest (message : String)
  | InvalidContext (source : RequestValidationError)
  | FrameTooLarge (size : ℕ)
  deriving DecidableEq, Repr

def MAX_BACKEND_FRAME_BYTES : ℕ := 1024 * 1024

/-! ## What a valid request holds -/

/-- A character of a request id. -/
def isRequestIdChar (c : Char) : Bool := c.isAlphanum || c = '-' || c = '_' || c = '.'

def isRequestId (request_id : String) : Bool :=
  request_id ≠ "" && byteLen request_id ≤ 128 && request_id.toList.all isRequestIdChar

def isUserChar (c : Char) : Bool := c.isAlphanum || c = '_' || c = '-'

def IdentityRequest.validate : IdentityRequest → Except IdentityRequestError Unit
  | .Peer => .ok ()
  | .Root => .ok ()
  | .User name =>
    if name ≠ "" && byteLen name ≤ 32 && name.toList.all isUserChar then .ok ()
    else .error .InvalidUser

/-- `validate_absolute` of a request. -/
def validateCwd (path : String) : Except RequestValidationError Unit :=
  if path = "" || !isAbsolute path || hasChar path nul then .error (.InvalidCwd path) else .ok ()

/-- The loop of `validate_values`, with its sum. -/
def sumValues : ℕ → List (String × String) → Except RequestValidationError ℕ
  | total, [] => .ok total
  | total, (name, value) :: entries =>
    if !isKeyName name then .error (.InvalidEnvironmentName name)
    else if hasChar value nul then .error (.NulValue name)
    else if 2 ^ 64 ≤ total + byteLen name + byteLen value then .error (.NulValue name)
    else sumValues (total + byteLen name + byteLen value) entries

/-- `validate_values` of a request. -/
def validateRequestValues (values : Std.ExtTreeMap String String) :
    Except RequestValidationError Unit := do
  let total_bytes ← sumValues 0 values.toList
  if total_bytes > 64 * 1024 then .error .TooManyRuntimeInputs else .ok ()

def RequestContext.validate (context : RequestContext) : Except RequestValidationError Unit :=
  if !isRequestId context.request_id then .error .InvalidRequestId
  else do
    validateCwd context.cwd
    if context.shell = "" || hasChar context.shell nul then .error .InvalidShell
    else if context.shell_args.length > 128 || context.shell_args.any (hasChar · nul) then
      .error .TooManyShellArguments
    else if (context.shell_args.map byteLen).sum > 64 * 1024 then .error .TooManyShellArguments
    else do
      context.requested_identity.validate.mapError .Identity
      if context.typed_runtime_inputs.size > 64 then .error .TooManyRuntimeInputs
      else do
        validateRequestValues context.typed_runtime_inputs
        validateRequestValues context.filtered_ambient_environment

def TrustTarget.validate : TrustTarget → Except BackendProtocolError Unit
  | .Path path =>
    if path ≠ "" && isAbsolute path && !hasChar path nul then .ok ()
    else .error (.InvalidRequest "trust path must be absolute")
  | .Sha256 _ => .ok ()

/-- A message with the protocol that its sender speaks. -/
structure BackendRequestEnvelope extends BackendRequestMessage where
  protocol : UInt16 := DEVENV_BACKEND_PROTOCOL_VERSION
  deriving DecidableEq

/-- `BackendRequestMessage::validate`. -/
def BackendRequestEnvelope.validate (envelope : BackendRequestEnvelope) :
    Except BackendProtocolError Unit :=
  if envelope.protocol ≠ DEVENV_BACKEND_PROTOCOL_VERSION then
    .error (.UnsupportedVersion envelope.protocol)
  else if !isRequestId envelope.request_id then .error (.InvalidRequest "request id is invalid")
  else
    match envelope.request with
    | .Prepare context =>
      if context.request_id ≠ envelope.request_id then
        .error (.InvalidRequest "prepare context request id does not match envelope")
      else context.validate.mapError .InvalidContext
    | .Explain path =>
      if path.any (hasChar · nul) then .error (.InvalidRequest "explain path contains NUL")
      else .ok ()
    | .Trust target => target.validate
    | .Hello | .Status | .Plan | .Doctor | .Reload _ | .Stop => .ok ()

/-! ## The JSON of a request -/

def RequestMode.json : RequestMode → String
  | .Exec => quoted "exec"
  | .Shell => quoted "shell"
  | .LoginShell => quoted "login_shell"
  | .Shim => quoted "shim"
  | .Print => quoted "print"

def IdentityRequest.json : IdentityRequest → String
  | .Peer => object [("kind", quoted "peer")]
  | .Root => object [("kind", quoted "root")]
  | .User name => object [("kind", quoted "user"), ("name", quoted name)]

/-- A map of texts, in the order of its names. -/
def mapJson (values : Std.ExtTreeMap String String) : String :=
  object (values.toList.map fun entry => (entry.1, quoted entry.2))

def RequestContext.json (context : RequestContext) : String :=
  object ([("request_id", quoted context.request_id), ("mode", context.mode.json),
      ("cwd", quoted context.cwd), ("shell", quoted context.shell)] ++
    (if context.shell_args = [] then []
      else [("shell_args", array (context.shell_args.map quoted))]) ++
    [("requested_identity", context.requested_identity.json),
      ("typed_runtime_inputs", mapJson context.typed_runtime_inputs),
      ("filtered_ambient_environment", mapJson context.filtered_ambient_environment)])

def TrustTarget.json : TrustTarget → String
  | .Path path => object [("kind", quoted "path"), ("path", quoted path)]
  | .Sha256 digest => object [("kind", quoted "sha256"),
      ("digest", array (digest.toList.map fun byte => toString byte.toNat))]

def BackendRequest.json : BackendRequest → String
  | .Hello => object [("type", quoted "hello")]
  | .Prepare context => object [("type", quoted "prepare"), ("context", context.json)]
  | .Status => object [("type", quoted "status")]
  | .Plan => object [("type", quoted "plan")]
  | .Explain path =>
    object [("type", quoted "explain"), ("path", (path.map quoted).getD "null")]
  | .Doctor => object [("type", quoted "doctor")]
  | .Trust target => object [("type", quoted "trust"), ("target", target.json)]
  | .Reload wait => object [("type", quoted "reload"), ("wait", toString wait)]
  | .Stop => object [("type", quoted "stop")]

def BackendRequestEnvelope.json (envelope : BackendRequestEnvelope) : String :=
  object [("protocol", toString envelope.protocol.toNat),
    ("request_id", quoted envelope.request_id), ("request", envelope.request.json)]

/-! ## Frames -/

/-- `encode_json`, of a text that serde has written. -/
def encodeJson (json : String) : Except BackendProtocolError (List UInt8) :=
  let payload := asBytes json
  if payload.length > MAX_BACKEND_FRAME_BYTES then .error (.FrameTooLarge payload.length)
  else .ok payload

def ensureFrameSize (payload : List UInt8) : Except BackendProtocolError Unit :=
  if payload = [] ∨ payload.length > MAX_BACKEND_FRAME_BYTES then
    .error (.FrameTooLarge payload.length)
  else .ok ()

/-- `BackendRequestMessage::encode`. -/
def BackendRequestEnvelope.encode (envelope : BackendRequestEnvelope) :
    Except BackendProtocolError (List UInt8) := do
  envelope.validate
  encodeJson envelope.json

/-- `BackendRequestMessage::decode`, over what serde reads. -/
def BackendRequestEnvelope.decode
    (from_slice : List UInt8 → Except String BackendRequestEnvelope) (payload : List UInt8) :
    Except BackendProtocolError BackendRequestEnvelope := do
  ensureFrameSize payload
  let message ← (from_slice payload).mapError .Json
  message.validate
  pure message

end dev_env
