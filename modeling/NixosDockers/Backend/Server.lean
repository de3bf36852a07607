-- The event loop of the backend (`server/lifecycle.rs`): the table of the
-- connections, the accepts, the poll events, the expiries and the stop.
import NixosDockers.Backend.Dispatch

open rust_text sockets

namespace init_backend

def MAX_CONNECTIONS : Nat := 32

def MAX_ACCEPTS_PER_TICK : Nat := 64

/-- The connections by their descriptor. There is no listener after the stop. -/
structure Server where
  runtime : BackendRuntime
  connections : Std.ExtTreeMap Nat Connection := ∅
  listening : Bool := true

/-- What `accept` gives: a stream with the credentials of its peer, if the system tells them, or
an error. A stream that cannot be set up ends the loop as an error does. -/
inductive Arrival where
  | Stream (fd : Nat) (peer : Option PeerCredentials) (now : Nat)
  | Interrupted
  | WouldBlock
  | Failed

/-- What the loop handles: the listener is readable, a connection has poll flags, with POLLIN and
POLLHUP as one and POLLERR and POLLNVAL as one, the deadlines are checked, and the main child
ended or a signal came. -/
inductive ServerEvent where
  | Accept (arrivals : List Arrival)
  | Ready (fd : Nat) (readable writable failed : Bool) (moment : Moment) (stream : List ReadItem)
      (items : List WriteItem) (now : Nat)
  | Expire (moment : Moment)
  | Stop

namespace Server

/-- `authorized_peer`. -/
def authorizedPeer (server : Server) (peer : PeerCredentials) : Bool :=
  peer.pid > 0 && (peer.uid = 0 || peer.uid = server.runtime.startup_identity.uid)

/-- A stream that was accepted. -/
def acceptStream (server : Server) (fd : Nat) (peer : Option PeerCredentials) (now : Nat) : Server :=
  match peer with
  | none => server
  | some peer =>
    if !server.authorizedPeer peer then server
    else if server.connections.size ≥ MAX_CONNECTIONS then server
    else { server with connections := server.connections.insert fd (.accepted peer now) }

/-- `accept_connections`. An error ends the loop of the server. -/
def acceptConnections (accepted : Nat) (server : Server) : List Arrival → Option Server
  | [] => some server
  | arrival :: arrivals =>
    if accepted ≥ MAX_ACCEPTS_PER_TICK then some server
    else
      match arrival with
      | .Stream fd peer now => acceptConnections (accepted + 1) (server.acceptStream fd peer now) arrivals
      | .WouldBlock => some server
      | .Interrupted => acceptConnections accepted server arrivals
      | .Failed => none

/-- The connections that hold a place for a request body. -/
def bodyReaders (server : Server) : Nat :=
  server.connections.values.countP Connection.body_admitted

/-- A connection as the runtime sees it. -/
def conversation (server : Server) (moment : Moment) (connection : Connection) :
    Conversation Site where
  connection
  runtime := { runtime := server.runtime, moment }

/-- `handle_connection` for a descriptor of the table. A panic ends the server. -/
def handleReady (codec : Codec) (server : Server) (fd : Nat) (connection : Connection)
    (readable writable : Bool) (moment : Moment) (stream : List ReadItem) (items : List WriteItem)
    (now : Nat) : Option Server :=
  let handled := handleConnection codec.service readable writable server.bodyReaders now
    (server.conversation moment connection) stream items
  if handled.1.runtime.panicked then none
  else some { server with
    runtime := handled.1.runtime.runtime
    connections :=
      if handled.2 then server.connections.insert fd handled.1.connection
      else server.connections.erase fd }

/-- `expire_connections` for one connection. -/
def expireOne (codec : Codec) (server : Server) (moment : Moment) (connection : Connection) :
    Option Connection :=
  let expired := expireConnection codec.service moment.now (server.conversation moment connection)
  if expired.2 then some expired.1.connection else none

/-- `expire_connections`. -/
def expireConnections (codec : Codec) (server : Server) (moment : Moment) : Server :=
  let connections := server.connections.filterMap fun _ connection =>
    server.expireOne codec moment connection
  { server with
    connections
    runtime := { server.runtime with active_connections := connections.size } }

/-- `begin_stopping`. -/
def beginStopping (server : Server) : Server where
  runtime := { server.runtime with state := .Stopping }
  connections := ∅
  listening := false

/-- One event. There is no state after an error of the loop or a panic. -/
def step (codec : Codec) (server : Server) : ServerEvent → Option Server
  | .Accept arrivals =>
    if server.listening then server.acceptConnections 0 arrivals else some server
  | .Ready fd readable writable failed moment stream items now =>
    match server.connections[fd]? with
    | none => some server
    | some connection =>
      if failed then some { server with connections := server.connections.erase fd }
      else server.handleReady codec fd connection readable writable moment stream items now
  | .Expire moment => some (server.expireConnections codec moment)
  | .Stop => some server.beginStopping

/-- The states that the server can come to. -/
inductive Reachable (codec : Codec) (first : Server) : Server → Prop
  | start : Reachable codec first first
  | next {server after : Server} {event : ServerEvent} :
      Reachable codec first server → server.step codec event = some after →
      Reachable codec first after

end Server

/-- The server when the loop begins. -/
def Server.start (runtime : BackendRuntime) : Server where
  runtime := { runtime with transactions := ∅, active_connections := 0 }

end init_backend
