-- The supervisor of the provider workers: one actor behind a channel, its callers and the
-- callers of `stop`, in every order of their steps (`dev-env-provider`: `command.rs`).
import NixosDockers.DevEnvProvider.WorkerProtocol
import NixosDockers.Lib.Quiescence

open dev_env traces

namespace dev_env_provider

/-- The errors of the supervisor: those of a request and of the frames, that it has stopped,
and those that carry an error of the operating system. -/
inductive SupervisorError where
  | Command (error : CommandError)
  | SupervisorStopped
  | Process (message : String)
  deriving DecidableEq

abbrev Reply := Except SupervisorError CommandOutput

def stopped : Reply := .error .SupervisorStopped

namespace ProcessExecutor

/-- The receiving end of a reply channel. -/
inductive Slot where
  | Open
  | Sent (reply : Reply)
  | Dropped

/-- Where a call of `execute_request` is. -/
inductive Phase where
  | Validated
  | Admitted
  | Waiting (slot : Slot)
  | Returned (reply : Reply)

/-- A call is known by its number, which stands for its reply channel too. -/
structure Call where
  request : CommandRequest
  identity : Option EffectiveIdentity
  phase : Phase

/-- Where a call of `stop` is. -/
inductive Stopper where
  | Sending
  | Locking
  | Joining
  | Returned
  deriving DecidableEq

inductive SupervisorMessage where
  | Execute (request : CommandRequest) (identity : Option EffectiveIdentity) (reply : ℕ)
  | Stop

/-- Where `run_supervisor` is, between its own looks at the flag too: `Launching` has found it
down and has still to start the worker, `Returning` has found it down once more and has still to
return what its worker has responded. `Leaving` has seen the channel empty and still holds its
receiver; `Ended` has dropped it. -/
inductive Actor where
  | Receiving
  | Received (request : CommandRequest) (identity : Option EffectiveIdentity) (reply : ℕ)
  | Launching (request : CommandRequest) (identity : Option EffectiveIdentity) (reply : ℕ)
  | Working (reply : ℕ)
  | Responded (reply : ℕ) (response : Reply)
  | Returning (reply : ℕ) (response : Reply)
  | Replying (reply : ℕ) (result : Reply)
  | Draining
  | Refusing (reply : ℕ)
  | Leaving
  | Ended

/-- The history that the laws speak of. -/
inductive Entry where
  | Queued (call : ℕ)
  | Taken (call : ℕ)
  | Started (call : ℕ) (frame : List UInt8)
  | Finished (call : ℕ) (reply : Reply)

def Entry.queued : Entry → Option ℕ
  | .Queued n => some n
  | _ => none

def Entry.taken : Entry → Option ℕ
  | .Taken n => some n
  | _ => none

def Entry.started : Entry → Option ℕ
  | .Started n _ => some n
  | _ => none

structure State where
  stopping : Bool := false
  queue : List SupervisorMessage := []
  actor : Actor := .Receiving
  /-- The join handle is still in its mutex. -/
  thread : Bool := true
  /-- A call of `stop` holds the mutex. -/
  locked : Bool := false
  calls : List Call := []
  stops : List Stopper := []
  log : List Entry := []

inductive Event where
  | Call (request : CommandRequest) (identity : Option EffectiveIdentity)
  | Load (call : ℕ)
  | Send (call : ℕ)
  | Receive (call : ℕ)
  | Stop
  | SendStop (stop : ℕ)
  | Lock (stop : ℕ)
  | Join (stop : ℕ)
  /-- The actor's own next step. -/
  | Act
  /-- The worker has responded and has been waited for. -/
  | Respond (response : Reply)
  /-- `execute_worker` returns on another way. -/
  | Fail (error : SupervisorError)

/-! ## The steps -/

/-- The call that the actor holds. -/
def Actor.held : Actor → List ℕ
  | .Received _ _ n | .Launching _ _ n | .Working n | .Responded n _ | .Returning n _
  | .Replying n _ | .Refusing n => [n]
  | .Receiving | .Draining | .Leaving | .Ended => []

def Actor.ended : Actor → Bool
  | .Ended => true
  | _ => false

namespace State

def setPhase (s : State) (n : ℕ) (phase : Phase) : State :=
  { s with calls := s.calls.modify n fun call => { call with phase } }

def setStop (s : State) (k : ℕ) (stop : Stopper) : State :=
  { s with stops := s.stops.set k stop }

/-- A send on the channel: it fails once the receiver is dropped. -/
def enqueue (s : State) (message : SupervisorMessage) : State :=
  { s with queue := s.queue ++ [message] }

def note (s : State) (entry : Entry) : State := { s with log := s.log ++ [entry] }

end State

def SupervisorMessage.reply : SupervisorMessage → Option ℕ
  | .Execute _ _ n => some n
  | .Stop => none

/-- The calls whose messages are in the channel. -/
def queued (queue : List SupervisorMessage) : List ℕ := queue.filterMap SupervisorMessage.reply

namespace State

/-- The receiver goes with the messages that are still in the channel, and their reply
channels go with these. -/
def dropReceiver (s : State) : State :=
  { s with
    actor := .Ended
    queue := []
    calls := s.calls.mapIdx fun n call =>
      if n ∈ queued s.queue then { call with phase := .Waiting .Dropped } else call }

/-- `execute_request` up to its check of the request. -/
def call (s : State) (request : CommandRequest) (identity : Option EffectiveIdentity) : State :=
  let phase : Phase :=
    match request.validate with
    | .error error => .Returned (.error (.Command error))
    | .ok () => .Validated
  { s with calls := s.calls ++ [⟨request, identity, phase⟩] }

/-- The caller looks at the flag before it sends. -/
def load (s : State) (n : ℕ) : Option State :=
  match s.calls[n]? with
  | some ⟨_, _, .Validated⟩ =>
    some (s.setPhase n (if s.stopping then .Returned stopped else .Admitted))
  | _ => none

def send (s : State) (n : ℕ) : Option State :=
  match s.calls[n]? with
  | some ⟨request, identity, .Admitted⟩ =>
    if s.actor.ended then some (s.setPhase n (.Returned stopped))
    else
      some (((s.setPhase n (.Waiting .Open)).enqueue (.Execute request identity n)).note
        (.Queued n))
  | _ => none

/-- `result.recv()`: it waits while the reply channel is open and empty. -/
def receive (s : State) (n : ℕ) : Option State :=
  match s.calls[n]? with
  | some ⟨_, _, .Waiting (.Sent reply)⟩ => some (s.setPhase n (.Returned reply))
  | some ⟨_, _, .Waiting .Dropped⟩ => some (s.setPhase n (.Returned stopped))
  | _ => none

/-- `stop` up to its swap of the flag. -/
def stop (s : State) : State :=
  { s with stopping := true, stops := s.stops ++ [if s.stopping then .Locking else .Sending] }

def sendStop (s : State) (k : ℕ) : Option State :=
  match s.stops[k]? with
  | some .Sending =>
    some (if s.actor.ended then s.setStop k .Locking else (s.setStop k .Locking).enqueue .Stop)
  | _ => none

/-- The guard of the mutex lives as long as the join that stands under it. -/
def lock (s : State) (k : ℕ) : Option State :=
  match s.stops[k]? with
  | some .Locking =>
    if s.locked then none
    else if s.thread then some { s.setStop k .Joining with thread := false, locked := true }
    else some (s.setStop k .Returned)
  | _ => none

def join (s : State) (k : ℕ) : Option State :=
  match s.stops[k]? with
  | some .Joining =>
    if s.actor.ended then some { s.setStop k .Returned with locked := false } else none
  | _ => none

/-- `run_supervisor`, apart from what its workers do. -/
def act (s : State) : Option State :=
  match s.actor, s.queue with
  | .Receiving, [] => none
  | .Receiving, .Execute request identity n :: queue =>
    some ({ s with queue, actor := .Received request identity n }.note (.Taken n))
  | .Receiving, .Stop :: queue => some { s with queue, actor := .Draining }
  | .Received request identity n, _ =>
    if s.stopping then some { s with actor := .Replying n stopped }
    else some { s with actor := .Launching request identity n }
  | .Launching request identity n, _ =>
    match (WorkerRequest.fromCommand request identity).encode with
    | .error error => some { s with actor := .Replying n (.error (.Command error)) }
    | .ok frame => some ({ s with actor := .Working n }.note (.Started n frame))
  | .Working _, _ => none
  | .Responded n response, _ =>
    if s.stopping then some ({ s with actor := .Replying n stopped }.note (.Finished n stopped))
    else some { s with actor := .Returning n response }
  | .Returning n response, _ =>
    some ({ s with actor := .Replying n response }.note (.Finished n response))
  | .Replying n reply, _ => some { s.setPhase n (.Waiting (.Sent reply)) with actor := .Receiving }
  | .Draining, [] => some { s with actor := .Leaving }
  | .Draining, .Execute _ _ n :: queue =>
    some ({ s with queue, actor := .Refusing n }.note (.Taken n))
  | .Draining, .Stop :: queue => some { s with queue }
  | .Refusing n, _ => some { s.setPhase n (.Waiting (.Sent stopped)) with actor := .Draining }
  | .Leaving, _ => some s.dropReceiver
  | .Ended, _ => none

def respond (s : State) (response : Reply) : Option State :=
  match s.actor with
  | .Working n => some { s with actor := .Responded n response }
  | _ => none

def fail (s : State) (error : SupervisorError) : Option State :=
  match s.actor with
  | .Working n =>
    some ({ s with actor := .Replying n (.error error) }.note (.Finished n (.error error)))
  | _ => none

def step (s : State) : Event → Option State
  | .Call request identity => some (s.call request identity)
  | .Load n => s.load n
  | .Send n => s.send n
  | .Receive n => s.receive n
  | .Stop => some s.stop
  | .SendStop k => s.sendStop k
  | .Lock k => s.lock k
  | .Join k => s.join k
  | .Act => s.act
  | .Respond response => s.respond response
  | .Fail error => s.fail error

/-! ## What a step can do -/

variable {s s' : State} {e : Event}

/-- The steps by their guards, each with what it leaves behind. -/
inductive Moves (s : State) : Event → State → Prop
  | invalid {request identity error} (h : request.validate = .error error) :
    Moves s (.Call request identity)
      { s with calls := s.calls ++ [⟨request, identity, .Returned (.error (.Command error))⟩] }
  | valid {request identity} (h : request.validate = .ok ()) :
    Moves s (.Call request identity)
      { s with calls := s.calls ++ [⟨request, identity, .Validated⟩] }
  | turnedAway {n request identity} (h : s.calls[n]? = some ⟨request, identity, .Validated⟩)
    (hflag : s.stopping = true) : Moves s (.Load n) (s.setPhase n (.Returned stopped))
  | admitted {n request identity} (h : s.calls[n]? = some ⟨request, identity, .Validated⟩)
    (hflag : s.stopping = false) : Moves s (.Load n) (s.setPhase n .Admitted)
  | unsent {n request identity} (h : s.calls[n]? = some ⟨request, identity, .Admitted⟩)
    (hended : s.actor = .Ended) : Moves s (.Send n) (s.setPhase n (.Returned stopped))
  | sent {n request identity} (h : s.calls[n]? = some ⟨request, identity, .Admitted⟩)
    (hended : s.actor ≠ .Ended) :
    Moves s (.Send n) (((s.setPhase n (.Waiting .Open)).enqueue
      (.Execute request identity n)).note (.Queued n))
  | answered {n request identity reply}
    (h : s.calls[n]? = some ⟨request, identity, .Waiting (.Sent reply)⟩) :
    Moves s (.Receive n) (s.setPhase n (.Returned reply))
  | forgotten {n request identity}
    (h : s.calls[n]? = some ⟨request, identity, .Waiting .Dropped⟩) :
    Moves s (.Receive n) (s.setPhase n (.Returned stopped))
  | stopFirst (h : s.stopping = false) :
    Moves s .Stop { s with stopping := true, stops := s.stops ++ [.Sending] }
  | stopAgain (h : s.stopping = true) : Moves s .Stop { s with stops := s.stops ++ [.Locking] }
  | stopUnsent {k} (h : s.stops[k]? = some .Sending) (hended : s.actor = .Ended) :
    Moves s (.SendStop k) (s.setStop k .Locking)
  | stopSent {k} (h : s.stops[k]? = some .Sending) (hended : s.actor ≠ .Ended) :
    Moves s (.SendStop k) ((s.setStop k .Locking).enqueue .Stop)
  | handle {k} (h : s.stops[k]? = some .Locking) (hfree : s.locked = false)
    (hthread : s.thread = true) :
    Moves s (.Lock k) { s.setStop k .Joining with thread := false, locked := true }
  | noHandle {k} (h : s.stops[k]? = some .Locking) (hfree : s.locked = false)
    (hthread : s.thread = false) : Moves s (.Lock k) (s.setStop k .Returned)
  | joined {k} (h : s.stops[k]? = some .Joining) (hended : s.actor = .Ended) :
    Moves s (.Join k) { s.setStop k .Returned with locked := false }
  | picked {request identity n queue} (hactor : s.actor = .Receiving)
    (hqueue : s.queue = .Execute request identity n :: queue) :
    Moves s .Act ({ s with queue, actor := .Received request identity n }.note (.Taken n))
  | takenStop {queue} (hactor : s.actor = .Receiving) (hqueue : s.queue = .Stop :: queue) :
    Moves s .Act { s with queue, actor := .Draining }
  | late {request identity n} (hactor : s.actor = .Received request identity n)
    (hflag : s.stopping = true) : Moves s .Act { s with actor := .Replying n stopped }
  | cleared {request identity n} (hactor : s.actor = .Received request identity n)
    (hflag : s.stopping = false) : Moves s .Act { s with actor := .Launching request identity n }
  | unencoded {request identity n error} (hactor : s.actor = .Launching request identity n)
    (h : (WorkerRequest.fromCommand request identity).encode = .error error) :
    Moves s .Act { s with actor := .Replying n (.error (.Command error)) }
  | launched {request identity n frame} (hactor : s.actor = .Launching request identity n)
    (h : (WorkerRequest.fromCommand request identity).encode = .ok frame) :
    Moves s .Act ({ s with actor := .Working n }.note (.Started n frame))
  | replied {n reply} (hactor : s.actor = .Replying n reply) :
    Moves s .Act { s.setPhase n (.Waiting (.Sent reply)) with actor := .Receiving }
  | drainedAll (hactor : s.actor = .Draining) (hqueue : s.queue = []) :
    Moves s .Act { s with actor := .Leaving }
  | drained {request identity n queue} (hactor : s.actor = .Draining)
    (hqueue : s.queue = .Execute request identity n :: queue) :
    Moves s .Act ({ s with queue, actor := .Refusing n }.note (.Taken n))
  | drainedStop {queue} (hactor : s.actor = .Draining) (hqueue : s.queue = .Stop :: queue) :
    Moves s .Act { s with queue }
  | refused {n} (hactor : s.actor = .Refusing n) :
    Moves s .Act { s.setPhase n (.Waiting (.Sent stopped)) with actor := .Draining }
  | left (hactor : s.actor = .Leaving) : Moves s .Act s.dropReceiver
  | responded {n response} (hactor : s.actor = .Working n) :
    Moves s (.Respond response) { s with actor := .Responded n response }
  | overruled {n response} (hactor : s.actor = .Responded n response) (hflag : s.stopping = true) :
    Moves s .Act ({ s with actor := .Replying n stopped }.note (.Finished n stopped))
  | upheld {n response} (hactor : s.actor = .Responded n response) (hflag : s.stopping = false) :
    Moves s .Act { s with actor := .Returning n response }
  | returned {n response} (hactor : s.actor = .Returning n response) :
    Moves s .Act ({ s with actor := .Replying n response }.note (.Finished n response))
  | failed {n error} (hactor : s.actor = .Working n) :
    Moves s (.Fail error) ({ s with actor := .Replying n (.error error) }.note
      (.Finished n (.error error)))

theorem Actor.ended_iff {actor : Actor} : actor.ended = true ↔ actor = .Ended := by
  cases actor <;> simp [Actor.ended]

theorem moves_of_call {request : CommandRequest} {identity : Option EffectiveIdentity} :
    Moves s (.Call request identity) (s.call request identity) := by
  unfold call
  rcases h : request.validate with error | ⟨⟨⟩⟩
  · exact .invalid h
  · exact .valid h

theorem moves_of_load {n : ℕ} (h : s.load n = some s') : Moves s (.Load n) s' := by
  unfold load at h
  split at h
  · rename_i request identity hcall
    obtain rfl := Option.some.inj h
    cases hflag : s.stopping with
    | true => exact .turnedAway hcall hflag
    | false => exact .admitted hcall hflag
  · cases h

theorem moves_of_send {n : ℕ} (h : s.send n = some s') : Moves s (.Send n) s' := by
  unfold send at h
  split at h
  · rename_i request identity hcall
    split at h
    · rename_i hended
      obtain rfl := Option.some.inj h
      exact .unsent hcall (Actor.ended_iff.mp hended)
    · rename_i hended
      obtain rfl := Option.some.inj h
      exact .sent hcall (fun hactor => hended (Actor.ended_iff.mpr hactor))
  · cases h

theorem moves_of_receive {n : ℕ} (h : s.receive n = some s') : Moves s (.Receive n) s' := by
  unfold receive at h
  split at h
  · rename_i hcall
    obtain rfl := Option.some.inj h
    exact .answered hcall
  · rename_i hcall
    obtain rfl := Option.some.inj h
    exact .forgotten hcall
  · cases h

theorem moves_of_stop : Moves s .Stop s.stop := by
  unfold stop
  cases h : s.stopping with
  | true =>
    have hagain := Moves.stopAgain h
    simpa [← h] using hagain
  | false => exact .stopFirst h

theorem moves_of_sendStop {k : ℕ} (h : s.sendStop k = some s') : Moves s (.SendStop k) s' := by
  unfold sendStop at h
  split at h
  · rename_i hstop
    obtain rfl := Option.some.inj h
    split
    · rename_i hended
      exact .stopUnsent hstop (Actor.ended_iff.mp hended)
    · rename_i hended
      exact .stopSent hstop (fun hactor => hended (Actor.ended_iff.mpr hactor))
  · cases h

theorem moves_of_lock {k : ℕ} (h : s.lock k = some s') : Moves s (.Lock k) s' := by
  unfold lock at h
  split at h
  · rename_i hstop
    split at h
    · cases h
    · rename_i hfree
      rw [Bool.not_eq_true] at hfree
      split at h
      · rename_i hthread
        obtain rfl := Option.some.inj h
        exact .handle hstop hfree hthread
      · rename_i hthread
        rw [Bool.not_eq_true] at hthread
        obtain rfl := Option.some.inj h
        exact .noHandle hstop hfree hthread
  · cases h

theorem moves_of_join {k : ℕ} (h : s.join k = some s') : Moves s (.Join k) s' := by
  unfold join at h
  split at h
  · rename_i hstop
    split at h
    · rename_i hended
      obtain rfl := Option.some.inj h
      exact .joined hstop (Actor.ended_iff.mp hended)
    · cases h
  · cases h

theorem moves_of_act (h : s.act = some s') : Moves s .Act s' := by
  unfold act at h
  split at h
  · cases h
  · rename_i hactor hqueue
    obtain rfl := Option.some.inj h
    exact .picked hactor hqueue
  · rename_i hactor hqueue
    obtain rfl := Option.some.inj h
    exact .takenStop hactor hqueue
  · rename_i request identity n hactor
    split at h
    · rename_i hflag
      obtain rfl := Option.some.inj h
      exact .late hactor hflag
    · rename_i hflag
      rw [Bool.not_eq_true] at hflag
      obtain rfl := Option.some.inj h
      exact .cleared hactor hflag
  · rename_i request identity n hactor
    split at h
    · rename_i hencode
      obtain rfl := Option.some.inj h
      exact .unencoded hactor hencode
    · rename_i hencode
      obtain rfl := Option.some.inj h
      exact .launched hactor hencode
  · cases h
  · rename_i n response hactor
    split at h
    · rename_i hflag
      obtain rfl := Option.some.inj h
      exact .overruled hactor hflag
    · rename_i hflag
      rw [Bool.not_eq_true] at hflag
      obtain rfl := Option.some.inj h
      exact .upheld hactor hflag
  · rename_i hactor
    obtain rfl := Option.some.inj h
    exact .returned hactor
  · rename_i hactor
    obtain rfl := Option.some.inj h
    exact .replied hactor
  · rename_i hactor hqueue
    obtain rfl := Option.some.inj h
    exact .drainedAll hactor hqueue
  · rename_i hactor hqueue
    obtain rfl := Option.some.inj h
    exact .drained hactor hqueue
  · rename_i hactor hqueue
    obtain rfl := Option.some.inj h
    exact .drainedStop hactor hqueue
  · rename_i hactor
    obtain rfl := Option.some.inj h
    exact .refused hactor
  · rename_i hactor
    obtain rfl := Option.some.inj h
    exact .left hactor
  · cases h

theorem moves_of_respond {response : Reply} (h : s.respond response = some s') :
    Moves s (.Respond response) s' := by
  unfold respond at h
  split at h
  · rename_i hactor
    obtain rfl := Option.some.inj h
    exact .responded hactor
  · cases h

theorem moves_of_fail {error : SupervisorError} (h : s.fail error = some s') :
    Moves s (.Fail error) s' := by
  unfold fail at h
  split at h
  · rename_i hactor
    obtain rfl := Option.some.inj h
    exact .failed hactor
  · cases h

theorem moves_of_step (h : s.step e = some s') : Moves s e s' := by
  cases e with
  | Call request identity =>
    obtain rfl := Option.some.inj h
    exact moves_of_call
  | Load n => exact moves_of_load h
  | Send n => exact moves_of_send h
  | Receive n => exact moves_of_receive h
  | Stop =>
    obtain rfl := Option.some.inj h
    exact moves_of_stop
  | SendStop k => exact moves_of_sendStop h
  | Lock k => exact moves_of_lock h
  | Join k => exact moves_of_join h
  | Act => exact moves_of_act h
  | Respond response => exact moves_of_respond h
  | Fail error => exact moves_of_fail h

end State

end ProcessExecutor

end dev_env_provider
