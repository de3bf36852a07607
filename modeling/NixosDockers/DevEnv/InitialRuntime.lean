-- The thread of the initial runtime (`initial_runtime.rs`) beside the
-- coordinator: it prepares the environment, spawns the child and reports it,
-- and a shutdown can come between any two of its steps.
import NixosDockers.DevEnv.Replies
import NixosDockers.DevEnv.StopFinal

open hash_maps

namespace dev_env

/-! ## The system -/

/-- Where `InitialRuntime::run` is. -/
inductive InitialPhase where
  | Starting
  | AwaitingSnapshot
  | HasSnapshot
  | AwaitingPrepare
  | Answered (response : BackendResponse)
  | Received (response : BackendResponse)
  | Ready
  | Spawned (pid : UInt32)
  | Waiting (pid : UInt32)
  | Exited
  | Done

/-- The process that was spawned. A killed one was sent `SIGTERM` and `SIGKILL` with its group. -/
structure Child where
  pid : UInt32
  exited : Bool := false
  killed : Bool := false
  deriving DecidableEq, Repr

/-- The coordinator with the channel of its events, the thread of the initial runtime, the child
and the summary with which a shutdown was answered. -/
structure InitialSystem where
  state : BackendState
  channel : List CoordinatorEvent := []
  thread : InitialPhase := .Starting
  child : Option Child := none
  finished : Bool := false
  summary : Option RunSummary := none

/-- The channel on which the thread awaits its answers. -/
def initialReply : Reply := 0

/-- The answer of `BackendRuntime::request` when the coordinator is gone. -/
def coordinatorStopped : BackendResponse :=
  .Error {
    error_class := "backend_stopped"
    retryable := true
    message := "backend coordinator has stopped"
    generation := none
    request_id := none }

/-- How a response that prepares nothing fails the backend. `debug` is the text of `{other:?}`. -/
def initialFailure (debug : String) : BackendResponse → CoordinatorEvent
  | .Error error => .Fail error.error_class
    ("initial runtime preparation failed: " ++ error.error_class ++ ": " ++ error.message)
  | _ => .Fail "DEVENV-E-BACKEND"
    ("initial runtime preparation returned an unexpected response: " ++ debug)

/-- What happens next. Other threads send what they like, but nothing in the name of the initial
runtime. -/
inductive InitialAction where
  | Handle (host : Host)
  | Send (event : CoordinatorEvent)
  | AskSnapshot
  | AskPrepare (context : RequestContext) (peer : IdentityPeer)
  | Receive
  | Accept
  | Reject (debug : String)
  | Abandon (message : String)
  | Spawn (pid : UInt32)
  | ReportRunning
  | Exit
  | ReportExited (status : Except String Int)
  | ReportFinished

namespace InitialSystem

def start (config : BackendStateConfig) : InitialSystem where
  state := .new config

/-- The receiver of the channel is gone when the loop ended. -/
def send (system : InitialSystem) (event : CoordinatorEvent) : InitialSystem :=
  if system.finished then system else { system with channel := system.channel ++ [event] }

/-- What the thread gets from a turn. It only listens when it has asked. -/
def deliver (effects : List Effect) : InitialPhase → InitialPhase
  | .AwaitingSnapshot =>
    if effects.any fun | .Snapshot reply _ => reply = initialReply | _ => false then .HasSnapshot
    else .AwaitingSnapshot
  | .AwaitingPrepare =>
    match (responses effects).find? fun sent => sent.1 = initialReply with
    | some (_, message) => .Answered message.response
    | none => .AwaitingPrepare
  | phase => phase

/-- The turn of an event that was taken from the channel. -/
def handle (system : InitialSystem) (host : Host) (event : CoordinatorEvent)
    (rest : List CoordinatorEvent) : InitialSystem :=
  let turn := handleEvent host system.state event
  { state := turn.state
    channel := if turn.finished then [] else rest
    thread := deliver turn.effects system.thread
    child := system.child.map fun child =>
      { child with killed := child.killed || (killed turn.effects).contains child.pid }
    finished := turn.finished
    summary := (summaries turn.effects).head?.or system.summary }

end InitialSystem

/-- What others may send: the events of the initial runtime are its own, and so is its reply. -/
def CoordinatorEvent.OfOthers : CoordinatorEvent → Prop
  | .InitialRunning _ => False
  | .InitialExited _ => False
  | .InitialFinished => False
  | .CurrentSnapshot reply => reply ≠ initialReply
  | event => initialReply ∉ awaited event

open InitialSystem in
inductive InitialStep : InitialSystem → InitialAction → InitialSystem → Prop
  | Handle {system : InitialSystem} {event : CoordinatorEvent} {rest : List CoordinatorEvent}
      (host : Host) (hloop : system.finished = false) (hchannel : system.channel = event :: rest) :
      InitialStep system (.Handle host) (system.handle host event rest)
  | Send {system : InitialSystem} {event : CoordinatorEvent} (hevent : event.OfOthers) :
      InitialStep system (.Send event) (system.send event)
  | AskSnapshot {system : InitialSystem} (hphase : system.thread = .Starting) :
      InitialStep system .AskSnapshot
        { system.send (.CurrentSnapshot initialReply) with thread := .AwaitingSnapshot }
  | AskPrepare {system : InitialSystem} {context : RequestContext} {peer : IdentityPeer}
      (hphase : system.thread = .HasSnapshot) (hloop : system.finished = false) :
      InitialStep system (.AskPrepare context peer) { system.send
        (.Request { request_id := "initial-runtime", request := .Prepare context } peer initialReply)
          with thread := .AwaitingPrepare }
  | AskStopped {system : InitialSystem} {context : RequestContext} {peer : IdentityPeer}
      (hphase : system.thread = .HasSnapshot) (hloop : system.finished = true) :
      InitialStep system (.AskPrepare context peer)
        { system with thread := .Answered coordinatorStopped }
  | Receive {system : InitialSystem} {response : BackendResponse}
      (hphase : system.thread = .Answered response) :
      InitialStep system .Receive { system.send .RequestFinished with thread := .Received response }
  | Accept {system : InitialSystem} {prepared : PreparedResponse}
      (hphase : system.thread = .Received (.Prepared prepared)) :
      InitialStep system .Accept { system with thread := .Ready }
  | Reject {system : InitialSystem} {response : BackendResponse} {debug : String}
      (hphase : system.thread = .Received response)
      (hresponse : ∀ prepared, response ≠ .Prepared prepared) :
      InitialStep system (.Reject debug)
        { system.send (initialFailure debug response) with thread := .Done }
  | Abandon {system : InitialSystem} {message : String} (hphase : system.thread = .Ready) :
      InitialStep system (.Abandon message)
        { system.send (.Fail "DEVENV-E-BACKEND" message) with thread := .Done }
  | Spawn {system : InitialSystem} {pid : UInt32} (hphase : system.thread = .Ready) :
      InitialStep system (.Spawn pid)
        { system with thread := .Spawned pid, child := some { pid } }
  | ReportRunning {system : InitialSystem} {pid : UInt32} (hphase : system.thread = .Spawned pid) :
      InitialStep system .ReportRunning
        { system.send (.InitialRunning pid) with thread := .Waiting pid }
  | Exit {system : InitialSystem} {child : Child} (hchild : system.child = some child) :
      InitialStep system .Exit { system with child := some { child with exited := true } }
  -- `wait` returns when the child is gone, with its status or with an error.
  | ReportExited {system : InitialSystem} {pid : UInt32} {child : Child} {exit_code : Int}
      (hphase : system.thread = .Waiting pid) (hchild : system.child = some child)
      (hexited : child.exited = true) :
      InitialStep system (.ReportExited (.ok exit_code))
        { system.send (.InitialExited exit_code) with thread := .Exited }
  | ReportUnknown {system : InitialSystem} {pid : UInt32} {child : Child} {message : String}
      (hphase : system.thread = .Waiting pid) (hchild : system.child = some child)
      (hexited : child.exited = true) :
      InitialStep system (.ReportExited (.error message))
        { system.send (.Fail "DEVENV-E-BACKEND" message) with thread := .Exited }
  | ReportFinished {system : InitialSystem} (hphase : system.thread = .Exited) :
      InitialStep system .ReportFinished { system.send .InitialFinished with thread := .Done }

/-- A run of which every step is allowed. -/
inductive InitialRun (allowed : InitialSystem → InitialAction → Prop) (first : InitialSystem) :
    List InitialAction → InitialSystem → Prop
  | nil : InitialRun allowed first [] first
  | snoc {system next : InitialSystem} {actions : List InitialAction} {action : InitialAction}
      (h : InitialRun allowed first actions system) (hstep : InitialStep system action next)
      (hallowed : allowed system action) : InitialRun allowed first (actions ++ [action]) next

/-! ## The property -/

/-- Once a shutdown was answered, a child that was or will be spawned has exited or was killed. -/
def NoLeak (system : InitialSystem) : Prop :=
  system.summary ≠ none → ∀ child, system.child = some child →
    child.exited = true ∨ child.killed = true

/-- The environment is prepared, and nothing keeps the thread from spawning the child. -/
def InitialPhase.Spawning : InitialPhase → Prop
  | .Answered (.Prepared _) => True
  | .Received (.Prepared _) => True
  | .Ready => True
  | _ => False

/-- The thread is about to spawn a child, or a child runs that was not killed. -/
def Window (system : InitialSystem) : Prop :=
  system.thread.Spawning ∨
    ∃ child, system.child = some child ∧ child.exited = false ∧ child.killed = false

/-- A shutdown that knows of no child is not handled in the window. -/
def Timely (system : InitialSystem) : InitialAction → Prop
  | .Handle _ => ∀ reply rest, system.channel = .Shutdown reply :: rest →
    system.state.initial_pid = none → ¬ Window system
  | _ => True

/-! ## What every run keeps -/

/-- The child is not spawned yet. -/
def InitialPhase.Unborn : InitialPhase → Prop
  | .Spawned _ => False
  | .Waiting _ => False
  | .Exited => False
  | .Done => False
  | _ => True

namespace InitialSystem

/-- The child was spawned with the process id. -/
def Born (system : InitialSystem) (pid : UInt32) : Prop :=
  ∃ child, system.child = some child ∧ child.pid = pid

def Gone (system : InitialSystem) : Prop :=
  ∃ child, system.child = some child ∧ child.exited = true

def Stopped (system : InitialSystem) : Prop :=
  ∃ child, system.child = some child ∧ (child.exited = true ∨ child.killed = true)

end InitialSystem

/-- What the coordinator knows and what is on the way to it is true of the child. When the loop
ended, no child is left. -/
structure Tracked (system : InitialSystem) : Prop where
  unborn : system.thread.Unborn → system.child = none
  reported : ∀ pid, system.state.initial_pid = some pid → system.Born pid
  announced : ∀ pid, .InitialRunning pid ∈ system.channel → system.Born pid
  spawned : ∀ pid, system.thread = .Spawned pid → system.Born pid
  waited : system.thread = .Exited → system.Gone
  ended : .InitialFinished ∈ system.channel → system.Gone
  stopping : system.state.pending_shutdown ≠ none → system.Stopped
  answered : system.summary ≠ none → system.finished = true
  closed : system.finished = true →
    system.child = none ∧ ¬ system.thread.Spawning ∨ system.Stopped

/-- A child keeps its process id, and what happened to it. -/
def Evolves (system next : InitialSystem) : Prop :=
  ∀ child, system.child = some child → ∃ later, next.child = some later ∧ later.pid = child.pid ∧
    (child.exited = true → later.exited = true) ∧ (child.killed = true → later.killed = true)

section evolves

variable {system next : InitialSystem}

theorem Evolves.born (h : Evolves system next) {pid : UInt32} (hborn : system.Born pid) :
    next.Born pid := by
  obtain ⟨child, hchild, rfl⟩ := hborn
  obtain ⟨later, hlater, hpid, -, -⟩ := h child hchild
  exact ⟨later, hlater, hpid⟩

theorem Evolves.gone (h : Evolves system next) (hgone : system.Gone) : next.Gone := by
  obtain ⟨child, hchild, hexited⟩ := hgone
  obtain ⟨later, hlater, -, hlater_exited, -⟩ := h child hchild
  exact ⟨later, hlater, hlater_exited hexited⟩

theorem Evolves.stopped (h : Evolves system next) (hstopped : system.Stopped) : next.Stopped := by
  obtain ⟨child, hchild, hstopped⟩ := hstopped
  obtain ⟨later, hlater, -, hexited, hkilled⟩ := h child hchild
  exact ⟨later, hlater, hstopped.imp hexited hkilled⟩

theorem InitialSystem.Gone.stopped (h : system.Gone) : system.Stopped := by
  obtain ⟨child, hchild, hexited⟩ := h
  exact ⟨child, hchild, Or.inl hexited⟩

end evolves

/-! ## Steps of the thread and of others -/

section steps

variable {system next : InitialSystem} {action : InitialAction}

theorem mem_send {event other : CoordinatorEvent} (h : other ∈ (system.send event).channel) :
    other ∈ system.channel ∨ other = event := by
  unfold InitialSystem.send at h
  split at h
  · exact Or.inl h
  · exact (List.mem_append.mp h).imp_right List.mem_singleton.mp

/-- A step that leaves the coordinator and the child alone, and sends only what is true. -/
theorem Tracked.advance (h : Tracked system) {thread : InitialPhase}
    {channel : List CoordinatorEvent}
    (hunborn : thread.Unborn → system.child = none)
    (hspawned : ∀ pid, thread = .Spawned pid → system.Born pid)
    (hwaited : thread = .Exited → system.Gone)
    (hspawning : ¬ system.thread.Spawning → ¬ thread.Spawning)
    (hrunning : ∀ pid, .InitialRunning pid ∈ channel → system.Born pid)
    (hended : .InitialFinished ∈ channel → system.Gone) :
    Tracked { system with thread, channel } where
  unborn := hunborn
  reported := h.reported
  announced := hrunning
  spawned := hspawned
  waited := hwaited
  ended := hended
  stopping := h.stopping
  answered := h.answered
  closed := fun hfinished => (h.closed hfinished).imp_left fun hleft => ⟨hleft.1, hspawning hleft.2⟩

theorem send_eq (event : CoordinatorEvent) (thread : InitialPhase) :
    { system.send event with thread } =
      { system with thread, channel := (system.send event).channel } := by
  unfold InitialSystem.send
  split <;> rfl

/-- A step of the thread that sends an event. -/
theorem Tracked.send (h : Tracked system) (event : CoordinatorEvent) {thread : InitialPhase}
    (hunborn : thread.Unborn → system.child = none)
    (hspawned : ∀ pid, thread = .Spawned pid → system.Born pid)
    (hwaited : thread = .Exited → system.Gone)
    (hspawning : ¬ system.thread.Spawning → ¬ thread.Spawning)
    (hrunning : ∀ pid, event = .InitialRunning pid → system.Born pid)
    (hended : event = .InitialFinished → system.Gone) :
    Tracked { system.send event with thread } := by
  rw [send_eq]
  refine h.advance hunborn hspawned hwaited hspawning ?_ ?_
  · intro pid hpid
    rcases mem_send hpid with hold | hnew
    · exact h.announced pid hold
    · exact hrunning pid hnew.symm
  · intro hin
    rcases mem_send hin with hold | hnew
    · exact h.ended hold
    · exact hended hnew.symm

theorem Tracked.spawn (h : Tracked system) (hphase : system.thread = .Ready) (pid : UInt32) :
    Tracked { system with thread := .Spawned pid, child := some { pid } } := by
  have hnone : system.child = none := h.unborn (by rw [hphase]; trivial)
  have hnot {p : Child → Prop} : ¬ ∃ child, system.child = some child ∧ p child := by
    rintro ⟨child, hchild, -⟩
    cases hnone.symm.trans hchild
  constructor
  case unborn => exact fun hthread => hthread.elim
  case reported => exact fun other hother => (hnot (h.reported other hother)).elim
  case announced => exact fun other hother => (hnot (h.announced other hother)).elim
  case spawned =>
    intro other hother
    obtain rfl := InitialPhase.Spawned.inj hother
    exact ⟨_, rfl, rfl⟩
  case waited => exact fun hthread => by cases hthread
  case ended => exact fun hin => (hnot (h.ended hin)).elim
  case stopping => exact fun hpending => (hnot (h.stopping hpending)).elim
  case answered => exact h.answered
  case closed =>
    intro hfinished
    rcases h.closed hfinished with ⟨-, hphase'⟩ | hstopped
    · exact absurd (by rw [hphase]; trivial) hphase'
    · exact (hnot hstopped).elim

theorem Tracked.exit (h : Tracked system) {child : Child} (hchild : system.child = some child) :
    Tracked { system with child := some { child with exited := true } } := by
  have hevolves : Evolves system { system with child := some { child with exited := true } } := by
    intro other hother
    obtain rfl := Option.some.inj (hchild.symm.trans hother)
    exact ⟨_, rfl, rfl, fun _ => rfl, id⟩
  constructor
  case unborn =>
    intro hthread
    cases hchild.symm.trans (h.unborn hthread)
  case reported => exact fun pid hpid => hevolves.born (h.reported pid hpid)
  case announced => exact fun pid hpid => hevolves.born (h.announced pid hpid)
  case spawned => exact fun pid hpid => hevolves.born (h.spawned pid hpid)
  case waited => exact fun hthread => hevolves.gone (h.waited hthread)
  case ended => exact fun hin => hevolves.gone (h.ended hin)
  case stopping => exact fun hpending => hevolves.stopped (h.stopping hpending)
  case answered => exact h.answered
  case closed =>
    intro hfinished
    rcases h.closed hfinished with ⟨hnone, -⟩ | hstopped
    · cases hchild.symm.trans hnone
    · exact Or.inr (hevolves.stopped hstopped)

end steps

/-! ## Turns of the coordinator -/

section turns

variable {host : Host} {state : BackendState} {reply : Reply}

/-- A shutdown that knows of the child kills it and lets the loop go on. -/
theorem shutdown_kills {pid : UInt32} (hpid : state.initial_pid = some pid) :
    (handleEvent host state (.Shutdown reply)).finished = false ∧
      (handleEvent host state (.Shutdown reply)).state.initial_pid = some pid ∧
      killed (handleEvent host state (.Shutdown reply)).effects = [pid] ∧
      summaries (handleEvent host state (.Shutdown reply)).effects = [] := by
  have hkilled : killed state.finishPendingRequests.effects = [] :=
    filterMap_finishPendingRequests fun _ _ => rfl
  have hsummaries : summaries state.finishPendingRequests.effects = [] :=
    filterMap_finishPendingRequests fun _ _ => rfl
  unfold handleEvent BackendState.stopInitialRuntime
  simp only [hpid, Option.isSome_some, if_true]
  refine ⟨trivial, hpid, ?_, ?_⟩
  · unfold killed at hkilled ⊢
    rw [List.filterMap_append, hkilled]
    rfl
  · unfold summaries at hsummaries ⊢
    rw [List.filterMap_append, hsummaries]
    rfl

/-- A shutdown that knows of no child ends the loop. -/
theorem shutdown_ends (hnone : state.initial_pid = none) :
    (handleEvent host state (.Shutdown reply)).finished = true ∧
      (handleEvent host state (.Shutdown reply)).state.initial_pid = none ∧
      (handleEvent host state (.Shutdown reply)).state.pending_shutdown =
        state.pending_shutdown ∧
      killed (handleEvent host state (.Shutdown reply)).effects = [] ∧
      summaries (handleEvent host state (.Shutdown reply)).effects ≠ [] := by
  have hkilled : killed state.finishPendingRequests.effects = [] :=
    filterMap_finishPendingRequests fun _ _ => rfl
  unfold handleEvent BackendState.stopInitialRuntime
  simp only [hnone, Option.isSome_none, Bool.false_eq_true, if_false]
  refine ⟨trivial, hnone, rfl, ?_, ?_⟩
  · unfold killed at hkilled ⊢
    rw [List.filterMap_append, List.filterMap_append, hkilled]
    rfl
  · unfold summaries
    rw [List.filterMap_append]
    exact List.append_ne_nil_of_right_ne_nil _ (List.cons_ne_nil _ _)

theorem initialFinished_turn :
    (handleEvent host state .InitialFinished).state.initial_pid = none ∧
      (handleEvent host state .InitialFinished).state.pending_shutdown = none := by
  unfold handleEvent
  dsimp only
  split
  · next hnone => exact ⟨rfl, hnone⟩
  · exact ⟨rfl, rfl⟩

/-- A summary is only sent by the turn that ends the loop. -/
theorem summary_turn {event : CoordinatorEvent}
    (h : summaries (handleEvent host state event).effects ≠ []) :
    (handleEvent host state event).finished = true := by
  by_cases hinitial : event.OfInitial
  case neg =>
    have hframed : Framed state (handleEvent host state event) := handleEvent_framed hinitial
    exact absurd hframed.summaries h
  cases event with
  | InitialRunning pid => exact absurd rfl h
  | InitialFinished =>
    unfold handleEvent at h ⊢
    dsimp only at h ⊢
    split
    · next hnone =>
      rw [hnone] at h
      exact absurd rfl h
    · rfl
  | Shutdown reply =>
    cases hpid : state.initial_pid with
    | none => exact (shutdown_ends hpid).1
    | some pid => exact absurd (shutdown_kills hpid).2.2.2 h
  | _ => cases hinitial

end turns

section handle

variable {system : InitialSystem} {host : Host} {event : CoordinatorEvent}
  {rest : List CoordinatorEvent}

open InitialSystem in
/-- The thread only listens while it waits for an answer. -/
theorem deliver_cases (effects : List Effect) (phase : InitialPhase) :
    deliver effects phase = phase ∨
      phase = .AwaitingSnapshot ∧ deliver effects phase = .HasSnapshot ∨
      phase = .AwaitingPrepare ∧ ∃ sent ∈ responses effects,
        deliver effects phase = .Answered sent.2.response := by
  unfold deliver
  split
  · split_ifs
    · exact Or.inr (Or.inl ⟨rfl, rfl⟩)
    · exact Or.inl rfl
  · split
    · next reply message hfound =>
      exact Or.inr (Or.inr ⟨rfl, _, List.mem_of_find?_eq_some hfound, rfl⟩)
    · exact Or.inl rfl
  · exact Or.inl rfl

theorem handle_child {child : Child} (hchild : system.child = some child) :
    (system.handle host event rest).child = some { child with
      killed := child.killed ||
        (killed (handleEvent host system.state event).effects).contains child.pid } := by
  unfold InitialSystem.handle
  dsimp only
  rw [hchild]
  rfl

theorem handle_evolves : Evolves system (system.handle host event rest) := by
  intro child hchild
  refine ⟨_, handle_child hchild, rfl, id, ?_⟩
  intro hkilled
  dsimp only
  rw [hkilled, Bool.true_or]

theorem handle_child_none (h : system.child = none) :
    (system.handle host event rest).child = none := by
  unfold InitialSystem.handle
  dsimp only
  rw [h]
  rfl

/-- The child of a group that a turn kills was killed. -/
theorem handle_kills {pid : UInt32} (hborn : system.Born pid)
    (hkilled : pid ∈ killed (handleEvent host system.state event).effects) :
    (system.handle host event rest).Stopped := by
  obtain ⟨child, hchild, rfl⟩ := hborn
  refine ⟨_, handle_child hchild, Or.inr ?_⟩
  dsimp only
  rw [List.contains_iff_mem.mpr hkilled, Bool.or_true]

/-- A turn tells the coordinator of a child only when that child was announced. -/
theorem Tracked.reported_handle (h : Tracked system) (hchannel : system.channel = event :: rest)
    {pid : UInt32} (hpid : (system.handle host event rest).state.initial_pid = some pid) :
    system.Born pid := by
  unfold InitialSystem.handle at hpid
  dsimp only at hpid
  by_cases hinitial : event.OfInitial
  case neg =>
    have hframed : Framed system.state (handleEvent host system.state event) :=
      handleEvent_framed hinitial
    exact h.reported pid (hframed.initial_pid.symm.trans hpid)
  cases event with
  | InitialRunning announced =>
    obtain rfl := Option.some.inj hpid
    exact h.announced announced (hchannel ▸ List.mem_cons_self)
  | InitialFinished => cases initialFinished_turn.1.symm.trans hpid
  | Shutdown reply =>
    cases hbefore : system.state.initial_pid with
    | none => cases (shutdown_ends hbefore).2.1.symm.trans hpid
    | some before =>
      obtain rfl := Option.some.inj ((shutdown_kills hbefore).2.1.symm.trans hpid)
      exact h.reported before hbefore
  | _ => cases hinitial

/-- A shutdown waits only for a child that was killed or has exited. -/
theorem Tracked.stopping_handle (h : Tracked system) (hchannel : system.channel = event :: rest)
    (hpending : (system.handle host event rest).state.pending_shutdown ≠ none) :
    (system.handle host event rest).Stopped := by
  have hpending' : (handleEvent host system.state event).state.pending_shutdown ≠ none := hpending
  by_cases hinitial : event.OfInitial
  case neg =>
    have hframed : Framed system.state (handleEvent host system.state event) :=
      handleEvent_framed hinitial
    rw [hframed.pending_shutdown] at hpending'
    exact handle_evolves.stopped (h.stopping hpending')
  cases event with
  | InitialRunning pid => exact handle_evolves.stopped (h.stopping hpending')
  | InitialFinished => exact absurd initialFinished_turn.2 hpending'
  | Shutdown reply =>
    cases hbefore : system.state.initial_pid with
    | none =>
      rw [(shutdown_ends hbefore).2.2.1] at hpending'
      exact handle_evolves.stopped (h.stopping hpending')
    | some pid =>
      refine handle_kills (h.reported pid hbefore) ?_
      rw [(shutdown_kills hbefore).2.2.1]
      exact List.mem_singleton_self pid
  | _ => cases hinitial

/-- A timely turn that ends the loop leaves no child. -/
theorem Tracked.closed_handle (h : Tracked system) (hchannel : system.channel = event :: rest)
    (htimely : Timely system (.Handle host))
    (hfinished : (system.handle host event rest).finished = true) :
    (system.handle host event rest).child = none ∧
        ¬ (system.handle host event rest).thread.Spawning ∨
      (system.handle host event rest).Stopped := by
  have hfinished' : (handleEvent host system.state event).finished = true := hfinished
  by_cases hinitial : event.OfInitial
  case neg =>
    have hframed : Framed system.state (handleEvent host system.state event) :=
      handleEvent_framed hinitial
    cases hframed.unfinished.symm.trans hfinished'
  cases event with
  | InitialRunning pid => cases hfinished'
  | InitialFinished =>
    exact Or.inr (handle_evolves.gone (h.ended (hchannel ▸ List.mem_cons_self))).stopped
  | Shutdown reply =>
    cases hbefore : system.state.initial_pid with
    | some pid => cases (shutdown_kills hbefore).1.symm.trans hfinished'
    | none =>
      have hwindow := htimely reply rest hchannel hbefore
      unfold Window at hwindow
      rw [not_or] at hwindow
      cases hchild : system.child with
      | none =>
        refine Or.inl ⟨handle_child_none hchild, ?_⟩
        have hdrained : Drained system.state (handleEvent host system.state (.Shutdown reply)) := by
          cases (shutdown_turned reply : Turned host system.state _ _) with
          | Drained h => exact h
          | Quiet hevent => exact absurd trivial hevent
        unfold InitialSystem.handle
        dsimp only
        rcases deliver_cases (handleEvent host system.state (.Shutdown reply)).effects
          system.thread with hsame | ⟨-, hsnapshot⟩ | ⟨-, sent, hsent, hanswered⟩
        · rw [hsame]
          exact hwindow.1
        · rw [hsnapshot]
          exact id
        · rw [hanswered]
          have hunprepared := hdrained.unprepared sent hsent
          generalize sent.2.response = response at hunprepared
          cases response with
          | Prepared prepared => exact absurd rfl (hunprepared prepared)
          | _ => exact id
      | some child =>
        refine Or.inr (handle_evolves.stopped ⟨child, hchild, ?_⟩)
        cases hexited : child.exited with
        | true => exact Or.inl rfl
        | false =>
          cases hkilled : child.killed with
          | true => exact Or.inr rfl
          | false => exact absurd ⟨child, hchild, hexited, hkilled⟩ hwindow.2
  | _ => cases hinitial

theorem Tracked.handle (h : Tracked system) (hchannel : system.channel = event :: rest)
    (hloop : system.finished = false) (htimely : Timely system (.Handle host)) :
    Tracked (system.handle host event rest) := by
  have hrest {other : CoordinatorEvent} (hin : other ∈ (system.handle host event rest).channel) :
      other ∈ system.channel := by
    unfold InitialSystem.handle at hin
    dsimp only at hin
    split at hin
    · cases hin
    · rw [hchannel]
      exact List.mem_cons_of_mem _ hin
  have hthread := deliver_cases (handleEvent host system.state event).effects system.thread
  constructor
  case unborn =>
    intro hunborn
    refine handle_child_none (h.unborn ?_)
    rcases hthread with hsame | ⟨hphase, -⟩ | ⟨hphase, -⟩
    · exact hsame ▸ hunborn
    · rw [hphase]; trivial
    · rw [hphase]; trivial
  case reported => exact fun pid hpid => handle_evolves.born (h.reported_handle hchannel hpid)
  case announced => exact fun pid hpid => handle_evolves.born (h.announced pid (hrest hpid))
  case spawned =>
    intro pid hspawned
    have hspawned' : InitialSystem.deliver _ system.thread = .Spawned pid := hspawned
    rcases hthread with hsame | ⟨-, hother⟩ | ⟨-, _, -, hother⟩
    · exact handle_evolves.born (h.spawned pid (hsame.symm.trans hspawned'))
    · cases hother.symm.trans hspawned'
    · cases hother.symm.trans hspawned'
  case waited =>
    intro hwaited
    have hwaited' : InitialSystem.deliver _ system.thread = .Exited := hwaited
    rcases hthread with hsame | ⟨-, hother⟩ | ⟨-, _, -, hother⟩
    · exact handle_evolves.gone (h.waited (hsame.symm.trans hwaited'))
    · cases hother.symm.trans hwaited'
    · cases hother.symm.trans hwaited'
  case ended => exact fun hin => handle_evolves.gone (h.ended (hrest hin))
  case stopping => exact h.stopping_handle hchannel
  case answered =>
    intro hsummary
    have hsummary' : (summaries (handleEvent host system.state event).effects).head?.or
        system.summary ≠ none := hsummary
    cases hsent : summaries (handleEvent host system.state event).effects with
    | nil =>
      rw [hsent] at hsummary'
      have hfinished := h.answered hsummary'
      rw [hloop] at hfinished
      cases hfinished
    | cons summary more => exact summary_turn (by simp [hsent])
  case closed => exact h.closed_handle hchannel htimely

end handle

/-! ## Runs -/

section runs

variable {system next first : InitialSystem} {action : InitialAction}
  {actions : List InitialAction}

theorem Tracked.start (config : BackendStateConfig) : Tracked (.start config) where
  unborn := fun _ => rfl
  reported := fun _ h => by cases h
  announced := fun _ h => by cases h
  spawned := fun _ h => by cases h
  waited := fun h => by cases h
  ended := fun h => by cases h
  stopping := fun h => absurd rfl h
  answered := fun h => absurd rfl h
  closed := fun h => by cases h

theorem Tracked.step (h : Tracked system) (hstep : InitialStep system action next)
    (htimely : Timely system action) : Tracked next := by
  cases hstep with
  | Handle host hloop hchannel => exact h.handle hchannel hloop htimely
  | Send hevent =>
    rename_i event
    have hsent : { system.send event with thread := system.thread } = system.send event := by
      unfold InitialSystem.send
      split <;> rfl
    rw [← hsent]
    refine h.send event h.unborn h.spawned h.waited id ?_ ?_
    · rintro pid rfl
      exact hevent.elim
    · rintro rfl
      exact hevent.elim
  | AskSnapshot hphase =>
    have hnone : system.child = none := h.unborn (by rw [hphase]; trivial)
    exact h.send _ (fun _ => hnone) nofun nofun (fun _ => id) nofun nofun
  | AskPrepare hphase hloop =>
    have hnone : system.child = none := h.unborn (by rw [hphase]; trivial)
    exact h.send _ (fun _ => hnone) nofun nofun (fun _ => id) nofun nofun
  | AskStopped hphase hloop =>
    have hnone : system.child = none := h.unborn (by rw [hphase]; trivial)
    exact h.advance (fun _ => hnone) nofun nofun (fun _ => id) h.announced h.ended
  | Receive hphase =>
    rename_i response
    have hnone : system.child = none := h.unborn (by rw [hphase]; trivial)
    refine h.send _ (fun _ => hnone) nofun nofun ?_ nofun nofun
    rw [hphase]
    cases response <;> exact id
  | Accept hphase =>
    have hnone : system.child = none := h.unborn (by rw [hphase]; trivial)
    refine h.advance (fun _ => hnone) nofun nofun ?_ h.announced h.ended
    rw [hphase]
    exact fun hnot => absurd trivial hnot
  | Reject hphase hresponse =>
    rename_i response debug
    refine h.send _ (fun hunborn => hunborn.elim) nofun nofun (fun _ => id) ?_ ?_
    · cases response <;> nofun
    · cases response <;> nofun
  | Abandon hphase =>
    exact h.send _ (fun hunborn => hunborn.elim) nofun nofun (fun _ => id) nofun nofun
  | Spawn hphase => exact h.spawn hphase _
  | ReportRunning hphase =>
    refine h.send _ (fun hunborn => hunborn.elim) nofun nofun (fun _ => id) ?_ nofun
    intro other hother
    obtain rfl := CoordinatorEvent.InitialRunning.inj hother
    exact h.spawned _ hphase
  | Exit hchild => exact h.exit hchild
  | ReportExited hphase hchild hexited =>
    exact h.send _ (fun hunborn => hunborn.elim) nofun (fun _ => ⟨_, hchild, hexited⟩)
      (fun _ => id) nofun nofun
  | ReportUnknown hphase hchild hexited =>
    exact h.send _ (fun hunborn => hunborn.elim) nofun (fun _ => ⟨_, hchild, hexited⟩)
      (fun _ => id) nofun nofun
  | ReportFinished hphase =>
    exact h.send _ (fun hunborn => hunborn.elim) nofun nofun (fun _ => id) nofun
      (fun _ => h.waited hphase)

theorem InitialRun.tracked (hrun : InitialRun Timely first actions system) (h : Tracked first) :
    Tracked system := by
  induction hrun with
  | nil => exact h
  | snoc _ hstep hallowed ih => exact ih.step hstep hallowed

theorem Tracked.noLeak (h : Tracked system) : NoLeak system := by
  intro hsummary child hchild
  rcases h.closed (h.answered hsummary) with ⟨hnone, -⟩ | ⟨stopped, hstopped, hend⟩
  · cases hchild.symm.trans hnone
  · obtain rfl := Option.some.inj (hchild.symm.trans hstopped)
    exact hend

/-- A run that leaves a child after the shutdown was answered. -/
def Leaks (first : InitialSystem) : Prop :=
  ∃ later last, InitialRun Timely first later last ∧ ¬ NoLeak last

theorem leaks_of_alive (hrun : InitialRun Timely first actions system)
    (hsummary : system.summary ≠ none) {child : Child} (hchild : system.child = some child)
    (hexited : child.exited = false) (hkilled : child.killed = false) : Leaks first := by
  refine ⟨actions, system, hrun, fun h => ?_⟩
  rcases h hsummary child hchild with hgone | hgone
  · rw [hexited] at hgone
    cases hgone
  · rw [hkilled] at hgone
    cases hgone

theorem leaks_of_ready (hrun : InitialRun Timely first actions system)
    (hsummary : system.summary ≠ none) (hphase : system.thread = .Ready) : Leaks first := by
  have hspawn : InitialStep system (.Spawn 1)
      { system with thread := .Spawned 1, child := some { pid := 1 } } := .Spawn hphase
  exact leaks_of_alive (hrun.snoc hspawn trivial) hsummary rfl rfl rfl

theorem leaks_of_received (hrun : InitialRun Timely first actions system)
    (hsummary : system.summary ≠ none) {prepared : PreparedResponse}
    (hphase : system.thread = .Received (.Prepared prepared)) : Leaks first :=
  leaks_of_ready (hrun.snoc (.Accept hphase) trivial) hsummary rfl

/-- A thread whose environment is prepared spawns the child, whatever the coordinator does. -/
theorem leaks_of_spawning (hrun : InitialRun Timely first actions system)
    (hsummary : system.summary ≠ none) (hspawning : system.thread.Spawning) : Leaks first := by
  cases hphase : system.thread with
  | Answered response =>
    rw [hphase] at hspawning
    cases response with
    | Prepared prepared =>
      refine leaks_of_received (hrun.snoc (.Receive hphase) trivial) ?_ rfl
      unfold InitialSystem.send
      split <;> exact hsummary
    | _ => exact hspawning.elim
  | Received response =>
    rw [hphase] at hspawning
    cases response with
    | Prepared prepared => exact leaks_of_received hrun hsummary hphase
    | _ => exact hspawning.elim
  | Ready => exact leaks_of_ready hrun hsummary hphase
  | _ =>
    rw [hphase] at hspawning
    exact hspawning.elim

/-- A shutdown in the window leaks the child. -/
theorem leaks_of_window (host : Host) {reply : Reply} {rest : List CoordinatorEvent}
    (hpid : system.state.initial_pid = none) (hwindow : Window system) :
    Leaks (system.handle host (.Shutdown reply) rest) := by
  obtain ⟨-, -, -, hkilled, hsummaries⟩ :=
    (shutdown_ends hpid : _ ∧ _ ∧ _ ∧ _ ∧ summaries (handleEvent host _ (.Shutdown reply)).effects ≠ _)
  have hsummary : (system.handle host (.Shutdown reply) rest).summary ≠ none := by
    unfold InitialSystem.handle
    dsimp only
    obtain ⟨summary, more, hsent⟩ := List.exists_cons_of_ne_nil hsummaries
    rw [hsent]
    exact Option.some_ne_none summary
  rcases hwindow with hspawning | ⟨child, hchild, hexited, hnot⟩
  · refine leaks_of_spawning .nil hsummary ?_
    unfold InitialSystem.handle
    dsimp only
    rcases deliver_cases (handleEvent host system.state (.Shutdown reply)).effects
      system.thread with hsame | ⟨hphase, -⟩ | ⟨hphase, -⟩
    · rwa [hsame]
    · rw [hphase] at hspawning
      exact hspawning.elim
    · rw [hphase] at hspawning
      exact hspawning.elim
  · refine leaks_of_alive .nil hsummary (handle_child hchild) hexited ?_
    rw [hkilled, hnot]
    rfl

end runs

/-! ## When a shutdown leaves no child -/

/-- In a run in which each shutdown is timely, no child is left once a shutdown was answered. A
shutdown that is not timely can be followed by a run that leaves one. -/
theorem shutdown_leaves_no_child_iff (config : BackendStateConfig) {actions : List InitialAction}
    {system : InitialSystem} (hrun : InitialRun Timely (.start config) actions system) :
    NoLeak system ∧
      ∀ action next, InitialStep system action next →
        ((∀ later last, InitialRun Timely next later last → NoLeak last) ↔
          Timely system action) := by
  have htracked : Tracked system := hrun.tracked (.start config)
  refine ⟨htracked.noLeak, fun action next hstep => ⟨fun hsafe => ?_, fun htimely => ?_⟩⟩
  · by_contra hnot
    cases hstep with
    | Handle host hloop hchannel =>
      refine hnot fun reply rest hshutdown hpid hwindow => ?_
      obtain ⟨rfl, rfl⟩ := List.cons.inj (hchannel.symm.trans hshutdown)
      obtain ⟨later, last, hlater, hleak⟩ := leaks_of_window host hpid hwindow
      exact hleak (hsafe later last hlater)
    | _ => exact hnot trivial
  · intro later last hlater
    exact (hlater.tracked (htracked.step hstep htimely)).noLeak

/-! ## A shutdown between the preparation and the report -/

def initialContext : RequestContext where
  request_id := "initial-runtime"
  mode := .Shell
  cwd := "/workspace"
  shell := "bash"

def initialKey : MaterializationKey where
  generation := .INITIAL
  config_fingerprint := Vector.replicate 32 7
  workspace := "/workspace"
  cwd := "/workspace"
  shell := "bash"
  identity := {
    uid := 1000
    gid := 1000
    user := "dev"
    home := "/home/dev" }
  runtime_inputs := ∅
  ambient_environment := ∅
  provider_detect_fingerprints := ∅

def initialEnvironment : Materialization where
  environment := { config_fingerprint := Vector.replicate 32 7 }

/-- The thread has its environment, and nothing is on the way to the coordinator. -/
theorem initial_prepared :
    ∃ actions system, InitialRun Timely (.start devConfig) actions system ∧
      (∃ prepared, system.thread = .Answered (.Prepared prepared)) ∧ system.child = none ∧
      system.channel = [] ∧ system.finished = false ∧ system.state.initial_pid = none := by
  have hsnapshot : InitialRun Timely (.start devConfig) _ _ := .snoc .nil (.AskSnapshot rfl) trivial
  have hasked := hsnapshot.snoc (.Handle devHost rfl rfl) fun _ _ h => (by cases h)
  have hprepare := hasked.snoc
    (.AskPrepare rfl rfl : InitialStep _ (.AskPrepare initialContext rootPeer) _) trivial
  have hstarted := hprepare.snoc (.Handle devHost rfl rfl) fun _ _ h => (by cases h)
  have hmade : CoordinatorEvent.OfOthers
      (.PrepareCompleted .INITIAL initialKey (.ok initialEnvironment)) := by
    simp [CoordinatorEvent.OfOthers, awaited]
  have hposted := hstarted.snoc (.Send hmade) trivial
  have hdone := hposted.snoc (.Handle devHost rfl rfl) fun _ _ h => (by cases h)
  exact ⟨_, _, hdone, ⟨_, rfl⟩, rfl, rfl, rfl, rfl⟩

theorem InitialRun.weaken {first system : InitialSystem} {actions : List InitialAction}
    (h : InitialRun Timely first actions system) :
    InitialRun (fun _ _ => True) first actions system := by
  induction h with
  | nil => exact .nil
  | snoc _ hstep _ ih => exact ih.snoc hstep trivial

theorem InitialRun.append {allowed : InitialSystem → InitialAction → Prop}
    {first system last : InitialSystem} {actions later : List InitialAction}
    (h : InitialRun allowed first actions system) (hlater : InitialRun allowed system later last) :
    InitialRun allowed first (actions ++ later) last := by
  induction hlater with
  | nil => exact (List.append_nil actions).symm ▸ h
  | snoc _ hstep hallowed ih => exact List.append_assoc _ _ _ ▸ ih.snoc hstep hallowed

/-- The thread after it spawned a child and reported it. -/
theorem initial_running :
    ∃ actions system, InitialRun Timely (.start devConfig) actions system ∧
      system.child = some { pid := 7 } ∧ system.channel = [.RequestFinished, .InitialRunning 7] ∧
      system.finished = false ∧ system.thread = .Waiting 7 := by
  obtain ⟨actions, system, hrun, ⟨prepared, hphase⟩, -, hchannel, hloop, -⟩ := initial_prepared
  have hreceived := hrun.snoc (.Receive hphase) trivial
  have haccepted := hreceived.snoc (.Accept rfl) trivial
  have hspawned := haccepted.snoc (.Spawn rfl : InitialStep _ (.Spawn 7) _) trivial
  have hreported := hspawned.snoc (.ReportRunning rfl) trivial
  refine ⟨_, _, hreported, ?_, ?_, ?_, rfl⟩
  · simp [InitialSystem.send, hloop]
  · simp [InitialSystem.send, hloop, hchannel]
  · simp [InitialSystem.send, hloop]

/-- A shutdown that knows of the running child kills it, and is answered when it has exited. -/
theorem running_child_is_stopped :
    ∃ actions system, InitialRun Timely (.start devConfig) actions system ∧
      system.summary ≠ none ∧ system.child = some { pid := 7, exited := true, killed := true } ∧
      NoLeak system := by
  obtain ⟨actions, system, hrun, hchild, hchannel, hloop, hphase⟩ := initial_running
  obtain ⟨state, channel, thread, child, finished, summary⟩ := system
  obtain rfl : child = _ := hchild
  obtain rfl : channel = _ := hchannel
  obtain rfl : finished = _ := hloop
  obtain rfl : thread = _ := hphase
  have hcounted := hrun.snoc (.Handle devHost rfl rfl) nofun
  have hreported := hcounted.snoc (.Handle devHost rfl rfl) nofun
  have hevent : CoordinatorEvent.OfOthers (.Shutdown 1) := List.not_mem_nil
  have hshutdown := hreported.snoc (.Send hevent) trivial
  have hkilled := hshutdown.snoc (.Handle devHost rfl rfl) fun _ _ _ hnone => by cases hnone
  have hexited := hkilled.snoc (.Exit rfl) trivial
  have hwaited := hexited.snoc (@InitialStep.ReportExited _ 7
    { pid := 7, exited := true, killed := true } 143 rfl rfl rfl) trivial
  have hfinished := hwaited.snoc (.ReportFinished rfl) trivial
  have htold := hfinished.snoc (.Handle devHost rfl rfl) nofun
  have hended := htold.snoc (.Handle devHost rfl rfl) nofun
  exact ⟨_, _, hended, nofun, rfl, (shutdown_leaves_no_child_iff devConfig hended).1⟩

/-- The thread has its environment when the shutdown is answered, and spawns the child after it. -/
theorem shutdown_leaves_child :
    ¬ ∀ config actions system, InitialRun (fun _ _ => True) (.start config) actions system →
      NoLeak system := by
  intro h
  obtain ⟨actions, system, hrun, ⟨prepared, hphase⟩, -, hchannel, hloop, hpid⟩ := initial_prepared
  have hevent : CoordinatorEvent.OfOthers (.Shutdown 1) := List.not_mem_nil
  have hsent := hrun.weaken.snoc (.Send hevent) trivial
  have hsent_channel : (system.send (.Shutdown 1)).channel = [.Shutdown 1] := by
    simp [InitialSystem.send, hloop, hchannel]
  have hsent_loop : (system.send (.Shutdown 1)).finished = false := by
    simp [InitialSystem.send, hloop]
  have hsent_pid : (system.send (.Shutdown 1)).state.initial_pid = none := by
    simp [InitialSystem.send, hloop, hpid]
  have hwindow : Window (system.send (.Shutdown 1)) := by
    refine Or.inl ?_
    simp [InitialSystem.send, hloop, hphase, InitialPhase.Spawning]
  have hended := hsent.snoc (.Handle devHost hsent_loop hsent_channel) trivial
  obtain ⟨later, last, hlater, hleak⟩ := leaks_of_window devHost hsent_pid hwindow
  exact hleak (h devConfig _ last (hended.append hlater.weaken))

end dev_env
