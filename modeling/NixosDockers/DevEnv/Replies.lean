-- The replies of the coordinator: every reply that a request hands over is
-- sent in its turn or stays outstanding, until a flight lands, a reload is
-- completed or the backend shuts down.
import NixosDockers.DevEnv.Turns

open hash_maps

namespace dev_env

/-! ## What a turn sends and starts -/

/-- The response messages among some effects. -/
def responses (effects : List Effect) : List (Reply × BackendResponseMessage) :=
  effects.filterMap fun
    | .Respond reply message => some (reply, message)
    | _ => none

/-- The materializations that some effects start. -/
def spawned (effects : List Effect) : List PrepareJob :=
  effects.filterMap fun
    | .SpawnPrepare job => some job
    | _ => none

/-- The replies to which some effects send. -/
def answered (effects : List Effect) : List Reply := (responses effects).map Prod.fst

/-- The replies on which an event makes someone await a response message. -/
def awaited : CoordinatorEvent → List Reply
  | .Request _ _ reply => [reply]
  | .AuthenticationRejected _ _ reply => [reply]
  | .ProtocolRejected _ reply => [reply]
  | _ => []

/-- The replies of a flight. -/
def PrepareFlight.replies (flight : PrepareFlight) : List Reply := flight.waiters.map (·.reply)

namespace BackendState

def waiting (state : BackendState) : List Reply :=
  HashMap.gathered (fun _ flight => flight.replies) state.in_flight

def reloading (state : BackendState) : List Reply := state.pending_reload.toList.map (·.reply)

/-- The replies that are still to be sent. -/
def outstanding (state : BackendState) : List Reply := state.waiting ++ state.reloading

end BackendState

section effects

variable {effects more : List Effect} {reply : Reply} {message : BackendResponseMessage}
  {state : BackendState}

@[simp] theorem responses_append : responses (effects ++ more) = responses effects ++ responses more :=
  List.filterMap_append

@[simp] theorem spawned_append : spawned (effects ++ more) = spawned effects ++ spawned more :=
  List.filterMap_append

@[simp] theorem answered_append : answered (effects ++ more) = answered effects ++ answered more := by
  unfold answered
  rw [responses_append, List.map_append]

@[simp] theorem responses_maybeStartReload : responses state.maybeStartReload = [] := by
  unfold BackendState.maybeStartReload
  split
  · rfl
  · split <;> rfl

@[simp] theorem spawned_maybeStartReload : spawned state.maybeStartReload = [] := by
  unfold BackendState.maybeStartReload
  split
  · rfl
  · split <;> rfl

@[simp] theorem answered_maybeStartReload : answered state.maybeStartReload = [] := by
  unfold answered
  rw [responses_maybeStartReload]
  rfl

theorem responses_waiters {waiters : List PrepareWaiter}
    {message : PrepareWaiter → BackendResponseMessage} :
    responses (waiters.map fun waiter => .Respond waiter.reply (message waiter)) =
      waiters.map fun waiter => (waiter.reply, message waiter) := by
  unfold responses
  rw [List.filterMap_map]
  exact congrFun List.filterMap_eq_map _

theorem spawned_waiters {waiters : List PrepareWaiter}
    {message : PrepareWaiter → BackendResponseMessage} :
    spawned (waiters.map fun waiter => .Respond waiter.reply (message waiter)) = [] := by
  unfold spawned
  rw [List.filterMap_map]
  exact List.filterMap_eq_nil_iff.mpr fun _ _ => rfl

end effects

/-! ## Turns that leave the flights alone -/

/-- A turn that leaves the snapshot, the cache and the flights alone, starts no materialization and
prepares nothing. The new replies are sent or wait for a reload. -/
structure Quiet (state : BackendState) (new : List Reply) (turn : Turn) : Prop where
  in_flight : turn.state.in_flight = state.in_flight
  materialization : turn.state.materialization = state.materialization
  snapshot : turn.state.snapshot = state.snapshot
  spawned : spawned turn.effects = []
  replies : (answered turn.effects ++ turn.state.reloading).Perm (new ++ state.reloading)
  unprepared : ∀ sent ∈ responses turn.effects, ∀ prepared, sent.2.response ≠ .Prepared prepared

section quiet

variable {host : Host} {state : BackendState} {peer : IdentityPeer} {reply : Reply}
  {new : List Reply} {turn : Turn}

theorem Quiet.conserved (h : Quiet state new turn) :
    (answered turn.effects ++ turn.state.outstanding).Perm (new ++ state.outstanding) := by
  have hwaiting : turn.state.waiting = state.waiting := by
    unfold BackendState.waiting
    rw [h.in_flight]
  unfold BackendState.outstanding
  rw [hwaiting]
  calc
    (answered turn.effects ++ (state.waiting ++ turn.state.reloading)).Perm
        (state.waiting ++ (answered turn.effects ++ turn.state.reloading)) :=
      List.perm_append_comm_assoc _ _ _
    List.Perm _ (state.waiting ++ (new ++ state.reloading)) := h.replies.append_left _
    List.Perm _ (new ++ (state.waiting ++ state.reloading)) := List.perm_append_comm_assoc _ _ _

/-- One message that prepares nothing is sent at once. -/
theorem quiet_respond {message : BackendResponseMessage}
    (hmessage : ∀ prepared, message.response ≠ .Prepared prepared) :
    Quiet state [reply] { state, effects := [.Respond reply message] } where
  in_flight := rfl
  materialization := rfl
  snapshot := rfl
  spawned := rfl
  replies := .refl _
  unprepared := by
    intro sent hsent
    rw [List.mem_singleton.mp hsent]
    exact hmessage

theorem quiet_startReload (request_id : String) :
    Quiet state [reply] (state.startReload request_id reply) := by
  unfold BackendState.startReload
  split_ifs with hbusy
  · exact quiet_respond (by simp [BackendState.error])
  · have hnone : state.pending_reload = none := by
      rw [not_or, Bool.not_eq_true, Option.isSome_eq_false_iff, Option.isNone_iff_eq_none] at hbusy
      exact hbusy.1
    refine ⟨rfl, rfl, rfl, spawned_maybeStartReload, ?_, ?_⟩
    · simp [BackendState.reloading, hnone]
    · simp

/-- A request that prepares nothing is answered at once or waits for a reload. -/
theorem quiet_dispatchRequest {request : BackendRequestMessage}
    (hrequest : ∀ context, request.request ≠ .Prepare context) :
    Quiet state [reply] (state.dispatchRequest host request peer reply) := by
  unfold BackendState.dispatchRequest
  cases hkind : request.request with
  | Prepare context => exact absurd hkind (hrequest context)
  | Trust target =>
    dsimp only
    split
    · refine quiet_respond ?_
      unfold BackendState.handleTrust
      dsimp only
      split <;> simp [BackendState.error]
    · exact quiet_respond (by simp [BackendState.unauthorized, BackendState.error])
  | Reload wait =>
    dsimp only
    split
    · exact quiet_startReload _
    · exact quiet_respond (by simp [BackendState.unauthorized, BackendState.error])
  | Stop =>
    dsimp only
    split
    · exact ⟨rfl, rfl, rfl, rfl, .refl _, by simp [responses]⟩
    · exact quiet_respond (by simp [BackendState.unauthorized, BackendState.error])
  | _ => exact quiet_respond (by simp)

/-- The count of the requests does not matter. -/
theorem Quiet.of_counted {active_requests : Nat}
    (h : Quiet { state with active_requests } new turn) : Quiet state new turn :=
  ⟨h.in_flight, h.materialization, h.snapshot, h.spawned, h.replies, h.unprepared⟩

theorem quiet_handleRequest {request : BackendRequestMessage}
    (hrequest : ∀ context, request.request ≠ .Prepare context) :
    Quiet state [reply] (state.handleRequest host request peer reply) := by
  unfold BackendState.handleRequest
  dsimp only
  split
  · exact ⟨rfl, rfl, rfl, rfl, .refl _, by simp [responses, BackendState.error]⟩
  · exact (quiet_dispatchRequest hrequest).of_counted

end quiet

/-! ## What a turn can be -/

/-- What a shutdown does to the flights: they are drained, and all of their waiters answered. -/
structure Drained (state : BackendState) (turn : Turn) : Prop where
  in_flight : turn.state.in_flight = ∅
  pending_reload : turn.state.pending_reload = none
  materialization : turn.state.materialization = state.materialization
  snapshot : turn.state.snapshot = state.snapshot
  spawned : spawned turn.effects = []
  answered : answered turn.effects = state.outstanding
  unprepared : ∀ sent ∈ responses turn.effects, ∀ prepared, sent.2.response ≠ .Prepared prepared

/-- The events that end flights. -/
def CoordinatorEvent.EndsFlights : CoordinatorEvent → Prop
  | .PrepareCompleted _ _ _ => True
  | .Shutdown _ => True
  | _ => False

/-- What the turn of an event can be. -/
inductive Turned (host : Host) (state : BackendState) : CoordinatorEvent → Turn → Prop
  | Prepare {request : BackendRequestMessage} {context : RequestContext} {peer : IdentityPeer}
      {reply : Reply} {turn : Turn} (hrequest : request.request = .Prepare context)
      (hroom : state.active_requests < MAX_ACTIVE_REQUESTS)
      (h : Started host { state with active_requests := state.active_requests + 1 }
        request.request_id context peer reply turn) :
      Turned host state (.Request request peer reply) turn
  | Completed {generation : Generation} {key : MaterializationKey}
      {result : Except (String × String) Materialization} {turn : Turn}
      (h : Completed host state generation key result turn) :
      Turned host state (.PrepareCompleted generation key result) turn
  | Drained {reply : Reply} {turn : Turn} (h : Drained state turn) :
      Turned host state (.Shutdown reply) turn
  | Reloaded {waiter : ReloadWaiter} {snapshot : ConfigSnapshot} {materializer : Materializer}
      {turn : Turn} (hpending : state.pending_reload = some waiter)
      (hstate : turn.state = { state with
        snapshot
        materialization := .new materializer
        control_plane := .Serving
        pending_reload := none })
      (heffects : turn.effects = [.Respond waiter.reply {
        request_id := waiter.request_id
        response := .Reloaded snapshot.generation snapshot.config_fingerprint }]) :
      Turned host state (.ReloadCompleted (.ok (snapshot, materializer))) turn
  | Quiet {event : CoordinatorEvent} {turn : Turn} (hevent : ¬ event.EndsFlights)
      (h : Quiet state (awaited event) turn) : Turned host state event turn

section turned

variable {host : Host} {state : BackendState}

/-- A turn that sends no response message and does not reload. -/
theorem quiet_silent {turn : Turn} (hin_flight : turn.state.in_flight = state.in_flight)
    (hmaterialization : turn.state.materialization = state.materialization)
    (hsnapshot : turn.state.snapshot = state.snapshot)
    (hpending : turn.state.pending_reload = state.pending_reload)
    (hspawned : spawned turn.effects = []) (hresponses : responses turn.effects = []) :
    Quiet state [] turn := by
  refine ⟨hin_flight, hmaterialization, hsnapshot, hspawned, ?_, ?_⟩
  · unfold answered BackendState.reloading
    rw [hresponses, hpending]
    exact .refl _
  · simp [hresponses]

theorem responses_finishPendingRequests :
    responses state.finishPendingRequests.effects =
      HashMap.gathered (fun _ flight => flight.waiters.map fun waiter =>
        (waiter.reply, state.stoppingError waiter.route.request_id)) state.in_flight ++
      (state.pending_reload.toList.map fun waiter =>
        (waiter.reply, state.stoppingError waiter.request_id)) := by
  unfold BackendState.finishPendingRequests
  rw [responses_append]
  congr 1
  · unfold responses
    rw [HashMap.filterMap_gathered]
    congr 1
    funext _ flight
    exact responses_waiters
  · cases state.pending_reload <;> rfl

/-- The waiters are only sent responses. -/
theorem filterMap_finishPendingRequests {α : Type} {select : Effect → Option α}
    (hselect : ∀ reply message, select (.Respond reply message) = none) :
    state.finishPendingRequests.effects.filterMap select = [] := by
  unfold BackendState.finishPendingRequests
  rw [List.filterMap_append, HashMap.filterMap_gathered]
  have hflights : HashMap.gathered (fun (_ : MaterializationKey) (flight : PrepareFlight) =>
      (flight.waiters.map fun waiter => Effect.Respond waiter.reply
        (state.stoppingError waiter.route.request_id)).filterMap select) state.in_flight = [] := by
    refine List.flatMap_eq_nil_iff.mpr fun entry _ => ?_
    dsimp only
    rw [List.filterMap_map]
    exact List.filterMap_eq_nil_iff.mpr fun waiter _ => hselect _ _
  rw [hflights, List.nil_append]
  cases state.pending_reload with
  | none => rfl
  | some waiter => exact List.filterMap_cons_none (hselect _ _)

theorem drained_finishPendingRequests : Drained state state.finishPendingRequests where
  in_flight := rfl
  pending_reload := rfl
  materialization := rfl
  snapshot := rfl
  spawned := filterMap_finishPendingRequests fun _ _ => rfl
  answered := by
    unfold answered
    rw [responses_finishPendingRequests, List.map_append, HashMap.map_gathered]
    unfold BackendState.outstanding BackendState.waiting BackendState.reloading
    congr 1
    · congr 1
      funext _ flight
      rw [List.map_map]
      rfl
    · rw [List.map_map]
      rfl
  unprepared := by
    intro sent hsent prepared
    rw [responses_finishPendingRequests, List.mem_append, HashMap.mem_gathered] at hsent
    rcases hsent with ⟨_, flight, _, hin⟩ | hin
    · obtain ⟨waiter, -, rfl⟩ := List.mem_map.mp hin
      simp [BackendState.stoppingError, BackendState.error]
    · obtain ⟨waiter, -, rfl⟩ := List.mem_map.mp hin
      simp [BackendState.stoppingError, BackendState.error]

theorem reloadCompleted_turned (result : Except String (ConfigSnapshot × Materializer)) :
    Turned host state (.ReloadCompleted result) (state.reloadCompleted result) := by
  unfold BackendState.reloadCompleted
  cases hpending : state.pending_reload with
  | none => exact .Quiet id (quiet_silent rfl rfl rfl rfl rfl rfl)
  | some waiter =>
    cases result with
    | ok loaded => exact .Reloaded hpending rfl rfl
    | error message =>
      refine .Quiet id ⟨rfl, rfl, rfl, rfl, ?_, by simp [responses, BackendState.error]⟩
      simp [answered, responses, BackendState.reloading, hpending, awaited]

theorem shutdown_turned (reply : Reply) :
    Turned host state (.Shutdown reply) (handleEvent host state (.Shutdown reply)) := by
  obtain ⟨h₁, h₂, h₃, h₄, h₅, h₆, h₇⟩ : Drained state state.finishPendingRequests :=
    drained_finishPendingRequests
  have hkilled : responses state.stopInitialRuntime = [] ∧ spawned state.stopInitialRuntime = [] := by
    unfold BackendState.stopInitialRuntime
    cases state.initial_pid <;> exact ⟨rfl, rfl⟩
  have hresponses (summary : RunSummary) : responses [.Summary reply summary] = [] := rfl
  have hspawned (summary : RunSummary) : spawned [.Summary reply summary] = [] := rfl
  refine .Drained ?_
  unfold handleEvent
  dsimp only
  split
  · refine ⟨h₁, h₂, h₃, h₄, ?_, ?_, ?_⟩
    · rw [spawned_append, hkilled.2, h₅]
      rfl
    · unfold answered
      rw [responses_append, hkilled.1]
      exact h₆
    · rw [responses_append, hkilled.1]
      exact h₇
  · refine ⟨h₁, h₂, h₃, h₄, ?_, ?_, ?_⟩
    · rw [spawned_append, spawned_append, hkilled.2, h₅, hspawned]
      rfl
    · unfold answered
      rw [responses_append, responses_append, hkilled.1, hresponses, List.append_nil]
      exact h₆
    · rw [responses_append, responses_append, hkilled.1, hresponses, List.append_nil]
      exact h₇

theorem request_turned (request : BackendRequestMessage) (peer : IdentityPeer) (reply : Reply) :
    Turned host state (.Request request peer reply)
      (state.handleRequest host request peer reply) := by
  by_cases hprepare : ∃ context, request.request = .Prepare context
  · obtain ⟨context, hrequest⟩ := hprepare
    unfold BackendState.handleRequest
    dsimp only
    split
    · refine .Quiet id ⟨rfl, rfl, rfl, rfl, .refl _, by simp [responses, BackendState.error]⟩
    · rename_i hroom
      refine .Prepare hrequest (by omega) ?_
      unfold BackendState.dispatchRequest
      rw [hrequest]
      exact startPrepare_started request
  · exact .Quiet id (quiet_handleRequest fun context h => hprepare ⟨context, h⟩)

theorem handleEvent_turned (event : CoordinatorEvent) :
    Turned host state event (handleEvent host state event) := by
  cases event with
  | Request request peer reply => exact request_turned request peer reply
  | PrepareCompleted generation key result => exact .Completed prepareCompleted_completed
  | ReloadCompleted result => exact reloadCompleted_turned result
  | Shutdown reply => exact shutdown_turned reply
  | AuthenticationRejected request_id peer reply =>
    exact .Quiet id ⟨rfl, rfl, rfl, rfl, .refl _, by simp [handleEvent, responses, BackendState.error]⟩
  | ProtocolRejected version reply =>
    exact .Quiet id (quiet_respond (by simp [protocolMismatchResponse]))
  | ConnectionOpened reply =>
    refine .Quiet id ?_
    unfold handleEvent
    dsimp only
    split <;> exact quiet_silent rfl rfl rfl rfl rfl rfl
  | InitialFinished =>
    refine .Quiet id ?_
    unfold handleEvent
    dsimp only
    split <;> exact quiet_silent rfl rfl rfl rfl rfl rfl
  | Fail failure_class message =>
    refine .Quiet id ?_
    unfold handleEvent BackendState.failWithClass
    dsimp only
    split <;> exact quiet_silent rfl rfl rfl rfl rfl rfl
  | _ => exact .Quiet id (quiet_silent rfl rfl rfl rfl rfl rfl)

end turned

/-! ## The balance of the replies -/

section balance

variable {host : Host} {state : BackendState}

theorem Started.conserved {request_id : String} {context : RequestContext} {peer : IdentityPeer}
    {reply : Reply} {turn : Turn} (h : Started host state request_id context peer reply turn) :
    (answered turn.effects ++ turn.state.outstanding).Perm (reply :: state.outstanding) := by
  cases h with
  | Refused => exact .refl _
  | Hit => exact .refl _
  | Joined htarget hflight =>
    rename_i target flight
    have hold : state.waiting.Perm (flight.replies ++
        HashMap.gathered (fun _ flight => flight.replies)
          (state.in_flight.erase target.job.key)) := HashMap.gathered_erase hflight
    have hjoined : (HashMap.gathered (fun _ flight => PrepareFlight.replies flight)
        (state.in_flight.insert target.job.key { flight with
          waiters := flight.waiters ++ [{ route := target.route, reply, cache_hit := true }] })).Perm
        (reply :: state.waiting) := by
      rw [HashMap.gathered_insert]
      unfold PrepareFlight.replies
      rw [List.map_append, List.append_assoc]
      exact List.perm_middle.trans (hold.symm.cons reply)
    exact hjoined.append_right state.reloading
  | Spawned htarget hnone =>
    rename_i target
    have hspawned : (HashMap.gathered (fun _ flight => PrepareFlight.replies flight)
        (state.in_flight.insert target.job.key {
          generation := target.job.generation
          waiters := [{ route := target.route, reply, cache_hit := false }] })).Perm
        (reply :: state.waiting) := by
      rw [HashMap.gathered_insert_of_none hnone]
      exact .refl _
    exact hspawned.append_right state.reloading

theorem Completed.conserved {generation : Generation} {key : MaterializationKey}
    {result : Except (String × String) Materialization} {turn : Turn}
    (h : Completed host state generation key result turn) :
    (answered turn.effects ++ turn.state.outstanding).Perm state.outstanding := by
  cases h with
  | Ignored => exact .refl _
  | Landed hflight hlanded =>
    rename_i flight landed materialization _ _
    have hold : state.waiting.Perm (flight.replies ++
        HashMap.gathered (fun _ flight => flight.replies) (state.in_flight.erase key)) :=
      HashMap.gathered_erase hflight
    have hanswered : answered ((flight.waiters.map fun waiter =>
        .Respond waiter.reply (landed.completion generation result waiter)) ++
          landed.maybeStartReload) = flight.replies := by
      rw [answered_append, answered_maybeStartReload, List.append_nil]
      unfold answered
      rw [responses_waiters, List.map_map]
      rfl
    rw [hanswered, hlanded]
    exact (List.append_assoc _ _ _ ▸ hold.symm.append_right state.reloading)

/-- The replies of an event and those outstanding before are the ones sent and those outstanding
after it. -/
theorem Turned.conserved {event : CoordinatorEvent} {turn : Turn}
    (h : Turned host state event turn) :
    (answered turn.effects ++ turn.state.outstanding).Perm (awaited event ++ state.outstanding) := by
  cases h with
  | Prepare hrequest hroom h => exact h.conserved
  | Completed h => exact h.conserved
  | Drained h =>
    have hnone : turn.state.outstanding = [] := by
      unfold BackendState.outstanding BackendState.waiting BackendState.reloading
      rw [h.in_flight, h.pending_reload]
      rfl
    rw [h.answered, hnone, List.append_nil]
    exact .refl _
  | Reloaded hpending hstate heffects =>
    rename_i waiter snapshot materializer
    have hbefore : state.outstanding = state.waiting ++ [waiter.reply] := by
      unfold BackendState.outstanding BackendState.reloading
      rw [hpending]
      rfl
    rw [hbefore, hstate, heffects]
    exact (List.append_nil state.waiting).symm ▸ List.perm_append_comm
  | Quiet hevent h => exact h.conserved

end balance

end dev_env
