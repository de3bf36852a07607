-- The reloads of the dev-env backend: what a loader thread computes from the
-- snapshot that it captured, and the runs of the coordinator with its loaders
-- and workers.
import NixosDockers.DevEnv.SingleFlight

open rust_text results hash_maps

namespace dev_env

/-! ## The loader -/

inductive SnapshotError where
  | Model (source : String)
  | Fingerprint (source : String)
  | GenerationExhausted
  | InvalidWorkspaceRoot (path : String)
  deriving DecidableEq, Repr

def SnapshotError.message : SnapshotError → String
  | .Model source => "snapshot configuration is invalid: " ++ source
  | .Fingerprint source => "snapshot fingerprint failed: " ++ source
  | .GenerationExhausted => "snapshot generation exhausted"
  | .InvalidWorkspaceRoot path => "snapshot workspace root is not absolute: " ++ path

def Generation.next (generation : Generation) : Except SnapshotError Generation :=
  if generation.value.toNat + 1 < UInt64.size then .ok ⟨generation.value + 1⟩
  else .error .GenerationExhausted

/-- A loaded configuration, with what other crates derive from it: the digest of its encoding, the
verdict of its validation and the order of its providers. -/
structure LoadedConfig where
  profile_chain : List String := []
  config : ResolvedConfig
  workspace_root : String
  fingerprint : Except String Fingerprint
  validation : Except String Unit := .ok ()
  provider_order : Except String (List String) := .ok []

/-- `ConfigSnapshot::new`. The check at its end finds the derived fields as they were just made. -/
def ConfigSnapshot.new (generation : Generation) (loaded : LoadedConfig) :
    Except SnapshotError ConfigSnapshot := do
  let config_fingerprint ← loaded.fingerprint.mapError .Fingerprint
  loaded.validation.mapError .Model
  let provider_order ← loaded.provider_order.mapError .Model
  if loaded.workspace_root = "" ∨ !isAbsolute loaded.workspace_root then
    throw (.InvalidWorkspaceRoot loaded.workspace_root)
  pure {
    generation
    config_fingerprint
    profile_chain := loaded.profile_chain
    resolved_config := loaded.config
    shells := loaded.config.shells
    runtime_inputs := loaded.config.inputs
    provider_order
    workspace_root := loaded.workspace_root }

/-- The text of a `CliError::Backend`. -/
def backendError (error : SnapshotError) : String := "DEVENV-E-BACKEND: " ++ error.message

/-- What the thread of `maybe_start_reload` posts, from the snapshot that was current when it was
spawned. The materializer checks a configuration that the snapshot has checked already. -/
def reloadResult (load : Except String LoadedConfig) (current : ConfigSnapshot) :
    Except String (ConfigSnapshot × Materializer) := do
  let loaded ← load
  let generation ← current.generation.next.mapError backendError
  let next ← (ConfigSnapshot.new generation loaded).mapError backendError
  pure (next, { config := next.resolved_config })

/-! ## The system -/

/-- The loaders that some effects start, by the snapshots that they capture. -/
def loaders (effects : List Effect) : List ConfigSnapshot :=
  effects.filterMap fun
    | .SpawnReload current => some current
    | _ => none

/-- What happens next: a worker or a loader posts its result, or another event comes in. -/
inductive Action where
  | Complete (worker : Worker) (result : Except (String × String) Materialization)
  | Load (current : ConfigSnapshot) (load : Except String LoadedConfig)
  | Handle (event : CoordinatorEvent)

def Action.event : Action → CoordinatorEvent
  | .Complete worker result => .PrepareCompleted worker.job.generation worker.job.key result
  | .Load current load => .ReloadCompleted (reloadResult load current)
  | .Handle event => event

/-- The reply of a `Reload` request that is accepted. -/
def acceptedReload (state : BackendState) : CoordinatorEvent → List Reply
  | .Request { request_id := _, request := .Reload _ } peer reply =>
    if state.active_requests < MAX_ACTIVE_REQUESTS ∧ peer.uid = 0 ∧
        state.pending_reload = none ∧ state.control_plane ≠ .Reloading then [reply]
    else []
  | _ => []

/-- The snapshot that a completed reload installs. -/
def installed (state : BackendState) : CoordinatorEvent → List ConfigSnapshot
  | .ReloadCompleted (.ok (snapshot, _)) => if state.pending_reload.isSome then [snapshot] else []
  | _ => []

/-- The coordinator with its workers, the loaders that have not posted yet, the replies of the
accepted reloads and the snapshots that were served, in their order. -/
structure ReloadSystem where
  system : System
  loading : List ConfigSnapshot := []
  accepted : List Reply := []
  served : List ConfigSnapshot

namespace ReloadSystem

def start (config : BackendStateConfig) : ReloadSystem where
  system := .start config
  served := [config.snapshot]

def state (reloads : ReloadSystem) : BackendState := reloads.system.state

/-- Who posts is done. -/
def posted (reloads : ReloadSystem) : Action → ReloadSystem
  | .Complete worker result => { reloads with system := reloads.system.post worker result }
  | .Load current _ => { reloads with loading := reloads.loading.erase current }
  | .Handle _ => reloads

def after (reloads : ReloadSystem) (host : Host) (action : Action) : ReloadSystem where
  system := (reloads.posted action).system.handle host action.event
  loading := (reloads.posted action).loading ++
    loaders (handleEvent host reloads.state action.event).effects
  accepted := reloads.accepted ++ acceptedReload reloads.state action.event
  served := reloads.served ++ installed reloads.state action.event

/-- A worker or a loader posts once, and only they post results; every other event may come in, with
a reply of its own. -/
def Enabled (reloads : ReloadSystem) : Action → Prop
  | .Complete worker _ => worker ∈ reloads.system.running
  | .Load current _ => current ∈ reloads.loading
  | .Handle event =>
    (∀ generation key result, event ≠ .PrepareCompleted generation key result) ∧
    (∀ result, event ≠ .ReloadCompleted result) ∧
    ∀ reply ∈ awaited event, reply ∉ reloads.system.opened

end ReloadSystem

/-- A run of which every step is allowed. -/
inductive ReloadRun (allowed : ReloadSystem → Action → Prop) (first : ReloadSystem) :
    List (Host × Action) → ReloadSystem → Prop
  | nil : ReloadRun allowed first [] first
  | snoc {reloads : ReloadSystem} {actions : List (Host × Action)} (host : Host) (action : Action)
      (h : ReloadRun allowed first actions reloads) (hloop : reloads.system.finished = false)
      (henabled : reloads.Enabled action) (hallowed : allowed reloads action) :
      ReloadRun allowed first (actions ++ [(host, action)]) (reloads.after host action)

/-! ## What one turn does -/

section turns

variable {host : Host} {state : BackendState} {peer : IdentityPeer} {reply : Reply}

@[simp] theorem loaders_append {effects more : List Effect} :
    loaders (effects ++ more) = loaders effects ++ loaders more :=
  List.filterMap_append

theorem loaders_waiters {waiters : List PrepareWaiter}
    {message : PrepareWaiter → BackendResponseMessage} :
    loaders (waiters.map fun waiter => .Respond waiter.reply (message waiter)) = [] := by
  unfold loaders
  rw [List.filterMap_map]
  exact List.filterMap_eq_nil_iff.mpr fun _ _ => rfl

theorem loaders_finishPendingRequests : loaders state.finishPendingRequests.effects = [] :=
  filterMap_finishPendingRequests fun _ _ => rfl

/-- A loader is started for the current snapshot, when nothing is in flight and a reload waits. -/
theorem loaders_maybeStartReload :
    loaders state.maybeStartReload =
      if state.in_flight.entries = [] ∧ state.pending_reload ≠ none then [state.snapshot] else [] := by
  unfold BackendState.maybeStartReload
  split_ifs with hflight hboth hboth
  · exact absurd hboth.1 hflight
  · rfl
  · split
    · next hnone => exact absurd hnone hboth.2
    · rfl
  · split
    · rfl
    · next waiter hsome =>
      refine absurd ⟨not_not.mp hflight, ?_⟩ hboth
      rw [hsome]
      exact Option.some_ne_none _

/-- What a turn does to the reload that waits. -/
inductive ReloadTurned (state : BackendState) : CoordinatorEvent → Turn → Prop
  | Kept {event : CoordinatorEvent} {turn : Turn} (haccepted : acceptedReload state event = [])
      (hpending : turn.state.pending_reload = state.pending_reload)
      (hin_flight : ∀ key ∈ state.in_flight, key ∈ turn.state.in_flight)
      (hloaders : loaders turn.effects = []) : ReloadTurned state event turn
  | Accepted {event : CoordinatorEvent} {turn : Turn} {waiter : ReloadWaiter}
      (haccepted : acceptedReload state event = [waiter.reply])
      (hbefore : state.pending_reload = none) (hpending : turn.state.pending_reload = some waiter)
      (hserving : turn.state.control_plane ≠ .Serving)
      (hloaders : loaders turn.effects = loaders turn.state.maybeStartReload) :
      ReloadTurned state event turn
  | Landed {generation : Generation} {key : MaterializationKey}
      {result : Except (String × String) Materialization} {turn : Turn}
      (hflight : key ∈ state.in_flight)
      (hpending : turn.state.pending_reload = state.pending_reload)
      (hloaders : loaders turn.effects = loaders turn.state.maybeStartReload) :
      ReloadTurned state (.PrepareCompleted generation key result) turn
  | Ended {event : CoordinatorEvent} {turn : Turn} (haccepted : acceptedReload state event = [])
      (hevent : (∃ result, event = .ReloadCompleted result) ∨ ∃ reply, event = .Shutdown reply)
      (hpending : turn.state.pending_reload = none)
      (hanswered : state.reloading ⊆ answered turn.effects) (hloaders : loaders turn.effects = []) :
      ReloadTurned state event turn

theorem Started.reloadTurned {request : BackendRequestMessage} {context : RequestContext}
    {turn : Turn} (hrequest : request.request = .Prepare context)
    (h : Started host { state with active_requests := state.active_requests + 1 }
      request.request_id context peer reply turn) :
    ReloadTurned state (.Request request peer reply) turn := by
  have hnone : acceptedReload state (.Request request peer reply) = [] := by
    obtain ⟨request_id, kind⟩ := request
    obtain rfl : kind = .Prepare context := hrequest
    rfl
  cases h with
  | Refused => exact .Kept hnone rfl (fun _ hkey => hkey) rfl
  | Hit => exact .Kept hnone rfl (fun _ hkey => hkey) rfl
  | Joined => exact .Kept hnone rfl (fun _ hkey => AList.mem_insert _ |>.mpr (Or.inr hkey)) rfl
  | Spawned => exact .Kept hnone rfl (fun _ hkey => AList.mem_insert _ |>.mpr (Or.inr hkey)) rfl

/-- An accepted reload is the pending one from then on, and is loaded at once when nothing is in
flight. -/
theorem reload_reloadTurned (request_id : String) (wait : Bool) :
    ReloadTurned state (.Request { request_id, request := .Reload wait } peer reply)
      (state.handleRequest host { request_id, request := .Reload wait } peer reply) := by
  by_cases hroom : state.active_requests < MAX_ACTIVE_REQUESTS
  case neg =>
    have hfull : state.active_requests + 1 > MAX_ACTIVE_REQUESTS := by omega
    have hnone : acceptedReload state
        (.Request { request_id, request := .Reload wait } peer reply) = [] :=
      if_neg fun h => hroom h.1
    unfold BackendState.handleRequest
    dsimp only
    rw [if_pos hfull]
    exact .Kept hnone rfl (fun _ hkey => hkey) rfl
  have hcounted : ¬ state.active_requests + 1 > MAX_ACTIVE_REQUESTS := by omega
  unfold BackendState.handleRequest BackendState.dispatchRequest BackendState.startReload
  dsimp only
  rw [if_neg hcounted]
  by_cases hroot : peer.uid = 0
  case neg =>
    rw [if_neg hroot]
    exact .Kept (if_neg fun h => hroot h.2.1) rfl (fun _ hkey => hkey) rfl
  rw [if_pos hroot]
  split_ifs with hbusy
  · refine .Kept (if_neg ?_) rfl (fun _ hkey => hkey) rfl
    rintro ⟨-, -, hnone, hserving⟩
    rcases hbusy with hpending | hreloading
    · rw [hnone] at hpending
      cases hpending
    · exact hserving hreloading
  · rw [not_or, Bool.not_eq_true, Option.isSome_eq_false_iff, Option.isNone_iff_eq_none] at hbusy
    have haccepted : acceptedReload state
        (.Request { request_id, request := .Reload wait } peer reply) = [reply] :=
      if_pos ⟨hroom, hroot, hbusy.1, hbusy.2⟩
    exact .Accepted haccepted hbusy.1 rfl (by simp) rfl

theorem request_reloadTurned (request : BackendRequestMessage) :
    ReloadTurned state (.Request request peer reply)
      (state.handleRequest host request peer reply) := by
  obtain ⟨request_id, kind⟩ := request
  cases kind with
  | Reload wait => exact reload_reloadTurned request_id wait
  | Prepare context =>
    unfold BackendState.handleRequest
    dsimp only
    split
    · exact .Kept rfl rfl (fun _ hkey => hkey) rfl
    · exact (startPrepare_started { request_id, request := .Prepare context }).reloadTurned rfl
  | Trust target =>
    unfold BackendState.handleRequest BackendState.dispatchRequest
    dsimp only
    split_ifs <;> exact .Kept rfl rfl (fun _ hkey => hkey) rfl
  | Stop =>
    unfold BackendState.handleRequest BackendState.dispatchRequest
    dsimp only
    split_ifs <;> exact .Kept rfl rfl (fun _ hkey => hkey) rfl
  | _ =>
    unfold BackendState.handleRequest BackendState.dispatchRequest
    dsimp only
    split_ifs <;> exact .Kept rfl rfl (fun _ hkey => hkey) rfl

theorem completed_reloadTurned (generation : Generation) (key : MaterializationKey)
    (result : Except (String × String) Materialization) :
    ReloadTurned state (.PrepareCompleted generation key result)
      (state.prepareCompleted host generation key result) := by
  have hcompleted : Completed host state generation key result _ := prepareCompleted_completed
  generalize state.prepareCompleted host generation key result = turn at hcompleted ⊢
  cases hcompleted with
  | Ignored => exact .Kept rfl rfl (fun _ hkey => hkey) rfl
  | Landed hflight hlanded =>
    refine .Landed ?_ ?_ ?_
    · exact AList.lookup_isSome.mp (Option.isSome_iff_exists.mpr ⟨_, hflight⟩)
    · rw [hlanded]
    · rw [loaders_append, loaders_waiters, List.nil_append]

theorem reloadCompleted_reloadTurned (result : Except String (ConfigSnapshot × Materializer)) :
    ReloadTurned state (.ReloadCompleted result) (state.reloadCompleted result) := by
  unfold BackendState.reloadCompleted
  split
  · exact .Kept rfl rfl (fun _ hkey => hkey) rfl
  · next waiter hpending =>
    have hanswered (message : BackendResponseMessage) :
        state.reloading ⊆ answered [.Respond waiter.reply message] := by
      unfold BackendState.reloading
      rw [hpending]
      exact List.Subset.refl _
    cases result with
    | ok loaded => exact .Ended rfl (Or.inl ⟨_, rfl⟩) rfl (hanswered _) rfl
    | error message => exact .Ended rfl (Or.inl ⟨_, rfl⟩) rfl (hanswered _) rfl

theorem handleEvent_reloadTurned (event : CoordinatorEvent) :
    ReloadTurned state event (handleEvent host state event) := by
  cases event with
  | Request request peer reply => exact request_reloadTurned request
  | PrepareCompleted generation key result => exact completed_reloadTurned generation key result
  | ReloadCompleted result => exact reloadCompleted_reloadTurned result
  | Shutdown reply =>
    have hdrained : Drained state (handleEvent host state (.Shutdown reply)) := by
      cases (shutdown_turned reply : Turned host state _ _) with
      | Drained h => exact h
      | Quiet hevent => exact absurd trivial hevent
    refine .Ended rfl (Or.inr ⟨reply, rfl⟩) hdrained.pending_reload ?_ ?_
    · rw [hdrained.answered]
      exact List.subset_append_right _ _
    · have hkilled : loaders state.stopInitialRuntime = [] := by
        unfold BackendState.stopInitialRuntime
        cases state.initial_pid <;> rfl
      unfold handleEvent
      dsimp only
      split
      · rw [loaders_append, hkilled, loaders_finishPendingRequests]
        rfl
      · rw [loaders_append, loaders_append, hkilled, loaders_finishPendingRequests]
        rfl
  | ConnectionOpened reply =>
    unfold handleEvent
    dsimp only
    split <;> exact .Kept rfl rfl (fun _ hkey => hkey) rfl
  | InitialFinished =>
    unfold handleEvent
    dsimp only
    split <;> exact .Kept rfl rfl (fun _ hkey => hkey) rfl
  | Fail failure_class message =>
    unfold handleEvent BackendState.failWithClass
    dsimp only
    split <;> exact .Kept rfl rfl (fun _ hkey => hkey) rfl
  | _ => exact .Kept rfl rfl (fun _ hkey => hkey) rfl

theorem Turned.snapshot {event : CoordinatorEvent} {turn : Turn} (h : Turned host state event turn)
    (hevent : ∀ result, event ≠ .ReloadCompleted result) :
    turn.state.snapshot = state.snapshot := by
  cases h with
  | Prepare hrequest hroom h => exact h.snapshot
  | Completed h =>
    cases h with
    | Ignored => rfl
    | Landed hflight hlanded => rw [hlanded]
  | Drained h => exact h.snapshot
  | Reloaded => exact absurd rfl (hevent _)
  | Quiet _ h => exact h.snapshot

/-- The snapshot changes only when a completed reload installs another. -/
theorem snapshot_turn (event : CoordinatorEvent) :
    (handleEvent host state event).state.snapshot =
      (installed state event).getLast?.getD state.snapshot := by
  by_cases hreload : ∃ result, event = .ReloadCompleted result
  · obtain ⟨result, rfl⟩ := hreload
    unfold handleEvent BackendState.reloadCompleted installed
    dsimp only
    cases hpending : state.pending_reload with
    | none => cases result <;> rfl
    | some waiter => cases result <;> rfl
  · have hevent (result) : event ≠ .ReloadCompleted result := fun h => hreload ⟨result, h⟩
    have hnone : installed state event = [] := by
      unfold installed
      split
      · exact absurd rfl (hevent _)
      · rfl
    have hturn : Turned host state event (handleEvent host state event) := handleEvent_turned event
    rw [hturn.snapshot hevent, hnone]
    rfl

/-- A failed reload leaves the snapshot and the cache as they were. -/
theorem failed_reload_turn (message : String) :
    (handleEvent host state (.ReloadCompleted (.error message))).state.snapshot = state.snapshot ∧
      (handleEvent host state (.ReloadCompleted (.error message))).state.materialization =
        state.materialization := by
  unfold handleEvent BackendState.reloadCompleted
  dsimp only
  split <;> exact ⟨rfl, rfl⟩

/-- Only a shutdown ends the loop, at once or when the initial runtime finishes after it. -/
theorem finished_turn {event : CoordinatorEvent} (h : (handleEvent host state event).finished = true) :
    (handleEvent host state event).state.pending_reload = none ∨
      event = .InitialFinished ∧ state.pending_shutdown ≠ none ∧
        (handleEvent host state event).state.pending_reload = state.pending_reload := by
  by_cases hinitial : event.OfInitial
  case neg =>
    have hframed : Framed state (handleEvent host state event) := handleEvent_framed hinitial
    rw [hframed.unfinished] at h
    cases h
  cases event with
  | Shutdown reply =>
    cases (shutdown_turned reply : Turned host state _ _) with
    | Drained h => exact Or.inl h.pending_reload
    | Quiet hevent => exact absurd trivial hevent
  | InitialFinished =>
    unfold handleEvent at h ⊢
    dsimp only at h ⊢
    cases hshutdown : state.pending_shutdown with
    | none =>
      rw [hshutdown] at h
      cases h
    | some reply => exact Or.inr ⟨rfl, Option.some_ne_none reply, rfl⟩
  | InitialRunning pid => cases h
  | _ => cases hinitial

/-- A flight after a turn is one of a worker that it spawned, or one that did not land. -/
theorem Turned.covers {event : CoordinatorEvent} {turn : Turn} (h : Turned host state event turn)
    {key : MaterializationKey} (hkey : key ∈ turn.state.in_flight) :
    (∃ job ∈ spawned turn.effects, job.key = key) ∨
      key ∈ state.in_flight ∧
        ∀ generation result, event ≠ .PrepareCompleted generation key result := by
  by_cases hevent : event.EndsFlights
  · cases h with
    | Prepare => cases hevent
    | Completed h =>
      cases h with
      | Ignored hnone =>
        refine Or.inr ⟨hkey, ?_⟩
        rintro _ _ h
        obtain ⟨-, rfl, -⟩ := CoordinatorEvent.PrepareCompleted.inj h
        exact AList.lookup_eq_none.mp hnone hkey
      | Landed hflight hlanded =>
        rw [hlanded] at hkey
        obtain ⟨hne, hin⟩ := AList.mem_erase.mp hkey
        refine Or.inr ⟨hin, ?_⟩
        rintro _ _ h
        obtain ⟨-, rfl, -⟩ := CoordinatorEvent.PrepareCompleted.inj h
        exact hne rfl
    | Drained h =>
      rw [h.in_flight] at hkey
      cases hkey
    | Reloaded => cases hevent
    | Quiet hquiet => exact absurd hevent hquiet
  · rcases List.mem_append.mp ((h.keys hevent).mem_iff.mpr hkey) with hspawned | hold
    · exact Or.inl (List.mem_map.mp hspawned)
    · refine Or.inr ⟨hold, ?_⟩
      rintro generation result rfl
      exact hevent trivial

end turns

/-! ## The results of the loaders -/

theorem Generation.next_ok {generation next : Generation} (h : generation.next = .ok next) :
    next.value.toNat = generation.value.toNat + 1 := by
  unfold Generation.next at h
  split at h
  · next hroom =>
    obtain rfl := Except.ok.inj h
    rw [UInt64.toNat_add]
    exact Nat.mod_eq_of_lt hroom
  · cases h

/-- A loaded configuration has the generation after the captured one. -/
theorem reloadResult_ok {load : Except String LoadedConfig} {current snapshot : ConfigSnapshot}
    {materializer : Materializer} (h : reloadResult load current = .ok (snapshot, materializer)) :
    snapshot.generation.value.toNat = current.generation.value.toNat + 1 ∧
      materializer.config = snapshot.resolved_config := by
  unfold reloadResult at h
  simp only [bind_ok_iff, pure_ok_iff, mapError_ok_iff] at h
  obtain ⟨loaded, -, generation, hnext, next, hmade, hpair⟩ := h
  obtain ⟨rfl, rfl⟩ := Prod.mk.inj hpair
  refine ⟨?_, rfl⟩
  rw [← Generation.next_ok hnext]
  unfold ConfigSnapshot.new at hmade
  simp only [throw_eq, error_bind, ite_error_ok_iff, bind_ok_iff, pure_ok_iff,
    mapError_ok_iff] at hmade
  obtain ⟨_, -, _, -, _, -, -, rfl⟩ := hmade
  rfl

/-! ## What every run keeps -/

/-- Each flight has a worker that runs, and a reload that waits has a flight or a loader. An
accepted reload was answered or waits. -/
structure Reloading (reloads : ReloadSystem) : Prop where
  invariant : Invariant reloads.system
  covered : ∀ key ∈ reloads.state.in_flight, ∃ worker ∈ reloads.system.running,
    worker.job.key = key
  loading : reloads.state.pending_reload ≠ none →
    (∃ key, key ∈ reloads.state.in_flight) ∨ reloads.loading ≠ []
  accepted : ∀ reply ∈ reloads.accepted,
    reply ∈ reloads.system.replies ∨ reply ∈ reloads.state.reloading
  pending : ∀ reply ∈ reloads.state.reloading, reply ∈ reloads.accepted
  current : reloads.served.getLast? = some reloads.state.snapshot

theorem Reloading.start {config : BackendStateConfig}
    (hbuilt : config.materializer.config = config.snapshot.resolved_config) :
    Reloading (.start config) where
  invariant := .start hbuilt
  covered := by
    intro key hkey
    cases hkey
  loading := fun h => absurd rfl h
  accepted := by
    intro reply hreply
    cases hreply
  pending := by
    intro reply hreply
    cases hreply
  current := rfl

section steps

variable {reloads : ReloadSystem} {host : Host} {action : Action}

theorem after_state :
    (reloads.after host action).state = (handleEvent host reloads.state action.event).state := by
  cases action <;> rfl

theorem after_finished :
    (reloads.after host action).system.finished =
      (handleEvent host reloads.state action.event).finished := by
  cases action <;> rfl

theorem after_replies :
    (reloads.after host action).system.replies =
      reloads.system.replies ++ answered (handleEvent host reloads.state action.event).effects := by
  unfold System.replies answered
  rw [← List.map_append]
  cases action <;> rfl

theorem after_running :
    (reloads.after host action).system.running = (reloads.posted action).system.running ++
      (spawned (handleEvent host reloads.state action.event).effects).map
        ({ snapshot := reloads.state.snapshot, job := · }) := by
  cases action <;> rfl

/-- A step of the coordinator with its loaders is one of the coordinator with its workers. -/
theorem ReloadSystem.Enabled.step (h : reloads.Enabled action)
    (hloop : reloads.system.finished = false) :
    Step reloads.system (host, action.event) (reloads.after host action).system := by
  cases action with
  | Complete worker result => exact .Complete host result hloop h
  | Load current load =>
    refine .Other host _ hloop (fun _ _ _ hevent => by cases hevent) ?_ (fun _ hin => by cases hin)
    intro snapshot materializer hevent
    exact (reloadResult_ok (CoordinatorEvent.ReloadCompleted.inj hevent)).2
  | Handle event =>
    obtain ⟨hworker, hloader, hfresh⟩ := h
    exact .Other host event hloop hworker (fun _ _ hevent => absurd hevent (hloader _)) hfresh

theorem Reloading.covered_after (h : Reloading reloads) {key : MaterializationKey}
    (hkey : key ∈ (reloads.after host action).state.in_flight) :
    ∃ worker ∈ (reloads.after host action).system.running, worker.job.key = key := by
  have hturn : Turned host reloads.state action.event
      (handleEvent host reloads.state action.event) := handleEvent_turned action.event
  rw [after_state] at hkey
  rw [after_running]
  rcases hturn.covers hkey with ⟨job, hjob, rfl⟩ | ⟨hold, hother⟩
  · exact ⟨_, List.mem_append_right _ (List.mem_map_of_mem hjob), rfl⟩
  obtain ⟨worker, hworker, rfl⟩ := h.covered key hold
  refine ⟨worker, List.mem_append_left _ ?_, rfl⟩
  cases action with
  | Complete done result =>
    -- A worker for another key is another worker.
    refine (List.mem_erase_of_ne ?_).mpr hworker
    rintro rfl
    exact hother _ _ rfl
  | Load current load => exact hworker
  | Handle event => exact hworker

theorem entries_eq_nil {flights : HashMap MaterializationKey PrepareFlight}
    (h : ¬ ∃ key, key ∈ flights) : flights.entries = [] := by
  rw [List.eq_nil_iff_forall_not_mem]
  intro entry hentry
  exact h ⟨entry.1, List.mem_map_of_mem hentry⟩

theorem reloadCompleted_pending {state : BackendState}
    (result : Except String (ConfigSnapshot × Materializer)) :
    (state.reloadCompleted result).state.pending_reload = none := by
  unfold BackendState.reloadCompleted
  split
  · next hnone => exact hnone
  · split <;> rfl

/-- A reload that waits after a step waits for a flight or for a loader. -/
theorem Reloading.loading_after (h : Reloading reloads)
    (hpending : (reloads.after host action).state.pending_reload ≠ none) :
    (∃ key, key ∈ (reloads.after host action).state.in_flight) ∨
      (reloads.after host action).loading ≠ [] := by
  by_cases hflight : ∃ key, key ∈ (reloads.after host action).state.in_flight
  · exact Or.inl hflight
  have hstarts : loaders (reloads.after host action).state.maybeStartReload ≠ [] := by
    rw [loaders_maybeStartReload, if_pos ⟨entries_eq_nil hflight, hpending⟩]
    simp
  have hposted : (reloads.posted action).loading = reloads.loading := by
    cases action with
    | Load current load => exact absurd (reloadCompleted_pending _) (after_state ▸ hpending)
    | Complete worker result => rfl
    | Handle event => rfl
  have hturn : ReloadTurned reloads.state action.event
      (handleEvent host reloads.state action.event) := handleEvent_reloadTurned action.event
  rw [after_state] at hpending hflight hstarts
  unfold ReloadSystem.after
  dsimp only
  rw [hposted]
  refine Or.inr ?_
  generalize action.event = event at *
  cases hturn with
  | Kept haccepted hsame hin_flight =>
    rw [hsame] at hpending
    rcases h.loading hpending with ⟨key, hkey⟩ | hloading
    · exact absurd ⟨key, hin_flight key hkey⟩ hflight
    · exact fun hnil => hloading (List.append_eq_nil_iff.mp hnil).1
  | Accepted haccepted hbefore hsome hserving hloaders =>
    rw [hloaders]
    exact fun hnil => hstarts (List.append_eq_nil_iff.mp hnil).2
  | Landed hflown hsame hloaders =>
    rw [hloaders]
    exact fun hnil => hstarts (List.append_eq_nil_iff.mp hnil).2
  | Ended haccepted _ hnone => exact absurd hnone hpending

theorem Reloading.accepted_after (h : Reloading reloads) {reply : Reply}
    (hreply : reply ∈ (reloads.after host action).accepted) :
    reply ∈ (reloads.after host action).system.replies ∨
      reply ∈ (reloads.after host action).state.reloading := by
  have hturn : ReloadTurned reloads.state action.event
      (handleEvent host reloads.state action.event) := handleEvent_reloadTurned action.event
  rw [after_replies, after_state]
  unfold ReloadSystem.after at hreply
  dsimp only at hreply
  generalize action.event = event at *
  have hold (hin : reply ∈ reloads.accepted)
      (hkept : reply ∈ reloads.state.reloading →
        reply ∈ answered (handleEvent host reloads.state event).effects ∨
          reply ∈ (handleEvent host reloads.state event).state.reloading) :
      reply ∈ reloads.system.replies ++ answered (handleEvent host reloads.state event).effects ∨
        reply ∈ (handleEvent host reloads.state event).state.reloading := by
    rcases h.accepted reply hin with hanswered | hwaits
    · exact Or.inl (List.mem_append_left _ hanswered)
    · exact (hkept hwaits).imp_left (List.mem_append_right _)
  cases hturn with
  | Kept haccepted hsame =>
    rw [haccepted, List.append_nil] at hreply
    refine hold hreply fun hwaits => Or.inr ?_
    unfold BackendState.reloading
    rwa [hsame]
  | Accepted haccepted hbefore hsome hserving hloaders =>
    rw [haccepted] at hreply
    rcases List.mem_append.mp hreply with hin | hnew
    · refine hold hin fun hwaits => ?_
      unfold BackendState.reloading at hwaits
      rw [hbefore] at hwaits
      cases hwaits
    · unfold BackendState.reloading
      rw [hsome]
      exact Or.inr hnew
  | Landed hflown hsame =>
    refine hold (by simpa [acceptedReload] using hreply) fun hwaits => Or.inr ?_
    unfold BackendState.reloading
    rwa [hsame]
  | Ended haccepted _ hnone hanswered =>
    rw [haccepted, List.append_nil] at hreply
    exact hold hreply fun hwaits => Or.inl (hanswered hwaits)

theorem Reloading.pending_after (h : Reloading reloads) {reply : Reply}
    (hreply : reply ∈ (reloads.after host action).state.reloading) :
    reply ∈ (reloads.after host action).accepted := by
  have hturn : ReloadTurned reloads.state action.event
      (handleEvent host reloads.state action.event) := handleEvent_reloadTurned action.event
  rw [after_state] at hreply
  unfold ReloadSystem.after
  dsimp only
  unfold BackendState.reloading at hreply
  generalize action.event = event at *
  cases hturn with
  | Kept haccepted hsame =>
    rw [hsame] at hreply
    exact List.mem_append_left _ (h.pending reply hreply)
  | Accepted haccepted hbefore hsome hserving hloaders =>
    rw [hsome] at hreply
    rw [haccepted]
    exact List.mem_append_right _ hreply
  | Landed hflown hsame =>
    rw [hsame] at hreply
    exact List.mem_append_left _ (h.pending reply hreply)
  | Ended haccepted _ hnone =>
    rw [hnone] at hreply
    cases hreply

theorem Reloading.current_after (h : Reloading reloads) :
    (reloads.after host action).served.getLast? = some (reloads.after host action).state.snapshot := by
  rw [after_state, snapshot_turn]
  unfold ReloadSystem.after
  dsimp only
  rw [List.getLast?_append, h.current]
  cases (installed reloads.state action.event).getLast? <;> rfl

theorem Reloading.step (h : Reloading reloads) (henabled : reloads.Enabled action)
    (hloop : reloads.system.finished = false) : Reloading (reloads.after host action) where
  invariant := h.invariant.step (henabled.step hloop)
  covered := fun _ hkey => h.covered_after hkey
  loading := h.loading_after
  accepted := fun _ hreply => h.accepted_after hreply
  pending := fun _ hreply => h.pending_after hreply
  current := h.current_after

theorem ReloadRun.reloading {allowed : ReloadSystem → Action → Prop} {first : ReloadSystem}
    {actions : List (Host × Action)} (hrun : ReloadRun allowed first actions reloads)
    (h : Reloading first) : Reloading reloads := by
  induction hrun with
  | nil => exact h
  | snoc host action _ hloop henabled _ ih => exact ih.step henabled hloop

end steps

/-! ## The reload protocol -/

/-- The generation of a snapshot follows that of another one. -/
def Succeeds (old new : ConfigSnapshot) : Prop :=
  new.generation.value.toNat = old.generation.value.toNat + 1

/-- A reload was answered once. Else the loop goes on, and the reload waits for a worker of a flight
or for a loader that runs. -/
def ReloadAnswered (reloads : ReloadSystem) (reply : Reply) : Prop :=
  reloads.system.replies.count reply = 1 ∨
    reloads.system.finished = false ∧ reply ∈ reloads.state.reloading ∧
      ((∃ worker ∈ reloads.system.running, worker.job.key ∈ reloads.state.in_flight) ∨
        reloads.loading ≠ [])

/-- Each snapshot follows the one that it replaced, so that no two share a generation, and each
accepted reload gets one reply. -/
structure ReloadProtocol (reloads : ReloadSystem) : Prop where
  generations : reloads.served.IsChain Succeeds
  distinct : ∀ old ∈ reloads.served, ∀ new ∈ reloads.served, old.generation = new.generation →
    old = new
  answered : ∀ reply ∈ reloads.accepted, ReloadAnswered reloads reply

/-- A configuration that is loaded for a reload comes from a loader that captured the generation
which is still served, and no reload waits when the loop ends with the initial runtime. -/
def KeepsProtocol (reloads : ReloadSystem) : Action → Prop
  | .Load current load => reloads.state.pending_reload ≠ none → (reloadResult load current).isOk →
    current.generation = reloads.state.snapshot.generation
  | .Handle .InitialFinished => reloads.state.pending_shutdown ≠ none →
    reloads.state.pending_reload = none
  | _ => True

section protocol

variable {reloads : ReloadSystem} {host : Host} {action : Action}

theorem Succeeds.lt_of_chain {served : List ConfigSnapshot} (h : served.IsChain Succeeds) :
    served.Pairwise fun old new => old.generation.value.toNat < new.generation.value.toNat := by
  have hlt : served.IsChain fun old new =>
      old.generation.value.toNat < new.generation.value.toNat :=
    h.imp fun old new hsucceeds => by
      unfold Succeeds at hsucceeds
      omega
  have htrans : IsTrans ConfigSnapshot fun old new =>
      old.generation.value.toNat < new.generation.value.toNat := ⟨fun _ _ _ => Nat.lt_trans⟩
  exact hlt.pairwise

/-- No two snapshots of consecutive generations share one. -/
theorem Succeeds.distinct {served : List ConfigSnapshot} (h : served.IsChain Succeeds)
    {old new : ConfigSnapshot} (hold : old ∈ served) (hnew : new ∈ served)
    (hgeneration : old.generation = new.generation) : old = new := by
  have hnodup : (served.map (·.generation)).Nodup := by
    refine List.pairwise_map.mpr ((Succeeds.lt_of_chain h).imp ?_)
    intro old new hlt heq
    rw [heq] at hlt
    exact Nat.lt_irrefl _ hlt
  exact List.inj_on_of_nodup_map hnodup hold hnew hgeneration

theorem installed_snapshot {state : BackendState} {event : CoordinatorEvent}
    {snapshot : ConfigSnapshot} (h : snapshot ∈ installed state event) :
    installed state event = [snapshot] ∧ state.pending_reload ≠ none ∧
      ∃ materializer, event = .ReloadCompleted (.ok (snapshot, materializer)) := by
  unfold installed at h ⊢
  split at h
  · next made materializer =>
    split_ifs at h with hpending
    · obtain rfl := List.mem_singleton.mp h
      refine ⟨if_pos hpending, ?_, materializer, rfl⟩
      rintro hnone
      rw [hnone] at hpending
      cases hpending
    · cases h
  · cases h

/-- What a step serves follows what was served exactly when the loader captured the generation that
was current. -/
theorem Reloading.generations_after (h : Reloading reloads) :
    (reloads.after host action).served.IsChain Succeeds ↔
      reloads.served.IsChain Succeeds ∧
        ∀ snapshot ∈ installed reloads.state action.event,
          Succeeds reloads.state.snapshot snapshot := by
  unfold ReloadSystem.after
  dsimp only
  rw [List.isChain_append, h.current]
  constructor
  · rintro ⟨hserved, -, hnext⟩
    refine ⟨hserved, fun snapshot hsnapshot => ?_⟩
    obtain ⟨heq, -⟩ := installed_snapshot hsnapshot
    rw [heq] at hnext
    exact hnext _ rfl _ rfl
  · rintro ⟨hserved, hnext⟩
    refine ⟨hserved, ?_, ?_⟩
    · cases hinstalled : installed reloads.state action.event with
      | nil => exact .nil
      | cons snapshot rest =>
        have hhead : snapshot ∈ installed reloads.state action.event := by
          rw [hinstalled]
          exact List.mem_cons_self
        rw [← hinstalled, (installed_snapshot hhead).1]
        exact .singleton _
    · intro old hold new hnew
      obtain rfl := Option.some.inj hold
      exact hnext new (List.mem_of_mem_head? hnew)

theorem succeeds_iff_current {load : Except String LoadedConfig} {current snapshot : ConfigSnapshot}
    {materializer : Materializer} (h : reloadResult load current = .ok (snapshot, materializer))
    (old : ConfigSnapshot) : Succeeds old snapshot ↔ current.generation = old.generation := by
  unfold Succeeds
  rw [(reloadResult_ok h).1, Nat.add_right_cancel_iff, UInt64.toNat_inj]
  exact ⟨congrArg Generation.mk, congrArg Generation.value⟩

/-- A reload that waits was not answered yet. -/
theorem Reloading.unanswered (h : Reloading reloads) {reply : Reply}
    (hwaits : reply ∈ reloads.state.reloading) : reply ∉ reloads.system.replies := by
  have hnodup : (reloads.system.replies ++ reloads.state.outstanding).Nodup :=
    h.invariant.balance.nodup_iff.mpr h.invariant.distinct
  exact fun hanswered => (List.nodup_append.mp hnodup).2.2 reply hanswered reply
    (List.mem_append_right _ hwaits) rfl

/-- As long as the loop goes on, and when it ended with no reload that waits, the accepted reloads
are answered. -/
theorem Reloading.answered (h : Reloading reloads)
    (hended : reloads.system.finished = true → reloads.state.pending_reload = none)
    {reply : Reply} (hreply : reply ∈ reloads.accepted) : ReloadAnswered reloads reply := by
  rcases h.accepted reply hreply with hanswered | hwaits
  · exact Or.inl (List.count_eq_one_of_mem h.invariant.replies_nodup hanswered)
  have hpending : reloads.state.pending_reload ≠ none := by
    intro hnone
    unfold BackendState.reloading at hwaits
    rw [hnone] at hwaits
    cases hwaits
  refine Or.inr ⟨?_, hwaits, ?_⟩
  · exact Bool.eq_false_iff.mpr fun hfinished => hpending (hended hfinished)
  · rcases h.loading hpending with ⟨key, hkey⟩ | hloading
    · obtain ⟨worker, hworker, rfl⟩ := h.covered key hkey
      exact Or.inl ⟨worker, hworker, hkey⟩
    · exact Or.inr hloading

/-- A reload that waits when the loop ends is never answered. -/
theorem Reloading.not_answered (h : Reloading reloads) (hfinished : reloads.system.finished = true)
    {waiter : ReloadWaiter} (hpending : reloads.state.pending_reload = some waiter) :
    ∃ reply ∈ reloads.accepted, ¬ ReloadAnswered reloads reply := by
  have hwaits : waiter.reply ∈ reloads.state.reloading := by
    unfold BackendState.reloading
    rw [hpending]
    exact List.mem_singleton_self _
  refine ⟨waiter.reply, h.pending _ hwaits, ?_⟩
  rintro (hcount | ⟨hloop, -⟩)
  · refine h.unanswered hwaits (List.count_pos_iff.mp ?_)
    omega
  · rw [hfinished] at hloop
    cases hloop

/-- A step keeps the protocol exactly when it meets the condition. -/
theorem ReloadProtocol.after_iff (hprotocol : ReloadProtocol reloads) (h : Reloading reloads)
    (henabled : reloads.Enabled action) (hloop : reloads.system.finished = false) :
    ReloadProtocol (reloads.after host action) ↔ KeepsProtocol reloads action := by
  have hafter : Reloading (reloads.after host action) := h.step henabled hloop
  constructor
  · intro hnext
    cases action with
    | Complete worker result => trivial
    | Load current load =>
      intro hpending hok
      obtain ⟨⟨snapshot, materializer⟩, hresult⟩ := exists_of_isOk hok
      refine (succeeds_iff_current hresult reloads.state.snapshot).mp
        ((h.generations_after.mp hnext.generations).2 snapshot ?_)
      unfold Action.event installed
      dsimp only
      rw [hresult]
      dsimp only
      rw [if_pos (Option.isSome_iff_ne_none.mpr hpending)]
      exact List.mem_singleton_self _
    | Handle event =>
      cases event with
      | InitialFinished =>
        intro hshutdown
        by_contra hpending
        obtain ⟨reply, hreply⟩ := Option.ne_none_iff_exists'.mp hshutdown
        obtain ⟨waiter, hwaiter⟩ := Option.ne_none_iff_exists'.mp hpending
        have hfinished : (reloads.after host (.Handle .InitialFinished)).system.finished = true := by
          rw [after_finished]
          unfold Action.event handleEvent
          dsimp only
          rw [hreply]
        have hwaits : (reloads.after host (.Handle .InitialFinished)).state.pending_reload =
            some waiter := by
          rw [after_state]
          unfold Action.event handleEvent
          dsimp only
          rw [hreply]
          exact hwaiter
        obtain ⟨reply, haccepted, hnot⟩ := hafter.not_answered hfinished hwaits
        exact hnot (hnext.answered reply haccepted)
      | _ => trivial
  · intro hkeeps
    have hgenerations : (reloads.after host action).served.IsChain Succeeds := by
      refine h.generations_after.mpr ⟨hprotocol.generations, fun snapshot hsnapshot => ?_⟩
      obtain ⟨-, hpending, materializer, hevent⟩ := installed_snapshot hsnapshot
      cases action with
      | Complete worker result => cases hevent
      | Load current load =>
        have hresult := CoordinatorEvent.ReloadCompleted.inj hevent
        refine (succeeds_iff_current hresult reloads.state.snapshot).mpr (hkeeps hpending ?_)
        rw [hresult]
        rfl
      | Handle event => exact absurd hevent (henabled.2.1 _)
    have hended (hfinished : (reloads.after host action).system.finished = true) :
        (reloads.after host action).state.pending_reload = none := by
      rw [after_finished] at hfinished
      rw [after_state]
      rcases finished_turn hfinished with hnone | ⟨hevent, hshutdown, hsame⟩
      · exact hnone
      rw [hsame]
      cases action with
      | Complete worker result => cases hevent
      | Load current load => cases hevent
      | Handle event =>
        obtain rfl : event = .InitialFinished := hevent
        exact hkeeps hshutdown
    exact ⟨hgenerations, fun _ hold _ hnew heq => Succeeds.distinct hgenerations hold hnew heq,
      fun _ hreply => hafter.answered hended hreply⟩

theorem ReloadProtocol.start (config : BackendStateConfig) : ReloadProtocol (.start config) where
  generations := .singleton _
  distinct := fun _ hold _ hnew _ =>
    (List.mem_singleton.mp hold).trans (List.mem_singleton.mp hnew).symm
  answered := fun _ hreply => by cases hreply

theorem ReloadRun.protocol {config : BackendStateConfig}
    (hbuilt : config.materializer.config = config.snapshot.resolved_config)
    {actions : List (Host × Action)} (hrun : ReloadRun KeepsProtocol (.start config) actions reloads) :
    ReloadProtocol reloads := by
  induction hrun with
  | nil => exact .start config
  | snoc host action hbefore hloop henabled hallowed ih =>
    exact (ih.after_iff (hbefore.reloading (.start hbuilt)) henabled hloop).mpr hallowed

/-- A loader is started only by a turn that leaves no flight. -/
theorem loaders_turn {state : BackendState} {event : CoordinatorEvent}
    (h : loaders (handleEvent host state event).effects ≠ []) :
    (handleEvent host state event).state.in_flight.entries = [] := by
  have hturn : ReloadTurned state event (handleEvent host state event) :=
    handleEvent_reloadTurned event
  have hstarted (hloaders : loaders (handleEvent host state event).effects =
      loaders (handleEvent host state event).state.maybeStartReload) :
      (handleEvent host state event).state.in_flight.entries = [] := by
    rw [hloaders, loaders_maybeStartReload] at h
    split_ifs at h with hboth
    · exact hboth.1
    · exact absurd rfl h
  cases hturn with
  | Kept _ _ _ hloaders => exact absurd hloaders h
  | Accepted _ _ _ _ hloaders => exact hstarted hloaders
  | Landed _ _ hloaders => exact hstarted hloaders
  | Ended _ _ _ _ hloaders => exact absurd hloaders h

end protocol

/-! ## Runs without a shutdown -/

/-- Until the first shutdown at most one loader runs, for the reload that waits and with the
snapshot that is still served. -/
structure Unstopped (reloads : ReloadSystem) : Prop where
  idle : reloads.state.pending_reload = none → reloads.loading = []
  refusing : reloads.state.pending_reload ≠ none → reloads.state.control_plane ≠ .Serving
  grounded : reloads.loading ≠ [] → reloads.state.in_flight.entries = []
  single : reloads.loading.length ≤ 1
  captured : ∀ current ∈ reloads.loading, current = reloads.state.snapshot

section unstopped

variable {host : Host} {reloads : ReloadSystem} {action : Action}

/-- A control plane that does not serve starts no flight. -/
theorem Turned.grounded {state : BackendState} {event : CoordinatorEvent} {turn : Turn}
    (h : Turned host state event turn) (hserving : state.control_plane ≠ .Serving)
    (hnone : state.in_flight.entries = []) : turn.state.in_flight.entries = [] := by
  cases h with
  | Prepare hrequest hroom h =>
    cases h with
    | Refused => exact hnone
    | Hit htarget => exact hnone
    | Joined htarget => exact absurd (prepareTarget_ok htarget).serving hserving
    | Spawned htarget => exact absurd (prepareTarget_ok htarget).serving hserving
  | Completed h =>
    cases h with
    | Ignored => exact hnone
    | Landed hflight hlanded =>
      have hin := AList.lookup_isSome.mp (Option.isSome_iff_exists.mpr ⟨_, hflight⟩)
      rw [AList.mem_keys] at hin
      unfold AList.keys at hin
      rw [hnone] at hin
      cases hin
  | Drained h => rw [h.in_flight]; rfl
  | Reloaded hpending hstate => rw [hstate]; exact hnone
  | Quiet hevent h => rw [h.in_flight]; exact hnone

theorem Unstopped.start (config : BackendStateConfig) : Unstopped (.start config) where
  idle := fun _ => rfl
  refusing := fun h => absurd rfl h
  grounded := fun h => absurd rfl h
  single := Nat.zero_le 1
  captured := fun _ h => by cases h

theorem Unstopped.refusing_after (h : Unstopped reloads)
    (hpending : (reloads.after host action).state.pending_reload ≠ none) :
    (reloads.after host action).state.control_plane ≠ .Serving := by
  intro hserving
  rw [after_state] at hpending hserving
  have hturn : ReloadTurned reloads.state action.event
      (handleEvent host reloads.state action.event) := handleEvent_reloadTurned action.event
  have hbefore : reloads.state.control_plane = .Serving := by
    rcases serving_turn hserving with hbefore | ⟨result, hevent, -⟩
    · exact hbefore
    · rw [hevent] at hpending
      exact absurd (reloadCompleted_pending result) hpending
  have hnone : reloads.state.pending_reload = none := by
    by_contra hsome
    exact h.refusing hsome hbefore
  generalize action.event = event at *
  cases hturn with
  | Kept _ hsame => exact hpending (hsame.trans hnone)
  | Accepted _ _ _ hnot => exact hnot hserving
  | Landed _ hsame => exact hpending (hsame.trans hnone)
  | Ended _ _ hended => exact hpending hended

theorem Unstopped.of_idle (hloading : reloads.loading = [])
    (hrefusing : reloads.state.pending_reload ≠ none → reloads.state.control_plane ≠ .Serving) :
    Unstopped reloads where
  idle := fun _ => hloading
  refusing := hrefusing
  grounded := fun h => absurd hloading h
  single := by simp [hloading]
  captured := by simp [hloading]

/-- A loader that is started when none runs is the only one. -/
theorem Unstopped.of_started (hloading : reloads.loading = loaders reloads.state.maybeStartReload)
    (hrefusing : reloads.state.pending_reload ≠ none → reloads.state.control_plane ≠ .Serving) :
    Unstopped reloads := by
  rw [loaders_maybeStartReload] at hloading
  split_ifs at hloading with hboth
  · exact {
      idle := fun hnone => absurd hnone hboth.2
      refusing := hrefusing
      grounded := fun _ => hboth.1
      single := by simp [hloading]
      captured := by simp [hloading] }
  · exact .of_idle hloading hrefusing

theorem Unstopped.step (h : Unstopped reloads) (henabled : reloads.Enabled action)
    (hshutdown : ∀ reply, action.event ≠ .Shutdown reply) : Unstopped (reloads.after host action) := by
  have hrefusing (hpending : (reloads.after host action).state.pending_reload ≠ none) :
      (reloads.after host action).state.control_plane ≠ .Serving := h.refusing_after hpending
  have hreloads : ReloadTurned reloads.state action.event
      (handleEvent host reloads.state action.event) := handleEvent_reloadTurned action.event
  have hturn : Turned host reloads.state action.event
      (handleEvent host reloads.state action.event) := handleEvent_turned action.event
  have hloading : (reloads.after host action).loading = (reloads.posted action).loading ++
      loaders (handleEvent host reloads.state action.event).effects := rfl
  by_cases hload : ∃ current load, action = .Load current load
  · obtain ⟨current, load, rfl⟩ := hload
    refine .of_idle ?_ hrefusing
    have hnone : loaders (handleEvent host reloads.state (Action.Load current load).event).effects
        = [] := by
      generalize hevent : (Action.Load current load).event = event at *
      cases hreloads with
      | Kept _ _ _ hloaders => exact hloaders
      | Accepted haccepted => subst hevent; cases haccepted
      | Landed => cases hevent
      | Ended _ _ _ _ hloaders => exact hloaders
    rw [hloading, hnone, List.append_nil]
    refine List.eq_nil_of_length_eq_zero ?_
    have hlength := List.length_erase_of_mem henabled
    have hsingle := h.single
    unfold ReloadSystem.posted
    dsimp only
    omega
  have hposted : (reloads.posted action).loading = reloads.loading := by
    cases action with
    | Load current load => exact absurd ⟨current, load, rfl⟩ hload
    | Complete worker result => rfl
    | Handle event => rfl
  have hreload : ∀ result, action.event ≠ .ReloadCompleted result := by
    intro result hevent
    cases action with
    | Load current load => exact hload ⟨current, load, rfl⟩
    | Complete worker result => cases hevent
    | Handle event => exact henabled.2.1 result hevent
  rw [hposted] at hloading
  have hstate : (reloads.after host action).state =
      (handleEvent host reloads.state action.event).state := after_state
  generalize action.event = event at hreloads hturn hshutdown hreload hloading hstate
  cases hreloads with
  | Kept _ hsame _ hloaders =>
    rw [hloaders, List.append_nil] at hloading
    constructor
    case idle =>
      rw [hstate, hsame, hloading]
      exact h.idle
    case refusing => exact hrefusing
    case grounded =>
      rw [hstate, hloading]
      intro hsome
      exact hturn.grounded (h.refusing fun hnone => hsome (h.idle hnone)) (h.grounded hsome)
    case single =>
      rw [hloading]
      exact h.single
    case captured =>
      rw [hstate, hloading, hturn.snapshot hreload]
      exact h.captured
  | Accepted _ hbefore _ _ hloaders =>
    refine .of_started ?_ hrefusing
    rw [hloading, h.idle hbefore, hloaders, hstate]
    rfl
  | Landed hflown _ hloaders =>
    refine .of_started ?_ hrefusing
    have hnone : reloads.loading = [] := by
      by_contra hsome
      rw [AList.mem_keys] at hflown
      unfold AList.keys at hflown
      rw [h.grounded hsome] at hflown
      cases hflown
    rw [hloading, hnone, hloaders, hstate]
    rfl
  | Ended _ hevent =>
    rcases hevent with ⟨result, rfl⟩ | ⟨reply, rfl⟩
    · exact absurd rfl (hreload result)
    · exact absurd rfl (hshutdown reply)

/-- Only a shutdown makes someone wait for the end of the initial runtime. -/
theorem pending_shutdown_turn {state : BackendState} {event : CoordinatorEvent}
    (hshutdown : ∀ reply, event ≠ .Shutdown reply) (hnone : state.pending_shutdown = none) :
    (handleEvent host state event).state.pending_shutdown = none := by
  by_cases hinitial : event.OfInitial
  case neg =>
    have hframed : Framed state (handleEvent host state event) := handleEvent_framed hinitial
    exact hframed.pending_shutdown.trans hnone
  cases event with
  | Shutdown reply => exact absurd rfl (hshutdown reply)
  | InitialFinished =>
    unfold handleEvent
    dsimp only
    rw [hnone]
  | InitialRunning pid => exact hnone
  | _ => cases hinitial

/-- A run in which no shutdown is handled keeps the protocol. -/
theorem ReloadRun.keeps {config : BackendStateConfig} {actions : List (Host × Action)}
    (hrun : ReloadRun (fun _ action => ∀ reply, action.event ≠ .Shutdown reply) (.start config)
      actions reloads) : ReloadRun KeepsProtocol (.start config) actions reloads := by
  suffices h : ReloadRun KeepsProtocol (.start config) actions reloads ∧ Unstopped reloads ∧
      reloads.state.pending_shutdown = none from h.1
  induction hrun with
  | nil => exact ⟨.nil, .start config, rfl⟩
  | snoc host action _ hloop henabled hallowed ih =>
    obtain ⟨hkeeps, hunstopped, hnone⟩ := ih
    refine ⟨.snoc host action hkeeps hloop henabled ?_, hunstopped.step henabled hallowed, ?_⟩
    · cases action with
      | Complete worker result => trivial
      | Load current load =>
        intro _ _
        rw [hunstopped.captured current henabled]
      | Handle event =>
        cases event with
        | InitialFinished => exact fun hsome => absurd hnone hsome
        | _ => trivial
    · rw [after_state]
      exact pending_shutdown_turn hallowed hnone

end unstopped

/-! ## When a reload follows the protocol -/

/-- In every run, a failed reload changes neither the snapshot nor the cache, and a loader is started
only when no materialization is in flight. Runs keep the reload protocol exactly as long as each
loaded configuration comes from a loader that captured the generation still served and no reload
waits when the loop ends; so do all runs without a shutdown. -/
theorem reload_protocol_iff (config : BackendStateConfig)
    (hbuilt : config.materializer.config = config.snapshot.resolved_config) :
    (∀ (reloads : ReloadSystem) (host : Host) (action : Action) (message : String),
      action.event = .ReloadCompleted (.error message) →
        (reloads.after host action).state.snapshot = reloads.state.snapshot ∧
          (reloads.after host action).state.materialization = reloads.state.materialization) ∧
    (∀ (reloads : ReloadSystem) (host : Host) (action : Action),
      loaders (handleEvent host reloads.state action.event).effects ≠ [] →
        (reloads.after host action).state.in_flight.entries = []) ∧
    (∀ actions reloads, ReloadRun KeepsProtocol (.start config) actions reloads →
      ReloadProtocol reloads ∧
        ∀ host action, reloads.Enabled action → reloads.system.finished = false →
          (ReloadProtocol (reloads.after host action) ↔ KeepsProtocol reloads action)) ∧
    (∀ actions reloads,
      ReloadRun (fun _ action => ∀ reply, action.event ≠ .Shutdown reply) (.start config) actions
        reloads → ReloadProtocol reloads) := by
  refine ⟨?_, ?_, ?_, fun actions reloads hrun => hrun.keeps.protocol hbuilt⟩
  · intro reloads host action message hevent
    rw [after_state, hevent]
    exact failed_reload_turn message
  · intro reloads host action hloaders
    rw [after_state]
    exact loaders_turn hloaders
  · intro actions reloads hrun
    have hprotocol : ReloadProtocol reloads := hrun.protocol hbuilt
    have hreloading : Reloading reloads := hrun.reloading (.start hbuilt)
    exact ⟨hprotocol, fun host action henabled hloop =>
      hprotocol.after_iff hreloading henabled hloop⟩

def devLoaded : LoadedConfig where
  config := devSnapshot.resolved_config
  workspace_root := "/workspace"
  fingerprint := .ok (Vector.replicate 32 9)

def devReload (reply : Reply) : Action :=
  .Handle (.Request { request_id := "reload", request := .Reload true } rootPeer reply)

/-- A first reload is loaded and answered with the next generation. -/
theorem first_reload_follows_protocol :
    ∃ reloads, ReloadRun KeepsProtocol (.start devConfig)
        [(devHost, devReload 0), (devHost, .Load devSnapshot (.ok devLoaded))] reloads ∧
      reloads.served.map (·.generation.value) = [1, 2] ∧ ReloadProtocol reloads := by
  have hreload : ReloadRun KeepsProtocol (.start devConfig) [(devHost, devReload 0)] _ :=
    .snoc devHost (devReload 0) .nil rfl
      ⟨nofun, nofun, by simp [ReloadSystem.start, System.start]⟩ trivial
  have hload := hreload.snoc devHost (.Load devSnapshot (.ok devLoaded)) rfl
    (List.mem_singleton_self _) (fun _ _ => rfl)
  exact ⟨_, hload, rfl, ((reload_protocol_iff devConfig rfl).2.2.1 _ _ hload).1⟩

def devInitialRunning : Action := .Handle (.InitialRunning 42)

def devStop (reply : Reply) : Action :=
  .Handle (.Request { request_id := "stop", request := .Stop } rootPeer reply)

def devShutdown (reply : Reply) : Action := .Handle (.Shutdown reply)

/-- The shutdown takes a reload whose loader still runs, so that a later reload is answered by that
loader and the loader of the later one answers a third: two snapshots share a generation. -/
theorem reload_repeats_generation :
    ¬ ∀ config actions reloads, config.materializer.config = config.snapshot.resolved_config →
      ReloadRun (fun _ _ => True) (.start config) actions reloads → ReloadProtocol reloads := by
  intro h
  have hrunning : ReloadRun (fun _ _ => True) (.start devConfig) [(devHost, devInitialRunning)] _ :=
    .snoc devHost devInitialRunning .nil rfl ⟨nofun, nofun, nofun⟩ trivial
  have hfirst := hrunning.snoc devHost (devReload 0) rfl
    ⟨nofun, nofun, by decide⟩ trivial
  have hstop := hfirst.snoc devHost (devStop 1) rfl ⟨nofun, nofun, by decide⟩ trivial
  have hshutdown := hstop.snoc devHost (devShutdown 2) rfl ⟨nofun, nofun, nofun⟩ trivial
  have hsecond := hshutdown.snoc devHost (devReload 3) rfl
    ⟨nofun, nofun, by decide⟩ trivial
  have hlate := hsecond.snoc devHost (.Load devSnapshot (.ok devLoaded)) rfl
    (show devSnapshot ∈ _ by decide) trivial
  have hthird := hlate.snoc devHost (devReload 4) rfl
    ⟨nofun, nofun, by decide⟩ trivial
  have hrepeat := hthird.snoc devHost (.Load devSnapshot (.ok devLoaded)) rfl
    (show devSnapshot ∈ _ by decide) trivial
  have hincreasing : (List.map (fun snapshot : ConfigSnapshot => snapshot.generation.value.toNat)
      _).Pairwise (· < ·) :=
    List.pairwise_map.mpr (Succeeds.lt_of_chain (h devConfig _ _ rfl hrepeat).generations)
  exact absurd hincreasing (by decide)

end dev_env
