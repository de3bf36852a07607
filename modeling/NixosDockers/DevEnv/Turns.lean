-- What one turn of the coordinator can do: how a `Prepare` request ends, which
-- replies a turn sends and which it leaves outstanding.
import NixosDockers.Lib.Results
import NixosDockers.DevEnv.Coordinator

open hash_maps results

namespace dev_env

/-! ## The start of a `Prepare` -/

section start

variable {host : Host} {state : BackendState} {request_id : String} {context : RequestContext}
  {peer : IdentityPeer} {reply : Reply}

/-- What an accepted `Prepare` asks for is asked of the current snapshot. -/
structure TargetOf (state : BackendState) (request_id : String)
    (target : BackendState.PrepareTarget) : Prop where
  serving : state.control_plane = .Serving
  request_id : target.route.request_id = request_id
  snapshot : target.route.snapshot = state.snapshot
  generation : target.job.generation = state.snapshot.generation
  materializer : target.job.materializer = state.materialization.materializer
  key_generation : target.job.key.generation = state.snapshot.generation
  key_fingerprint : target.job.key.config_fingerprint = state.snapshot.config_fingerprint

theorem prepareKey_ok {snapshot : ConfigSnapshot} {identity : EffectiveIdentity}
    {key : MaterializationKey}
    (h : BackendState.prepareKey host snapshot context identity = .ok key) :
    key.generation = snapshot.generation ∧
      key.config_fingerprint = snapshot.config_fingerprint := by
  unfold BackendState.prepareKey MaterializationKeyBuilder.build at h
  simp only [bind_ok_iff, pure_ok_iff] at h
  obtain ⟨-, -, rfl⟩ := h
  exact ⟨rfl, rfl⟩

theorem refusal_eq_none_iff {control_plane : ControlPlaneState} :
    BackendState.refusal control_plane = none ↔ control_plane = .Serving := by
  cases control_plane <;> simp [BackendState.refusal]

theorem prepareTarget_ok {target : BackendState.PrepareTarget}
    (h : state.prepareTarget host request_id context peer = .ok target) :
    TargetOf state request_id target := by
  unfold BackendState.prepareTarget at h
  cases hrefusal : BackendState.refusal state.control_plane with
  | some refused =>
    rw [hrefusal] at h
    cases h
  | none =>
    simp only [hrefusal, throw_eq, error_bind, bind_ok_iff, ite_error_ok_iff,
      mapError_ok_iff] at h
    obtain ⟨-, -, -, identity, -, key, hkey, h⟩ := h
    obtain ⟨hgeneration, hfingerprint⟩ := prepareKey_ok hkey
    split at h
    · cases h
    · obtain rfl := Except.ok.inj h
      exact ⟨refusal_eq_none_iff.mp hrefusal, rfl, rfl, rfl, rfl, hgeneration, hfingerprint⟩

/-- Every refusal of a `Prepare` is an error response. -/
theorem prepareTarget_error {response : BackendResponseMessage}
    (h : state.prepareTarget host request_id context peer = .error response) :
    ∃ error_class message retryable,
      response = state.error request_id error_class message retryable := by
  unfold BackendState.prepareTarget at h
  cases hrefusal : BackendState.refusal state.control_plane with
  | some refused =>
    rw [hrefusal] at h
    exact ⟨_, _, _, (Except.error.inj h).symm⟩
  | none =>
    simp only [hrefusal, throw_eq, error_bind] at h
    split_ifs at h
    · exact ⟨_, _, _, (Except.error.inj h).symm⟩
    · exact ⟨_, _, _, (Except.error.inj h).symm⟩
    · exact ⟨_, _, _, (Except.error.inj h).symm⟩
    · simp only [bind_error_iff, mapError_error_iff] at h
      rcases h with ⟨_, _, rfl⟩ | ⟨_, _, ⟨_, _, rfl⟩ | ⟨_, _, h⟩⟩
      · exact ⟨_, _, _, rfl⟩
      · exact ⟨_, _, _, rfl⟩
      · split at h
        · exact ⟨_, _, _, (Except.error.inj h).symm⟩
        · cases h

/-- How the start of a `Prepare` ends. -/
inductive Started (host : Host) (state : BackendState) (request_id : String)
    (context : RequestContext) (peer : IdentityPeer) (reply : Reply) : Turn → Prop
  | Refused {error_class message : String} {retryable : Bool}
      (hrefused : state.prepareTarget host request_id context peer =
        .error (state.error request_id error_class message retryable)) :
      Started host state request_id context peer reply {
        state
        effects := [.Respond reply (state.error request_id error_class message retryable)] }
  | Hit {target : BackendState.PrepareTarget} {cached : Materialization}
      (htarget : state.prepareTarget host request_id context peer = .ok target)
      (hkept : state.materialization.value target.job.key = some cached) :
      Started host state request_id context peer reply {
        state := { state with
          materialization := (state.materialization.cached host.now target.job.key).2 }
        effects := [.Respond reply (BackendState.preparedResponse target.route cached true)] }
  | Joined {target : BackendState.PrepareTarget} {flight : PrepareFlight}
      (htarget : state.prepareTarget host request_id context peer = .ok target)
      (hflight : state.in_flight.lookup target.job.key = some flight) :
      Started host state request_id context peer reply {
        state := { state with
          materialization := (state.materialization.cached host.now target.job.key).2
          in_flight := state.in_flight.insert target.job.key { flight with
            waiters := flight.waiters ++ [{ route := target.route, reply, cache_hit := true }] } } }
  | Spawned {target : BackendState.PrepareTarget}
      (htarget : state.prepareTarget host request_id context peer = .ok target)
      (hnone : state.in_flight.lookup target.job.key = none) :
      Started host state request_id context peer reply {
        state := { state with
          materialization := (state.materialization.cached host.now target.job.key).2
          in_flight := state.in_flight.insert target.job.key {
            generation := target.job.generation
            waiters := [{ route := target.route, reply, cache_hit := false }] } }
        effects := [.SpawnPrepare target.job] }

theorem startPrepare_started (request : BackendRequestMessage) :
    Started host state request.request_id context peer reply
      (state.startPrepare host request context peer reply) := by
  unfold BackendState.startPrepare
  cases htarget : state.prepareTarget host request.request_id context peer with
  | error response =>
    obtain ⟨error_class, message, retryable, rfl⟩ := prepareTarget_error htarget
    exact .Refused htarget
  | ok target =>
    dsimp only
    cases hcached : state.materialization.cached host.now target.job.key with
    | mk found materialization =>
      obtain rfl : (state.materialization.cached host.now target.job.key).2 = materialization := by
        rw [hcached]
      cases found with
      | some cached =>
        exact .Hit htarget (MaterializationService.cached_hit (by rw [hcached]))
      | none =>
        dsimp only
        cases hflight : state.in_flight.lookup target.job.key with
        | some flight => exact .Joined htarget hflight
        | none => exact .Spawned htarget hflight

end start

/-! ## The completion of a flight -/

section completed

variable {host : Host} {state : BackendState} {generation : Generation}
  {key : MaterializationKey} {result : Except (String × String) Materialization}

/-- How a completed materialization ends: no flight waits for it, or its flight lands. -/
inductive Completed (host : Host) (state : BackendState) (generation : Generation)
    (key : MaterializationKey) (result : Except (String × String) Materialization) : Turn → Prop
  | Ignored (hnone : state.in_flight.lookup key = none) :
      Completed host state generation key result { state }
  | Landed {flight : PrepareFlight} {landed : BackendState} {materialization : MaterializationService}
      (hflight : state.in_flight.lookup key = some flight)
      (hlanded : landed = { state with materialization, in_flight := state.in_flight.erase key })
      (hmaterializer : materialization.materializer = state.materialization.materializer)
      (hkept : ∀ other kept, materialization.value other = some kept →
        state.materialization.value other = some kept ∨
          other = key ∧ result = .ok kept ∧ generation = state.snapshot.generation) :
      Completed host state generation key result {
        state := landed
        effects := (flight.waiters.map fun waiter =>
          .Respond waiter.reply (landed.completion generation result waiter)) ++
            landed.maybeStartReload }

theorem prepareCompleted_completed :
    Completed host state generation key result
      (state.prepareCompleted host generation key result) := by
  unfold BackendState.prepareCompleted
  cases hflight : state.in_flight.lookup key with
  | none => exact .Ignored hflight
  | some flight =>
    dsimp only
    cases result with
    | error error => exact .Landed hflight rfl rfl fun _ _ h => Or.inl h
    | ok materialization =>
      dsimp only
      split_ifs with hcurrent
      · refine .Landed hflight rfl MaterializationService.cacheSuccess_materializer
          fun other kept h => ?_
        rcases MaterializationService.value_of_cacheSuccess h with hold | ⟨rfl, rfl⟩
        · exact Or.inl hold
        · exact Or.inr ⟨rfl, rfl, hcurrent.1⟩
      · exact .Landed hflight rfl rfl fun _ _ h => Or.inl h

end completed

/-! ## Turns that leave the initial runtime alone -/

/-- The process groups that some effects kill. -/
def killed (effects : List Effect) : List UInt32 :=
  effects.filterMap fun
    | .KillGroup pid => some pid
    | _ => none

/-- The summaries of the run among some effects. -/
def summaries (effects : List Effect) : List RunSummary :=
  effects.filterMap fun
    | .Summary _ summary => some summary
    | _ => none

/-- A turn that neither looks at the initial runtime nor ends the loop. -/
structure Framed (state : BackendState) (turn : Turn) : Prop where
  initial_pid : turn.state.initial_pid = state.initial_pid
  pending_shutdown : turn.state.pending_shutdown = state.pending_shutdown
  unfinished : turn.finished = false
  killed : killed turn.effects = []
  summaries : summaries turn.effects = []

/-- The events that change what the coordinator knows of the initial runtime, or wait for it. -/
def CoordinatorEvent.OfInitial : CoordinatorEvent → Prop
  | .InitialRunning _ => True
  | .InitialFinished => True
  | .Shutdown _ => True
  | _ => False

section framed

variable {host : Host} {state : BackendState} {peer : IdentityPeer} {reply : Reply}

theorem Started.framed {request_id : String} {context : RequestContext} {turn : Turn}
    (h : Started host state request_id context peer reply turn) : Framed state turn := by
  cases h <;> exact ⟨rfl, rfl, rfl, rfl, rfl⟩

theorem startReload_framed (request_id : String) :
    Framed state (state.startReload request_id reply) := by
  unfold BackendState.startReload BackendState.maybeStartReload
  dsimp only
  split_ifs <;> exact ⟨rfl, rfl, rfl, rfl, rfl⟩

theorem request_framed (request : BackendRequestMessage) :
    Framed state (state.handleRequest host request peer reply) := by
  obtain ⟨request_id, kind⟩ := request
  unfold BackendState.handleRequest
  dsimp only
  split
  · exact ⟨rfl, rfl, rfl, rfl, rfl⟩
  have hcounted {active_requests : Nat} {turn : Turn}
      (h : Framed { state with active_requests } turn) : Framed state turn :=
    ⟨h.initial_pid, h.pending_shutdown, h.unfinished, h.killed, h.summaries⟩
  unfold BackendState.dispatchRequest
  cases kind with
  | Prepare context =>
    exact hcounted (startPrepare_started { request_id, request := .Prepare context }).framed
  | Reload wait =>
    dsimp only
    split_ifs
    · exact hcounted (startReload_framed request_id)
    · exact ⟨rfl, rfl, rfl, rfl, rfl⟩
  | Trust target => dsimp only; split_ifs <;> exact ⟨rfl, rfl, rfl, rfl, rfl⟩
  | Stop => dsimp only; split_ifs <;> exact ⟨rfl, rfl, rfl, rfl, rfl⟩
  | _ => exact ⟨rfl, rfl, rfl, rfl, rfl⟩

theorem Completed.framed {generation : Generation} {key : MaterializationKey}
    {result : Except (String × String) Materialization} {turn : Turn}
    (h : Completed host state generation key result turn) : Framed state turn := by
  cases h with
  | Ignored => exact ⟨rfl, rfl, rfl, rfl, rfl⟩
  | Landed hflight hlanded =>
    rename_i flight landed materialization _ _
    have hkilled : killed landed.maybeStartReload = [] ∧ summaries landed.maybeStartReload = [] := by
      unfold BackendState.maybeStartReload
      split
      · exact ⟨rfl, rfl⟩
      · split <;> exact ⟨rfl, rfl⟩
    refine ⟨by rw [hlanded], by rw [hlanded], rfl, ?_, ?_⟩
    · unfold killed at hkilled ⊢
      rw [List.filterMap_append, hkilled.1, List.append_nil, List.filterMap_map]
      exact List.filterMap_eq_nil_iff.mpr fun _ _ => rfl
    · unfold summaries at hkilled ⊢
      rw [List.filterMap_append, hkilled.2, List.append_nil, List.filterMap_map]
      exact List.filterMap_eq_nil_iff.mpr fun _ _ => rfl

theorem handleEvent_framed {event : CoordinatorEvent} (hevent : ¬ event.OfInitial) :
    Framed state (handleEvent host state event) := by
  cases event with
  | InitialRunning pid => exact absurd trivial hevent
  | InitialFinished => exact absurd trivial hevent
  | Shutdown reply => exact absurd trivial hevent
  | Request request peer reply => exact request_framed request
  | PrepareCompleted generation key result => exact prepareCompleted_completed.framed
  | ReloadCompleted result =>
    unfold handleEvent BackendState.reloadCompleted
    dsimp only
    split
    · exact ⟨rfl, rfl, rfl, rfl, rfl⟩
    · split <;> exact ⟨rfl, rfl, rfl, rfl, rfl⟩
  | ConnectionOpened reply =>
    unfold handleEvent
    dsimp only
    split <;> exact ⟨rfl, rfl, rfl, rfl, rfl⟩
  | Fail failure_class message =>
    unfold handleEvent BackendState.failWithClass
    dsimp only
    split <;> exact ⟨rfl, rfl, rfl, rfl, rfl⟩
  | _ => exact ⟨rfl, rfl, rfl, rfl, rfl⟩

end framed

end dev_env
