-- Whether a stop of the dev-env backend is final: which events bring the
-- control plane back to serving, and what a `Prepare` is answered until then.
import NixosDockers.DevEnv.Turns

open hash_maps

namespace dev_env

/-! ## The control plane after a turn -/

/-- The control plane was stopped or failed. -/
def Halted (control_plane : ControlPlaneState) : Prop :=
  control_plane = .Stopping ∨ control_plane = .Failed

section turn

variable {host : Host} {state : BackendState} {peer : IdentityPeer} {reply : Reply}

theorem Started.control_plane {request_id : String} {context : RequestContext} {turn : Turn}
    (h : Started host state request_id context peer reply turn) :
    turn.state.control_plane = state.control_plane := by
  cases h <;> rfl

theorem Completed.control_plane {generation : Generation} {key : MaterializationKey}
    {result : Except (String × String) Materialization} {turn : Turn}
    (h : Completed host state generation key result turn) :
    turn.state.control_plane = state.control_plane := by
  cases h with
  | Ignored => rfl
  | Landed _ hlanded => rw [hlanded]

theorem startReload_serving {request_id : String}
    (h : (state.startReload request_id reply).state.control_plane = .Serving) :
    state.control_plane = .Serving := by
  unfold BackendState.startReload at h
  split at h
  · exact h
  · cases h

theorem dispatchRequest_serving {request : BackendRequestMessage}
    (h : (state.dispatchRequest host request peer reply).state.control_plane = .Serving) :
    state.control_plane = .Serving := by
  unfold BackendState.dispatchRequest at h
  split at h
  case h_6 context => rwa [(startPrepare_started request).control_plane] at h
  case h_7 => split at h <;> exact h
  case h_8 =>
    split at h
    · exact startReload_serving h
    · exact h
  case h_9 =>
    split at h
    · cases h
    · exact h
  all_goals exact h

theorem handleRequest_serving {request : BackendRequestMessage}
    (h : (state.handleRequest host request peer reply).state.control_plane = .Serving) :
    state.control_plane = .Serving := by
  unfold BackendState.handleRequest at h
  dsimp only at h
  split at h
  · exact h
  · have hcounted := dispatchRequest_serving h
    exact hcounted

/-- A reload that waits for its result makes the control plane serve, whatever it was. -/
theorem reloadCompleted_serving (hpending : state.pending_reload ≠ none)
    (result : Except String (ConfigSnapshot × Materializer)) :
    (state.reloadCompleted result).state.control_plane = .Serving := by
  unfold BackendState.reloadCompleted
  split
  · contradiction
  · split <;> rfl

/-- Only the completion of a reload makes the control plane serve. -/
theorem serving_turn {event : CoordinatorEvent}
    (h : (handleEvent host state event).state.control_plane = .Serving) :
    state.control_plane = .Serving ∨
      ∃ result, event = .ReloadCompleted result ∧ state.pending_reload ≠ none := by
  cases event with
  | Request request peer reply => exact Or.inl (handleRequest_serving h)
  | ReloadCompleted result =>
    by_cases hpending : state.pending_reload = none
    · unfold handleEvent BackendState.reloadCompleted at h
      rw [hpending] at h
      exact Or.inl h
    · exact Or.inr ⟨result, rfl, hpending⟩
  | PrepareCompleted generation key result =>
    exact Or.inl (prepareCompleted_completed.control_plane ▸ h)
  | ConnectionOpened reply =>
    unfold handleEvent at h
    dsimp only at h
    split at h <;> exact Or.inl h
  | InitialFinished =>
    unfold handleEvent at h
    dsimp only at h
    split at h <;> exact Or.inl h
  | Fail failure_class message =>
    unfold handleEvent BackendState.failWithClass at h
    dsimp only at h
    split at h
    · exact Or.inl h
    · cases h
  | RequestStop =>
    unfold handleEvent at h
    dsimp only at h
    split at h <;> cases h
  | Shutdown reply =>
    unfold handleEvent at h
    dsimp only at h
    split at h <;> exact Or.inl h
  | _ => exact Or.inl h

/-- A `Prepare` is answered with an error, and touches neither the cache nor the flights. -/
def PrepareRefused (state : BackendState) (reply : Reply) (turn : Turn) : Prop :=
  (∃ response error, turn.effects = [.Respond reply response] ∧ response.response = .Error error) ∧
    turn.state.in_flight = state.in_flight ∧ turn.state.materialization = state.materialization

theorem Started.refused {request_id : String} {context : RequestContext} {turn : Turn}
    (h : Started host state request_id context peer reply turn)
    (hserving : state.control_plane ≠ .Serving) : PrepareRefused state reply turn := by
  cases h with
  | Refused => exact ⟨⟨_, _, rfl, rfl⟩, rfl, rfl⟩
  | Hit htarget => exact absurd (prepareTarget_ok htarget).serving hserving
  | Joined htarget => exact absurd (prepareTarget_ok htarget).serving hserving
  | Spawned htarget => exact absurd (prepareTarget_ok htarget).serving hserving

theorem refused_turn {request : BackendRequestMessage} {context : RequestContext}
    (hserving : state.control_plane ≠ .Serving) (hprepare : request.request = .Prepare context) :
    PrepareRefused state reply (handleEvent host state (.Request request peer reply)) := by
  unfold handleEvent BackendState.handleRequest
  dsimp only
  split
  · exact ⟨⟨_, _, rfl, rfl⟩, rfl, rfl⟩
  · unfold BackendState.dispatchRequest
    rw [hprepare]
    exact (startPrepare_started request).refused hserving

end turn

/-! ## Runs -/

section runs

/-- The state after a sequence of events. -/
def stateAfter (start : BackendState) (events : List (Host × CoordinatorEvent)) : BackendState :=
  events.foldl (fun state event => (handleEvent event.1 state event.2).state) start

theorem stateAfter_snoc (start : BackendState) (events : List (Host × CoordinatorEvent))
    (event : Host × CoordinatorEvent) :
    stateAfter start (events ++ [event]) =
      (handleEvent event.1 (stateAfter start events) event.2).state := by
  unfold stateAfter
  rw [List.foldl_append]
  rfl

/-- Once the control plane was stopped or failed, it does not serve again, and every later
`Prepare` is refused. -/
def StopIsFinal (start : BackendState) (events : List (Host × CoordinatorEvent)) : Prop :=
  ∀ before after, before ++ after <+: events → Halted (stateAfter start before).control_plane →
    (stateAfter start (before ++ after)).control_plane ≠ .Serving ∧
    ∀ host request context peer reply, request.request = .Prepare context →
      before ++ after ++ [(host, .Request request peer reply)] <+: events →
        PrepareRefused (stateAfter start (before ++ after)) reply
          (handleEvent host (stateAfter start (before ++ after)) (.Request request peer reply))

/-- Once the control plane was stopped or failed, no reload that still waits is completed. -/
def NoReloadAfterStop (start : BackendState) (events : List (Host × CoordinatorEvent)) : Prop :=
  ∀ before after host result, before ++ after ++ [(host, .ReloadCompleted result)] <+: events →
    Halted (stateAfter start before).control_plane →
      (stateAfter start (before ++ after)).pending_reload = none

variable {start : BackendState} {events before after : List (Host × CoordinatorEvent)}

theorem NoReloadAfterStop.not_serving (h : NoReloadAfterStop start events)
    (hbefore : before ++ after <+: events) (hhalted : Halted (stateAfter start before).control_plane) :
    (stateAfter start (before ++ after)).control_plane ≠ .Serving := by
  induction after using List.reverseRecOn with
  | nil =>
    rw [List.append_nil]
    rcases hhalted with hstopping | hfailed
    · simp [hstopping]
    · simp [hfailed]
  | append_singleton after event ih =>
    rw [← List.append_assoc] at hbefore ⊢
    rw [stateAfter_snoc]
    intro hserving
    rcases serving_turn hserving with hold | ⟨result, hevent, hpending⟩
    · exact ih ((List.prefix_append _ _).trans hbefore) hold
    · obtain ⟨host, event⟩ := event
      obtain rfl : event = .ReloadCompleted result := hevent
      exact hpending (h before after host result hbefore hhalted)

/-- A stop is final in exactly those runs in which no reload is completed after it. -/
theorem stop_is_final_iff (config : BackendStateConfig)
    (events : List (Host × CoordinatorEvent)) :
    StopIsFinal (.new config) events ↔ NoReloadAfterStop (.new config) events := by
  constructor
  · intro h before after host result hbefore hhalted
    by_contra hpending
    refine (h before (after ++ [(host, .ReloadCompleted result)]) ?_ hhalted).1 ?_
    · rwa [← List.append_assoc]
    · rw [← List.append_assoc, stateAfter_snoc]
      exact reloadCompleted_serving hpending result
  · intro h before after hbefore hhalted
    have hserving := h.not_serving hbefore hhalted
    exact ⟨hserving, fun host request context peer reply hprepare _ =>
      refused_turn hserving hprepare⟩

end runs

/-! ## A reload that outlives a stop -/

def devSnapshot : ConfigSnapshot where
  generation := .INITIAL
  config_fingerprint := Vector.replicate 32 7
  resolved_config := { shell := { default := "bash" } }
  shells := Std.ExtTreeMap.insert ∅ "bash" { command := "/bin/bash" }
  workspace_root := "/workspace"

def devConfig : BackendStateConfig where
  snapshot := devSnapshot
  materializer := { config := devSnapshot.resolved_config }
  allowed_peer_uid := 1000

def devHost : Host where
  now := 0
  backend_pid := 10
  is_file := fun _ => false
  broker := fun _ _ _ _ => .ok {
    uid := 1000
    gid := 1000
    user := "dev"
    home := "/home/dev"
    supplemental_groups := []
    run_as_root := false }
  provider_detect_fingerprints := fun _ _ => ∅
  build_shell_invocation := fun _ _ config => { executable := config.command }
  doctor_value := fun snapshot peer_uid allowed_peer_uid => {
    ok := true
    peer_uid
    allowed_peer_uid
    workspace := snapshot.workspace_root
    is_directory := true
    shells := []
    providers := [] }
  trust := fun _ => .ok ()

def rootPeer : IdentityPeer := { pid := 20, uid := 0, gid := 0 }

/-- The root owner reloads and then stops the backend, and only then the reload fails. -/
theorem stop_is_not_final : ¬ ∀ config events, StopIsFinal (.new config) events := by
  intro h
  let reload := (devHost,
    CoordinatorEvent.Request { request_id := "reload", request := .Reload false } rootPeer 0)
  let stop := (devHost,
    CoordinatorEvent.Request { request_id := "stop", request := .Stop } rootPeer 1)
  let reloaded := (devHost, CoordinatorEvent.ReloadCompleted (.error "no profile"))
  have hfinal := h devConfig [reload, stop, reloaded] [reload, stop] [reloaded]
    (List.prefix_refl _) (Or.inl rfl)
  exact hfinal.1 rfl

end dev_env
