-- The runs of the coordinator with its materialization workers: at most one
-- worker for a key, one reply for a request, and no environment that was made
-- under another snapshot or for another key.
import NixosDockers.DevEnv.StopFinal
import NixosDockers.DevEnv.Replies

open hash_maps

namespace dev_env

/-! ## The system -/

/-- A worker thread, with the snapshot that was current when it was spawned. -/
structure Worker where
  snapshot : ConfigSnapshot
  job : PrepareJob
  deriving DecidableEq

/-- The coordinator, the workers that have not posted yet, and what happened so far: the results
that workers posted, the replies handed over, the keys of the accepted `Prepare` requests and the
messages sent. -/
structure System where
  state : BackendState
  running : List Worker := []
  posted : List (Worker × Except (String × String) Materialization) := []
  opened : List Reply := []
  requested : List (Reply × MaterializationKey) := []
  sent : List (Reply × BackendResponseMessage) := []
  finished : Bool := false

/-- The key of a `Prepare` request that is accepted. -/
def requestedKeys (host : Host) (state : BackendState) :
    CoordinatorEvent → List (Reply × MaterializationKey)
  | .Request { request_id, request := .Prepare context } peer reply =>
    let counted := { state with active_requests := state.active_requests + 1 }
    if counted.active_requests > MAX_ACTIVE_REQUESTS then []
    else match counted.prepareTarget host request_id context peer with
      | .ok target => [(reply, target.job.key)]
      | .error _ => []
  | _ => []

namespace System

def start (config : BackendStateConfig) : System where
  state := .new config

/-- The coordinator handles an event. -/
def handle (system : System) (host : Host) (event : CoordinatorEvent) : System :=
  let turn := handleEvent host system.state event
  { state := turn.state
    running := system.running ++ (spawned turn.effects).map ({ snapshot := system.state.snapshot, job := · })
    posted := system.posted
    opened := system.opened ++ awaited event
    requested := system.requested ++ requestedKeys host system.state event
    sent := system.sent ++ responses turn.effects
    finished := turn.finished }

/-- A worker posts its result and is done. -/
def post (system : System) (worker : Worker)
    (result : Except (String × String) Materialization) : System :=
  { system with
    running := system.running.erase worker
    posted := system.posted ++ [(worker, result)] }

end System

/-- One event is handled. A worker that runs completes, with a result of its own; a loader gives a
materializer that was made from its snapshot; any other event may happen, with a reply of its
own. -/
inductive Step : System → Host × CoordinatorEvent → System → Prop
  | Complete {system : System} {worker : Worker} (host : Host)
      (result : Except (String × String) Materialization) (hloop : system.finished = false)
      (hrunning : worker ∈ system.running) :
      Step system (host, .PrepareCompleted worker.job.generation worker.job.key result)
        ((system.post worker result).handle host
          (.PrepareCompleted worker.job.generation worker.job.key result))
  | Other {system : System} (host : Host) (event : CoordinatorEvent)
      (hloop : system.finished = false)
      (hworker : ∀ generation key result, event ≠ .PrepareCompleted generation key result)
      (hloaded : ∀ snapshot materializer, event = .ReloadCompleted (.ok (snapshot, materializer)) →
        materializer.config = snapshot.resolved_config)
      (hfresh : ∀ reply ∈ awaited event, reply ∉ system.opened) :
      Step system (host, event) (system.handle host event)

/-- A run of the system with its events. -/
inductive Run : System → List (Host × CoordinatorEvent) → System → Prop
  | nil (system : System) : Run system [] system
  | snoc {first system next : System} {events : List (Host × CoordinatorEvent)}
      {event : Host × CoordinatorEvent} (h : Run first events system)
      (hstep : Step system event next) : Run first (events ++ [event]) next

/-! ## What one turn does -/

section turns

variable {host : Host} {state : BackendState} {event : CoordinatorEvent} {turn : Turn}

theorem Started.snapshot {request_id : String} {context : RequestContext} {peer : IdentityPeer}
    {reply : Reply} (h : Started host state request_id context peer reply turn) :
    turn.state.snapshot = state.snapshot := by
  cases h <;> rfl

theorem Started.materializer {request_id : String} {context : RequestContext} {peer : IdentityPeer}
    {reply : Reply} (h : Started host state request_id context peer reply turn) :
    turn.state.materialization.materializer = state.materialization.materializer := by
  cases h <;> first | rfl | exact MaterializationService.cached_materializer

theorem requestedKeys_prepare {request : BackendRequestMessage} {context : RequestContext}
    {peer : IdentityPeer} {reply : Reply} {target : BackendState.PrepareTarget}
    (hrequest : request.request = .Prepare context)
    (hroom : state.active_requests < MAX_ACTIVE_REQUESTS)
    (htarget : { state with active_requests := state.active_requests + 1 }.prepareTarget host
      request.request_id context peer = .ok target) :
    requestedKeys host state (.Request request peer reply) = [(reply, target.job.key)] := by
  obtain ⟨request_id, kind⟩ := request
  obtain rfl : kind = .Prepare context := hrequest
  unfold requestedKeys
  dsimp only
  rw [if_neg (by omega), htarget]

/-- A turn keeps the materializer of the current snapshot, or takes both from a reload. -/
theorem Turned.built (h : Turned host state event turn)
    (hbuilt : state.materialization.materializer.config = state.snapshot.resolved_config)
    (hloaded : ∀ snapshot materializer, event = .ReloadCompleted (.ok (snapshot, materializer)) →
      materializer.config = snapshot.resolved_config) :
    turn.state.materialization.materializer.config = turn.state.snapshot.resolved_config := by
  cases h with
  | Prepare hrequest hroom h =>
    rw [h.materializer, h.snapshot]
    exact hbuilt
  | Completed h =>
    cases h with
    | Ignored => exact hbuilt
    | Landed hflight hlanded hmaterializer =>
      rw [hlanded]
      exact hmaterializer ▸ hbuilt
  | Drained h => rwa [h.materialization, h.snapshot]
  | Reloaded hpending hstate =>
    rw [hstate]
    exact hloaded _ _ rfl
  | Quiet hevent h => rwa [h.materialization, h.snapshot]

/-- Only a result of the current generation is kept, and only a successful one. -/
theorem Turned.kept (h : Turned host state event turn) {key : MaterializationKey}
    {kept : Materialization} (hkept : turn.state.materialization.value key = some kept) :
    state.materialization.value key = some kept ∨
      event = .PrepareCompleted state.snapshot.generation key (.ok kept) := by
  cases h with
  | Prepare hrequest hroom h =>
    cases h with
    | Refused => exact Or.inl hkept
    | Hit => exact Or.inl (MaterializationService.value_of_cached hkept)
    | Joined => exact Or.inl (MaterializationService.value_of_cached hkept)
    | Spawned => exact Or.inl (MaterializationService.value_of_cached hkept)
  | Completed h =>
    cases h with
    | Ignored => exact Or.inl hkept
    | Landed hflight hlanded hmaterializer hold =>
      rw [hlanded] at hkept
      rcases hold key kept hkept with hbefore | ⟨rfl, rfl, rfl⟩
      · exact Or.inl hbefore
      · exact Or.inr rfl
  | Drained h => exact Or.inl (h.materialization ▸ hkept)
  | Reloaded hpending hstate =>
    rw [hstate] at hkept
    cases hkept
  | Quiet hevent h => exact Or.inl (h.materialization ▸ hkept)

/-- A worker is spawned for the current snapshot, when nothing is in flight for its key. -/
theorem Turned.worker (h : Turned host state event turn) {job : PrepareJob}
    (hjob : job ∈ spawned turn.effects) :
    spawned turn.effects = [job] ∧ state.in_flight.lookup job.key = none ∧
      job.generation = state.snapshot.generation ∧ job.key.generation = state.snapshot.generation ∧
      job.key.config_fingerprint = state.snapshot.config_fingerprint ∧
      job.materializer = state.materialization.materializer := by
  cases h with
  | Prepare hrequest hroom h =>
    cases h with
    | Refused => cases hjob
    | Hit => cases hjob
    | Joined => cases hjob
    | Spawned htarget hnone =>
      obtain rfl := List.mem_singleton.mp hjob
      have htargetOf := prepareTarget_ok htarget
      exact ⟨rfl, hnone, htargetOf.generation, htargetOf.key_generation, htargetOf.key_fingerprint,
        htargetOf.materializer⟩
  | Completed h =>
    cases h with
    | Ignored => cases hjob
    | Landed =>
      rw [spawned_append, spawned_waiters, spawned_maybeStartReload] at hjob
      cases hjob
  | Drained h =>
    rw [h.spawned] at hjob
    cases hjob
  | Reloaded hpending hstate heffects =>
    rw [heffects] at hjob
    cases hjob
  | Quiet hevent h =>
    rw [h.spawned] at hjob
    cases hjob

/-- A waiter waited before for the same key, or its request asks for that key now. -/
theorem Turned.waiter (h : Turned host state event turn) {key : MaterializationKey}
    {flight : PrepareFlight} {waiter : PrepareWaiter}
    (hflight : turn.state.in_flight.lookup key = some flight) (hwaiter : waiter ∈ flight.waiters) :
    (∃ before, state.in_flight.lookup key = some before ∧ waiter ∈ before.waiters) ∨
      (waiter.reply, key) ∈ requestedKeys host state event ∧
        key.generation = waiter.route.snapshot.generation ∧
        key.config_fingerprint = waiter.route.snapshot.config_fingerprint := by
  cases h with
  | Prepare hrequest hroom h =>
    cases h with
    | Refused => exact Or.inl ⟨flight, hflight, hwaiter⟩
    | Hit => exact Or.inl ⟨flight, hflight, hwaiter⟩
    | Joined htarget hbefore =>
      have htargetOf := prepareTarget_ok htarget
      rcases HashMap.lookup_of_insert hflight with ⟨rfl, rfl⟩ | ⟨-, hold⟩
      · rcases List.mem_append.mp hwaiter with hwaiter | hwaiter
        · exact Or.inl ⟨_, hbefore, hwaiter⟩
        · obtain rfl := List.mem_singleton.mp hwaiter
          refine Or.inr ⟨?_, ?_, ?_⟩
          · rw [requestedKeys_prepare hrequest hroom htarget]
            exact List.mem_singleton_self _
          · exact htargetOf.key_generation.trans (congrArg _ htargetOf.snapshot.symm)
          · exact htargetOf.key_fingerprint.trans (congrArg _ htargetOf.snapshot.symm)
      · exact Or.inl ⟨flight, hold, hwaiter⟩
    | Spawned htarget hnone =>
      have htargetOf := prepareTarget_ok htarget
      rcases HashMap.lookup_of_insert hflight with ⟨rfl, rfl⟩ | ⟨-, hold⟩
      · obtain rfl := List.mem_singleton.mp hwaiter
        refine Or.inr ⟨?_, ?_, ?_⟩
        · rw [requestedKeys_prepare hrequest hroom htarget]
          exact List.mem_singleton_self _
        · exact htargetOf.key_generation.trans (congrArg _ htargetOf.snapshot.symm)
        · exact htargetOf.key_fingerprint.trans (congrArg _ htargetOf.snapshot.symm)
      · exact Or.inl ⟨flight, hold, hwaiter⟩
  | Completed h =>
    cases h with
    | Ignored => exact Or.inl ⟨flight, hflight, hwaiter⟩
    | Landed _ hlanded =>
      rw [hlanded] at hflight
      exact Or.inl ⟨flight, HashMap.lookup_of_erase hflight, hwaiter⟩
  | Drained h =>
    rw [h.in_flight] at hflight
    cases hflight
  | Reloaded hpending hstate =>
    rw [hstate] at hflight
    exact Or.inl ⟨flight, hflight, hwaiter⟩
  | Quiet hevent h => exact Or.inl ⟨flight, h.in_flight ▸ hflight, hwaiter⟩

/-- A prepared reply comes from the cache, or from the result on which its flight lands. -/
theorem Turned.prepared (h : Turned host state event turn) {reply : Reply}
    {message : BackendResponseMessage} {prepared : PreparedResponse}
    (hsent : (reply, message) ∈ responses turn.effects)
    (hprepared : message.response = .Prepared prepared) :
    (∃ key kept, state.materialization.value key = some kept ∧
      (reply, key) ∈ requestedKeys host state event ∧
      prepared.generation = key.generation ∧
      prepared.config_fingerprint = key.config_fingerprint ∧
      prepared.materialized_environment = kept.environment) ∨
    ∃ generation key materialization flight waiter,
      event = .PrepareCompleted generation key (.ok materialization) ∧
      state.in_flight.lookup key = some flight ∧ waiter ∈ flight.waiters ∧ waiter.reply = reply ∧
      prepared.generation = waiter.route.snapshot.generation ∧
      prepared.config_fingerprint = waiter.route.snapshot.config_fingerprint ∧
      prepared.materialized_environment = materialization.environment := by
  cases h with
  | Prepare hrequest hroom h =>
    cases h with
    | Refused =>
      obtain ⟨rfl, rfl⟩ := Prod.mk.inj (List.mem_singleton.mp hsent)
      cases hprepared
    | Hit htarget hkept =>
      obtain ⟨rfl, rfl⟩ := Prod.mk.inj (List.mem_singleton.mp hsent)
      obtain rfl := BackendResponse.Prepared.inj hprepared
      have htargetOf := prepareTarget_ok htarget
      refine Or.inl ⟨_, _, hkept, ?_, ?_, ?_, rfl⟩
      · rw [requestedKeys_prepare hrequest hroom htarget]
        exact List.mem_singleton_self _
      · exact (htargetOf.key_generation.trans (congrArg _ htargetOf.snapshot.symm)).symm
      · exact (htargetOf.key_fingerprint.trans (congrArg _ htargetOf.snapshot.symm)).symm
    | Joined => cases hsent
    | Spawned => cases hsent
  | Completed h =>
    cases h with
    | Ignored => cases hsent
    | Landed hflight hlanded =>
      rename_i generation key result flight landed materialization _ _
      rw [responses_append, responses_maybeStartReload, List.append_nil, responses_waiters] at hsent
      obtain ⟨waiter, hwaiter, heq⟩ := List.mem_map.mp hsent
      obtain ⟨rfl, rfl⟩ := Prod.mk.inj heq
      unfold BackendState.completion at hprepared
      cases result with
      | error error => cases hprepared
      | ok made =>
        dsimp only at hprepared
        split_ifs at hprepared with hgeneration
        · obtain rfl := BackendResponse.Prepared.inj hprepared
          exact Or.inr ⟨generation, key, made, flight, waiter, rfl, hflight, hwaiter, rfl, rfl, rfl,
            rfl⟩
        · cases hprepared
  | Drained h => exact absurd hprepared (h.unprepared _ hsent prepared)
  | Reloaded hpending hstate heffects =>
    rw [heffects] at hsent
    obtain ⟨rfl, rfl⟩ := Prod.mk.inj (List.mem_singleton.mp hsent)
    cases hprepared
  | Quiet hevent h => exact absurd hprepared (h.unprepared _ hsent prepared)

end turns

/-! ## What every run keeps -/

/-- The snapshot, the key and the materializer of a worker belong together. -/
structure Worker.Sound (worker : Worker) : Prop where
  generation : worker.job.generation = worker.snapshot.generation
  key_generation : worker.job.key.generation = worker.snapshot.generation
  key_fingerprint : worker.job.key.config_fingerprint = worker.snapshot.config_fingerprint
  materializer : worker.job.materializer.config = worker.snapshot.resolved_config

/-- A prepared reply carries the generation and the fingerprint of the snapshot under which a worker
materialized its environment, for the key of the request. -/
def Justified (system : System) (reply : Reply) (prepared : PreparedResponse) : Prop :=
  ∃ worker materialization, (worker, .ok materialization) ∈ system.posted ∧ worker.Sound ∧
    (reply, worker.job.key) ∈ system.requested ∧
    prepared.generation = worker.snapshot.generation ∧
    prepared.config_fingerprint = worker.snapshot.config_fingerprint ∧
    prepared.materialized_environment = materialization.environment

/-- What every run of the system keeps. -/
structure Invariant (system : System) : Prop where
  balance : (system.sent.map Prod.fst ++ system.state.outstanding).Perm system.opened
  distinct : system.opened.Nodup
  materializer : system.state.materialization.materializer.config =
    system.state.snapshot.resolved_config
  workers : ∀ worker ∈ system.running, worker.Sound
  cached : ∀ key kept, system.state.materialization.value key = some kept →
    ∃ worker, (worker, .ok kept) ∈ system.posted ∧ worker.Sound ∧ worker.job.key = key
  waiters : ∀ key flight, system.state.in_flight.lookup key = some flight →
    ∀ waiter ∈ flight.waiters, (waiter.reply, key) ∈ system.requested ∧
      key.generation = waiter.route.snapshot.generation ∧
      key.config_fingerprint = waiter.route.snapshot.config_fingerprint
  prepared : ∀ reply message prepared, (reply, message) ∈ system.sent →
    message.response = .Prepared prepared → Justified system reply prepared

theorem Invariant.start {config : BackendStateConfig}
    (hbuilt : config.materializer.config = config.snapshot.resolved_config) :
    Invariant (.start config) where
  balance := .refl _
  distinct := List.nodup_nil
  materializer := hbuilt
  workers := by simp [System.start]
  cached := by simp [System.start, BackendState.new]
  waiters := by simp [System.start, BackendState.new]
  prepared := by simp [System.start]

section invariant

variable {system next : System} {host : Host} {event : CoordinatorEvent}

/-- A justification stays one. -/
theorem Justified.mono {reply : Reply} {prepared : PreparedResponse}
    (h : Justified system reply prepared) (hposted : system.posted ⊆ next.posted)
    (hrequested : system.requested ⊆ next.requested) : Justified next reply prepared := by
  obtain ⟨worker, materialization, hin, hsound, hkey, hrest⟩ := h
  exact ⟨worker, materialization, hposted hin, hsound, hrequested hkey, hrest⟩

/-- Posting a result changes nothing that the coordinator sees. -/
theorem Invariant.post (h : Invariant system) (worker : Worker)
    (result : Except (String × String) Materialization) : Invariant (system.post worker result) where
  balance := h.balance
  distinct := h.distinct
  materializer := h.materializer
  workers := fun other hother => h.workers other (List.mem_of_mem_erase hother)
  cached := by
    intro key kept hkept
    obtain ⟨maker, hposted, hrest⟩ := h.cached key kept hkept
    exact ⟨maker, List.mem_append_left _ hposted, hrest⟩
  waiters := h.waiters
  prepared := by
    intro reply message prepared hsent hprepared
    exact (h.prepared reply message prepared hsent hprepared).mono (List.subset_append_left _ _)
      (List.Subset.refl _)

theorem awaited_nodup (event : CoordinatorEvent) : (awaited event).Nodup := by
  cases event <;> simp [awaited]

/-- Handling an event keeps the invariant, when its reply is new and a completed result was
posted. -/
theorem Invariant.handle (h : Invariant system)
    (hposted : ∀ generation key materialization,
      event = .PrepareCompleted generation key (.ok materialization) →
        ∃ worker, (worker, .ok materialization) ∈ system.posted ∧ worker.Sound ∧
          worker.job.key = key)
    (hloaded : ∀ snapshot materializer, event = .ReloadCompleted (.ok (snapshot, materializer)) →
      materializer.config = snapshot.resolved_config)
    (hfresh : ∀ reply ∈ awaited event, reply ∉ system.opened) :
    Invariant (system.handle host event) := by
  have hturn : Turned host system.state event (handleEvent host system.state event) :=
    handleEvent_turned event
  constructor
  case balance =>
    have hsplit : ((system.handle host event).sent.map Prod.fst ++
        (system.handle host event).state.outstanding) = system.sent.map Prod.fst ++
        (answered (handleEvent host system.state event).effects ++
          (handleEvent host system.state event).state.outstanding) := by
      unfold System.handle
      rw [List.map_append, List.append_assoc]
      rfl
    rw [hsplit]
    calc
      List.Perm _ (system.sent.map Prod.fst ++ (awaited event ++ system.state.outstanding)) :=
        hturn.conserved.append_left _
      List.Perm _ (awaited event ++ (system.sent.map Prod.fst ++ system.state.outstanding)) :=
        List.perm_append_comm_assoc _ _ _
      List.Perm _ (awaited event ++ system.opened) := h.balance.append_left _
      List.Perm _ (system.opened ++ awaited event) := List.perm_append_comm
  case distinct =>
    refine List.nodup_append.mpr ⟨h.distinct, awaited_nodup event, ?_⟩
    rintro reply hold _ hnew rfl
    exact hfresh reply hnew hold
  case materializer => exact hturn.built h.materializer hloaded
  case workers =>
    intro worker hworker
    rcases List.mem_append.mp hworker with hold | hnew
    · exact h.workers worker hold
    · obtain ⟨job, hjob, rfl⟩ := List.mem_map.mp hnew
      obtain ⟨-, -, hgeneration, hkey, hfingerprint, hmaterializer⟩ := hturn.worker hjob
      exact ⟨hgeneration, hkey, hfingerprint, by rw [hmaterializer]; exact h.materializer⟩
  case cached =>
    intro key kept hkept
    rcases hturn.kept hkept with hold | hevent
    · exact h.cached key kept hold
    · exact hposted _ _ _ hevent
  case waiters =>
    intro key flight hflight waiter hwaiter
    rcases hturn.waiter hflight hwaiter with ⟨before, hbefore, hin⟩ | ⟨hkey, hrest⟩
    · obtain ⟨hkey, hrest⟩ := h.waiters key before hbefore waiter hin
      exact ⟨List.mem_append_left _ hkey, hrest⟩
    · exact ⟨List.mem_append_right _ hkey, hrest⟩
  case prepared =>
    intro reply message prepared hsent hprepared
    rcases List.mem_append.mp hsent with hold | hnew
    · exact (h.prepared reply message prepared hold hprepared).mono (List.Subset.refl _)
        (List.subset_append_left _ _)
    rcases hturn.prepared hnew hprepared with
      ⟨key, kept, hkept, hkey, hgeneration, hfingerprint, henvironment⟩ |
        ⟨generation, key, made, flight, waiter, hevent, hflight, hwaiter, rfl, hgeneration,
          hfingerprint, henvironment⟩
    · obtain ⟨worker, hin, hsound, rfl⟩ := h.cached key kept hkept
      exact ⟨worker, kept, hin, hsound, List.mem_append_right _ hkey,
        hgeneration.trans hsound.key_generation, hfingerprint.trans hsound.key_fingerprint,
        henvironment⟩
    · obtain ⟨worker, hin, hsound, rfl⟩ := hposted _ _ _ hevent
      obtain ⟨hkey, hkey_generation, hkey_fingerprint⟩ :=
        h.waiters _ flight hflight waiter hwaiter
      exact ⟨worker, made, hin, hsound, List.mem_append_left _ hkey,
        hgeneration.trans (hkey_generation.symm.trans hsound.key_generation),
        hfingerprint.trans (hkey_fingerprint.symm.trans hsound.key_fingerprint), henvironment⟩

theorem Invariant.step (h : Invariant system) {event : Host × CoordinatorEvent}
    (hstep : Step system event next) : Invariant next := by
  cases hstep with
  | Complete host result hloop hrunning =>
    rename_i worker
    refine (h.post worker result).handle ?_ (fun _ _ hevent => by cases hevent)
      (fun _ hreply => by cases hreply)
    intro generation key materialization hevent
    obtain ⟨-, rfl, rfl⟩ := CoordinatorEvent.PrepareCompleted.inj hevent
    exact ⟨worker, List.mem_append_right _ (List.mem_singleton_self _), h.workers worker hrunning,
      rfl⟩
  | Other host event hloop hworker hloaded hfresh =>
    exact h.handle (fun _ _ _ hevent => absurd hevent (hworker _ _ _)) hloaded hfresh

theorem Invariant.run {first : System} {events : List (Host × CoordinatorEvent)}
    (h : Invariant first) (hrun : Run first events next) : Invariant next := by
  induction hrun with
  | nil => exact h
  | snoc _ hstep ih => exact ih.step hstep

end invariant

/-! ## One worker for a key -/

section workers

variable {host : Host} {state : BackendState} {event : CoordinatorEvent} {turn : Turn}

/-- A turn that ends no flight adds the keys of the workers that it spawns. -/
theorem Turned.keys (h : Turned host state event turn) (hevent : ¬ event.EndsFlights) :
    ((spawned turn.effects).map (·.key) ++ state.in_flight.keys).Perm turn.state.in_flight.keys := by
  cases h with
  | Prepare hrequest hroom h =>
    cases h with
    | Refused => exact .refl _
    | Hit => exact .refl _
    | Joined htarget hflight =>
      have hin : _ ∈ state.in_flight.keys :=
        AList.lookup_isSome.mp (Option.isSome_iff_exists.mpr ⟨_, hflight⟩)
      exact (AList.keys_insert state.in_flight).symm ▸ List.perm_cons_erase hin
    | Spawned htarget hnone =>
      have hnew : _ ∉ state.in_flight.keys := AList.lookup_eq_none.mp hnone
      refine (AList.keys_insert state.in_flight).symm ▸ ?_
      rw [List.erase_of_not_mem hnew]
      exact .refl _
  | Completed h => exact absurd trivial hevent
  | Drained h => exact absurd trivial hevent
  | Reloaded hpending hstate heffects =>
    rw [hstate, heffects]
    exact .refl _
  | Quiet hevent h =>
    rw [h.spawned, h.in_flight]
    exact .refl _

/-- Each flight has its own running worker, and each running worker its flight. -/
def Paired (system : System) : Prop :=
  (system.running.map (·.job.key)).Perm system.state.in_flight.keys

variable {system next : System}

theorem Paired.step (h : Paired system) {event : Host × CoordinatorEvent}
    (hstep : Step system event next) (hshutdown : ∀ reply, event.2 ≠ .Shutdown reply) :
    Paired next := by
  cases hstep with
  | Complete host result hloop hrunning =>
    rename_i worker
    have hrest : ((system.running.erase worker).map (·.job.key)).Perm
        (system.state.in_flight.keys.erase worker.job.key) := by
      have hmap := (List.perm_cons_erase hrunning).map (·.job.key)
      exact (List.cons_perm_iff_perm_erase.mp (hmap.symm.trans h)).2
    have hin : worker.job.key ∈ system.state.in_flight.keys :=
      h.subset (List.mem_map_of_mem hrunning)
    have hturn : Completed host system.state worker.job.generation worker.job.key result _ :=
      prepareCompleted_completed
    unfold Paired System.handle handleEvent System.post
    dsimp only
    generalize system.state.prepareCompleted host worker.job.generation worker.job.key result =
      turn at hturn
    cases hturn with
    | Ignored hnone => exact absurd hin (AList.lookup_eq_none.mp hnone)
    | Landed hflight hlanded =>
      rw [spawned_append, spawned_waiters, spawned_maybeStartReload, hlanded]
      simp only [List.append_nil, List.map_nil, AList.keys_erase]
      exact hrest
  | Other host event hloop hworker hloaded hfresh =>
    have hends : ¬ event.EndsFlights := by
      cases event with
      | PrepareCompleted generation key result => exact absurd rfl (hworker generation key result)
      | Shutdown reply => exact absurd rfl (hshutdown reply)
      | _ => exact id
    have hturn : Turned host system.state event (handleEvent host system.state event) :=
      handleEvent_turned event
    unfold Paired System.handle
    rw [List.map_append, List.map_map]
    calc
      List.Perm _ (system.state.in_flight.keys ++
          (spawned (handleEvent host system.state event).effects).map (·.key)) :=
        h.append_right _
      List.Perm _ _ := List.perm_append_comm
      List.Perm _ (handleEvent host system.state event).state.in_flight.keys := hturn.keys hends

theorem Paired.run {first : System} {events : List (Host × CoordinatorEvent)} (h : Paired first)
    (hrun : Run first events next)
    (hshutdown : ∀ host reply, (host, CoordinatorEvent.Shutdown reply) ∉ events) : Paired next := by
  induction hrun with
  | nil => exact h
  | snoc _ hstep ih =>
    rename_i event _
    refine (ih fun host reply hin => hshutdown host reply (List.mem_append_left _ hin)).step hstep
      fun reply hevent => hshutdown event.1 reply (List.mem_append_right _ ?_)
    rw [← hevent]
    exact List.mem_singleton_self _

end workers

/-! ## One reply for a request -/

/-- A reply waits in the flight of a key. -/
def WaitsFor (state : BackendState) (reply : Reply) (key : MaterializationKey) : Prop :=
  ∃ flight, state.in_flight.lookup key = some flight ∧ reply ∈ flight.replies

/-- The events that end the flight of a key. -/
def CoordinatorEvent.Ends (key : MaterializationKey) : CoordinatorEvent → Prop
  | .PrepareCompleted _ other _ => other = key
  | .Shutdown _ => True
  | _ => False

theorem CoordinatorEvent.Ends.endsFlights {key : MaterializationKey} {event : CoordinatorEvent}
    (h : event.Ends key) : event.EndsFlights := by
  cases event <;> trivial

section replies

variable {host : Host} {state : BackendState} {event : CoordinatorEvent} {turn : Turn}
  {reply : Reply} {key : MaterializationKey}

theorem WaitsFor.waiting (h : WaitsFor state reply key) : reply ∈ state.waiting := by
  obtain ⟨flight, hflight, hin⟩ := h
  exact HashMap.mem_gathered.mpr ⟨key, flight, hflight, hin⟩

/-- The start of a `Prepare` answers it or lets it wait for its key. -/
theorem request_answered_or_waits {request : BackendRequestMessage} {context : RequestContext}
    {peer : IdentityPeer} (hrequest : request.request = .Prepare context) :
    reply ∈ answered (handleEvent host state (.Request request peer reply)).effects ∨
      ∃ key, (reply, key) ∈ requestedKeys host state (.Request request peer reply) ∧
        WaitsFor (handleEvent host state (.Request request peer reply)).state reply key := by
  unfold handleEvent BackendState.handleRequest
  dsimp only
  split
  · exact Or.inl (List.mem_singleton_self _)
  rename_i hroom
  unfold BackendState.dispatchRequest
  rw [hrequest]
  dsimp only
  have hstarted : Started host { state with active_requests := state.active_requests + 1 }
      request.request_id context peer reply _ := startPrepare_started request
  generalize BackendState.startPrepare host _ request context peer reply = turn at hstarted ⊢
  cases hstarted with
  | Refused => exact Or.inl (List.mem_singleton_self _)
  | Hit => exact Or.inl (List.mem_singleton_self _)
  | Joined htarget hflight =>
    refine Or.inr ⟨_, ?_, _, AList.lookup_insert _, ?_⟩
    · rw [requestedKeys_prepare hrequest (by omega) htarget]
      exact List.mem_singleton_self _
    · unfold PrepareFlight.replies
      rw [List.map_append]
      exact List.mem_append_right _ (List.mem_singleton_self _)
  | Spawned htarget hnone =>
    refine Or.inr ⟨_, ?_, _, AList.lookup_insert _, List.mem_singleton_self _⟩
    rw [requestedKeys_prepare hrequest (by omega) htarget]
    exact List.mem_singleton_self _

/-- A reply that waits goes on waiting, or is answered; it is answered when its flight ends. -/
theorem Turned.waits (h : Turned host state event turn) (hwaits : WaitsFor state reply key) :
    reply ∈ answered turn.effects ∨ ¬ event.Ends key ∧ WaitsFor turn.state reply key := by
  have hsame (hends : ¬ event.EndsFlights) (hin_flight : turn.state.in_flight = state.in_flight) :
      ¬ event.Ends key ∧ WaitsFor turn.state reply key := by
    refine ⟨fun h => hends h.endsFlights, ?_⟩
    unfold WaitsFor
    rwa [hin_flight]
  cases h with
  | Prepare hrequest hroom h =>
    cases h with
    | Refused => exact Or.inr (hsame id rfl)
    | Hit => exact Or.inr (hsame id rfl)
    | Joined htarget hflight =>
      rename_i target flight
      obtain ⟨before, hbefore, hin⟩ := hwaits
      refine Or.inr ⟨id, ?_⟩
      by_cases hkey : key = target.job.key
      · subst hkey
        obtain rfl := Option.some.inj (hbefore.symm.trans hflight)
        refine ⟨_, AList.lookup_insert _, ?_⟩
        unfold PrepareFlight.replies
        rw [List.map_append]
        exact List.mem_append_left _ hin
      · exact ⟨before, (AList.lookup_insert_ne hkey).trans hbefore, hin⟩
    | Spawned htarget hnone =>
      rename_i target
      obtain ⟨before, hbefore, hin⟩ := hwaits
      refine Or.inr ⟨id, before, ?_, hin⟩
      have hkey : key ≠ target.job.key := by
        rintro rfl
        cases hnone.symm.trans hbefore
      exact (AList.lookup_insert_ne hkey).trans hbefore
  | Completed h =>
    cases h with
    | Ignored hnone =>
      refine Or.inr ⟨?_, hwaits⟩
      rintro rfl
      obtain ⟨before, hbefore, -⟩ := hwaits
      cases hnone.symm.trans hbefore
    | Landed hflight hlanded =>
      rename_i generation other result flight landed materialization _ _
      obtain ⟨before, hbefore, hin⟩ := hwaits
      by_cases hkey : key = other
      · subst hkey
        obtain rfl := Option.some.inj (hbefore.symm.trans hflight)
        refine Or.inl ?_
        rw [answered_append, answered_maybeStartReload, List.append_nil]
        unfold answered
        rw [responses_waiters, List.map_map]
        exact hin
      · refine Or.inr ⟨fun h => hkey h.symm, before, ?_, hin⟩
        rw [hlanded]
        exact (AList.lookup_erase_ne hkey).trans hbefore
  | Drained h =>
    rw [h.answered]
    exact Or.inl (List.mem_append_left _ hwaits.waiting)
  | Reloaded hpending hstate heffects => exact Or.inr (hsame id (by rw [hstate]))
  | Quiet hevent h => exact Or.inr (hsame hevent h.in_flight)

variable {system next : System}

theorem Step.state_eq {event : Host × CoordinatorEvent} (h : Step system event next) :
    next.state = (handleEvent event.1 system.state event.2).state ∧
      next.sent = system.sent ++ responses (handleEvent event.1 system.state event.2).effects ∧
      next.requested = system.requested ++ requestedKeys event.1 system.state event.2 := by
  cases h <;> exact ⟨rfl, rfl, rfl⟩

/-- The replies to which a message was sent. -/
def System.replies (system : System) : List Reply := system.sent.map Prod.fst

theorem Step.replies {event : Host × CoordinatorEvent} (h : Step system event next) :
    next.replies = system.replies ++ answered (handleEvent event.1 system.state event.2).effects := by
  unfold System.replies answered
  rw [h.state_eq.2.1, List.map_append]

/-- A reply that waits is answered in any run in which its flight ends. -/
theorem Run.waits {first : System} {events : List (Host × CoordinatorEvent)}
    (h : Run first events next) (hwaits : WaitsFor first.state reply key) :
    reply ∈ next.replies ∨ (∀ event ∈ events, ¬ event.2.Ends key) ∧ WaitsFor next.state reply key := by
  induction h with
  | nil => exact Or.inr ⟨by simp, hwaits⟩
  | snoc _ hstep ih =>
    rename_i system next events event _
    rw [hstep.replies]
    rcases ih with hanswered | ⟨hnone, hwaits⟩
    · exact Or.inl (List.mem_append_left _ hanswered)
    have hturn : Turned event.1 system.state event.2 (handleEvent event.1 system.state event.2) :=
      handleEvent_turned event.2
    rcases hturn.waits hwaits with hanswered | ⟨hends, hwaits⟩
    · exact Or.inl (List.mem_append_right _ hanswered)
    · rw [hstep.state_eq.1]
      refine Or.inr ⟨fun other hother => ?_, hwaits⟩
      rcases List.mem_append.mp hother with hother | hother
      · exact hnone other hother
      · rwa [List.mem_singleton.mp hother]

/-- A handled `Prepare` is answered, or waits in the flight of its key. -/
theorem Run.request {first : System} {events : List (Host × CoordinatorEvent)}
    (h : Run first events next) {request : BackendRequestMessage} {context : RequestContext}
    {peer : IdentityPeer} (hrequest : request.request = .Prepare context)
    (hin : (host, .Request request peer reply) ∈ events) :
    reply ∈ next.replies ∨
      ∃ key, (reply, key) ∈ next.requested ∧ WaitsFor next.state reply key := by
  induction h with
  | nil => cases hin
  | snoc hbefore hstep ih =>
    rename_i system next events event
    obtain ⟨hstate, -, hrequested⟩ := hstep.state_eq
    rw [hstep.replies, hrequested, hstate]
    rcases List.mem_append.mp hin with hold | hnew
    · rcases ih hold with hanswered | ⟨key, hkey, hwaits⟩
      · exact Or.inl (List.mem_append_left _ hanswered)
      have hturn : Turned event.1 system.state event.2
          (handleEvent event.1 system.state event.2) := handleEvent_turned event.2
      rcases hturn.waits hwaits with hanswered | ⟨-, hwaits⟩
      · exact Or.inl (List.mem_append_right _ hanswered)
      · exact Or.inr ⟨key, List.mem_append_left _ hkey, hwaits⟩
    · obtain rfl := List.mem_singleton.mp hnew
      rcases request_answered_or_waits hrequest with hanswered | ⟨key, hkey, hwaits⟩
      · exact Or.inl (List.mem_append_right _ hanswered)
      · exact Or.inr ⟨key, List.mem_append_right _ hkey, hwaits⟩

/-- No reply is sent to twice. -/
theorem Invariant.replies_nodup (h : Invariant system) : system.replies.Nodup :=
  (List.nodup_append.mp (h.balance.nodup_iff.mpr h.distinct)).1

end replies

/-! ## Single flight -/

/-- The runs of the coordinator with workers that post at most once. Until the first shutdown each
flight has exactly one running worker, so at most one runs for a key. No reply is sent to twice; a
`Prepare` is answered once or waits in the flight of its key, and is answered once from the end of
that flight on. Only successful results of the current generation are cached, and a prepared
reply carries one snapshot with an environment that was made under it for the key of the request. -/
theorem coordinator_is_single_flight (config : BackendStateConfig)
    (hbuilt : config.materializer.config = config.snapshot.resolved_config)
    {events : List (Host × CoordinatorEvent)} {system : System}
    (hrun : Run (.start config) events system) :
    ((∀ host reply, (host, CoordinatorEvent.Shutdown reply) ∉ events) →
      (system.running.map (·.job.key)).Nodup ∧
        ∀ key, key ∈ system.state.in_flight ↔ ∃ worker ∈ system.running, worker.job.key = key) ∧
    (∀ reply, system.replies.count reply ≤ 1) ∧
    (∀ host request context peer reply, (host, .Request request peer reply) ∈ events →
      request.request = .Prepare context → system.replies.count reply = 1 ∨
        ∃ key, (reply, key) ∈ system.requested ∧ WaitsFor system.state reply key) ∧
    (∀ reply key, WaitsFor system.state reply key → ∀ later next, Run system later next →
      (∃ event ∈ later, event.2.Ends key) → next.replies.count reply = 1) ∧
    (∀ event next, Step system event next → ∀ key kept,
      next.state.materialization.value key = some kept →
        system.state.materialization.value key = some kept ∨
          event.2 = .PrepareCompleted system.state.snapshot.generation key (.ok kept)) ∧
    (∀ reply message prepared, (reply, message) ∈ system.sent →
      message.response = .Prepared prepared → Justified system reply prepared) := by
  have hinvariant : Invariant system := (Invariant.start hbuilt).run hrun
  refine ⟨fun hshutdown => ?_, fun reply => ?_, ?_, ?_, ?_, hinvariant.prepared⟩
  · have hfirst : Paired (.start config) := List.Perm.refl _
    have hpaired : Paired system := hfirst.run hrun hshutdown
    refine ⟨hpaired.nodup_iff.mpr system.state.in_flight.keys_nodup, fun key => ?_⟩
    rw [AList.mem_keys, ← hpaired.mem_iff, List.mem_map]
  · exact List.nodup_iff_count_le_one.mp hinvariant.replies_nodup reply
  · intro host request context peer reply hin hrequest
    rcases hrun.request hrequest hin with hanswered | hwaits
    · exact Or.inl (List.count_eq_one_of_mem hinvariant.replies_nodup hanswered)
    · exact Or.inr hwaits
  · rintro reply key hwaits later next hlater ⟨event, hin, hends⟩
    rcases hlater.waits hwaits with hanswered | ⟨hnone, -⟩
    · exact List.count_eq_one_of_mem (hinvariant.run hlater).replies_nodup hanswered
    · exact absurd hends (hnone event hin)
  · intro event next hstep key kept hkept
    rw [hstep.state_eq.1] at hkept
    have hturn : Turned event.1 system.state event.2 (handleEvent event.1 system.state event.2) :=
      handleEvent_turned event.2
    exact hturn.kept hkept

def devPrepare : BackendRequestMessage where
  request_id := "prepare"
  request := .Prepare { request_id := "prepare", mode := .Shell, cwd := "/workspace/app", shell := "default" }

def devPeer : IdentityPeer := { pid := 30, uid := 1000, gid := 1000 }

/-- A first `Prepare` waits for its worker, whose result answers it. -/
theorem first_prepare_is_answered :
    ∃ waiting done worker, Run (.start devConfig) [(devHost, .Request devPrepare devPeer 0)] waiting ∧
      waiting.replies = [] ∧ worker ∈ waiting.running ∧
      Run waiting [(devHost, .PrepareCompleted worker.job.generation worker.job.key
        (.error ("DEVENV-E-PROVIDER", "no nix")))] done ∧
      done.replies.count 0 = 1 := by
  let waiting := (System.start devConfig).handle devHost (.Request devPrepare devPeer 0)
  have hstep : Step (.start devConfig) (devHost, .Request devPrepare devPeer 0) waiting :=
    .Other devHost _ rfl (fun _ _ _ h => by cases h) (fun _ _ h => by cases h) (by simp [System.start])
  have hrun : Run (.start devConfig) [(devHost, .Request devPrepare devPeer 0)] waiting :=
    .snoc (.nil _) hstep
  have hnone : waiting.replies = [] := by decide +kernel
  obtain ⟨hworkers, -, hrequests, hended, -, -⟩ := coordinator_is_single_flight devConfig rfl hrun
  have hshutdown : ∀ host reply, (host, CoordinatorEvent.Shutdown reply) ∉
      [(devHost, .Request devPrepare devPeer 0)] := by
    intro host reply hin
    cases List.mem_singleton.mp hin
  rcases hrequests devHost devPrepare _ devPeer 0 (List.mem_singleton_self _) rfl with
    hanswered | ⟨key, -, hwaits⟩
  · rw [hnone] at hanswered
    cases hanswered
  obtain ⟨flight, hflight, -⟩ := id hwaits
  obtain ⟨worker, hworker, rfl⟩ := ((hworkers hshutdown).2 key).mp
    (AList.lookup_isSome.mp (Option.isSome_iff_exists.mpr ⟨flight, hflight⟩))
  have hdone := Run.snoc (.nil waiting)
    (.Complete devHost (.error ("DEVENV-E-PROVIDER", "no nix")) rfl hworker)
  exact ⟨waiting, _, worker, hrun, hnone, hworker, hdone, hended 0 _ hwaits _ _ hdone
    ⟨_, List.mem_singleton_self _, rfl⟩⟩

end dev_env
