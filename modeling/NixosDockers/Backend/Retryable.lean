-- A retryable error guarantees that the request had no side effects
-- (`BackendError::retryable`): for every request, every event of a connection
-- and every resend.
import NixosDockers.Backend.ConnectionAnswers
import NixosDockers.Backend.Dispatch
import NixosDockers.Backend.TransactionRun

open bootstrap_model init_core rust_text results frames sockets

namespace init_backend

/-! ## What a refused request leaves behind -/

/-- No transaction was entered or changed, and only transactions past their deadline are
gone. -/
structure Unaffected (now : Nat) (before after : BackendRuntime) : Prop where
  none_entered : ∀ (id : String) transaction, after.transactions[id]? = some transaction →
    before.transactions[id]? = some transaction
  live_kept : ∀ (id : String) transaction, before.transactions[id]? = some transaction →
    now < transaction.deadline → after.transactions[id]? = some transaction

theorem Unaffected.refl (now : Nat) (runtime : BackendRuntime) : Unaffected now runtime runtime where
  none_entered := fun _ _ h => h
  live_kept := fun _ _ h _ => h

theorem Unaffected.trans {now : Nat} {first second third : BackendRuntime}
    (h₁ : Unaffected now first second) (h₂ : Unaffected now second third) :
    Unaffected now first third where
  none_entered := fun id transaction h => h₁.none_entered id transaction
    (h₂.none_entered id transaction h)
  live_kept := fun id transaction h hlive => h₂.live_kept id transaction
    (h₁.live_kept id transaction h hlive) hlive

theorem Unaffected.mono {now later : Nat} {before after : BackendRuntime}
    (h : Unaffected now before after) (hle : now ≤ later) : Unaffected later before after where
  none_entered := h.none_entered
  live_kept := fun id transaction hsome hlive => h.live_kept id transaction hsome (by omega)

/-- A purge drops only transactions past their deadline. -/
theorem purge_unaffected (now : Nat) (runtime : BackendRuntime) :
    Unaffected now runtime { runtime with transactions := purge runtime.transactions now } where
  none_entered := by
    intro id transaction h
    rcases purge_getElem? runtime.transactions now id with hsame | ⟨hgone, _⟩
    · exact hsame ▸ h
    · rw [hgone] at h
      cases h
  live_kept := by
    intro id transaction h hlive
    rcases purge_getElem? runtime.transactions now id with hsame | ⟨_, expired, hexpired, hpast⟩
    · exact hsame.trans h
    · obtain rfl := Option.some.inj (hexpired.symm.trans h)
      omega

/-! ## The requests -/

theorem prepareExec_error {runtime : BackendRuntime} {host : RequestHost} {peer : PeerCredentials}
    {options : PrepareExecOptions} {start now : Nat} {error : BackendError}
    (h : (prepareExec runtime host peer options start now).2 = .error error) :
    Unaffected now runtime (prepareExec runtime host peer options start now).1 := by
  unfold prepareExec at h ⊢
  cases hcheck : checkPrepare runtime host peer options with
  | error refused => exact Unaffected.refl now runtime
  | ok draft =>
    cases hid : host.new_prepare_id with
    | error failure => exact Unaffected.refl now runtime
    | ok prepare_id =>
      simp only [hcheck, hid] at h ⊢
      split_ifs at h ⊢ with hdeadline hfull
      · exact Unaffected.refl now runtime
      · exact purge_unaffected now runtime

/-- The requests that name a transaction answer an error only when they do nothing. -/
theorem withTransaction_error {runtime : BackendRuntime} {peer : PeerCredentials}
    {prepare_id : String} {next : ExecTransaction → Handled} {error : BackendError}
    (hnext : ∀ transaction, (next transaction).response = some (.Error error) →
      next transaction = { runtime, response := some (.Error error) })
    (h : (withTransaction runtime peer prepare_id next).response = some (.Error error)) :
    withTransaction runtime peer prepare_id next = { runtime, response := some (.Error error) } := by
  unfold withTransaction at h ⊢
  cases hfound : runtime.transactions[prepare_id]? with
  | none =>
    rw [hfound] at h
    exact congrArg (Handled.mk runtime · none) h
  | some transaction =>
    simp only [hfound] at h ⊢
    by_cases howned : transaction.ownedBy peer = true
    · simp only [howned, Bool.not_true, Bool.false_eq_true, if_false] at h ⊢
      exact hnext transaction h
    · simp only [howned, Bool.not_false, if_true] at h ⊢
      exact congrArg (Handled.mk runtime · none) h

theorem executeCommit_no_error {runtime : BackendRuntime} {host : RequestHost} {prepare_id : String}
    {transaction : ExecTransaction} {context : RuntimeContext} {identity : ResolvedIdentity}
    {error : BackendError} :
    (executeCommit runtime host prepare_id transaction context identity).response ≠
      some (.Error error) := by
  simp only [executeCommit]
  split <;> simp

theorem commitExec_error {runtime : BackendRuntime} {host : RequestHost} {peer : PeerCredentials}
    {prepare_id : String} {now : Nat} {error : BackendError}
    (h : (commitExec runtime host peer prepare_id now).response = some (.Error error)) :
    commitExec runtime host peer prepare_id now = { runtime, response := some (.Error error) } := by
  unfold commitExec at h ⊢
  refine withTransaction_error (fun transaction h => ?_) h
  by_cases hstale : transaction.snapshot_id ≠ runtime.snapshot_id
  · simp only [if_pos hstale] at h ⊢
    exact congrArg (Handled.mk runtime · none) h
  · simp only [if_neg hstale] at h
    cases hstate : transaction.state with
    | Prepared context identity =>
      simp only [hstate] at h
      by_cases hlive : transaction.deadline > now
      · rw [if_pos hlive] at h
        exact absurd h executeCommit_no_error
      · simp [hlive, abortPrepared, answerState] at h
    | Committing | Committed _ | Aborted | Failed _ => simp [hstate, answerState] at h

theorem abortExec_error {runtime : BackendRuntime} {peer : PeerCredentials} {prepare_id : String}
    {error : BackendError}
    (h : (abortExec runtime peer prepare_id).response = some (.Error error)) :
    abortExec runtime peer prepare_id = { runtime, response := some (.Error error) } := by
  unfold abortExec at h ⊢
  refine withTransaction_error (fun transaction h => ?_) h
  cases hstate : transaction.state <;> simp [hstate, answerState, abortPrepared] at h

theorem getExecResult_error {runtime : BackendRuntime} {peer : PeerCredentials} {prepare_id : String}
    {now : Nat} {error : BackendError}
    (h : (getExecResult runtime peer prepare_id now).response = some (.Error error)) :
    getExecResult runtime peer prepare_id now = { runtime, response := some (.Error error) } := by
  unfold getExecResult at h ⊢
  refine withTransaction_error (fun transaction h => ?_) h
  cases hstate : transaction.state with
  | Prepared context identity =>
    simp only [hstate] at h
    split_ifs at h <;> simp [abortPrepared, answerState] at h
  | Committing | Committed _ | Aborted | Failed _ => simp [hstate, answerState] at h

/-- A request about a transaction that is answered with an error executed nothing. -/
theorem handle_error {runtime : BackendRuntime} {event : Event} {error : BackendError}
    (h : (handle runtime event).response = some (.Error error)) :
    (handle runtime event).executed = none ∧
      Unaffected event.now runtime (handle runtime event).runtime := by
  unfold handle at h ⊢
  cases hrequest : event.request with
  | PrepareExec options =>
    simp only [hrequest] at h ⊢
    cases hprepared : (prepareExec runtime event.host event.peer options event.start event.now).2 with
    | ok handoff => simp [hprepared] at h
    | error refused => exact ⟨trivial, prepareExec_error hprepared⟩
  | CommitExec prepare_id =>
    simp only [hrequest] at h ⊢
    rw [commitExec_error h]
    exact ⟨rfl, Unaffected.refl _ _⟩
  | AbortExec prepare_id =>
    simp only [hrequest] at h ⊢
    rw [abortExec_error h]
    exact ⟨rfl, Unaffected.refl _ _⟩
  | GetExecResult prepare_id =>
    simp only [hrequest] at h ⊢
    rw [getExecResult_error h]
    exact ⟨rfl, Unaffected.refl _ _⟩

theorem answer_error {α : Type} {result : Except String α} {error_class message : String}
    {error : BackendError} (h : answer result error_class message = .error error) :
    error.retryable = false := by
  cases result with
  | ok value => cases h
  | error text =>
    obtain rfl := Except.error.inj h
    rfl

theorem liftBackend_error {α : Type} {result : Except BackendError α} {error : BackendError}
    (h : liftBackend result = .error (.Error error)) : result = .error error := by
  cases result with
  | ok value => cases h
  | error refused =>
    obtain rfl := RequestFailure.Error.inj (Except.error.inj h)
    rfl

theorem liftRun_error {α : Type} {result : Except RunFailure α} {error : BackendError}
    (h : liftRun result = .error (.Error error)) : error.retryable = false := by
  cases result with
  | ok value => cases h
  | error failure =>
    cases failure with
    | Core cause =>
      obtain rfl := RequestFailure.Error.inj (Except.error.inj h)
      rfl
    | Panic message => cases h

/-- The retryable error of an identity request comes before its plan is run. -/
theorem prepareIdentity_retryable {runtime : BackendRuntime} {host : RequestHost}
    {peer : PeerCredentials} {options : IdentityRequestOptions} {error : BackendError}
    (h : prepareIdentity runtime host peer options = .error (.Error error))
    (hretryable : error.retryable = true) :
    (identityExecutor runtime host peer options).isOk = false := by
  rw [prepareIdentity_eq] at h
  cases hexecutor : identityExecutor runtime host peer options with
  | error refused => rfl
  | ok executor =>
    simp only [hexecutor, liftBackend, ok_bind] at h
    rcases bind_error_iff.mp h with hrun | ⟨report, _, h⟩
    · simp [liftRun_error hrun] at hretryable
    · rcases bind_error_iff.mp h with hgroups | ⟨groups, _, h⟩
      · simp [answer_error (liftBackend_error hgroups)] at hretryable
      · cases h

/-- For every state and every request: a retryable error executes no plan, enters no
transaction and leaves the transactions before their deadline as they are. -/
theorem dispatch_retryable {lengths : JsonLengths} {moment : Moment} {runtime : BackendRuntime}
    {peer : PeerCredentials} {request : ClientRequest} {hello_completed : Bool}
    {error : BackendError}
    (h : (dispatch lengths moment runtime peer request hello_completed).response =
      some (.Error error))
    (hretryable : error.retryable = true) :
    (dispatch lengths moment runtime peer request hello_completed).executed = false ∧
      Unaffected moment.now runtime
        (dispatch lengths moment runtime peer request hello_completed).runtime := by
  have htransaction : ∀ request,
      (dispatchTransaction moment runtime peer request).response = some (.Error error) →
      (dispatchTransaction moment runtime peer request).executed = false ∧
        Unaffected moment.now runtime (dispatchTransaction moment runtime peer request).runtime := by
    intro request h
    obtain ⟨hexecuted, hunaffected⟩ := handle_error h
    exact ⟨by simp [dispatchTransaction, hexecuted], hunaffected⟩
  have hrespond : ∀ response, (respond runtime response).executed = false ∧
      Unaffected moment.now runtime (respond runtime response).runtime :=
    fun _ => ⟨rfl, Unaffected.refl _ _⟩
  unfold dispatch at h ⊢
  cases hello_completed with
  | true =>
    simp only [if_true] at h ⊢
    unfold prepareResponse at h ⊢
    cases request with
    | PrepareExec options => exact htransaction _ h
    | PrepareIdentity options =>
      refine ⟨prepareIdentity_retryable ?_ hretryable, Unaffected.refl _ _⟩
      simp only [dispatchIdentity] at h
      split at h <;> simp_all
    | Hello | CommitExec _ | AbortExec _ | GetExecResult _ | Status | Plan _ _ | Doctor =>
      exact hrespond _
  | false =>
    simp only [Bool.false_eq_true, if_false] at h ⊢
    cases request with
    | CommitExec prepare_id => exact htransaction _ h
    | AbortExec prepare_id => exact htransaction _ h
    | GetExecResult prepare_id => exact htransaction _ h
    | Hello => exact ⟨rfl, Unaffected.refl _ _⟩
    | Status | Plan _ _ | Doctor | PrepareExec _ | PrepareIdentity _ => exact hrespond _

/-! ## The events and the resends -/

/-- The response of an event is retryable only when the event leaves no trace. -/
theorem event_retryable {codec : Codec} {c : Conversation Site} {event : ConnectionEvent Site}
    {error : BackendError} (h : eventResponse codec.service c event = some (.Error error))
    (hretryable : error.retryable = true) :
    (onEvent codec.service c event).1.runtime.executed = (event.site c).executed ∧
      Unaffected (event.site c).moment.now (event.site c).runtime
        (onEvent codec.service c event).1.runtime.runtime := by
  have hanswer : Answer codec.service { c with runtime := event.site c }
      (onEvent codec.service c event).1 (eventResponse codec.service c event) :=
    onEvent_answer c event
  rw [h] at hanswer
  generalize (onEvent codec.service c event).1 = next at hanswer ⊢
  generalize hresponse : (some (ServerResponse.Error error)) = response at hanswer
  cases hanswer with
  | Silent => cases hresponse
  | Own own hruntime hdispatched hresponded =>
    rw [hruntime]
    exact ⟨rfl, Unaffected.refl _ _⟩
  | @Served payload message peer hello keepalive served hdecode hdispatch hdispatched hresponded =>
    obtain rfl := Option.some.inj hresponse
    obtain ⟨hsite, hrest⟩ := Prod.mk.inj hdispatch
    obtain ⟨hserved, _⟩ := Prod.mk.inj hrest
    have hsome : (dispatch codec.lengths (event.site c).moment (event.site c).runtime peer message
        hello).response = some (.Error error) := by
      cases hresult : (dispatch codec.lengths (event.site c).moment (event.site c).runtime peer
          message hello).response with
      | some response =>
        rw [hresult] at hserved
        exact congrArg some hserved
      | none =>
        rw [hresult] at hserved
        obtain rfl := ServerResponse.Error.inj hserved
        cases hretryable
    obtain ⟨hexecuted, hunaffected⟩ := dispatch_retryable hsome hretryable
    rw [← hsite]
    exact ⟨by simp [hexecuted], hunaffected⟩

/-- A request that a client sends, and the system while it is handled. -/
structure Sending where
  peer : PeerCredentials
  request : ClientRequest
  hello_completed : Bool
  moment : Moment

def send (lengths : JsonLengths) (runtime : BackendRuntime) (sending : Sending) : Dispatched :=
  dispatch lengths sending.moment runtime sending.peer sending.request sending.hello_completed

def sendAll (lengths : JsonLengths) (runtime : BackendRuntime) (sendings : List Sending) :
    BackendRuntime :=
  sendings.foldl (fun runtime sending => (send lengths runtime sending).runtime) runtime

/-- Every request is answered with a retryable error. -/
def AllRefused (lengths : JsonLengths) : BackendRuntime → List Sending → Prop
  | _, [] => True
  | runtime, sending :: sendings =>
    (∃ error, (send lengths runtime sending).response = some (.Error error) ∧
      error.retryable = true) ∧ AllRefused lengths (send lengths runtime sending).runtime sendings

theorem resend_unaffected {lengths : JsonLengths} {runtime : BackendRuntime}
    {sendings : List Sending} {latest : Nat} (hrefused : AllRefused lengths runtime sendings)
    (hlatest : ∀ sending ∈ sendings, sending.moment.now ≤ latest) :
    Unaffected latest runtime (sendAll lengths runtime sendings) := by
  induction sendings generalizing runtime with
  | nil => exact Unaffected.refl latest runtime
  | cons sending sendings ih =>
    obtain ⟨⟨error, hresponse, hretryable⟩, hrest⟩ := hrefused
    obtain ⟨_, hfirst⟩ := dispatch_retryable hresponse hretryable
    have hnow := hlatest sending List.mem_cons_self
    have hlater := ih hrest fun later hlater => hlatest later (List.mem_cons_of_mem _ hlater)
    exact (hfirst.mono hnow).trans hlater

/-- A retryable error means no side effects. A request that gets one has executed no plan,
entered no transaction and left every transaction before its deadline as it is. An event of a
connection that queues one has done so as well, and when the error is the connection's own, for
the admission of a body or for a deadline, no request was served since the connection was
accepted or last finished a response. So a client may send a request again any number of
times. -/
theorem retryable_errors_have_no_side_effects (codec : Codec) :
    (∀ moment runtime peer request hello_completed error,
      let sent := dispatch codec.lengths moment runtime peer request hello_completed
      sent.response = some (.Error error) → error.retryable = true →
      sent.executed = false ∧ Unaffected moment.now runtime sent.runtime) ∧
    (∀ (c : Conversation Site) event error,
      let site := event.site c
      let next := (onEvent codec.service c event).1
      eventResponse codec.service c event = some (.Error error) → error.retryable = true →
      next.runtime.executed = site.executed ∧
        Unaffected site.moment.now site.runtime next.runtime.runtime) ∧
    (∀ peer now site events event error,
      let c := (converse codec.service { connection := .accepted peer now, runtime := site }
        events).1
      eventResponse codec.service c event = some (.Error error) → error.retryable = true →
      dispatched (onEvent codec.service c event).1.log = dispatched c.log →
      servedInTurn c.log = false) ∧
    (∀ runtime sendings latest, AllRefused codec.lengths runtime sendings →
      (∀ sending ∈ sendings, sending.moment.now ≤ latest) →
      Unaffected latest runtime (sendAll codec.lengths runtime sendings)) := by
  refine ⟨?_, ?_, ?_, ?_⟩
  · intro moment runtime peer request hello_completed error sent hresponse hretryable
    exact dispatch_retryable hresponse hretryable
  · intro c event error site next hresponse hretryable
    exact event_retryable hresponse hretryable
  · intro peer now site events event error c hresponse _ hown
    exact own_answer_first (settled_converse (accepted_settled peer now site) events) hresponse hown
  · intro runtime sendings latest hrefused hlatest
    exact resend_unaffected hrefused hlatest

/-- The texts of a commit and of the errors. -/
def errorCodec : Codec where
  decode := fun payload =>
    if payload = asciiBytes commitText then .ok (.CommitExec "0000") else .error emptyFrameError
  encode := commitService.encode
  lengths := {
    message := fun response => (commitService.encode response).length
    action := fun action => byteLen action.id }

def quietMoment : Moment where
  host := quietRequestHost
  start := 0
  now := 0

def startingRuntime : BackendRuntime := { aliasRuntime with state := .Starting }

/-- The command of a client. -/
def shellOptions : PrepareExecOptions where
  argv := ["/bin/sh"]
  cwd := "/w"
  request_budget := 1000

def newSiteConversation : Conversation Site where
  connection := .accepted ordinaryPeer 0
  runtime := { runtime := startingRuntime, moment := quietMoment }

/-- A prepare before the backend is ready. -/
def earlyPrepare : Dispatched :=
  dispatch errorCodec.lengths quietMoment startingRuntime ordinaryPeer (.PrepareExec shellOptions)
    true

def notReady : BackendError :=
  backendError "backend_not_ready" true "backend is not ready to prepare commands"

/-- The early prepare, and a connection that sends nothing in time. -/
theorem not_ready_and_timeout_have_no_side_effects :
    (earlyPrepare.response = some (.Error notReady) ∧ earlyPrepare.executed = false ∧
      Unaffected 0 startingRuntime earlyPrepare.runtime) ∧
    (eventResponse errorCodec.service newSiteConversation (.Expire 40000) =
        some (.Error frameTimeoutError) ∧
      Unaffected 0 startingRuntime
        (onEvent errorCodec.service newSiteConversation (.Expire 40000)).1.runtime.runtime) := by
  obtain ⟨hrequests, hevents, _, _⟩ := retryable_errors_have_no_side_effects errorCodec
  have hsent : earlyPrepare.response = some (.Error notReady) := by decide +kernel
  have hexpired : eventResponse errorCodec.service newSiteConversation (.Expire 40000) =
      some (.Error frameTimeoutError) := by
    decide +kernel
  have hearly := hrequests _ _ _ _ _ _ hsent rfl
  have htimeout := hevents _ _ _ hexpired rfl
  exact ⟨⟨hsent, hearly⟩, hexpired, htimeout.2⟩

end init_backend
