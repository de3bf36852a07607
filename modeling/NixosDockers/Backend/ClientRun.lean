-- The agreement of client and server: what `commit_until` returns is what the
-- server did, in every run in which the server answers the requests of the
-- client and not only its connections.
import NixosDockers.Backend.Client
import NixosDockers.Backend.TransactionRun

open bootstrap_model init_core traces

namespace init_backend

/-! ## The owner of a transaction -/

section owner

variable {runtime first last : BackendRuntime} {event : Event} {peer : PeerCredentials}
  {id : String} {log : List (Event × Handled)}

/-- The transaction with this id belongs to the peer, if there is one. -/
def Owned (peer : PeerCredentials) (id : String) (runtime : BackendRuntime) : Prop :=
  ∀ transaction : ExecTransaction, runtime.transactions[id]? = some transaction →
    transaction.ownedBy peer = true

theorem handle_owned (h : Owned peer id runtime) (hissues : ¬ (handle runtime event).issues id) :
    Owned peer id (handle runtime event).runtime := by
  intro transaction hsome
  have htouch := handle_touch runtime event id
  rw [hsome] at htouch
  generalize hbefore : runtime.transactions[id]? = before at htouch
  generalize hexecuted : (handle runtime event).executed = executed at htouch
  cases htouch with
  | keep => exact h _ hbefore
  | enter _ _ hresponse hhandoff => exact absurd ⟨_, hresponse, hhandoff⟩ hissues
  | abort => exact (h _ hbefore :)
  | execute => exact (h _ hbefore :)

theorem run_owned (hrun : Run first log last) (hissues : ∀ entry ∈ log, ¬ entry.2.issues id)
    (h : Owned peer id first) : Owned peer id last := by
  induction hrun with
  | nil => exact h
  | cons _ ih =>
    rw [List.forall_mem_cons] at hissues
    exact ih hissues.2 (handle_owned h hissues.1)

theorem ownedBy_congr {transaction : ExecTransaction} {other : PeerCredentials}
    (huid : other.uid = peer.uid) (hgid : other.gid = peer.gid) :
    transaction.ownedBy other = transaction.ownedBy peer := by
  simp [ExecTransaction.ownedBy, huid, hgid]

/-- A transaction belongs to the peer to which its id was issued. -/
theorem issued_owned (hrun : Run first log last) (hempty : first.transactions = ∅)
    (hdistinct : DistinctIds log) {entry : Event × Handled} (hentry : entry ∈ log)
    (hissues : entry.2.issues id) : Owned entry.1.peer id last := by
  obtain ⟨earlier, later, rfl⟩ := List.append_of_mem hentry
  have hothers := hdistinct.others hissues
  obtain ⟨mid, hearlier, hrest⟩ := hrun.split
  obtain ⟨hhandled, hlater⟩ := hrest.cons_inv
  have hnone := (run_absent hearlier (fun other hother => hothers other (by simp [hother]))
    (by simp [hempty] : first.transactions[id]? = none)).1
  refine run_owned hlater (fun other hother => hothers other (by simp [hother])) ?_
  intro transaction hsome
  rw [hhandled] at hsome
  obtain ⟨_, _, _, howner, _⟩ := handle_entered hnone hsome
  exact howner

theorem executeCommit_answers (runtime : BackendRuntime) (host : RequestHost) (id : String)
    (transaction : ExecTransaction) (context : RuntimeContext) (identity : ResolvedIdentity) :
    let handled := executeCommit runtime host id transaction context identity
    handled.response = none ∨ ∃ result, handled.response = some (.CommitResult result) := by
  dsimp only
  unfold executeCommit
  dsimp only
  split
  · exact Or.inl rfl
  · exact Or.inr ⟨_, rfl⟩
  · exact Or.inr ⟨_, rfl⟩

/-- A transaction that is prepared answers its owner with a result, if the code does not panic. -/
theorem handle_prepared_answers {transaction : ExecTransaction} (hasks : event.request.asksFor id)
    (hsome : runtime.transactions[id]? = some transaction)
    (howner : transaction.ownedBy event.peer = true)
    (hsnapshot : transaction.snapshot_id = runtime.snapshot_id)
    (hprepared : transaction.state.isPrepared = true) :
    (handle runtime event).response = none ∨
      ∃ result, (handle runtime event).response = some (.CommitResult result) := by
  obtain ⟨context, identity, hstate⟩ : ∃ context identity, transaction.state = .Prepared context identity := by
    cases hstate : transaction.state with
    | Prepared context identity => exact ⟨context, identity, rfl⟩
    | _ => simp [hstate, ExecTransactionStateData.isPrepared] at hprepared
  rcases hasks with h | h | h <;> unfold handle <;> rw [h]
  · simp only [commitExec, withTransaction, hsome, howner, hsnapshot, hstate]
    simp only [Bool.not_true, Bool.false_eq_true, if_false, ne_eq, not_true_eq_false]
    split
    · exact executeCommit_answers _ _ _ _ _ _
    · exact Or.inr ⟨_, rfl⟩
  · simp only [abortExec, withTransaction, hsome, howner, hstate]
    exact Or.inr ⟨_, rfl⟩
  · simp only [getExecResult, withTransaction, hsome, howner, hstate]
    simp only [Bool.not_true, Bool.false_eq_true, if_false]
    split <;> exact Or.inr ⟨_, rfl⟩

/-- The owner of a transaction is told its state or that it is unknown. -/
theorem handle_answers (hasks : event.request.asksFor id) (howned : Owned event.peer id runtime)
    {snapshot : String} (hsnapshot : SameSnapshot snapshot runtime) :
    (handle runtime event).response = none ∨
      (handle runtime event).response = some unknownTransaction ∨
      ∃ result, (handle runtime event).response = some (.CommitResult result) := by
  rcases hsome : runtime.transactions[id]? with _ | transaction
  · exact Or.inr (Or.inl (handle_unknown hasks hsome))
  · have howner := howned transaction hsome
    have hsame : transaction.snapshot_id = runtime.snapshot_id :=
      (hsnapshot.2 id transaction hsome).trans hsnapshot.1.symm
    rcases hstate : transaction.state.isPrepared
    · exact Or.inr (Or.inr ⟨_, handle_ended hasks hsome howner hsame hstate⟩)
    · rcases handle_prepared_answers hasks hsome howner hsame hstate with hpanic | hresult
      · exact Or.inl hpanic
      · exact Or.inr (Or.inr hresult)

end owner

/-! ## What the client is told -/

/-- The server has had the transaction in this state. -/
def Recorded (log : List (Event × Handled)) (id : String) (state : ExecTransactionStateData) :
    Prop :=
  ∃ entry ∈ log, ∃ transaction, entry.2.runtime.transactions[id]? = some transaction ∧
    transaction.state = state

/-- The client does not know the outcome, or it returns what the server has recorded. -/
def Told (log : List (Event × Handled)) (id : String) (outcome : CommitOutcome) : Prop :=
  outcome = .error .OutcomeUnknown ∨
    ∃ state, Recorded log id state ∧
      commitResultIfDone (transactionResponse id state) = some outcome

/-- A reply that the server gave to a request about the transaction. -/
def Informs (log : List (Event × Handled)) (id : String) (response : ServerResponse) : Prop :=
  response = unknownTransaction ∨
    ∃ state, Recorded log id state ∧ response = .CommitResult (transactionResponse id state)

section told

variable {log more : List (Event × Handled)} {id : String}

theorem Recorded.append {state : ExecTransactionStateData} (h : Recorded log id state) :
    Recorded (log ++ more) id state := by
  obtain ⟨entry, hentry, htransaction⟩ := h
  exact ⟨entry, List.mem_append_left _ hentry, htransaction⟩

theorem Told.append {outcome : CommitOutcome} (h : Told log id outcome) :
    Told (log ++ more) id outcome := by
  rcases h with h | ⟨state, hrecorded, hdone⟩
  · exact Or.inl h
  · exact Or.inr ⟨state, hrecorded.append, hdone⟩

theorem Informs.append {response : ServerResponse} (h : Informs log id response) :
    Informs (log ++ more) id response := by
  rcases h with h | ⟨state, hrecorded, hresponse⟩
  · exact Or.inl h
  · exact Or.inr ⟨state, hrecorded.append, hresponse⟩

/-- Every reply to the first request that the server gives leads to the truth or to questions. -/
theorem commitReply_told {response : ServerResponse} (h : Informs log id response)
    {outcome : CommitOutcome} (hreturned : commitReply id (.ok response) = .Returned outcome) :
    Told log id outcome := by
  rcases h with rfl | ⟨state, hrecorded, rfl⟩
  · cases hreturned
  · simp only [commitReply, transactionResponse_prepare_id, ne_eq, not_true_eq_false,
      if_false] at hreturned
    split at hreturned
    · rename_i done hdone
      obtain rfl := ClientPhase.Returned.inj hreturned
      exact Or.inr ⟨state, hrecorded, hdone⟩
    · cases hreturned

theorem pollReply_told {response : ServerResponse} (h : Informs log id response)
    {deadline now : Nat} {outcome : CommitOutcome}
    (hreturned : pollReply id deadline now (.ok response) = .Returned outcome) :
    Told log id outcome := by
  rcases h with rfl | ⟨state, hrecorded, rfl⟩
  · exact Or.inl (ClientPhase.Returned.inj hreturned).symm
  · simp only [pollReply, execResultOf, transactionResponse_prepare_id, if_true] at hreturned
    split at hreturned
    · rename_i done hdone
      obtain rfl := ClientPhase.Returned.inj hreturned
      exact Or.inr ⟨state, hrecorded, hdone⟩
    · split_ifs at hreturned
      exact Or.inl (ClientPhase.Returned.inj hreturned).symm

theorem toError_transportFailure (loss : Loss) : transportFailure loss.toError = true := by
  cases loss with
  | Connect error => rfl
  | Frame error => cases error <;> rfl
  | Deadline => rfl

/-- A question that is lost leaves the outcome unknown. -/
theorem pollReply_lost (loss : Loss) (id : String) (deadline now : Nat) :
    pollReply id deadline now (.error loss.toError) = .Returned (.error .OutcomeUnknown) := by
  simp [pollReply, execResultOf, toError_transportFailure]

end told

/-! ## The invariant of a run -/

section agreement

variable {call : Call} {first : BackendRuntime} {world next : World}

structure Agreement (call : Call) (first : BackendRuntime) (world : World) : Prop where
  run : Run first world.log world.runtime
  issued : ∃ entry ∈ world.log, entry.2.issues call.prepare_id
  owned : Owned call.peer call.prepare_id world.runtime
  snapshot : SameSnapshot first.snapshot_id world.runtime
  sent : ∀ request ∈ world.sent, request.asksFor call.prepare_id
  replies : ∀ reply ∈ world.replies, Informs world.log call.prepare_id reply.2
  returned : ∀ outcome, world.client = .Returned outcome → Told world.log call.prepare_id outcome

theorem DistinctIds.of_append {log more : List (Event × Handled)} (h : DistinctIds (log ++ more)) :
    DistinctIds log :=
  (List.pairwise_append.mp h).1

/-- A request that the server handles, of whichever peer. -/
theorem Agreement.serve (h : Agreement call first world) {event : Event}
    (hdistinct : DistinctIds (world.serve event).log) :
    Agreement call first (world.serve event) := by
  obtain ⟨entry, hentry, hissues⟩ := h.issued
  have hfresh : ¬ (handle world.runtime event).issues call.prepare_id :=
    (List.pairwise_append.mp hdistinct).2.2 entry hentry _ (List.mem_singleton_self _) _ hissues
  exact {
    run := h.run.snoc event
    issued := ⟨entry, List.mem_append_left _ hentry, hissues⟩
    owned := handle_owned h.owned hfresh
    snapshot := handle_same_snapshot _ _ _ h.snapshot
    sent := h.sent
    replies := fun reply hreply => (h.replies reply hreply).append
    returned := fun outcome houtcome => (h.returned outcome houtcome).append }

/-- The response to a request of the client says what the server has recorded. -/
theorem Agreement.informs (h : Agreement call first world) {event : Event}
    (hpeer : event.peer = call.peer) (hasks : event.request.asksFor call.prepare_id)
    {response : ServerResponse} (hresponse : (handle world.runtime event).response = some response) :
    Informs (world.serve event).log call.prepare_id response := by
  rcases handle_answers hasks (by rw [hpeer]; exact h.owned) h.snapshot with hnone | hunknown | ⟨result, hresult⟩
  · rw [hnone] at hresponse
    cases hresponse
  · rw [hunknown] at hresponse
    exact Or.inl (Option.some.inj hresponse).symm
  · obtain ⟨transaction, hsome, htold⟩ := handle_tells hasks result hresult
    rw [hresult] at hresponse
    obtain rfl := Option.some.inj hresponse
    refine Or.inr ⟨transaction.state, ⟨_, List.mem_append_right _ (List.mem_singleton_self _),
      transaction, hsome, rfl⟩, ?_⟩
    rw [htold]

theorem Agreement.deliver (h : Agreement call first world) {event : Event} {connection : Nat}
    (hpeer : event.peer = call.peer) (hasks : event.request.asksFor call.prepare_id)
    (hdistinct : DistinctIds (world.serve event).log) :
    Agreement call first { world.serve event with
      replies := world.replies ++
        (handle world.runtime event).response.toList.map (connection, ·) } := by
  have hserved := h.serve hdistinct
  refine { hserved with replies := fun reply hreply => ?_ }
  rcases List.mem_append.mp hreply with hreply | hreply
  · exact hserved.replies reply hreply
  · obtain ⟨response, hresponse, rfl⟩ := List.mem_map.mp hreply
    exact h.informs hpeer hasks (Option.mem_toList.mp hresponse)

/-- The client goes on with a reply of the server. -/
theorem Agreement.receive (h : Agreement call first world) {response : ServerResponse} {now : Nat}
    (hinforms : Informs world.log call.prepare_id response)
    (hnext : world.reply call now (.ok response) = some next) : Agreement call first next := by
  unfold World.reply at hnext
  split at hnext
  · obtain rfl := Option.some.inj hnext
    exact { h with returned := fun outcome houtcome => commitReply_told hinforms houtcome }
  · obtain rfl := Option.some.inj hnext
    exact { h with returned := fun outcome houtcome => pollReply_told hinforms houtcome }
  · cases hnext

/-- The client goes on without a reply. -/
theorem Agreement.lose (h : Agreement call first world) {loss : Loss} {now : Nat}
    (hnext : world.reply call now (.error loss.toError) = some next) :
    Agreement call first next := by
  unfold World.reply at hnext
  split at hnext
  · obtain rfl := Option.some.inj hnext
    refine { h with returned := fun outcome houtcome => ?_ }
    cases houtcome
  · obtain rfl := Option.some.inj hnext
    refine { h with returned := fun outcome houtcome => Or.inl ?_ }
    dsimp only at houtcome
    rw [pollReply_lost] at houtcome
    exact (ClientPhase.Returned.inj houtcome).symm
  · cases hnext

theorem Agreement.look (h : Agreement call first world) {now : Nat}
    (hnext : world.step call (.Look now) = some next) : Agreement call first next := by
  unfold World.step at hnext
  dsimp only at hnext
  split_ifs at hnext with hpolling hlate
  · obtain rfl := Option.some.inj hnext
    refine { h with returned := fun outcome houtcome => Or.inl ?_ }
    exact (ClientPhase.Returned.inj houtcome).symm
  · obtain rfl := Option.some.inj hnext
    refine { h with
      sent := fun request hrequest => ?_
      returned := fun outcome houtcome => ?_ }
    · rcases List.mem_append.mp hrequest with hrequest | hrequest
      · exact h.sent request hrequest
      · obtain rfl := List.mem_singleton.mp hrequest
        exact Or.inr (Or.inr rfl)
    · cases houtcome

/-- The server answers a connection of the client and not its request. -/
def Act.refuses : Act → Bool
  | .Refuse .. => true
  | _ => false

theorem reply_log {reply : Except BackendClientError ServerResponse} {now : Nat}
    (hnext : world.reply call now reply = some next) : next.log = world.log := by
  unfold World.reply at hnext
  split at hnext
  · obtain rfl := Option.some.inj hnext
    rfl
  · obtain rfl := Option.some.inj hnext
    rfl
  · cases hnext

/-- What the server has handled stays. -/
theorem step_log {act : Act} (hnext : world.step call act = some next) :
    ∃ more, next.log = world.log ++ more := by
  cases act with
  | Serve event =>
    obtain rfl := Option.some.inj hnext
    exact ⟨_, rfl⟩
  | Deliver connection host start now =>
    obtain ⟨request, -, hnext⟩ := Option.bind_eq_some_iff.mp hnext
    obtain rfl := Option.some.inj hnext
    exact ⟨_, rfl⟩
  | Refuse connection error =>
    dsimp only [World.step] at hnext
    split_ifs at hnext
    obtain rfl := Option.some.inj hnext
    exact ⟨[], by simp⟩
  | Receive response now =>
    obtain ⟨connection, -, hnext⟩ := Option.bind_eq_some_iff.mp hnext
    split_ifs at hnext
    exact ⟨[], by rw [reply_log hnext, List.append_nil]⟩
  | Lose loss now => exact ⟨[], by rw [reply_log hnext, List.append_nil]⟩
  | Look now =>
    dsimp only [World.step] at hnext
    split_ifs at hnext
    all_goals
      obtain rfl := Option.some.inj hnext
      exact ⟨[], by simp⟩

theorem agreement_step {act : Act} (hact : act.refuses = false)
    (hnext : world.step call act = some next)
    (h : DistinctIds world.log → Agreement call first world) :
    DistinctIds next.log → Agreement call first next := by
  intro hdistinct
  obtain ⟨more, hmore⟩ := step_log hnext
  have hworld : Agreement call first world := by
    rw [hmore] at hdistinct
    exact h hdistinct.of_append
  cases act with
  | Serve event =>
    obtain rfl := Option.some.inj hnext
    exact hworld.serve hdistinct
  | Deliver connection host start now =>
    obtain ⟨request, hrequest, hnext⟩ := Option.bind_eq_some_iff.mp hnext
    obtain rfl := Option.some.inj hnext
    exact hworld.deliver rfl (hworld.sent request (List.mem_of_getElem? hrequest)) hdistinct
  | Refuse => cases hact
  | Receive response now =>
    obtain ⟨connection, -, hnext⟩ := Option.bind_eq_some_iff.mp hnext
    split_ifs at hnext with hreply
    exact hworld.receive (hworld.replies _ hreply) hnext
  | Lose loss now => exact hworld.lose hnext
  | Look now => exact hworld.look hnext

/-! ## The outcome is right -/

/-- The plan was not executed, and it cannot be executed any more. -/
def NeverExecutes (world : World) (id : String) : Prop :=
  ∀ events, DistinctIds (world.log ++ serve world.runtime events) →
    ∀ entry ∈ world.log ++ serve world.runtime events, entry.2.executed ≠ some id

/-- A definite outcome is what the server did. -/
def Right (world : World) (id : String) : CommitOutcome → Prop
  | .ok receipt => Recorded world.log id (.Committed receipt)
  | .error .OutcomeUnknown => True
  | .error error =>
    NeverExecutes world id ∨ ∃ failure, error = .Backend failure ∧
      Recorded world.log id (.Failed failure)

theorem never_executes_of_aborted (hrun : Run first world.log world.runtime)
    (hempty : first.transactions = ∅) {id : String} (h : Recorded world.log id .Aborted) :
    NeverExecutes world id := by
  intro events hdistinct
  obtain ⟨entry, hentry, transaction, hsome, haborted⟩ := h
  have hmore : ∃ last, Run world.runtime (serve world.runtime events) last :=
    record_trace world.runtime events
  obtain ⟨last, hmore⟩ := hmore
  exact log_aborted (hrun.append hmore) hempty hdistinct (List.mem_append_left _ hentry) hsome
    haborted

theorem right_of_told (hrun : Run first world.log world.runtime) (hempty : first.transactions = ∅)
    {id : String} {outcome : CommitOutcome} (h : Told world.log id outcome) :
    Right world id outcome := by
  rcases h with rfl | ⟨state, hrecorded, hdone⟩
  · trivial
  · cases state with
    | Prepared => cases hdone
    | Committing => cases hdone
    | Committed summary =>
      obtain rfl := Option.some.inj hdone
      exact hrecorded
    | Aborted =>
      obtain rfl := Option.some.inj hdone
      exact Or.inl (never_executes_of_aborted hrun hempty hrecorded)
    | Failed error =>
      obtain rfl := Option.some.inj hdone
      exact Or.inr ⟨error, rfl, hrecorded⟩

/-- The id of the call was issued to the peer that makes it. -/
def IssuedTo (call : Call) (log : List (Event × Handled)) : Prop :=
  ∃ entry ∈ log, entry.2.issues call.prepare_id ∧ entry.1.peer.uid = call.peer.uid ∧
    entry.1.peer.gid = call.peer.gid

theorem agreement_start {runtime : BackendRuntime} {log : List (Event × Handled)}
    (hempty : first.transactions = ∅) (hbefore : Run first log runtime)
    (hissued : IssuedTo call log) (hdistinct : DistinctIds log) :
    Agreement call first (World.start runtime log call) := by
  obtain ⟨entry, hentry, hissues, huid, hgid⟩ := hissued
  have howned := issued_owned hbefore hempty hdistinct hentry hissues
  exact {
    run := hbefore
    issued := ⟨entry, hentry, hissues⟩
    owned := fun transaction hsome => by
      rw [← ownedBy_congr huid hgid]
      exact howned transaction hsome
    snapshot := (hbefore.invariant (handle_same_snapshot first.snapshot_id)
      ⟨rfl, by simp [hempty]⟩).1
    sent := fun request hrequest => Or.inl (List.mem_singleton.mp hrequest)
    replies := fun reply hreply => by cases hreply
    returned := fun outcome houtcome => by cases houtcome }

/-- In every run in which the server answers the requests of the client, or they are lost or
late, `commit_until` returns a definite outcome only when it is right. When the reply to the
commit was lost, it returns a recorded outcome or that the outcome is unknown. -/
theorem commit_outcome_is_right {runtime : BackendRuntime} {log : List (Event × Handled)}
    {acts : List Act} (hempty : first.transactions = ∅) (hbefore : Run first log runtime)
    (hissued : IssuedTo call log)
    (hrun : follow (World.step call) (World.start runtime log call) acts = some world)
    (hdistinct : DistinctIds world.log) (hanswered : ∀ act ∈ acts, act.refuses = false)
    {outcome : CommitOutcome} (hreturned : world.client = .Returned outcome) :
    Right world call.prepare_id outcome ∧
      (world.commit_lost = true → Told world.log call.prepare_id outcome) := by
  have hagreement : DistinctIds world.log → Agreement call first world :=
    follow_invariant (fun _ _ _ hact hnext h => agreement_step hact hnext h) hrun hanswered
      (agreement_start hempty hbefore hissued)
  have hworld := hagreement hdistinct
  have htold := hworld.returned outcome hreturned
  exact ⟨right_of_told hworld.run hempty htold, fun _ => htold⟩

end agreement

/-! ## A question that the connection answers -/

def preparedCall : Call where
  peer := ordinaryPeer
  prepare_id := "0000"
  deadline := 1000

def prepareEvent : Event :=
  quietEvent 0 (.PrepareExec { argv := ["/bin/true"], cwd := "/w", request_budget := 1000 })

/-- The client has its handoff and calls `commit_until`. -/
def preparedWorld : World :=
  .start (handle aliasRuntime prepareEvent).runtime (serve aliasRuntime [prepareEvent]) preparedCall

/-- The commit is executed and its reply is lost. -/
def lostCommit : List Act :=
  [.Deliver 0 quietRequestHost 10 10, .Lose (.Frame (.Other "connection reset by peer")) 20,
    .Look 20]

/-- The question for the result is answered. -/
def answeredQuestion : List Act :=
  lostCommit ++ [.Deliver 1 quietRequestHost 30 30, .Receive (.CommitResult
    (transactionResponse "0000" (.Committed { succeeded := true, action_count := 1, warning_count := 0 }))) 40]

/-- The bodies of other connections are being read, so the question is refused. -/
def refusedQuestion : List Act :=
  lostCommit ++ [.Refuse 1 .Capacity, .Receive (.Error bodyCapacityError) 40]

/-- The id of a handoff. -/
def issuedId : ServerResponse → Option String
  | .PreparedExec handoff => some handoff.prepare_id
  | _ => none

theorem preparedCall_issued : IssuedTo preparedCall (serve aliasRuntime [prepareEvent]) := by
  have hid : ((handle aliasRuntime prepareEvent).response.bind issuedId) = some "0000" := by
    decide
  obtain ⟨response, hresponse, hhandoff⟩ := Option.bind_eq_some_iff.mp hid
  cases response with
  | PreparedExec handoff =>
    exact ⟨_, List.mem_singleton_self _, ⟨handoff, hresponse, Option.some.inj hhandoff⟩, rfl, rfl⟩
  | _ => cases hhandoff

theorem answered_question_is_right :
    ∃ world receipt, follow (World.step preparedCall) preparedWorld answeredQuestion = some world ∧
      world.client = .Returned (.ok receipt) ∧ Right world "0000" (.ok receipt) := by
  obtain ⟨world, hworld⟩ := Option.isSome_iff_exists.mp
    (by decide : (follow (World.step preparedCall) preparedWorld answeredQuestion).isSome)
  have hfacts : ((follow (World.step preparedCall) preparedWorld answeredQuestion).map fun world =>
      (world.client, oneHandoff world.log)) = some (.Returned (.ok
        { succeeded := true, action_count := 1, warning_count := 0 }), true) := by
    decide
  rw [hworld] at hfacts
  simp only [Option.map_some, Option.some.injEq, Prod.mk.injEq] at hfacts
  have hempty : aliasRuntime.transactions = ∅ := rfl
  exact ⟨world, _, hworld, hfacts.1, (commit_outcome_is_right hempty (.cons (.nil _))
    preparedCall_issued hworld (distinct_of_oneHandoff hfacts.2) (by decide) hfacts.1).1⟩

/-- The state of a transaction has not become a failure. -/
def neverFailed (id : String) (log : List (Event × Handled)) : Bool :=
  log.all fun entry => match entry.2.runtime.transactions[id]? with
    | some transaction => !(transaction.state matches .Failed _)
    | none => true

theorem not_recorded_failed {id : String} {log : List (Event × Handled)}
    (h : neverFailed id log = true) (failure : BackendError) :
    ¬ Recorded log id (.Failed failure) := by
  rintro ⟨entry, hentry, transaction, hsome, hstate⟩
  have hquiet := List.all_eq_true.mp h entry hentry
  simp [hsome, hstate] at hquiet

/-- The commit was executed, and `commit_until` returns an error that says otherwise. -/
theorem refused_question_is_wrong :
    ∃ world, follow (World.step preparedCall) preparedWorld refusedQuestion = some world ∧
      world.client = .Returned (.error (.Backend bodyCapacityError)) ∧ world.commit_lost = true ∧
      (∃ entry ∈ world.log, entry.2.executed = some "0000") ∧
      ¬ Right world "0000" (.error (.Backend bodyCapacityError)) := by
  obtain ⟨world, hworld⟩ := Option.isSome_iff_exists.mp
    (by decide : (follow (World.step preparedCall) preparedWorld refusedQuestion).isSome)
  have hfacts : ((follow (World.step preparedCall) preparedWorld refusedQuestion).map fun world =>
      (world.client, world.commit_lost, oneHandoff world.log, neverFailed "0000" world.log,
        world.log.any fun entry => entry.2.executed = some "0000")) =
      some (.Returned (.error (.Backend bodyCapacityError)), true, true, true, true) := by
    decide
  rw [hworld] at hfacts
  simp only [Option.map_some, Option.some.injEq, Prod.mk.injEq, List.any_eq_true,
    decide_eq_true_eq] at hfacts
  obtain ⟨hclient, hlost, hone, hnever, entry, hentry, hexecuted⟩ := hfacts
  refine ⟨world, hworld, hclient, hlost, ⟨entry, hentry, hexecuted⟩, ?_⟩
  rintro (hright | ⟨failure, -, hfailed⟩)
  · refine hright [] ?_ entry (List.mem_append_left _ hentry) hexecuted
    simpa [serve, record] using distinct_of_oneHandoff hone
  · exact not_recorded_failed hnever failure hfailed

end init_backend
