-- What one request can do to one transaction, and what follows for every
-- sequence of requests: a plan is executed at most once, and a transaction that
-- has ended answers the same until it is dropped.
import NixosDockers.Backend.Identity
import NixosDockers.Backend.Transaction

open bootstrap_model init_core

namespace init_backend

/-! ## One request -/

def ExecTransactionStateData.isPrepared : ExecTransactionStateData → Bool
  | .Prepared .. => true
  | _ => false

/-- The plan of the transaction has been started. -/
def ExecTransactionStateData.hasRun : ExecTransactionStateData → Bool
  | .Committing | .Committed _ | .Failed _ => true
  | _ => false

theorem ended_of_hasRun {state : ExecTransactionStateData}
    (h : state.hasRun = true) : state.isPrepared = false := by
  cases state <;> first | rfl | cases h

/-- The request is about this transaction. -/
def TransactionRequest.asksFor (request : TransactionRequest) (id : String) : Prop :=
  request = .CommitExec id ∨ request = .AbortExec id ∨ request = .GetExecResult id

/-- The request was answered with a handoff under this id. -/
def Handled.issues (handled : Handled) (id : String) : Prop :=
  ∃ handoff, handled.response = some (.PreparedExec handoff) ∧ handoff.prepare_id = id

/-- What a request does to the transaction with one id, by its state before and after. -/
inductive Touch (snapshot : String) (event : Event) (id : String)
    (response : Option ServerResponse) :
    Option ExecTransaction → Option ExecTransaction → Option String → Prop
  | keep {transaction : Option ExecTransaction} {executed : Option String}
      (hother : executed ≠ some id) : Touch snapshot event id response transaction transaction executed
  | enter {before : Option ExecTransaction} {transaction : ExecTransaction}
      {options : PrepareExecOptions} {handoff : PreparedHandoff}
      (hrequest : event.request = .PrepareExec options)
      (hid : event.host.new_prepare_id = .ok id)
      (hresponse : response = some (.PreparedExec handoff)) (hhandoff : handoff.prepare_id = id)
      (howner : transaction.ownedBy event.peer = true)
      (hdeadline : transaction.deadline = requestDeadline options event.start)
      (hsnapshot : transaction.snapshot_id = snapshot)
      (hprepared : transaction.state.isPrepared = true) :
      Touch snapshot event id response before (some transaction) none
  | drop {transaction : ExecTransaction} {options : PrepareExecOptions}
      (hrequest : event.request = .PrepareExec options)
      (hdeadline : transaction.deadline ≤ event.now) :
      Touch snapshot event id response (some transaction) none none
  | abort {transaction : ExecTransaction} (hasks : event.request.asksFor id)
      (howner : transaction.ownedBy event.peer = true)
      (hprepared : transaction.state.isPrepared = true)
      (hresponse : response = some (.CommitResult (transactionResponse id .Aborted))) :
      Touch snapshot event id response (some transaction) (some { transaction with state := .Aborted }) none
  | execute {transaction : ExecTransaction} {state : ExecTransactionStateData}
      (hrequest : event.request = .CommitExec id)
      (howner : transaction.ownedBy event.peer = true)
      (hprepared : transaction.state.isPrepared = true)
      (hdeadline : event.now < transaction.deadline) (hran : state.hasRun = true)
      (hresponse : response = none ∨ response = some (.CommitResult (transactionResponse id state))) :
      Touch snapshot event id response (some transaction) (some { transaction with state }) (some id)

@[simp]
theorem setState_self (runtime : BackendRuntime) (id : String) (transaction : ExecTransaction)
    (state : ExecTransactionStateData) :
    (setState runtime id transaction state).transactions[id]? =
      some { transaction with state } := by
  simp [setState]

theorem ownedBy_iff {transaction : ExecTransaction} {peer : PeerCredentials} :
    transaction.ownedBy peer = true ↔
      transaction.owner_uid = peer.uid ∧ transaction.owner_gid = peer.gid := by
  simp [ExecTransaction.ownedBy]

theorem setState_getElem? (runtime : BackendRuntime) (key id : String)
    (transaction : ExecTransaction) (state : ExecTransactionStateData) :
    (setState runtime key transaction state).transactions[id]? =
      if key = id then some { transaction with state } else runtime.transactions[id]? := by
  simp [setState, Std.ExtTreeMap.getElem?_insert]

theorem purge_getElem? (transactions : Std.ExtTreeMap String ExecTransaction) (now : Nat)
    (id : String) :
    (purge transactions now)[id]? = transactions[id]? ∨
      ((purge transactions now)[id]? = none ∧
        ∃ transaction : ExecTransaction, transactions[id]? = some transaction ∧
          transaction.deadline ≤ now) := by
  unfold purge
  rw [Std.ExtTreeMap.getElem?_filter']
  rcases transactions[id]? with _ | transaction
  · exact Or.inl rfl
  · rcases hkept : transaction.isKept now
    · right
      refine ⟨by simp [Option.filter, hkept], transaction, rfl, ?_⟩
      unfold ExecTransaction.isKept at hkept
      simp only [Bool.or_eq_false_iff, decide_eq_false_iff_not, not_lt] at hkept
      exact hkept.1
    · exact Or.inl (by simp [Option.filter, hkept])

/-- The part of a prepare that drops old transactions. -/
theorem purge_touch (snapshot : String) {event : Event} {options : PrepareExecOptions}
    (hrequest : event.request = .PrepareExec options) (response : Option ServerResponse)
    (transactions : Std.ExtTreeMap String ExecTransaction) (id : String) :
    Touch snapshot event id response transactions[id]? (purge transactions event.now)[id]? none := by
  rcases purge_getElem? transactions event.now id with h | ⟨h, transaction, ht, hdeadline⟩
  · rw [h]
    exact .keep (by simp)
  · rw [h, ht]
    exact .drop hrequest hdeadline

theorem prepare_touch {runtime : BackendRuntime} {event : Event} {options : PrepareExecOptions}
    (hrequest : event.request = .PrepareExec options) (id : String) :
    Touch runtime.snapshot_id event id (handle runtime event).response runtime.transactions[id]?
      (handle runtime event).runtime.transactions[id]? (handle runtime event).executed := by
  unfold handle
  rw [hrequest]
  dsimp only
  unfold prepareExec
  rcases hcheck : checkPrepare runtime event.host event.peer options with error | draft
  · exact .keep (by simp)
  · rcases hid : event.host.new_prepare_id with error | prepare_id
    · exact .keep (by simp)
    · dsimp only
      by_cases hlate : requestDeadline options event.start ≤ event.now
      · rw [if_pos hlate]
        exact .keep (by simp)
      · rw [if_neg hlate]
        split_ifs with hfull
        · exact purge_touch _ hrequest _ _ _
        · rw [Std.ExtTreeMap.getElem?_insert]
          by_cases hsame : prepare_id = id
          · subst hsame
            rw [if_pos (by simp)]
            exact .enter hrequest hid rfl rfl (by simp [ExecTransaction.ownedBy]) rfl rfl rfl
          · rw [if_neg (by simpa using hsame)]
            exact purge_touch _ hrequest _ _ _

/-- A change of one transaction leaves the others as they are. -/
theorem touch_of_setState {snapshot : String} {runtime : BackendRuntime} {event : Event} {key id : String}
    {response : Option ServerResponse} {transaction : ExecTransaction}
    {state : ExecTransactionStateData} {executed : Option String}
    (hbefore : runtime.transactions[key]? = some transaction)
    (hsame : Touch snapshot event key response (some transaction) (some { transaction with state }) executed)
    (hexecuted : executed = none ∨ executed = some key) :
    Touch snapshot event id response runtime.transactions[id]?
      (setState runtime key transaction state).transactions[id]? executed := by
  rw [setState_getElem?]
  by_cases hkey : key = id
  · subst hkey
    rw [if_pos rfl, hbefore]
    exact hsame
  · rw [if_neg hkey]
    refine .keep ?_
    rcases hexecuted with rfl | rfl
    · simp
    · simpa using hkey

theorem setState_setState_getElem? (runtime : BackendRuntime) (key id : String)
    (transaction : ExecTransaction) (first second : ExecTransactionStateData) :
    (setState (setState runtime key transaction first) key transaction second).transactions[id]? =
      (setState runtime key transaction second).transactions[id]? := by
  simp only [setState_getElem?]
  split <;> rfl

theorem executeCommit_touch {snapshot : String} {runtime : BackendRuntime} {event : Event} {key : String} (id : String)
    {transaction : ExecTransaction} {context : RuntimeContext} {identity : ResolvedIdentity}
    (hrequest : event.request = .CommitExec key)
    (hbefore : runtime.transactions[key]? = some transaction)
    (howner : transaction.ownedBy event.peer = true)
    (hprepared : transaction.state.isPrepared = true)
    (hdeadline : event.now < transaction.deadline) :
    let handled := executeCommit runtime event.host key transaction context identity
    Touch snapshot event id handled.response runtime.transactions[id]? handled.runtime.transactions[id]?
      handled.executed := by
  dsimp only
  unfold executeCommit
  dsimp only
  split
  · exact touch_of_setState hbefore
      (.execute hrequest howner hprepared hdeadline rfl (Or.inl rfl)) (Or.inr rfl)
  · rw [setState_setState_getElem?]
    exact touch_of_setState hbefore
      (.execute hrequest howner hprepared hdeadline rfl (Or.inr rfl)) (Or.inr rfl)
  · rw [setState_setState_getElem?]
    exact touch_of_setState hbefore
      (.execute hrequest howner hprepared hdeadline rfl (Or.inr rfl)) (Or.inr rfl)

theorem abortPrepared_touch {snapshot : String} {runtime : BackendRuntime} {event : Event} {key : String} (id : String)
    {transaction : ExecTransaction} (hasks : event.request.asksFor key)
    (hbefore : runtime.transactions[key]? = some transaction)
    (howner : transaction.ownedBy event.peer = true)
    (hprepared : transaction.state.isPrepared = true) :
    let handled := abortPrepared runtime key transaction
    Touch snapshot event id handled.response runtime.transactions[id]? handled.runtime.transactions[id]?
      handled.executed :=
  touch_of_setState hbefore (.abort hasks howner hprepared rfl) (Or.inl rfl)

/-- What every request does to every transaction. -/
theorem handle_touch (runtime : BackendRuntime) (event : Event) (id : String) :
    Touch runtime.snapshot_id event id (handle runtime event).response runtime.transactions[id]?
      (handle runtime event).runtime.transactions[id]? (handle runtime event).executed := by
  rcases hrequest : event.request with options | key | key | key
  · exact prepare_touch hrequest id
  all_goals
    have hasks : event.request.asksFor key := by simp [TransactionRequest.asksFor, hrequest]
    unfold handle
    rw [hrequest]
  · dsimp only [commitExec, withTransaction]
    rcases hbefore : runtime.transactions[key]? with _ | transaction
    · exact .keep (by simp)
    · dsimp only
      split
      · exact .keep (by simp)
      · rename_i howner
        have howner : transaction.ownedBy event.peer = true := by simpa using howner
        split
        · exact .keep (by simp)
        · rcases hstate : transaction.state with ⟨context, identity⟩ | _ | _ | _ | _
          · have hprepared : transaction.state.isPrepared = true := by rw [hstate]; rfl
            dsimp only
            split
            · rename_i hdeadline
              exact executeCommit_touch id hrequest hbefore howner hprepared hdeadline
            · exact abortPrepared_touch id hasks hbefore howner hprepared
          all_goals exact .keep (by simp [answerState])
  · dsimp only [abortExec, withTransaction]
    rcases hbefore : runtime.transactions[key]? with _ | transaction
    · exact .keep (by simp)
    · dsimp only
      split
      · exact .keep (by simp)
      · rename_i howner
        have howner : transaction.ownedBy event.peer = true := by simpa using howner
        rcases hstate : transaction.state with ⟨context, identity⟩ | _ | _ | _ | _
        · have hprepared : transaction.state.isPrepared = true := by rw [hstate]; rfl
          exact abortPrepared_touch id hasks hbefore howner hprepared
        all_goals exact .keep (by simp [answerState])
  · dsimp only [getExecResult, withTransaction]
    rcases hbefore : runtime.transactions[key]? with _ | transaction
    · exact .keep (by simp)
    · dsimp only
      split
      · exact .keep (by simp)
      · rename_i howner
        have howner : transaction.ownedBy event.peer = true := by simpa using howner
        rcases hstate : transaction.state with ⟨context, identity⟩ | _ | _ | _ | _
        · have hprepared : transaction.state.isPrepared = true := by rw [hstate]; rfl
          dsimp only
          split
          · exact abortPrepared_touch id hasks hbefore howner hprepared
          · exact .keep (by simp [answerState])
        all_goals exact .keep (by simp [answerState])

theorem prepareExec_frame (runtime : BackendRuntime) (host : RequestHost) (peer : PeerCredentials)
    (options : PrepareExecOptions) (start now : Nat) :
    ∃ transactions, (prepareExec runtime host peer options start now).1 =
      { runtime with transactions } := by
  unfold prepareExec
  split
  · exact ⟨_, rfl⟩
  · exact ⟨_, rfl⟩
  · dsimp only
    split_ifs
    all_goals exact ⟨_, rfl⟩

/-- Nothing of the backend has changed but its transactions. -/
def OnlyTransactions (runtime next : BackendRuntime) : Prop :=
  ∃ transactions, next = { runtime with transactions }

theorem withTransaction_frame {runtime : BackendRuntime} {peer : PeerCredentials}
    {prepare_id : String} {next : ExecTransaction → Handled}
    (h : ∀ transaction, OnlyTransactions runtime (next transaction).runtime) :
    OnlyTransactions runtime (withTransaction runtime peer prepare_id next).runtime := by
  unfold withTransaction
  split
  · exact ⟨_, rfl⟩
  · split_ifs
    · exact ⟨_, rfl⟩
    · exact h _

theorem executeCommit_frame (runtime : BackendRuntime) (host : RequestHost) (prepare_id : String)
    (transaction : ExecTransaction) (context : RuntimeContext) (identity : ResolvedIdentity) :
    OnlyTransactions runtime
      (executeCommit runtime host prepare_id transaction context identity).runtime := by
  unfold executeCommit
  dsimp only
  split <;> exact ⟨_, rfl⟩

/-- A request changes nothing of the backend but its transactions. -/
theorem handle_frame (runtime : BackendRuntime) (event : Event) :
    OnlyTransactions runtime (handle runtime event).runtime := by
  unfold handle
  split
  · exact prepareExec_frame _ _ _ _ _ _
  · refine withTransaction_frame fun transaction => ?_
    split
    · exact ⟨_, rfl⟩
    · split
      · split
        · exact executeCommit_frame _ _ _ _ _ _
        · exact ⟨_, rfl⟩
      · exact ⟨_, rfl⟩
  · refine withTransaction_frame fun transaction => ?_
    split <;> exact ⟨_, rfl⟩
  · refine withTransaction_frame fun transaction => ?_
    split
    · split <;> exact ⟨_, rfl⟩
    · exact ⟨_, rfl⟩

theorem handle_snapshot_id (runtime : BackendRuntime) (event : Event) :
    (handle runtime event).runtime.snapshot_id = runtime.snapshot_id := by
  obtain ⟨transactions, h⟩ := handle_frame runtime event
  rw [h]

/-! ## The responses -/

theorem handle_unknown {runtime : BackendRuntime} {event : Event} {id : String}
    (hasks : event.request.asksFor id) (hnone : runtime.transactions[id]? = none) :
    (handle runtime event).response = some unknownTransaction := by
  rcases hasks with h | h | h <;> unfold handle <;> rw [h]
  · simp only [commitExec, withTransaction, hnone]
  · simp only [abortExec, withTransaction, hnone]
  · simp only [getExecResult, withTransaction, hnone]

/-- A transaction that is not prepared any more answers its owner with its state. -/
theorem handle_ended {runtime : BackendRuntime} {event : Event} {id : String}
    {transaction : ExecTransaction} (hasks : event.request.asksFor id)
    (hsome : runtime.transactions[id]? = some transaction)
    (howner : transaction.ownedBy event.peer = true)
    (hsnapshot : transaction.snapshot_id = runtime.snapshot_id)
    (hended : transaction.state.isPrepared = false) :
    (handle runtime event).response =
      some (.CommitResult (transactionResponse id transaction.state)) := by
  rcases hasks with h | h | h <;> unfold handle <;> rw [h]
  · simp only [commitExec, withTransaction, hsome, howner, hsnapshot]
    cases hstate : transaction.state <;> simp_all [ExecTransactionStateData.isPrepared, answerState]
  · simp only [abortExec, withTransaction, hsome, howner]
    cases hstate : transaction.state <;> simp_all [ExecTransactionStateData.isPrepared, answerState]
  · simp only [getExecResult, withTransaction, hsome, howner]
    cases hstate : transaction.state <;> simp_all [ExecTransactionStateData.isPrepared, answerState]

/-- The answer about a transaction is what the table says of it. -/
def Tells (handled : Handled) (id : String) : Prop :=
  ∀ result, handled.response = some (.CommitResult result) →
    ∃ transaction, handled.runtime.transactions[id]? = some transaction ∧
      result = transactionResponse id transaction.state

theorem answerState_tells {runtime : BackendRuntime} {id : String} {transaction : ExecTransaction}
    {state : ExecTransactionStateData} (hsome : runtime.transactions[id]? = some transaction)
    (hstate : transaction.state = state) : Tells (answerState runtime id state) id := by
  intro result h
  obtain rfl := ServerResponse.CommitResult.inj (Option.some.inj h)
  exact ⟨transaction, hsome, by rw [hstate]⟩

theorem abortPrepared_tells (runtime : BackendRuntime) (id : String)
    (transaction : ExecTransaction) : Tells (abortPrepared runtime id transaction) id := by
  intro result h
  obtain rfl := ServerResponse.CommitResult.inj (Option.some.inj h)
  exact ⟨_, setState_self runtime id transaction .Aborted, rfl⟩

theorem executeCommit_tells (runtime : BackendRuntime) (host : RequestHost) (id : String)
    (transaction : ExecTransaction) (context : RuntimeContext) (identity : ResolvedIdentity) :
    Tells (executeCommit runtime host id transaction context identity) id := by
  intro result h
  unfold executeCommit at h ⊢
  dsimp only at h ⊢
  split at h
  · cases h
  all_goals
    obtain rfl := ServerResponse.CommitResult.inj (Option.some.inj h)
    exact ⟨_, setState_self _ id transaction _, rfl⟩

theorem withTransaction_tells {runtime : BackendRuntime} {peer : PeerCredentials} {id : String}
    {next : ExecTransaction → Handled}
    (h : ∀ transaction, runtime.transactions[id]? = some transaction →
      Tells (next transaction) id) :
    Tells (withTransaction runtime peer id next) id := by
  intro result hresponse
  unfold withTransaction at hresponse ⊢
  rcases hsome : runtime.transactions[id]? with _ | transaction
  · rw [hsome] at hresponse
    cases hresponse
  · rw [hsome] at hresponse
    dsimp only at hresponse ⊢
    split at hresponse
    · cases hresponse
    · rename_i howner
      rw [if_neg howner]
      exact h transaction hsome result hresponse

theorem commitExec_tells (runtime : BackendRuntime) (host : RequestHost) (peer : PeerCredentials)
    (id : String) (now : Nat) : Tells (commitExec runtime host peer id now) id := by
  refine withTransaction_tells fun transaction hsome => ?_
  split
  · intro result h
    cases h
  · rcases hstate : transaction.state with ⟨context, identity⟩ | _ | _ | _ | _
    · dsimp only
      split
      · exact executeCommit_tells _ _ _ _ _ _
      · exact abortPrepared_tells _ _ _
    all_goals exact answerState_tells hsome hstate

theorem abortExec_tells (runtime : BackendRuntime) (peer : PeerCredentials) (id : String) :
    Tells (abortExec runtime peer id) id := by
  refine withTransaction_tells fun transaction hsome => ?_
  rcases hstate : transaction.state with ⟨context, identity⟩ | _ | _ | _ | _
  · exact abortPrepared_tells _ _ _
  all_goals exact answerState_tells hsome hstate

theorem getExecResult_tells (runtime : BackendRuntime) (peer : PeerCredentials) (id : String)
    (now : Nat) : Tells (getExecResult runtime peer id now) id := by
  refine withTransaction_tells fun transaction hsome => ?_
  rcases hstate : transaction.state with ⟨context, identity⟩ | _ | _ | _ | _
  · dsimp only
    split
    · exact abortPrepared_tells _ _ _
    · exact answerState_tells hsome hstate
  all_goals exact answerState_tells hsome hstate

/-- Every answer about a transaction tells the state that the table has of it. -/
theorem handle_tells {runtime : BackendRuntime} {event : Event} {id : String}
    (hasks : event.request.asksFor id) : Tells (handle runtime event) id := by
  unfold handle
  rcases hasks with h | h | h <;> rw [h]
  · exact commitExec_tells _ _ _ _ _
  · exact abortExec_tells _ _ _
  · exact getExecResult_tells _ _ _ _

/-! ## What a step keeps -/

section steps

variable {runtime : BackendRuntime} {event : Event} {id : String} {transaction : ExecTransaction}

/-- An id that is not in the table gets there only with a handoff. -/
theorem handle_absent (hnone : runtime.transactions[id]? = none)
    (hissues : ¬ (handle runtime event).issues id) :
    (handle runtime event).runtime.transactions[id]? = none ∧
      (handle runtime event).executed ≠ some id := by
  have htouch := handle_touch runtime event id
  rw [hnone] at htouch
  generalize hafter : (handle runtime event).runtime.transactions[id]? = after at htouch ⊢
  generalize hexecuted : (handle runtime event).executed = executed at htouch ⊢
  cases htouch with
  | keep hother => exact ⟨rfl, hother⟩
  | enter _ _ hresponse hhandoff => exact absurd ⟨_, hresponse, hhandoff⟩ hissues

/-- An ended transaction stays as it is or is dropped. -/
theorem handle_settled (hsome : runtime.transactions[id]? = some transaction)
    (hended : transaction.state.isPrepared = false)
    (hissues : ¬ (handle runtime event).issues id) :
    ((handle runtime event).runtime.transactions[id]? = some transaction ∨
        (handle runtime event).runtime.transactions[id]? = none) ∧
      (handle runtime event).executed ≠ some id := by
  have htouch := handle_touch runtime event id
  rw [hsome] at htouch
  generalize hafter : (handle runtime event).runtime.transactions[id]? = after at htouch ⊢
  generalize hexecuted : (handle runtime event).executed = executed at htouch ⊢
  cases htouch with
  | keep hother => exact ⟨Or.inl rfl, hother⟩
  | enter _ _ hresponse hhandoff => exact absurd ⟨_, hresponse, hhandoff⟩ hissues
  | drop => exact ⟨Or.inr rfl, by simp⟩
  | abort _ _ hprepared => simp [hended] at hprepared
  | execute _ _ hprepared => simp [hended] at hprepared

/-- A transaction that is prepared was so before, unless the request entered it. -/
theorem handle_prepared
    (hsome : (handle runtime event).runtime.transactions[id]? = some transaction)
    (hprepared : transaction.state.isPrepared = true)
    (hissues : ¬ (handle runtime event).issues id) :
    runtime.transactions[id]? = some transaction ∧ (handle runtime event).executed ≠ some id := by
  have htouch := handle_touch runtime event id
  rw [hsome] at htouch
  generalize hbefore : runtime.transactions[id]? = before at htouch ⊢
  generalize hexecuted : (handle runtime event).executed = executed at htouch ⊢
  cases htouch with
  | keep hother => exact ⟨rfl, hother⟩
  | enter _ _ hresponse hhandoff => exact absurd ⟨_, hresponse, hhandoff⟩ hissues
  | abort => cases hprepared
  | execute _ _ _ _ hran => simp [ended_of_hasRun hran] at hprepared

theorem handle_executed (hexecuted : (handle runtime event).executed = some id) :
    ∃ (transaction : ExecTransaction) (state : ExecTransactionStateData),
      runtime.transactions[id]? = some transaction ∧
      (handle runtime event).runtime.transactions[id]? = some { transaction with state } ∧
      event.request = .CommitExec id ∧ transaction.ownedBy event.peer = true ∧
      event.now < transaction.deadline ∧ transaction.state.isPrepared = true ∧
      state.hasRun = true := by
  have htouch := handle_touch runtime event id
  rw [hexecuted] at htouch
  generalize hbefore : runtime.transactions[id]? = before at htouch
  generalize hafter : (handle runtime event).runtime.transactions[id]? = after at htouch
  cases htouch with
  | keep hother => exact absurd rfl hother
  | @execute transaction state hrequest howner hprepared hdeadline hran =>
    exact ⟨transaction, state, rfl, rfl, hrequest, howner, hdeadline, hprepared, hran⟩

/-- A prepared transaction that was not there before was entered by the request. -/
theorem handle_entered (hnone : runtime.transactions[id]? = none)
    (hsome : (handle runtime event).runtime.transactions[id]? = some transaction) :
    ∃ options, event.request = .PrepareExec options ∧ (handle runtime event).issues id ∧
      transaction.ownedBy event.peer = true ∧
      transaction.deadline = requestDeadline options event.start ∧
      (handle runtime event).executed ≠ some id := by
  have htouch := handle_touch runtime event id
  rw [hnone, hsome] at htouch
  generalize hexecuted : (handle runtime event).executed = executed at htouch ⊢
  cases htouch with
  | enter hrequest _ hresponse hhandoff howner hdeadline =>
    exact ⟨_, hrequest, ⟨_, hresponse, hhandoff⟩, howner, hdeadline, by simp⟩

/-- A request about a transaction does not drop it. -/
theorem handle_asks_keeps (hasks : event.request.asksFor id)
    (hsome : runtime.transactions[id]? = some transaction) :
    (handle runtime event).runtime.transactions[id]? ≠ none := by
  have htouch := handle_touch runtime event id
  rw [hsome] at htouch
  intro hafter
  rw [hafter] at htouch
  generalize hexecuted : (handle runtime event).executed = executed at htouch
  cases htouch with
  | drop hrequest => simp [TransactionRequest.asksFor, hrequest] at hasks

end steps

/-! ## What a run keeps -/

abbrev Run := traces.Trace handle (·.runtime)

section runs

variable {first last : BackendRuntime} {log : List (Event × Handled)} {id : String}

/-- The answers to the requests about an id that is not in the table. -/
structure Gone (id : String) (entry : Event × Handled) : Prop where
  absent : entry.2.runtime.transactions[id]? = none
  unexecuted : entry.2.executed ≠ some id
  answer : entry.1.request.asksFor id → entry.2.response = some unknownTransaction

/-- The answers to the requests about an ended transaction that is still in the table. -/
structure Kept (id : String) (transaction : ExecTransaction) (entry : Event × Handled) : Prop where
  present : entry.2.runtime.transactions[id]? = some transaction
  unexecuted : entry.2.executed ≠ some id
  answer : entry.1.request.asksFor id → transaction.ownedBy entry.1.peer = true →
    entry.2.response = some (.CommitResult (transactionResponse id transaction.state))

theorem run_absent (hrun : Run first log last) (hissues : ∀ entry ∈ log, ¬ entry.2.issues id)
    (hnone : first.transactions[id]? = none) :
    last.transactions[id]? = none ∧ ∀ entry ∈ log, Gone id entry := by
  induction hrun with
  | nil => exact ⟨hnone, by simp⟩
  | @cons runtime _ event log hrun ih =>
    rw [List.forall_mem_cons] at hissues ⊢
    obtain ⟨hafter, hunexecuted⟩ := handle_absent hnone hissues.1
    obtain ⟨hlast, hgone⟩ := ih hissues.2 hafter
    exact ⟨hlast, ⟨hafter, hunexecuted, fun hasks => handle_unknown hasks hnone⟩, hgone⟩

/-- A transaction that is prepared at the end was so all along. -/
theorem run_prepared (hrun : Run first log last) (hissues : ∀ entry ∈ log, ¬ entry.2.issues id)
    {transaction : ExecTransaction} (hsome : last.transactions[id]? = some transaction)
    (hprepared : transaction.state.isPrepared = true) :
    first.transactions[id]? = some transaction ∧
      ∀ entry ∈ log, entry.2.runtime.transactions[id]? = some transaction ∧
        entry.2.executed ≠ some id := by
  induction hrun with
  | nil => exact ⟨hsome, by simp⟩
  | @cons runtime _ event log hrun ih =>
    rw [List.forall_mem_cons] at hissues ⊢
    obtain ⟨hafter, hall⟩ := ih hissues.2 hsome
    obtain ⟨hbefore, hunexecuted⟩ := handle_prepared hafter hprepared hissues.1
    exact ⟨hbefore, ⟨hafter, hunexecuted⟩, hall⟩

/-- An ended transaction answers the same until it is dropped, and is unknown from then on. -/
theorem run_settled (hrun : Run first log last) (hissues : ∀ entry ∈ log, ¬ entry.2.issues id)
    {transaction : ExecTransaction} (hsome : first.transactions[id]? = some transaction)
    (hsnapshot : transaction.snapshot_id = first.snapshot_id)
    (hended : transaction.state.isPrepared = false) :
    ∃ kept gone, log = kept ++ gone ∧ (∀ entry ∈ kept, Kept id transaction entry) ∧
      ∀ entry ∈ gone, Gone id entry := by
  induction hrun with
  | nil => exact ⟨[], [], rfl, by simp, by simp⟩
  | @cons runtime _ event log hrun ih =>
    rw [List.forall_mem_cons] at hissues
    obtain ⟨hafter | hafter, hunexecuted⟩ := handle_settled hsome hended hissues.1
    · obtain ⟨kept, gone, rfl, hkept, hgone⟩ :=
        ih hissues.2 hafter (hsnapshot.trans (handle_snapshot_id runtime event).symm)
      refine ⟨(event, handle runtime event) :: kept, gone, rfl, ?_, hgone⟩
      rw [List.forall_mem_cons]
      exact ⟨⟨hafter, hunexecuted, fun hasks howner =>
        handle_ended hasks hsome howner hsnapshot hended⟩, hkept⟩
    · -- The request that drops the transaction is a prepare, so it asks for nothing.
      refine ⟨[], (event, handle runtime event) :: log, rfl, by simp, ?_⟩
      rw [List.forall_mem_cons]
      refine ⟨⟨hafter, hunexecuted, fun hasks => ?_⟩, (run_absent hrun hissues.2 hafter).2⟩
      exact absurd hafter (handle_asks_keeps hasks hsome)

end runs

/-! ## At most once -/

@[simp]
theorem transactionResponse_prepare_id (id : String) (state : ExecTransactionStateData) :
    (transactionResponse id state).prepare_id = id := by
  cases state <;> rfl

theorem handle_asked {runtime : BackendRuntime} {event : Event} {result : CommitResult}
    (h : (handle runtime event).response = some (.CommitResult result)) :
    event.request.asksFor result.prepare_id := by
  have hkey : ∀ key, event.request.asksFor key → result.prepare_id = key := by
    intro key hasks
    obtain ⟨transaction, -, rfl⟩ := handle_tells hasks result h
    exact transactionResponse_prepare_id key transaction.state
  rcases hrequest : event.request with options | key | key | key
  · unfold handle at h
    rw [hrequest] at h
    dsimp only at h
    split at h <;> cases h
  all_goals
    have hasks : event.request.asksFor key := by simp [TransactionRequest.asksFor, hrequest]
    rw [hkey key hasks, ← hrequest]
    exact hasks

/-- The id was answered to be aborted, on request or because its time was over. -/
def Handled.aborts (handled : Handled) (id : String) : Prop :=
  handled.response = some (.CommitResult (transactionResponse id .Aborted))

theorem handle_aborts {runtime : BackendRuntime} {event : Event} {id : String}
    (h : (handle runtime event).aborts id) :
    ∃ transaction, (handle runtime event).runtime.transactions[id]? = some transaction ∧
      transaction.state.isPrepared = false := by
  have hasks := handle_asked h
  rw [transactionResponse_prepare_id] at hasks
  obtain ⟨transaction, hsome, hresult⟩ := handle_tells hasks _ h
  refine ⟨transaction, hsome, ?_⟩
  cases hstate : transaction.state <;> simp_all [transactionResponse, ExecTransactionStateData.isPrepared]

theorem run_aborts {first last : BackendRuntime} {log : List (Event × Handled)} {id : String}
    (hrun : Run first log last) {entry : Event × Handled} (hentry : entry ∈ log)
    (h : entry.2.aborts id) :
    ∃ transaction, entry.2.runtime.transactions[id]? = some transaction ∧
      transaction.state.isPrepared = false := by
  obtain ⟨before, hhandled⟩ := hrun.handled hentry
  rw [hhandled] at h ⊢
  exact handle_aborts h

/-- Every transaction was prepared for the snapshot that the backend serves. -/
def SameSnapshot (snapshot : String) (runtime : BackendRuntime) : Prop :=
  runtime.snapshot_id = snapshot ∧
    ∀ (id : String) (transaction : ExecTransaction), runtime.transactions[id]? = some transaction →
      transaction.snapshot_id = snapshot

theorem handle_same_snapshot (snapshot : String) (runtime : BackendRuntime) (event : Event)
    (h : SameSnapshot snapshot runtime) : SameSnapshot snapshot (handle runtime event).runtime := by
  obtain ⟨hruntime, hall⟩ := h
  refine ⟨(handle_snapshot_id runtime event).trans hruntime, fun id transaction hsome => ?_⟩
  have htouch := handle_touch runtime event id
  rw [hsome] at htouch
  generalize hbefore : runtime.transactions[id]? = before at htouch
  generalize hexecuted : (handle runtime event).executed = executed at htouch
  cases htouch with
  | keep => exact hall id _ hbefore
  | enter _ _ _ _ _ _ hsnapshot => exact hsnapshot.trans hruntime
  | abort => exact (hall id _ hbefore :)
  | execute => exact (hall id _ hbefore :)

/-- No two requests were answered with the same id. -/
def DistinctIds (log : List (Event × Handled)) : Prop :=
  log.Pairwise fun x y => ∀ id, x.2.issues id → ¬ y.2.issues id

/-- The prepare behind an execution: it recorded the peer and the deadline, and the transaction
stayed prepared until the commit. -/
structure PreparedFor (id : String) (commit : Event) (prepare : Event × Handled)
    (between : List (Event × Handled)) (options : PrepareExecOptions) : Prop where
  request : prepare.1.request = .PrepareExec options
  issued : prepare.2.issues id
  same_uid : commit.peer.uid = prepare.1.peer.uid
  same_gid : commit.peer.gid = prepare.1.peer.gid
  in_time : commit.now < requestDeadline options prepare.1.start
  waits : ∃ transaction, transaction.state.isPrepared = true ∧
    ∀ entry ∈ prepare :: between, entry.2.runtime.transactions[id]? = some transaction

/-- What is known of an execution from the requests before and after it. -/
structure ExecutedOnce (id : String) (before : List (Event × Handled)) (entry : Event × Handled)
    (after : List (Event × Handled)) : Prop where
  commit : entry.1.request = .CommitExec id
  once : ∀ other ∈ before ++ after, other.2.executed ≠ some id
  unaborted : ∀ other ∈ before, ¬ other.2.aborts id
  prepared : ∃ earlier prepare between options, before = earlier ++ prepare :: between ∧
    PreparedFor id entry.1 prepare between options

theorem DistinctIds.others {l₁ l₂ : List (Event × Handled)} {entry : Event × Handled} {id : String}
    (h : DistinctIds (l₁ ++ entry :: l₂)) (hissues : entry.2.issues id) :
    ∀ other ∈ l₁ ++ l₂, ¬ other.2.issues id := by
  unfold DistinctIds at h
  rw [List.pairwise_append, List.pairwise_cons] at h
  obtain ⟨-, ⟨hafter, -⟩, hbefore⟩ := h
  intro other hother
  rcases List.mem_append.mp hother with hother | hother
  · intro hother'
    exact hbefore other hother entry (by simp) id hother' hissues
  · exact hafter other hother id hissues

/-- A transaction in the table was issued by a request of the run. -/
theorem run_issued {first last : BackendRuntime} {log : List (Event × Handled)} {id : String}
    {transaction : ExecTransaction} (hrun : Run first log last) (hempty : first.transactions = ∅)
    (hsome : last.transactions[id]? = some transaction) : ∃ entry ∈ log, entry.2.issues id := by
  by_contra hissues
  push Not at hissues
  have hnone := (run_absent hrun hissues (by simp [hempty])).1
  rw [hsome] at hnone
  cases hnone

section log

variable {first last : BackendRuntime} {l₁ l₂ : List (Event × Handled)} {entry : Event × Handled}
  {id : String} {transaction : ExecTransaction}

/-- What comes after a transaction has ended. -/
theorem log_settled (hrun : Run first (l₁ ++ entry :: l₂) last) (hempty : first.transactions = ∅)
    (hdistinct : DistinctIds (l₁ ++ entry :: l₂))
    (hsome : entry.2.runtime.transactions[id]? = some transaction)
    (hended : transaction.state.isPrepared = false) :
    ∃ kept gone, l₂ = kept ++ gone ∧ (∀ later ∈ kept, Kept id transaction later) ∧
      ∀ later ∈ gone, Gone id later := by
  have hsnapshot := (hrun.invariant (handle_same_snapshot first.snapshot_id)
    ⟨rfl, by simp [hempty]⟩).2 entry (by simp)
  obtain ⟨hbefore, hafter⟩ := hrun.split_after
  obtain ⟨prepare, hprepare, hissues⟩ := run_issued hbefore hempty hsome
  have hothers : ∀ later ∈ l₂, ¬ later.2.issues id := by
    intro later hlater hissues'
    unfold DistinctIds at hdistinct
    rw [List.append_cons, List.pairwise_append] at hdistinct
    exact hdistinct.2.2 prepare hprepare later hlater id hissues hissues'
  exact run_settled hafter hothers hsome
    ((hsnapshot.2 id transaction hsome).trans hsnapshot.1.symm) hended

/-- What came before an execution, and what comes after it. -/
theorem log_executed (hrun : Run first (l₁ ++ entry :: l₂) last) (hempty : first.transactions = ∅)
    (hdistinct : DistinctIds (l₁ ++ entry :: l₂)) (hexecuted : entry.2.executed = some id) :
    ExecutedOnce id l₁ entry l₂ := by
  obtain ⟨mid, hbefore, hrest⟩ := hrun.split
  obtain ⟨hentry, -⟩ := hrest.cons_inv
  rw [hentry] at hexecuted
  obtain ⟨transaction, state, hmid, hafter, hrequest, howner, hdeadline, hprepared, hran⟩ :=
    handle_executed hexecuted
  rw [← hentry] at hafter
  obtain ⟨kept, gone, hlater, hkept, hgone⟩ := log_settled hrun hempty hdistinct hafter (ended_of_hasRun hran)
  obtain ⟨prepare, hprepare, hissues⟩ := run_issued hbefore hempty hmid
  obtain ⟨earlier, between, rfl⟩ := List.append_of_mem hprepare
  rw [List.append_assoc, List.cons_append] at hdistinct
  have hothers := hdistinct.others hissues
  obtain ⟨start, hearlier, hrest⟩ := hbefore.split
  obtain ⟨hprepare, hbetween⟩ := hrest.cons_inv
  have hnone : first.transactions[id]? = none := by simp [hempty]
  obtain ⟨hstart, habsent⟩ := run_absent hearlier
    (fun other hother => hothers other (by simp [hother])) hnone
  obtain ⟨hissued, hwaits⟩ := run_prepared hbetween
    (fun other hother => hothers other (by simp [hother])) hmid hprepared
  rw [hprepare] at hissued
  obtain ⟨options, hoptions, -, hprepareOwner, htransaction, hunexecuted⟩ :=
    handle_entered hstart hissued
  rw [← hprepare] at hissued hunexecuted
  have hstays : ∀ other ∈ prepare :: between, other.2.runtime.transactions[id]? = some transaction := by
    rw [List.forall_mem_cons]
    exact ⟨hissued, fun other hother => (hwaits other hother).1⟩
  have hcommitOwner := ownedBy_iff.mp howner
  have hprepareOwner := ownedBy_iff.mp hprepareOwner
  refine ⟨hrequest, ?_, ?_, earlier, prepare, between, options, rfl, hoptions, hissues, ?_, ?_, ?_,
    transaction, hprepared, ?_⟩
  · intro other hother
    simp only [List.mem_append, List.mem_cons, hlater] at hother
    rcases hother with (hother | rfl | hother) | hother | hother
    · exact (habsent other hother).unexecuted
    · exact hunexecuted
    · exact (hwaits other hother).2
    · exact (hkept other hother).unexecuted
    · exact (hgone other hother).unexecuted
  · intro other hother haborts
    obtain ⟨ended, hended, hstate⟩ := run_aborts hbefore hother haborts
    rcases List.mem_append.mp hother with hother | hother
    · rw [(habsent other hother).absent] at hended
      cases hended
    · rw [hstays other hother] at hended
      obtain rfl := Option.some.inj hended
      rw [hprepared] at hstate
      cases hstate
  · exact hcommitOwner.1.symm.trans hprepareOwner.1
  · exact hcommitOwner.2.symm.trans hprepareOwner.2
  · rw [← htransaction]
    exact hdeadline
  · exact hstays

/-- A transaction that has run is never aborted, and one that is aborted never runs. -/
theorem log_aborted {log : List (Event × Handled)} (hrun : Run first log last)
    (hempty : first.transactions = ∅) (hdistinct : DistinctIds log) (hentry : entry ∈ log)
    (hsome : entry.2.runtime.transactions[id]? = some transaction)
    (haborted : transaction.state = .Aborted) : ∀ other ∈ log, other.2.executed ≠ some id := by
  intro other hother hexecuted
  have hended : transaction.state.isPrepared = false := by simp [haborted, ExecTransactionStateData.isPrepared]
  obtain ⟨earlier, later, rfl⟩ := List.append_of_mem hother
  obtain ⟨mid, -, hrest⟩ := hrun.split
  have hran := hexecuted
  rw [hrest.cons_inv.1] at hran
  obtain ⟨started, state, -, hafter, -, -, -, -, hran⟩ := handle_executed hran
  rw [← hrest.cons_inv.1] at hafter
  have hstate : state ≠ .Aborted := by
    rintro rfl
    cases hran
  rcases List.mem_append.mp hentry with hentry | hentry
  · obtain ⟨first', between, rfl⟩ := List.append_of_mem hentry
    rw [List.append_assoc, List.cons_append] at hrun hdistinct
    obtain ⟨kept, gone, hlater, hkept, hgone⟩ := log_settled hrun hempty hdistinct hsome hended
    have hmem : other ∈ kept ++ gone := by simp [← hlater]
    rcases List.mem_append.mp hmem with hmem | hmem
    · exact (hkept other hmem).unexecuted hexecuted
    · exact (hgone other hmem).unexecuted hexecuted
  · rcases List.mem_cons.mp hentry with rfl | hentry
    · obtain rfl := Option.some.inj (hafter.symm.trans hsome)
      exact hstate haborted
    · obtain ⟨kept, gone, rfl, hkept, hgone⟩ :=
        log_settled hrun hempty hdistinct hafter (ended_of_hasRun hran)
      rcases List.mem_append.mp hentry with hmem | hmem
      · obtain rfl := Option.some.inj ((hkept entry hmem).present.symm.trans hsome)
        exact hstate haborted
      · rw [(hgone entry hmem).absent] at hsome
        cases hsome

/-- In every sequence of requests of every peer a plan is executed at most once: by a commit of
the peer that prepared it, before the deadline, and not after an abort. Once a transaction has
ended, its owner gets the same answer until it is dropped, and it is unknown from then on. -/
theorem exec_transactions_run_at_most_once {runtime : BackendRuntime} {events : List Event}
    (hempty : runtime.transactions = ∅) (hdistinct : DistinctIds (serve runtime events))
    {before after : List (Event × Handled)} {entry : Event × Handled}
    (hlog : serve runtime events = before ++ entry :: after) (id : String) :
    (entry.2.executed = some id → ExecutedOnce id before entry after) ∧
      ∀ transaction : ExecTransaction,
        entry.2.runtime.transactions[id]? = some transaction →
        transaction.state.isPrepared = false →
        ∃ kept gone, after = kept ++ gone ∧ (∀ later ∈ kept, Kept id transaction later) ∧
          ∀ later ∈ gone, Gone id later := by
  have hserve : ∃ last, Run runtime (serve runtime events) last :=
    traces.record_trace runtime events
  rw [hlog] at hserve hdistinct
  obtain ⟨last, hrun⟩ := hserve
  exact ⟨log_executed hrun hempty hdistinct, fun _ => log_settled hrun hempty hdistinct⟩

end log

/-- Only the first request of a log was answered with a handoff. -/
def oneHandoff (log : List (Event × Handled)) : Bool :=
  log.tail.all fun entry => !entry.2.response.any fun response => response matches .PreparedExec _

theorem distinct_of_oneHandoff {log : List (Event × Handled)} (h : oneHandoff log = true) :
    DistinctIds log := by
  cases log with
  | nil => exact List.Pairwise.nil
  | cons entry rest =>
    have hrest : ∀ later ∈ rest, ∀ id, ¬ later.2.issues id := by
      rintro later hlater id ⟨handoff, hresponse, -⟩
      have hquiet := List.all_eq_true.mp h later hlater
      simp [hresponse] at hquiet
    refine List.Pairwise.cons (fun later hlater id _ => hrest later hlater id) ?_
    exact List.pairwise_of_forall_mem_list fun _ _ later hlater id _ => hrest later hlater id

def quietEvent (now : Nat) (request : TransactionRequest) : Event where
  peer := ordinaryPeer
  host := quietRequestHost
  start := now
  now
  request

/-- One prepare and two commits of it. -/
def twoCommits : List Event :=
  [quietEvent 0 (.PrepareExec { argv := ["/bin/true"], cwd := "/w", request_budget := 1000 }),
    quietEvent 10 (.CommitExec "0000"), quietEvent 20 (.CommitExec "0000")]

theorem second_commit_executes_nothing :
    ∃ prepare commit again, serve aliasRuntime twoCommits = [prepare] ++ commit :: [again] ∧
      commit.2.executed = some "0000" ∧ ExecutedOnce "0000" [prepare] commit [again] := by
  obtain ⟨prepare, commit, again, hlog⟩ : ∃ prepare commit again,
      serve aliasRuntime twoCommits = [prepare, commit, again] := ⟨_, _, _, rfl⟩
  have hexecuted : (serve aliasRuntime twoCommits).map (·.2.executed) =
      [none, some "0000", none] := by
    decide +kernel
  have hdistinct : DistinctIds (serve aliasRuntime twoCommits) :=
    distinct_of_oneHandoff (by decide +kernel)
  rw [hlog] at hexecuted
  simp only [List.map_cons, List.map_nil, List.cons.injEq, and_true] at hexecuted
  exact ⟨prepare, commit, again, hlog, hexecuted.2.1,
    (exec_transactions_run_at_most_once rfl hdistinct hlog "0000").1 hexecuted.2.1⟩

end init_backend
