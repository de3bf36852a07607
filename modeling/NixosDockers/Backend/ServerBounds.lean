-- The bounds of the backend: in every state of every run the connections, the
-- request bodies and the transactions stay within their limits.
import NixosDockers.Backend.Retryable
import NixosDockers.Backend.Server
import NixosDockers.Lib.MapCounts

open bootstrap_model init_core rust_text sockets tree_maps frames

namespace init_backend

/-! ## The transactions -/

/-- The limits of the table of transactions. -/
structure TransactionsBounded (transactions : Std.ExtTreeMap String ExecTransaction) : Prop where
  size : transactions.size ≤ MAX_TRANSACTIONS
  active : ∀ peer, peerTransactions transactions peer ≤ MAX_TRANSACTIONS_PER_PEER

/-- The transactions that `prepare_exec` counts for a peer. -/
def countsFor (peer : PeerCredentials) (transaction : ExecTransaction) : Bool :=
  transaction.owner_uid = peer.uid && transaction.owner_gid = peer.gid &&
    transaction.state.isActive

theorem peerTransactions_eq (transactions : Std.ExtTreeMap String ExecTransaction)
    (peer : PeerCredentials) :
    peerTransactions transactions peer = countValues (countsFor peer) transactions := rfl

theorem countsFor_iff {peer : PeerCredentials} {transaction : ExecTransaction} :
    countsFor peer transaction = true ↔ transaction.owner_uid = peer.uid ∧
      transaction.owner_gid = peer.gid ∧ transaction.state.isActive = true := by
  unfold countsFor
  simp [and_assoc]

section transactions

variable {transactions : Std.ExtTreeMap String ExecTransaction}

theorem purge_bounded (h : TransactionsBounded transactions) (now : Nat) :
    TransactionsBounded (purge transactions now) where
  size := Std.ExtTreeMap.size_filter_le_size.trans h.size
  active := by
    intro peer
    have hle : countValues (countsFor peer) (purge transactions now) ≤
        countValues (countsFor peer) transactions := countValues_filter_le
    exact hle.trans (h.active peer)

/-- A transaction is entered where both counts leave room for it. -/
theorem insert_bounded (h : TransactionsBounded transactions) {peer : PeerCredentials}
    (hsize : transactions.size < MAX_TRANSACTIONS)
    (hpeer : peerTransactions transactions peer < MAX_TRANSACTIONS_PER_PEER) (id : String)
    {transaction : ExecTransaction} (huid : transaction.owner_uid = peer.uid)
    (hgid : transaction.owner_gid = peer.gid) :
    TransactionsBounded (transactions.insert id transaction) where
  size := by
    have hle : (transactions.insert id transaction).size ≤ transactions.size + 1 :=
      Std.ExtTreeMap.size_insert_le
    omega
  active := by
    intro other
    by_cases hcounts : countsFor other transaction = true
    · -- the other peer has the same credentials, so the count for it was checked
      obtain ⟨hother_uid, hother_gid, _⟩ := countsFor_iff.mp hcounts
      have hsame : countsFor other = countsFor peer := by
        funext t
        unfold countsFor
        rw [← hother_uid, ← hother_gid, huid, hgid]
      have hle : countValues (countsFor other) (transactions.insert id transaction) ≤
          countValues (countsFor other) transactions + 1 := countValues_insert_le
      rw [peerTransactions_eq, hsame] at *
      omega
    · have hle : countValues (countsFor other) (transactions.insert id transaction) ≤
          countValues (countsFor other) transactions :=
        countValues_insert_of_neg (by simpa using hcounts)
      exact hle.trans (h.active other)

/-- A transaction that counts gets another state. -/
theorem replace_bounded (h : TransactionsBounded transactions) {id : String}
    {old : ExecTransaction} (hold : transactions[id]? = some old)
    (hactive : old.state.isActive = true) (state : ExecTransactionStateData) :
    TransactionsBounded (transactions.insert id { old with state }) where
  size := by
    rw [Std.ExtTreeMap.size_insert, if_pos]
    · exact h.size
    · rw [Std.ExtTreeMap.contains_eq_isSome_getElem?, hold]
      rfl
  active := by
    intro peer
    have hle : countValues (countsFor peer) (transactions.insert id { old with state }) ≤
        countValues (countsFor peer) transactions := by
      refine countValues_replace hold fun hcounts => ?_
      obtain ⟨huid, hgid, _⟩ := countsFor_iff.mp hcounts
      exact countsFor_iff.mpr ⟨huid, hgid, hactive⟩
    exact hle.trans (h.active peer)

end transactions

/-! ## The requests -/

section requests

variable {runtime : BackendRuntime}

theorem prepareExec_bounded (h : TransactionsBounded runtime.transactions) (host : RequestHost)
    (peer : PeerCredentials) (options : PrepareExecOptions) (start now : Nat) :
    TransactionsBounded (prepareExec runtime host peer options start now).1.transactions := by
  unfold prepareExec
  cases checkPrepare runtime host peer options with
  | error error => exact h
  | ok draft =>
    cases host.new_prepare_id with
    | error error => exact h
    | ok prepare_id =>
      dsimp only
      split_ifs with hdeadline hfull
      · exact h
      · exact purge_bounded h now
      · simp only [not_or, not_le] at hfull
        exact insert_bounded (purge_bounded h now) hfull.1 hfull.2 prepare_id rfl rfl

theorem setState_bounded (h : TransactionsBounded runtime.transactions) {id : String}
    {transaction : ExecTransaction} (hfound : runtime.transactions[id]? = some transaction)
    (hactive : transaction.state.isActive = true) (state : ExecTransactionStateData) :
    TransactionsBounded (setState runtime id transaction state).transactions :=
  replace_bounded h hfound hactive state

theorem executeCommit_bounded (h : TransactionsBounded runtime.transactions) (host : RequestHost)
    {id : String} {transaction : ExecTransaction}
    (hfound : runtime.transactions[id]? = some transaction)
    (hactive : transaction.state.isActive = true) (context : RuntimeContext)
    (identity : ResolvedIdentity) :
    TransactionsBounded
      (executeCommit runtime host id transaction context identity).runtime.transactions := by
  -- the commit sets the state twice, and is active in between
  have hcommitting := setState_bounded h hfound hactive .Committing
  have hentry : (setState runtime id transaction .Committing).transactions[id]? =
      some { transaction with state := .Committing } := by
    unfold setState
    simp
  have hended : ∀ state, TransactionsBounded
      (setState (setState runtime id transaction .Committing) id transaction state).transactions :=
    fun state => setState_bounded hcommitting hentry rfl state
  simp only [executeCommit]
  split
  · exact hcommitting
  · exact hended _
  · exact hended _

theorem withTransaction_bounded (h : TransactionsBounded runtime.transactions)
    {peer : PeerCredentials} {id : String} {next : ExecTransaction → Handled}
    (hnext : ∀ transaction, runtime.transactions[id]? = some transaction →
      TransactionsBounded (next transaction).runtime.transactions) :
    TransactionsBounded (withTransaction runtime peer id next).runtime.transactions := by
  unfold withTransaction
  cases hfound : runtime.transactions[id]? with
  | none => exact h
  | some transaction =>
    dsimp only
    split_ifs
    · exact h
    · exact hnext transaction hfound

theorem commitExec_bounded (h : TransactionsBounded runtime.transactions) (host : RequestHost)
    (peer : PeerCredentials) (id : String) (now : Nat) :
    TransactionsBounded (commitExec runtime host peer id now).runtime.transactions := by
  refine withTransaction_bounded h fun transaction hfound => ?_
  by_cases hstale : transaction.snapshot_id ≠ runtime.snapshot_id
  · rw [if_pos hstale]
    exact h
  · rw [if_neg hstale]
    cases hstate : transaction.state with
    | Prepared context identity =>
      have hactive : transaction.state.isActive = true := by rw [hstate]; rfl
      dsimp only
      split_ifs
      · exact executeCommit_bounded h host hfound hactive context identity
      · exact setState_bounded h hfound hactive .Aborted
    | Committing | Committed _ | Aborted | Failed _ => exact h

theorem abortExec_bounded (h : TransactionsBounded runtime.transactions) (peer : PeerCredentials)
    (id : String) : TransactionsBounded (abortExec runtime peer id).runtime.transactions := by
  refine withTransaction_bounded h fun transaction hfound => ?_
  cases hstate : transaction.state with
  | Prepared context identity =>
    have hactive : transaction.state.isActive = true := by rw [hstate]; rfl
    exact setState_bounded h hfound hactive .Aborted
  | Committing | Committed _ | Aborted | Failed _ => exact h

theorem getExecResult_bounded (h : TransactionsBounded runtime.transactions)
    (peer : PeerCredentials) (id : String) (now : Nat) :
    TransactionsBounded (getExecResult runtime peer id now).runtime.transactions := by
  refine withTransaction_bounded h fun transaction hfound => ?_
  cases hstate : transaction.state with
  | Prepared context identity =>
    have hactive : transaction.state.isActive = true := by rw [hstate]; rfl
    dsimp only
    split_ifs
    · exact setState_bounded h hfound hactive .Aborted
    · exact h
  | Committing | Committed _ | Aborted | Failed _ => exact h

theorem handle_bounded (h : TransactionsBounded runtime.transactions) (event : Event) :
    TransactionsBounded (handle runtime event).runtime.transactions := by
  unfold handle
  cases event.request with
  | PrepareExec options => exact prepareExec_bounded h event.host event.peer options event.start event.now
  | CommitExec id => exact commitExec_bounded h event.host event.peer id event.now
  | AbortExec id => exact abortExec_bounded h event.peer id
  | GetExecResult id => exact getExecResult_bounded h event.peer id event.now

/-- Every request keeps the limits. -/
theorem dispatch_bounded (h : TransactionsBounded runtime.transactions) (lengths : JsonLengths)
    (moment : Moment) (peer : PeerCredentials) (request : ClientRequest) (hello_completed : Bool) :
    TransactionsBounded
      (dispatch lengths moment runtime peer request hello_completed).runtime.transactions := by
  unfold dispatch
  cases hello_completed with
  | true =>
    cases request with
    | PrepareExec options => exact handle_bounded h _
    | Hello | CommitExec _ | AbortExec _ | GetExecResult _ | PrepareIdentity _ | Status
    | Plan _ _ | Doctor => exact h
  | false =>
    cases request with
    | CommitExec _ | AbortExec _ | GetExecResult _ => exact handle_bounded h _
    | Hello | PrepareExec _ | PrepareIdentity _ | Status | Plan _ _ | Doctor => exact h

end requests

/-! ## The body of a connection -/

section bodies

variable {ρ μ : Type} {service : Service ρ μ} {c : Conversation ρ} {readers : Nat}

/-- A connection holds a place for a body when it had one, or when there was room. -/
def AdmittedFrom (held : Bool) (readers : Nat) (c : Conversation ρ) : Prop :=
  c.connection.body_admitted = true → held = true ∨ readers < MAX_BODY_READERS

theorem checkHeader_readers {length : Nat} {header : List UInt8}
    (h : checkHeader readers header = .ok length) : readers < MAX_BODY_READERS := by
  unfold checkHeader at h
  by_contra hfull
  rw [not_lt] at hfull
  simp only [hfull, if_true, results.throw_eq, results.error_bind] at h
  split_ifs at h

theorem readBytes_admitted {held : Bool} (h : AdmittedFrom held readers c) (bytes : List UInt8) :
    AdmittedFrom held readers (readBytes service readers c bytes) := by
  unfold readBytes
  split
  · simp only [readHeader]
    split_ifs
    · split
      · exact h
      · rename_i length hcheck
        exact fun _ => Or.inr (checkHeader_readers hcheck)
    · exact h
  · simp only [readBody]
    split_ifs
    · unfold dispatchBody
      dsimp only
      split
      · intro hadmitted
        cases hadmitted
      · intro hadmitted
        cases hadmitted
    · exact h

theorem readConnection_admitted {held : Bool} (h : AdmittedFrom held readers c)
    (stream : List ReadItem) :
    AdmittedFrom held readers (readConnection service readers c stream).1 := by
  fun_induction readConnection service readers c stream with
  | case1 => exact h
  | case2 => exact readBytes_admitted h _
  | case3 c stream first more rest hread next houtput ih => exact ih (readBytes_admitted h _)
  | case4 => exact h
  | case5 c stream rest hread ih => exact ih h
  | case6 => exact h

theorem writeConnection_admitted {held : Bool} (h : AdmittedFrom held readers c) (now : Nat)
    (items : List WriteItem) : AdmittedFrom held readers (writeConnection now c items).1 := by
  unfold writeConnection
  split
  · exact h
  · rename_i output houtput
    clear houtput
    fun_induction writeOutput now output c items with
    | case1 => exact h
    | case2 => exact h
    | case3 c rest ih => exact ih h
    | case4 => exact h
    | case5 => exact h
    | case6 =>
      intro hadmitted
      cases hadmitted
    | case7 => exact h
    | case8 c count rest bytes hbytes next hdone ih => exact ih h

/-- A poll event gives a place for a body only when there is room for one. -/
theorem handleConnection_admitted (service : Service ρ μ) (readable writable : Bool)
    (readers now : Nat) (c : Conversation ρ) (stream : List ReadItem) (items : List WriteItem) :
    AdmittedFrom c.connection.body_admitted readers
      (handleConnection service readable writable readers now c stream items).1 := by
  have hstart : AdmittedFrom c.connection.body_admitted readers c := Or.inl
  have hheard : AdmittedFrom c.connection.body_admitted readers
      (hear service readable readers c stream).1 := by
    cases readable with
    | true => exact readConnection_admitted hstart stream
    | false => exact hstart
  unfold handleConnection
  dsimp only
  split
  · exact writeConnection_admitted hheard now items
  · exact hheard

end bodies

/-! ## The server -/

/-- The limits of the backend. -/
structure Server.Bounded (server : Server) : Prop where
  connections : server.connections.size ≤ MAX_CONNECTIONS
  readers : server.bodyReaders ≤ MAX_BODY_READERS
  transactions : TransactionsBounded server.runtime.transactions

theorem bodyReaders_eq (server : Server) :
    server.bodyReaders = countValues Connection.body_admitted server.connections := rfl

section server

variable {server : Server}

theorem admit_bounded (h : server.Bounded) (fd : Nat) (peer : Option PeerCredentials) (now : Nat) :
    (server.acceptStream fd peer now).Bounded := by
  unfold Server.acceptStream
  cases peer with
  | none => exact h
  | some peer =>
    dsimp only
    split_ifs with hauthorized hfull
    · exact h
    · exact h
    · refine ⟨?_, ?_, h.transactions⟩
      · have hle : (server.connections.insert fd (.accepted peer now)).size ≤
            server.connections.size + 1 := Std.ExtTreeMap.size_insert_le
        dsimp only
        omega
      · have hle : countValues Connection.body_admitted
            (server.connections.insert fd (.accepted peer now)) ≤
            countValues Connection.body_admitted server.connections := countValues_insert_of_neg rfl
        exact hle.trans h.readers

theorem acceptConnections_bounded {after : Server} {arrivals : List Arrival} {accepted : Nat}
    (h : server.Bounded) (hafter : server.acceptConnections accepted arrivals = some after) :
    after.Bounded := by
  induction arrivals generalizing server accepted with
  | nil =>
    obtain rfl := Option.some.inj hafter
    exact h
  | cons arrival arrivals ih =>
    unfold Server.acceptConnections at hafter
    split_ifs at hafter
    · obtain rfl := Option.some.inj hafter
      exact h
    · cases arrival with
      | Stream fd peer now => exact ih (admit_bounded h fd peer now) hafter
      | WouldBlock =>
        obtain rfl := Option.some.inj hafter
        exact h
      | Interrupted => exact ih h hafter
      | Failed => cases hafter

/-- What an event does to the transactions, it does through a request. -/
theorem answer_bounded {codec : Codec} {before after : Conversation Site}
    {response : Option ServerResponse} (hanswer : Answer codec.service before after response)
    (h : TransactionsBounded before.runtime.runtime.transactions) :
    TransactionsBounded after.runtime.runtime.transactions := by
  cases hanswer with
  | Silent hruntime => exact hruntime ▸ h
  | Own error hruntime => exact hruntime ▸ h
  | Served hdecode hdispatch =>
    obtain ⟨hsite, _⟩ := Prod.mk.inj hdispatch
    rw [← hsite]
    exact dispatch_bounded h _ _ _ _ _

/-- The connection that an event leaves in the table takes at most the room that there was. -/
theorem readers_insert_le {fd : Nat} {connection updated : Connection}
    (h : server.bodyReaders ≤ MAX_BODY_READERS)
    (hfound : server.connections[fd]? = some connection)
    (hadmitted : updated.body_admitted = true →
      connection.body_admitted = true ∨ server.bodyReaders < MAX_BODY_READERS) :
    countValues Connection.body_admitted (server.connections.insert fd updated) ≤
      MAX_BODY_READERS := by
  rw [bodyReaders_eq] at h hadmitted
  by_cases hupdated : updated.body_admitted = true
  · rcases hadmitted hupdated with hheld | hroom
    · exact (countValues_replace hfound fun _ => hheld).trans h
    · have hle : countValues Connection.body_admitted (server.connections.insert fd updated) ≤
          countValues Connection.body_admitted server.connections + 1 := countValues_insert_le
      omega
  · exact (countValues_insert_of_neg (by simpa using hupdated)).trans h

theorem handleReady_bounded {codec : Codec} {fd : Nat} {connection : Connection}
    {readable writable : Bool} {moment : Moment} {stream : List ReadItem} {items : List WriteItem}
    {now : Nat} {after : Server} (h : server.Bounded)
    (hfound : server.connections[fd]? = some connection)
    (hafter : server.handleReady codec fd connection readable writable moment stream items now =
      some after) : after.Bounded := by
  have hanswer : Answer codec.service (server.conversation moment connection) _ _ :=
    onEvent_answer (server.conversation moment connection)
      (.Ready readable writable server.bodyReaders (server.conversation moment connection).runtime
        stream items now)
  have htransactions := answer_bounded hanswer h.transactions
  have hadmitted := handleConnection_admitted codec.service readable writable server.bodyReaders
    now (server.conversation moment connection) stream items
  unfold Server.handleReady at hafter
  dsimp only at hafter
  split_ifs at hafter with hpanicked hstays
  · obtain rfl := Option.some.inj hafter
    refine ⟨?_, readers_insert_le h.readers hfound hadmitted, htransactions⟩
    dsimp only
    rw [Std.ExtTreeMap.size_insert, if_pos]
    · exact h.connections
    · rw [Std.ExtTreeMap.contains_eq_isSome_getElem?, hfound]
      rfl
  · obtain rfl := Option.some.inj hafter
    refine ⟨Std.ExtTreeMap.size_erase_le.trans h.connections, ?_, htransactions⟩
    exact countValues_erase_le.trans h.readers

theorem expireOne_admitted {codec : Codec} {moment : Moment} {connection left : Connection}
    (hleft : server.expireOne codec moment connection = some left)
    (hadmitted : left.body_admitted = true) : connection.body_admitted = true := by
  unfold Server.expireOne expireConnection at hleft
  dsimp only at hleft
  split_ifs at hleft
  · obtain rfl := Option.some.inj hleft
    exact hadmitted
  · contradiction
  · obtain rfl := Option.some.inj hleft
    exact hadmitted

theorem expireConnections_bounded (codec : Codec) (h : server.Bounded) (moment : Moment) :
    (server.expireConnections codec moment).Bounded where
  connections := Std.ExtTreeMap.size_filterMap_le_size.trans h.connections
  readers := by
    have hle : countValues Connection.body_admitted (server.connections.filterMap
        fun _ connection => server.expireOne codec moment connection) ≤
        countValues Connection.body_admitted server.connections :=
      countValues_filterMap_le fun _ _ _ hleft hadmitted => expireOne_admitted hleft hadmitted
    exact hle.trans h.readers
  transactions := h.transactions

theorem beginStopping_bounded (h : server.Bounded) : server.beginStopping.Bounded where
  connections := by
    unfold Server.beginStopping
    simp
  readers := by
    rw [bodyReaders_eq, countValues_eq_size]
    unfold Server.beginStopping
    refine Std.ExtTreeMap.size_filter_le_size.trans ?_
    simp
  transactions := h.transactions

theorem step_bounded {codec : Codec} {event : ServerEvent} {after : Server} (h : server.Bounded)
    (hafter : server.step codec event = some after) : after.Bounded := by
  cases event with
  | Accept arrivals =>
    simp only [Server.step] at hafter
    split_ifs at hafter
    · exact acceptConnections_bounded h hafter
    · obtain rfl := Option.some.inj hafter
      exact h
  | Ready fd readable writable failed moment stream items now =>
    simp only [Server.step] at hafter
    cases hfound : server.connections[fd]? with
    | none =>
      rw [hfound] at hafter
      obtain rfl := Option.some.inj hafter
      exact h
    | some connection =>
      simp only [hfound] at hafter
      split_ifs at hafter
      · obtain rfl := Option.some.inj hafter
        exact ⟨Std.ExtTreeMap.size_erase_le.trans h.connections,
          countValues_erase_le.trans h.readers, h.transactions⟩
      · exact handleReady_bounded h hfound hafter
  | Expire moment =>
    obtain rfl := Option.some.inj hafter
    exact expireConnections_bounded codec h moment
  | Stop =>
    obtain rfl := Option.some.inj hafter
    exact beginStopping_bounded h

end server

theorem start_bounded (runtime : BackendRuntime) : (Server.start runtime).Bounded where
  connections := by
    unfold Server.start
    simp
  readers := by
    rw [bodyReaders_eq, countValues_eq_size]
    unfold Server.start
    refine Std.ExtTreeMap.size_filter_le_size.trans ?_
    simp
  transactions := by
    refine ⟨?_, fun peer => ?_⟩
    · unfold Server.start
      simp
    · rw [peerTransactions_eq, countValues_eq_size]
      unfold Server.start
      refine Std.ExtTreeMap.size_filter_le_size.trans ?_
      simp

/-- In every state that any accepts, poll events, expiries and requests of any peers lead to,
there are at most 32 connections, at most 4 of them receive a body, there are at most 256
transactions, and at most 8 of a peer are prepared or committing. -/
theorem backend_resources_are_bounded (codec : Codec) (runtime : BackendRuntime) (server : Server)
    (hreachable : (Server.start runtime).Reachable codec server) :
    server.connections.size ≤ 32 ∧ server.bodyReaders ≤ 4 ∧
      server.runtime.transactions.size ≤ 256 ∧
      ∀ peer, peerTransactions server.runtime.transactions peer ≤ 8 := by
  have hbounded : server.Bounded := by
    induction hreachable with
    | start => exact start_bounded runtime
    | next _ hstep ih => exact step_bounded ih hstep
  exact ⟨hbounded.connections, hbounded.readers, hbounded.transactions.size,
    hbounded.transactions.active⟩

def helloText : String := "\x7b\"version\":4,\"request\":\x7b\"type\":\"hello\"\x7d\x7d"

def prepareText : String :=
  "\x7b\"version\":4,\"request\":\x7b\"type\":\"prepare_exec\",\"argv\":[\"/bin/sh\"]," ++
    "\"cwd\":\"/w\",\"request_budget_ms\":1000\x7d\x7d"

/-- The texts of a hello and of a prepare, beside those of `errorCodec`. -/
def shellCodec : Codec where
  decode := fun payload =>
    if payload = asciiBytes helloText then .ok .Hello
    else if payload = asciiBytes prepareText then .ok (.PrepareExec shellOptions)
    else errorCodec.decode payload
  encode := fun response => match response with
    | .Error error => frame (asciiBytes (errorText error))
    | _ => frame (asciiBytes "\x7b\"version\":4\x7d")
  lengths := errorCodec.lengths

def heard (fd : Nat) (bytes : List UInt8) (items : List WriteItem) : ServerEvent :=
  .Ready fd true true false quietMoment (dataItem bytes) items 0

def busyEvents : List ServerEvent := [
  .Accept [.Stream 7 (some ordinaryPeer) 0, .Interrupted, .Stream 8 (some ordinaryPeer) 0],
  heard 7 (frame (asciiBytes helloText)) [.Takes 1000],
  heard 7 (frame (asciiBytes prepareText)) [.Takes 10],
  heard 8 ((frame (asciiBytes helloText)).take 20) [],
  .Expire quietMoment]

theorem Server.Reachable.after {codec : Codec} {first : Server} {events : List ServerEvent}
    {server after : Server} (hreachable : first.Reachable codec server)
    (hrun : events.foldlM (Server.step codec) server = some after) :
    first.Reachable codec after := by
  induction events generalizing server with
  | nil =>
    obtain rfl := Option.some.inj hrun
    exact hreachable
  | cons event events ih =>
    obtain ⟨next, hstep, hrest⟩ := Option.bind_eq_some_iff.mp hrun
    exact ih (hreachable.next hstep) hrest

/-- One of the two connections has a transaction and a response that is not yet written, the
other one receives a body. -/
theorem few_arrivals_are_bounded :
    ∃ server,
      busyEvents.foldlM (Server.step shellCodec) (Server.start aliasRuntime) = some server ∧
      (server.connections.size = 2 ∧ server.bodyReaders = 1 ∧
        server.runtime.transactions.size = 1 ∧
        peerTransactions server.runtime.transactions ordinaryPeer = 1) ∧
      (server.connections.size ≤ 32 ∧ server.bodyReaders ≤ 4 ∧
        server.runtime.transactions.size ≤ 256 ∧
        ∀ peer, peerTransactions server.runtime.transactions peer ≤ 8) := by
  have hcounts : (busyEvents.foldlM (Server.step shellCodec) (Server.start aliasRuntime)).map
      (fun server => (server.connections.size, server.bodyReaders,
        server.runtime.transactions.size,
        peerTransactions server.runtime.transactions ordinaryPeer)) = some (2, 1, 1, 1) := by
    decide +kernel
  obtain ⟨server, hrun, hcount⟩ := Option.map_eq_some_iff.mp hcounts
  simp only [Prod.mk.injEq] at hcount
  exact ⟨server, hrun, hcount, backend_resources_are_bounded shellCodec aliasRuntime server
    (Server.Reachable.start.after hrun)⟩

end init_backend
