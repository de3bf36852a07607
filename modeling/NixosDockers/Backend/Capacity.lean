-- Who can fill the table of transactions: the limit for a peer counts what is
-- prepared or committing, and the limit for all counts what is retained.
import NixosDockers.Backend.ServerBounds

open bootstrap_model init_core results rust_text tree_maps

namespace init_backend

/-! ## A prepare that passes its checks -/

def capacityError : BackendError :=
  backendError "capacity" true "backend transaction capacity is temporarily exhausted"

/-- A prepare whose checks pass, with an id and before its deadline. -/
structure PassesChecks (runtime : BackendRuntime) (host : RequestHost) (peer : PeerCredentials)
    (options : PrepareExecOptions) (start now : Nat) : Prop where
  checks : (checkPrepare runtime host peer options).isOk = true
  token : host.new_prepare_id.isOk = true
  live : now < requestDeadline options start

section prepares

variable {runtime : BackendRuntime} {host : RequestHost} {peer : PeerCredentials}
  {options : PrepareExecOptions} {start now : Nat}

/-- What is left to decide then is the room in the table. -/
theorem prepareExec_of_checks (h : PassesChecks runtime host peer options start now) :
    (MAX_TRANSACTIONS ≤ (purge runtime.transactions now).size ∨
        MAX_TRANSACTIONS_PER_PEER ≤ peerTransactions (purge runtime.transactions now) peer →
      (prepareExec runtime host peer options start now).2 = .error capacityError) ∧
    (¬ (MAX_TRANSACTIONS ≤ (purge runtime.transactions now).size ∨
        MAX_TRANSACTIONS_PER_PEER ≤ peerTransactions (purge runtime.transactions now) peer) →
      ∃ prepare_id transaction handoff, host.new_prepare_id = .ok prepare_id ∧
        transaction.owner_uid = peer.uid ∧ transaction.owner_gid = peer.gid ∧
        transaction.deadline = requestDeadline options start ∧
        transaction.state.isPrepared = true ∧
        prepareExec runtime host peer options start now =
          ({ runtime with
              transactions := (purge runtime.transactions now).insert prepare_id transaction },
            .ok handoff)) := by
  obtain ⟨draft, hdraft⟩ := exists_of_isOk h.checks
  obtain ⟨prepare_id, hid⟩ := exists_of_isOk h.token
  have hlive := not_le.mpr h.live
  constructor
  · intro hfull
    simp only [prepareExec, hdraft, hid, if_neg hlive, ge_iff_le, if_pos hfull]
    rfl
  · intro hroom
    simp only [prepareExec, hdraft, hid, if_neg hlive, ge_iff_le, if_neg hroom]
    exact ⟨prepare_id, _, _, rfl, rfl, rfl, rfl, rfl, rfl⟩

end prepares

/-! ## The runs of two peers -/

/-- The runtime after some requests. -/
def afterAll (runtime : BackendRuntime) (events : List Event) : BackendRuntime :=
  events.foldl (fun runtime event => (handle runtime event).runtime) runtime

/-- The two peers are one for the transactions. -/
def SameOwner (peer other : PeerCredentials) : Prop := peer.uid = other.uid ∧ peer.gid = other.gid

def OwnedByEither (p q : PeerCredentials) (transactions : Std.ExtTreeMap String ExecTransaction) :
    Prop :=
  ∀ (id : String) transaction, transactions[id]? = some transaction →
    transaction.ownedBy p = true ∨ transaction.ownedBy q = true

/-- The transactions that are committed, aborted or failed. -/
def finishedTransactions (transactions : Std.ExtTreeMap String ExecTransaction) : Nat :=
  countValues (fun transaction : ExecTransaction => !transaction.state.isActive) transactions

section runs

variable {p q : PeerCredentials} {runtime : BackendRuntime}

theorem ownedBy_of_sameOwner {transaction : ExecTransaction} {peer other : PeerCredentials}
    (hsame : SameOwner peer other) (howned : transaction.ownedBy peer = true) :
    transaction.ownedBy other = true := by
  rw [ownedBy_iff] at howned ⊢
  exact ⟨howned.1.trans hsame.1, howned.2.trans hsame.2⟩

theorem handle_ownedByEither (h : OwnedByEither p q runtime.transactions) {event : Event}
    (hpeer : SameOwner event.peer p ∨ SameOwner event.peer q) :
    OwnedByEither p q (handle runtime event).runtime.transactions := by
  intro id transaction hafter
  have htouch := handle_touch runtime event id
  rw [hafter] at htouch
  generalize hbefore : runtime.transactions[id]? = before at htouch
  generalize (handle runtime event).executed = executed at htouch
  cases htouch with
  | keep => exact h id transaction hbefore
  | enter _ _ _ _ howner =>
    exact hpeer.imp (fun hp => ownedBy_of_sameOwner hp howner)
      fun hq => ownedBy_of_sameOwner hq howner
  | @abort old => exact h id old hbefore
  | @execute old => exact h id old hbefore

theorem afterAll_ownedByEither {events : List Event} (h : OwnedByEither p q runtime.transactions)
    (hpeers : ∀ event ∈ events, SameOwner event.peer p ∨ SameOwner event.peer q) :
    OwnedByEither p q (afterAll runtime events).transactions := by
  induction events generalizing runtime with
  | nil => exact h
  | cons event events ih =>
    have hfirst := handle_ownedByEither h (hpeers event List.mem_cons_self)
    exact ih hfirst fun later hlater => hpeers later (List.mem_cons_of_mem event hlater)

theorem afterAll_bounded {events : List Event} (h : TransactionsBounded runtime.transactions) :
    TransactionsBounded (afterAll runtime events).transactions := by
  induction events generalizing runtime with
  | nil => exact h
  | cons event events ih => exact ih (handle_bounded h event)

theorem empty_bounded : TransactionsBounded ∅ where
  size := by simp
  active := by
    intro peer
    rw [peerTransactions_eq, countValues_eq_size]
    refine Std.ExtTreeMap.size_filter_le_size.trans ?_
    simp

theorem active_le_of_owned {transactions : Std.ExtTreeMap String ExecTransaction}
    (h : OwnedByEither p q transactions) :
    countValues (fun transaction : ExecTransaction => transaction.state.isActive) transactions ≤
      peerTransactions transactions p + peerTransactions transactions q := by
  refine countValues_le_add fun id transaction hfound hactive => ?_
  refine (h id transaction hfound).imp (fun howned => ?_) fun howned => ?_
  · obtain ⟨huid, hgid⟩ := ownedBy_iff.mp howned
    exact countsFor_iff.mpr ⟨huid, hgid, hactive⟩
  · obtain ⟨huid, hgid⟩ := ownedBy_iff.mp howned
    exact countsFor_iff.mpr ⟨huid, hgid, hactive⟩

end runs

/-- With two peers, of which one has fewer than eight active transactions, a prepare of it that
passes its checks is refused exactly when 256 transactions are retained. At least 241 of these
are finished ones whose deadline has not passed. -/
theorem capacity_refusal_needs_finished_transactions (p q : PeerCredentials)
    (first : BackendRuntime) (events : List Event) (host : RequestHost)
    (options : PrepareExecOptions) (start now : Nat) (hempty : first.transactions = ∅)
    (hpeers : ∀ event ∈ events, SameOwner event.peer p ∨ SameOwner event.peer q)
    (hchecks : PassesChecks (afterAll first events) host q options start now)
    (hactive : peerTransactions (afterAll first events).transactions q < 8) :
    let runtime := afterAll first events
    let retained := purge runtime.transactions now
    ((prepareExec runtime host q options start now).2 = .error capacityError ↔
      256 ≤ retained.size) ∧
    (retained.size < 256 →
      ∃ handoff, (prepareExec runtime host q options start now).2 = .ok handoff) ∧
    (256 ≤ retained.size → 241 ≤ finishedTransactions retained) := by
  intro runtime retained
  have hbounded : TransactionsBounded retained :=
    purge_bounded (afterAll_bounded (by rw [hempty]; exact empty_bounded)) now
  have howned : OwnedByEither p q runtime.transactions := by
    refine afterAll_ownedByEither ?_ hpeers
    intro id transaction hfound
    rw [hempty] at hfound
    simp at hfound
  have hretained : OwnedByEither p q retained := by
    intro id transaction hfound
    rcases purge_getElem? runtime.transactions now id with hsame | ⟨hgone, _⟩
    · exact howned id transaction (hsame ▸ hfound)
    · rw [hgone] at hfound
      cases hfound
  have hq : peerTransactions retained q < MAX_TRANSACTIONS_PER_PEER := by
    have hle : countValues (countsFor q) retained ≤ countValues (countsFor q) runtime.transactions :=
      countValues_filter_le
    exact lt_of_le_of_lt hle hactive
  obtain ⟨hrefused, hprepared⟩ := prepareExec_of_checks hchecks
  have hroom : retained.size < 256 →
      ∃ handoff, (prepareExec runtime host q options start now).2 = .ok handoff := by
    intro hsize
    obtain ⟨_, _, handoff, _, _, _, _, _, hresult⟩ := hprepared (by
      rintro (hfull | hfull)
      · exact absurd hfull (not_le.mpr hsize)
      · exact absurd hfull (not_le.mpr hq))
    exact ⟨handoff, congrArg Prod.snd hresult⟩
  refine ⟨⟨fun hcapacity => ?_, fun hfull => hrefused (Or.inl hfull)⟩, hroom, fun hfull => ?_⟩
  · by_contra hsize
    obtain ⟨handoff, hhandoff⟩ := hroom (not_le.mp hsize)
    rw [hhandoff] at hcapacity
    cases hcapacity
  · have hsplit := size_eq_add (fun transaction : ExecTransaction => transaction.state.isActive)
      retained
    have hle := active_le_of_owned hretained
    have hp : peerTransactions retained p ≤ 8 := hbounded.active p
    have hq' : peerTransactions retained q < 8 := hq
    unfold finishedTransactions
    omega

/-! ## A table full of aborted transactions -/

/-- The id that the system gives to a prepare: 24 bytes, here all zero but the last. -/
def tokenOf (n : Nat) : String :=
  String.ofList (List.replicate 46 '0' ++ [Nat.digitChar (n / 16), Nat.digitChar (n % 16)])

theorem digitChar_injective : ∀ a < 16, ∀ b < 16, Nat.digitChar a = Nat.digitChar b → a = b := by
  decide

theorem tokenOf_injective {m n : Nat} (hm : m < 256) (hn : n < 256) (h : tokenOf m = tokenOf n) :
    m = n := by
  unfold tokenOf at h
  have hdigits := List.append_cancel_left (String.ofList_injective h)
  simp only [List.cons.injEq, and_true] at hdigits
  have hhigh := digitChar_injective _ (by omega) _ (by omega) hdigits.1
  have hlow := digitChar_injective _ (by omega) _ (by omega) hdigits.2
  omega

def rootPeer : PeerCredentials := { pid := 9, uid := 0, gid := 0 }

def longOptions : PrepareExecOptions where
  argv := ["/bin/true"]
  cwd := "/w"
  request_budget := 30000

/-- The system when a prepare gets the id. -/
def tokenHost (token : String) : RequestHost := { quietRequestHost with new_prepare_id := .ok token }

/-- The ordinary peer prepares a command and aborts it. -/
def prepareAndAbort (n : Nat) : List Event :=
  [{ peer := ordinaryPeer, host := tokenHost (tokenOf n), start := 0, now := 0,
      request := .PrepareExec longOptions },
    { peer := ordinaryPeer, host := tokenHost (tokenOf n), start := 0, now := 0,
      request := .AbortExec (tokenOf n) }]

def flood (n : Nat) : List Event := (List.range n).flatMap prepareAndAbort

/-- The runtime holds this many transactions, all of them aborted and before their deadline. -/
structure Flooded (n : Nat) (runtime : BackendRuntime) : Prop where
  same : runtime = { aliasRuntime with transactions := runtime.transactions }
  size : runtime.transactions.size = n
  entries : ∀ (id : String) transaction, runtime.transactions[id]? = some transaction →
    (∃ i < n, id = tokenOf i) ∧ transaction.deadline = 30000 ∧ transaction.state.isActive = false

section floods

variable {n : Nat} {runtime : BackendRuntime}

theorem Flooded.purge_eq (h : Flooded n runtime) :
    purge runtime.transactions 0 = runtime.transactions := by
  refine Std.ExtTreeMap.ext_getElem? fun id => ?_
  unfold purge
  rw [Std.ExtTreeMap.getElem?_filter']
  cases hfound : runtime.transactions[id]? with
  | none => rfl
  | some transaction =>
    obtain ⟨_, hdeadline, _⟩ := h.entries id transaction hfound
    simp [Option.filter, ExecTransaction.isKept, hdeadline]

theorem Flooded.none_active (h : Flooded n runtime) (peer : PeerCredentials) :
    peerTransactions runtime.transactions peer = 0 := by
  refine List.countP_eq_zero.mpr fun transaction hvalue => ?_
  obtain ⟨id, hfound⟩ := mem_values_iff.mp hvalue
  obtain ⟨_, _, hended⟩ := h.entries id transaction hfound
  simp [hended]

/-- The checks of a prepare do not look at the transactions. -/
theorem Flooded.passesChecks (h : Flooded n runtime) {peer : PeerCredentials}
    (hpeer : peer = ordinaryPeer ∨ peer = rootPeer) (token : String) :
    PassesChecks runtime (tokenHost token) peer longOptions 0 0 where
  checks := by
    rw [h.same]
    change (checkPrepare aliasRuntime quietRequestHost peer longOptions).isOk = true
    rcases hpeer with rfl | rfl
    · decide +kernel
    · decide +kernel
  token := rfl
  live := by decide

theorem abortExec_prepared {runtime : BackendRuntime} {peer : PeerCredentials} {id : String}
    {transaction : ExecTransaction} (hfound : runtime.transactions[id]? = some transaction)
    (howned : transaction.ownedBy peer = true) (hprepared : transaction.state.isPrepared = true) :
    abortExec runtime peer id = abortPrepared runtime id transaction := by
  unfold abortExec withTransaction
  simp only [hfound, howned, Bool.not_true, Bool.false_eq_true, if_false]
  cases hstate : transaction.state with
  | Prepared context identity => rfl
  | Committing | Committed _ | Aborted | Failed _ =>
    simp [hstate, ExecTransactionStateData.isPrepared] at hprepared

/-- One more prepare and abort. -/
theorem Flooded.next (h : Flooded n runtime) (hn : n < 256) :
    Flooded (n + 1) (afterAll runtime (prepareAndAbort n)) := by
  have hchecks := h.passesChecks (Or.inl rfl) (tokenOf n)
  obtain ⟨id, transaction, handoff, hid, huid, hgid, hdeadline, hprepared, hresult⟩ :=
    (prepareExec_of_checks hchecks).2 (by
      rw [h.purge_eq, h.none_active, h.size]
      rintro (hfull | hfull)
      · exact absurd hfull (not_le.mpr hn)
      · exact absurd hfull (by decide))
  obtain rfl : tokenOf n = id := Except.ok.inj hid
  rw [h.purge_eq] at hresult
  have hentry : (runtime.transactions.insert (tokenOf n) transaction)[tokenOf n]? =
      some transaction := by
    simp
  have hafter : afterAll runtime (prepareAndAbort n) = { runtime with
      transactions := (runtime.transactions.insert (tokenOf n) transaction).insert (tokenOf n)
        { transaction with state := .Aborted } } := by
    let entered : BackendRuntime := { runtime with
      transactions := runtime.transactions.insert (tokenOf n) transaction }
    have habort : abortExec entered ordinaryPeer (tokenOf n) =
        abortPrepared entered (tokenOf n) transaction :=
      abortExec_prepared hentry (ownedBy_iff.mpr ⟨huid, hgid⟩) hprepared
    simp only [afterAll, prepareAndAbort, List.foldl_cons, List.foldl_nil, handle, hresult]
    exact congrArg Handled.runtime habort
  have hnew : runtime.transactions.contains (tokenOf n) = false := by
    rw [Std.ExtTreeMap.contains_eq_isSome_getElem?]
    cases hfound : runtime.transactions[tokenOf n]? with
    | none => rfl
    | some old =>
      obtain ⟨⟨i, hi, heq⟩, _⟩ := h.entries _ _ hfound
      have := tokenOf_injective hn (by omega) heq
      omega
  rw [hafter]
  refine ⟨?_, ?_, ?_⟩
  · rw [h.same]
  · simp [Std.ExtTreeMap.size_insert, hnew, h.size]
  · intro id found hfound
    rw [Std.ExtTreeMap.getElem?_insert] at hfound
    split_ifs at hfound with hkey
    · obtain rfl := Std.LawfulEqOrd.eq_of_compare hkey
      obtain rfl := Option.some.inj hfound
      exact ⟨⟨n, by omega, rfl⟩, hdeadline, rfl⟩
    · rw [Std.ExtTreeMap.getElem?_insert, if_neg hkey] at hfound
      obtain ⟨⟨i, hi, heq⟩, hrest⟩ := h.entries id found hfound
      exact ⟨⟨i, by omega, heq⟩, hrest⟩

theorem afterAll_append (first second : List Event) :
    afterAll runtime (first ++ second) = afterAll (afterAll runtime first) second :=
  List.foldl_append

theorem flooded : ∀ n ≤ 256, Flooded n (afterAll aliasRuntime (flood n)) := by
  intro n hn
  induction n with
  | zero =>
    refine ⟨rfl, rfl, fun id transaction hfound => ?_⟩
    have hnone : (aliasRuntime.transactions)[id]? = none := by simp [aliasRuntime]
    exact absurd (hnone.symm.trans hfound) (by simp)
  | succ n ih =>
    have hflood : flood (n + 1) = flood n ++ prepareAndAbort n := by
      unfold flood
      rw [List.range_succ, List.flatMap_append]
      simp
    rw [hflood, afterAll_append]
    exact (ih (by omega)).next (by omega)

end floods

theorem flood_peers (n : Nat) : ∀ event ∈ flood n, event.peer = ordinaryPeer := by
  intro event hevent
  obtain ⟨i, _, hin⟩ := List.mem_flatMap.mp hevent
  simp only [prepareAndAbort, List.mem_cons, List.not_mem_nil, or_false] at hin
  rcases hin with rfl | rfl
  · rfl
  · rfl

theorem full_table_of_finished_transactions :
    (prepareExec (afterAll aliasRuntime (flood 256)) (tokenHost "0a") rootPeer longOptions 0 0).2 =
      .error capacityError ∧
    241 ≤ finishedTransactions (purge (afterAll aliasRuntime (flood 256)).transactions 0) := by
  have hflooded := flooded 256 le_rfl
  have hsize : 256 ≤ (purge (afterAll aliasRuntime (flood 256)).transactions 0).size := by
    rw [hflooded.purge_eq, hflooded.size]
  have hpeers : ∀ event ∈ flood 256,
      SameOwner event.peer ordinaryPeer ∨ SameOwner event.peer rootPeer := by
    intro event hevent
    rw [flood_peers 256 event hevent]
    exact Or.inl ⟨rfl, rfl⟩
  have hroot : peerTransactions (afterAll aliasRuntime (flood 256)).transactions rootPeer < 8 := by
    rw [hflooded.none_active]
    decide
  obtain ⟨hrefused, _, hfinished⟩ := capacity_refusal_needs_finished_transactions ordinaryPeer
    rootPeer aliasRuntime (flood 256) (tokenHost "0a") longOptions 0 0 rfl hpeers
    (hflooded.passesChecks (Or.inr rfl) "0a") hroot
  exact ⟨hrefused.mpr hsize, hfinished hsize⟩

/-- A peer that prepares and aborts 256 times shuts out another one, which has no transaction at
all, until the deadlines of the aborted transactions have passed. -/
theorem one_peer_fills_the_table :
    aliasRuntime.transactions = ∅ ∧ (∀ event ∈ flood 256, event.peer = ordinaryPeer) ∧
      ¬ SameOwner ordinaryPeer rootPeer ∧
      PassesChecks (afterAll aliasRuntime (flood 256)) (tokenHost "0a") rootPeer longOptions 0 0 ∧
      peerTransactions (afterAll aliasRuntime (flood 256)).transactions rootPeer = 0 ∧
      (prepareExec (afterAll aliasRuntime (flood 256)) (tokenHost "0a") rootPeer longOptions 0
        0).2 = .error capacityError := by
  have hflooded := flooded 256 le_rfl
  have hchecks := hflooded.passesChecks (Or.inr rfl) "0a"
  refine ⟨rfl, flood_peers 256, by unfold SameOwner; decide, hchecks, hflooded.none_active _, ?_⟩
  refine (prepareExec_of_checks hchecks).1 (Or.inl ?_)
  rw [hflooded.purge_eq, hflooded.size]
  exact le_rfl

end init_backend
