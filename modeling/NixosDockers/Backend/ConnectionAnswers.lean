-- What an event of a connection answers: nothing, an error of the connection
-- itself, or the response of the runtime to a request.
import NixosDockers.Backend.ConnectionFrames

open rust_text frames sockets

namespace init_backend

variable {ρ μ : Type}

/-! ## The response of an event -/

section responses

variable (service : Service ρ μ)

/-- The response to a body that is complete. -/
def bodyResponse (c : Conversation ρ) : ServerResponse :=
  match service.decode c.connection.payload with
  | .error error => .Error error
  | .ok message =>
    (service.dispatch c.runtime c.connection.peer message c.connection.hello_completed).2.1

/-- The response that one turn of the loop of `read_connection` queues. -/
def turnResponse (readers : Nat) (c : Conversation ρ) (bytes : List UInt8) :
    Option ServerResponse :=
  match c.connection.expected_payload with
  | none =>
    let header := c.connection.fillHeader bytes
    if c.connection.header_read + bytes.length = header.length then
      match checkHeader readers header with
      | .error error => some (.Error error)
      | .ok _ => none
    else none
  | some expected =>
    let payload := c.connection.payload ++ bytes.take (expected - c.connection.payload.length)
    if payload.length = expected then
      some (bodyResponse service { c with connection := { c.connection with payload } })
    else none

/-- The response that `read_connection` queues. -/
def heardResponse (readers : Nat) (c : Conversation ρ) (stream : List ReadItem) :
    Option ServerResponse :=
  match _hread : read c.connection.room stream with
  | (.Ok [], _) => none
  | (.Ok (first :: more), rest) =>
    let next := readBytes service readers c (first :: more)
    if next.connection.output.isSome then turnResponse service readers c (first :: more)
    else heardResponse readers next rest
  | (.WouldBlock, _) => none
  | (.Interrupted, rest) => heardResponse readers c rest
  | (.Failed, _) => none
termination_by weight stream
decreasing_by
  · exact read_data_weight _hread
  · exact read_interrupted_weight _hread

/-- The response that an event queues. -/
def eventResponse (c : Conversation ρ) : ConnectionEvent ρ → Option ServerResponse
  | .Ready readable _ readers runtime stream _ _ =>
    if readable then heardResponse service readers { c with runtime } stream else none
  | .Expire now =>
    if now ≥ c.connection.frame_deadline ∧ c.connection.output.isNone then
      some (.Error frameTimeoutError)
    else none

end responses

/-- The runtime that an event finds. -/
def ConnectionEvent.site (c : Conversation ρ) : ConnectionEvent ρ → ρ
  | .Ready _ _ _ runtime _ _ _ => runtime
  | .Expire _ => c.runtime

/-! ## How a response comes about -/

/-- The responses that were queued, newest first. -/
def responded (log : List ConnectionAction) : List (List UInt8) :=
  log.filterMap fun action => match action with
    | .Queued response => some response
    | _ => none

section logs

variable (log : List ConnectionAction)

@[simp] theorem dispatched_read (bytes : List UInt8) :
    dispatched (.Read bytes :: log) = dispatched log := rfl

@[simp] theorem dispatched_queued (bytes : List UInt8) :
    dispatched (.Queued bytes :: log) = dispatched log := rfl

@[simp] theorem dispatched_wrote (bytes : List UInt8) :
    dispatched (.Wrote bytes :: log) = dispatched log := rfl

@[simp] theorem dispatched_finished : dispatched (.Finished :: log) = dispatched log := rfl

@[simp] theorem dispatched_dispatched (payload : List UInt8) :
    dispatched (.Dispatched payload :: log) = payload :: dispatched log := rfl

@[simp] theorem responded_read (bytes : List UInt8) :
    responded (.Read bytes :: log) = responded log := rfl

@[simp] theorem responded_queued (bytes : List UInt8) :
    responded (.Queued bytes :: log) = bytes :: responded log := rfl

@[simp] theorem responded_wrote (bytes : List UInt8) :
    responded (.Wrote bytes :: log) = responded log := rfl

@[simp] theorem responded_finished : responded (.Finished :: log) = responded log := rfl

@[simp] theorem responded_dispatched (payload : List UInt8) :
    responded (.Dispatched payload :: log) = responded log := rfl

end logs

/-- From one conversation to another the connection answers nothing, or an error of its own that
does not reach the runtime, or the response of the runtime to one request. -/
inductive Answer (service : Service ρ μ) (before after : Conversation ρ) :
    Option ServerResponse → Prop
  | Silent (hruntime : after.runtime = before.runtime)
      (hdispatched : dispatched after.log = dispatched before.log)
      (hresponded : responded after.log = responded before.log) : Answer service before after none
  | Own (error : BackendError) (hruntime : after.runtime = before.runtime)
      (hdispatched : dispatched after.log = dispatched before.log)
      (hresponded : responded after.log = service.encode (.Error error) :: responded before.log) :
      Answer service before after (some (.Error error))
  | Served {payload : List UInt8} {message : μ} {peer : PeerCredentials} {hello keepalive : Bool}
      {response : ServerResponse} (hdecode : service.decode payload = .ok message)
      (hdispatch : service.dispatch before.runtime peer message hello =
        (after.runtime, response, keepalive))
      (hdispatched : dispatched after.log = payload :: dispatched before.log)
      (hresponded : responded after.log = service.encode response :: responded before.log) :
      Answer service before after (some response)

section answers

variable {service : Service ρ μ} {before middle after c : Conversation ρ}
  {response : Option ServerResponse}

/-- Nothing is dispatched or answered, and the runtime stays. -/
structure Quiet (before after : Conversation ρ) : Prop where
  runtime : after.runtime = before.runtime
  dispatched : dispatched after.log = dispatched before.log
  responded : responded after.log = responded before.log

theorem Quiet.refl (c : Conversation ρ) : Quiet c c := ⟨rfl, rfl, rfl⟩

theorem Quiet.trans (h₁ : Quiet before middle) (h₂ : Quiet middle after) : Quiet before after :=
  ⟨h₂.runtime.trans h₁.runtime, h₂.dispatched.trans h₁.dispatched,
    h₂.responded.trans h₁.responded⟩

theorem Answer.silent (h : Quiet before after) : Answer service before after none :=
  .Silent h.runtime h.dispatched h.responded

theorem Answer.quiet (h : Answer service before after none) : Quiet before after := by
  cases h with
  | Silent hruntime hdispatched hresponded => exact ⟨hruntime, hdispatched, hresponded⟩

theorem Answer.after_quiet (h : Answer service middle after response)
    (hquiet : Quiet before middle) :
    Answer service before after response := by
  cases h with
  | Silent hruntime hdispatched hresponded =>
    exact .silent (hquiet.trans ⟨hruntime, hdispatched, hresponded⟩)
  | Own error hruntime hdispatched hresponded =>
    refine .Own error (hruntime.trans hquiet.runtime) (hdispatched.trans hquiet.dispatched) ?_
    rw [hresponded, hquiet.responded]
  | Served hdecode hdispatch hdispatched hresponded =>
    rw [hquiet.runtime] at hdispatch
    rw [hquiet.dispatched] at hdispatched
    rw [hquiet.responded] at hresponded
    exact .Served hdecode hdispatch hdispatched hresponded

theorem Answer.then_quiet (h : Answer service before middle response) (hquiet : Quiet middle after) :
    Answer service before after response := by
  cases h with
  | Silent hruntime hdispatched hresponded =>
    exact .silent (Quiet.trans ⟨hruntime, hdispatched, hresponded⟩ hquiet)
  | Own error hruntime hdispatched hresponded =>
    exact .Own error (hquiet.runtime.trans hruntime) (hquiet.dispatched.trans hdispatched)
      (hquiet.responded.trans hresponded)
  | Served hdecode hdispatch hdispatched hresponded =>
    rw [← hquiet.runtime] at hdispatch
    exact .Served hdecode hdispatch (hquiet.dispatched.trans hdispatched)
      (hquiet.responded.trans hresponded)

theorem dispatchBody_answer (c : Conversation ρ) :
    Answer service c (dispatchBody service c) (some (bodyResponse service c)) := by
  unfold dispatchBody bodyResponse
  dsimp only
  cases hdecode : service.decode c.connection.payload with
  | error error => exact .Own error rfl rfl rfl
  | ok message => exact .Served hdecode rfl rfl rfl

theorem readBytes_answer (readers : Nat) (c : Conversation ρ) (bytes : List UInt8) :
    Answer service c (readBytes service readers c bytes) (turnResponse service readers c bytes) := by
  unfold readBytes turnResponse
  cases hexpected : c.connection.expected_payload with
  | none =>
    simp only [readHeader]
    by_cases hfull : c.connection.header_read + bytes.length =
        (c.connection.fillHeader bytes).length
    · simp only [if_pos hfull]
      cases hcheck : checkHeader readers (c.connection.fillHeader bytes) with
      | error error => exact .Own error rfl rfl rfl
      | ok length => exact .Silent rfl rfl rfl
    · simp only [if_neg hfull]
      exact .Silent rfl rfl rfl
  | some expected =>
    simp only [readBody]
    by_cases hfull : (c.connection.payload ++
        bytes.take (expected - c.connection.payload.length)).length = expected
    · simp only [if_pos hfull]
      let filled : Conversation ρ := { c with
        connection := { c.connection with
          payload := c.connection.payload ++
            bytes.take (expected - c.connection.payload.length) }
        log := .Read bytes :: c.log }
      have hquiet : Quiet c filled := ⟨rfl, rfl, rfl⟩
      have hbody : Answer service filled (dispatchBody service filled)
          (some (bodyResponse service filled)) := dispatchBody_answer filled
      exact hbody.after_quiet hquiet
    · simp only [if_neg hfull]
      exact .Silent rfl rfl rfl

/-- A turn after which no response is pending has answered nothing. -/
theorem turnResponse_none {readers : Nat} {bytes : List UInt8}
    (h : (readBytes service readers c bytes).connection.output.isSome ≠ true) :
    turnResponse service readers c bytes = none := by
  unfold readBytes at h
  unfold turnResponse
  cases hexpected : c.connection.expected_payload with
  | none =>
    simp only [hexpected, readHeader] at h ⊢
    split_ifs at h ⊢ with hfull
    · cases hcheck : checkHeader readers (c.connection.fillHeader bytes) with
      | error error => simp [hcheck, queueError] at h
      | ok length => rfl
    · rfl
  | some expected =>
    simp only [hexpected, readBody] at h ⊢
    split_ifs at h ⊢ with hfull
    · unfold dispatchBody at h
      dsimp only at h
      split at h <;> simp [queueError] at h
    · rfl

theorem heardResponse_data {readers : Nat} {stream rest : List ReadItem} {first : UInt8}
    {more : List UInt8} (hread : read c.connection.room stream = (.Ok (first :: more), rest)) :
    heardResponse service readers c stream =
      if (readBytes service readers c (first :: more)).connection.output.isSome then
        turnResponse service readers c (first :: more)
      else heardResponse service readers (readBytes service readers c (first :: more)) rest := by
  rw [heardResponse]
  split <;> simp_all

theorem heardResponse_interrupted {readers : Nat} {stream rest : List ReadItem}
    (hread : read c.connection.room stream = (.Interrupted, rest)) :
    heardResponse service readers c stream = heardResponse service readers c rest := by
  rw [heardResponse]
  split <;> simp_all

theorem heardResponse_none {readers : Nat} {stream rest : List ReadItem} {result : ReadResult}
    (hread : read c.connection.room stream = (result, rest))
    (hresult : result = .Ok [] ∨ result = .WouldBlock ∨ result = .Failed) :
    heardResponse service readers c stream = none := by
  rw [heardResponse]
  rcases hresult with rfl | rfl | rfl <;> split <;> simp_all

theorem readConnection_answer (readers : Nat) (c : Conversation ρ) (stream : List ReadItem) :
    Answer service c (readConnection service readers c stream).1
      (heardResponse service readers c stream) := by
  fun_induction readConnection service readers c stream with
  | case1 c stream rest hread =>
    rw [heardResponse_none hread (by simp)]
    exact .silent (.refl c)
  | case2 c stream first more rest hread next houtput =>
    rw [heardResponse_data hread, if_pos houtput]
    exact readBytes_answer readers c (first :: more)
  | case3 c stream first more rest hread next houtput ih =>
    rw [heardResponse_data hread, if_neg houtput]
    have hturn : Answer service c next (turnResponse service readers c (first :: more)) :=
      readBytes_answer readers c (first :: more)
    rw [turnResponse_none houtput] at hturn
    exact ih.after_quiet hturn.quiet
  | case4 c stream rest hread =>
    rw [heardResponse_none hread (by simp)]
    exact .silent (.refl c)
  | case5 c stream rest hread ih =>
    rw [heardResponse_interrupted hread]
    exact ih
  | case6 c stream rest hread =>
    rw [heardResponse_none hread (by simp)]
    exact .silent (.refl c)

theorem writeConnection_quiet (now : Nat) (c : Conversation ρ) (items : List WriteItem) :
    Quiet c (writeConnection now c items).1 := by
  unfold writeConnection
  split
  · exact .refl c
  · rename_i output houtput
    clear houtput
    fun_induction writeOutput now output c items with
    | case1 c => exact .refl c
    | case2 c => exact .refl c
    | case3 c rest ih => exact ih
    | case4 c => exact .refl c
    | case5 c => exact .refl c
    | case6 => exact ⟨rfl, rfl, rfl⟩
    | case7 => exact ⟨rfl, rfl, rfl⟩
    | case8 c count rest bytes hbytes next hdone ih =>
      have hnext : Quiet c next := ⟨rfl, rfl, rfl⟩
      exact hnext.trans ih

/-- Every event answers with the response that it queues. -/
theorem onEvent_answer (c : Conversation ρ) (event : ConnectionEvent ρ) :
    Answer service { c with runtime := event.site c } (onEvent service c event).1
      (eventResponse service c event) := by
  cases event with
  | Ready readable writable readers runtime stream items now =>
    have hheard : Answer service { c with runtime }
        (hear service readable readers { c with runtime } stream).1
        (eventResponse service c (.Ready readable writable readers runtime stream items now)) := by
      cases readable with
      | true => exact readConnection_answer readers { c with runtime } stream
      | false => exact .silent (.refl _)
    unfold onEvent handleConnection
    dsimp only
    split
    · exact hheard.then_quiet (writeConnection_quiet now _ items)
    · exact hheard
  | Expire now =>
    unfold onEvent expireConnection eventResponse
    dsimp only
    by_cases hexpired : now ≥ c.connection.frame_deadline
    · by_cases hidle : c.connection.output.isNone = true
      · simp only [hexpired, hidle, if_true, and_self]
        exact .Own frameTimeoutError rfl rfl rfl
      · simp only [hexpired, hidle, if_true, if_false, and_false, Bool.false_eq_true]
        exact .silent ⟨rfl, rfl, rfl⟩
    · simp only [hexpired, if_false, false_and]
      exact .silent ⟨rfl, rfl, rfl⟩

end answers

/-! ## The errors of the connection itself -/

/-- A request went to the runtime since the last finished response. -/
def servedInTurn : List ConnectionAction → Bool
  | .Dispatched _ :: _ => true
  | .Finished :: _ => false
  | _ :: log => servedInTurn log
  | [] => false

section turns

variable {service : Service ρ μ} {c : Conversation ρ}

/-- After a dispatch the body stays complete and the response pending, until the response is
finished. -/
def Settled (service : Service ρ μ) (c : Conversation ρ) : Prop :=
  servedInTurn c.log = true → c.connection.output.isSome = true ∧
    c.connection.expected_payload = some c.connection.payload.length ∧
    (service.decode c.connection.payload).isOk = true

theorem accepted_settled (peer : PeerCredentials) (now : Nat) (runtime : ρ) :
    Settled service { connection := .accepted peer now, runtime } := by
  intro hserved
  cases hserved

theorem not_served_of_header (hsettled : Settled service c)
    (hexpected : c.connection.expected_payload = none) : servedInTurn c.log = false := by
  by_contra hserved
  obtain ⟨_, hbody, _⟩ := hsettled (by simpa using hserved)
  rw [hexpected] at hbody
  cases hbody

theorem settled_readHeader (hsettled : Settled service c)
    (hexpected : c.connection.expected_payload = none) (readers : Nat) (bytes : List UInt8) :
    Settled service (readHeader service readers c bytes) := by
  have hnot := not_served_of_header hsettled hexpected
  have hlog : servedInTurn (readHeader service readers c bytes).log = false := by
    simp only [readHeader]
    split_ifs
    · split
      · exact hnot
      · exact hnot
    · exact hnot
  intro hserved
  rw [hlog] at hserved
  cases hserved

/-- A body that was served is complete already, and more bytes serve it again. -/
theorem readBody_served (hsettled : Settled service c) {expected : Nat}
    (hexpected : c.connection.expected_payload = some expected)
    (hserved : servedInTurn c.log = true) (bytes : List UInt8) :
    readBody service expected c bytes = dispatchBody service { c with log := .Read bytes :: c.log } ∧
      (service.decode c.connection.payload).isOk = true := by
  obtain ⟨_, hbody, hdecode⟩ := hsettled hserved
  obtain rfl := Option.some.inj (hexpected.symm.trans hbody)
  refine ⟨?_, hdecode⟩
  simp only [readBody, Nat.sub_self, List.take_zero, List.append_nil, if_true]

theorem settled_dispatchBody {expected : Nat}
    (hexpected : c.connection.expected_payload = some expected)
    (hfull : c.connection.payload.length = expected)
    (hserved : servedInTurn c.log = true → (service.decode c.connection.payload).isOk = true) :
    Settled service (dispatchBody service c) := by
  unfold dispatchBody
  dsimp only
  cases hdecode : service.decode c.connection.payload with
  | error error =>
    intro hlog
    have hok := hserved hlog
    rw [hdecode] at hok
    cases hok
  | ok message =>
    intro _
    refine ⟨rfl, ?_, ?_⟩
    · exact hexpected.trans (congrArg some hfull.symm)
    · rw [hdecode]
      rfl

theorem settled_readBody (hsettled : Settled service c) {expected : Nat}
    (hexpected : c.connection.expected_payload = some expected) (bytes : List UInt8) :
    Settled service (readBody service expected c bytes) := by
  by_cases hserved : servedInTurn c.log = true
  · obtain ⟨heq, hdecode⟩ := readBody_served hsettled hexpected hserved bytes
    obtain ⟨_, hbody, _⟩ := hsettled hserved
    rw [heq]
    exact settled_dispatchBody hbody rfl fun _ => hdecode
  · simp only [readBody]
    split_ifs with hfull
    · refine settled_dispatchBody hexpected hfull fun hlog => ?_
      exact absurd hlog hserved
    · exact fun hlog => absurd hlog hserved

theorem settled_readBytes (hsettled : Settled service c) (readers : Nat) (bytes : List UInt8) :
    Settled service (readBytes service readers c bytes) := by
  unfold readBytes
  split
  · rename_i hexpected
    exact settled_readHeader hsettled hexpected readers bytes
  · rename_i expected hexpected
    exact settled_readBody hsettled hexpected bytes

theorem settled_readConnection (hsettled : Settled service c) (readers : Nat)
    (stream : List ReadItem) : Settled service (readConnection service readers c stream).1 := by
  fun_induction readConnection service readers c stream with
  | case1 => exact hsettled
  | case2 => exact settled_readBytes hsettled readers _
  | case3 c stream first more rest hread next houtput ih =>
    exact ih (settled_readBytes hsettled readers _)
  | case4 => exact hsettled
  | case5 c stream rest hread ih => exact ih hsettled
  | case6 => exact hsettled

theorem settled_writeConnection (hsettled : Settled service c) (now : Nat)
    (items : List WriteItem) : Settled service (writeConnection now c items).1 := by
  unfold writeConnection
  split
  · exact hsettled
  · rename_i output houtput
    clear houtput
    fun_induction writeOutput now output c items with
    | case1 => exact hsettled
    | case2 => exact hsettled
    | case3 c rest ih => exact ih hsettled
    | case4 => exact hsettled
    | case5 => exact hsettled
    | case6 =>
      intro hserved
      cases hserved
    | case7 => exact hsettled
    | case8 c count rest bytes hbytes next hdone ih => exact ih hsettled

theorem settled_onEvent (hsettled : Settled service c) (event : ConnectionEvent ρ) :
    Settled service (onEvent service c event).1 := by
  cases event with
  | Ready readable writable readers runtime stream items now =>
    have hstart : Settled service { c with runtime } := hsettled
    have hheard : Settled service (hear service readable readers { c with runtime } stream).1 := by
      cases readable with
      | true => exact settled_readConnection hstart readers stream
      | false => exact hstart
    unfold onEvent handleConnection
    dsimp only
    split
    · exact settled_writeConnection hheard now items
    · exact hheard
  | Expire now =>
    unfold onEvent expireConnection
    dsimp only
    split_ifs with hexpired hidle
    · intro hserved
      obtain ⟨hpending, _, _⟩ := hsettled hserved
      simp [Option.isNone_iff_eq_none.mp hidle] at hpending
    · exact hsettled
    · exact hsettled

/-- In every run of a connection. -/
theorem settled_converse (hsettled : Settled service c) (events : List (ConnectionEvent ρ)) :
    Settled service (converse service c events).1 := by
  induction events generalizing c with
  | nil => exact hsettled
  | cons event events ih =>
    have hnext := settled_onEvent hsettled event
    unfold converse
    dsimp only
    split_ifs
    · exact ih hnext
    · exact hnext

theorem heardResponse_served (hsettled : Settled service c) (hserved : servedInTurn c.log = true)
    (readers : Nat) (stream : List ReadItem) {response : ServerResponse}
    (h : heardResponse service readers c stream = some response) :
    dispatched (readConnection service readers c stream).1.log ≠ dispatched c.log := by
  fun_induction readConnection service readers c stream with
  | case1 c stream rest hread =>
    rw [heardResponse_none hread (by simp)] at h
    cases h
  | case2 c stream first more rest hread next houtput =>
    obtain ⟨_, hbody, _⟩ := hsettled hserved
    obtain ⟨heq, hdecode⟩ := readBody_served hsettled hbody hserved (first :: more)
    have hnext : next = dispatchBody service { c with log := .Read (first :: more) :: c.log } := by
      rw [← heq]
      simp only [next, readBytes, hbody]
    rw [hnext]
    unfold dispatchBody
    dsimp only
    cases hmessage : service.decode c.connection.payload with
    | error error =>
      rw [hmessage] at hdecode
      cases hdecode
    | ok message => simp
  | case3 c stream first more rest hread next houtput ih =>
    obtain ⟨_, hbody, _⟩ := hsettled hserved
    obtain ⟨heq, _⟩ := readBody_served hsettled hbody hserved (first :: more)
    have hnext : next = dispatchBody service { c with log := .Read (first :: more) :: c.log } := by
      rw [← heq]
      simp only [next, readBytes, hbody]
    rw [hnext] at houtput
    unfold dispatchBody at houtput
    dsimp only at houtput
    split at houtput <;> simp [queueError] at houtput
  | case4 c stream rest hread =>
    rw [heardResponse_none hread (by simp)] at h
    cases h
  | case5 c stream rest hread ih =>
    rw [heardResponse_interrupted hread] at h
    exact ih hsettled hserved h
  | case6 c stream rest hread =>
    rw [heardResponse_none hread (by simp)] at h
    cases h

/-- A response that comes without a dispatch is the first one since the connection was accepted
or last finished a response. -/
theorem own_answer_first (hsettled : Settled service c) {event : ConnectionEvent ρ}
    {response : ServerResponse} (h : eventResponse service c event = some response)
    (hown : dispatched (onEvent service c event).1.log = dispatched c.log) :
    servedInTurn c.log = false := by
  by_contra hnot
  have hserved : servedInTurn c.log = true := by simpa using hnot
  cases event with
  | Ready readable writable readers runtime stream items now =>
    cases readable with
    | false => cases h
    | true =>
      have hstart : Settled service { c with runtime } := hsettled
      refine heardResponse_served hstart hserved readers stream h ?_
      rw [← hown]
      simp only [onEvent, handleConnection, hear, if_true]
      split
      · exact (writeConnection_quiet now _ items).dispatched.symm
      · rfl
  | Expire now =>
    obtain ⟨hpending, _, _⟩ := hsettled hserved
    unfold eventResponse at h
    simp [Option.isSome_iff_ne_none.mp hpending] at h

end turns

end init_backend
