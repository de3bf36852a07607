-- The discipline of a connection: no request goes to the runtime while the
-- response to another one is pending, and what is written is what was queued.
import NixosDockers.Backend.Connection
import NixosDockers.Backend.Identity
import NixosDockers.Backend.Transaction

open frames sockets results

namespace init_backend

/-! ## Reading the log -/

/-- The last request has no finished response yet. -/
def pending : List ConnectionAction → Bool
  | .Queued _ :: _ | .Dispatched _ :: _ => true
  | .Finished :: _ => false
  | _ :: log => pending log
  | [] => false

/-- The bytes read since the last response was finished. -/
def received : List ConnectionAction → List UInt8
  | .Read bytes :: log => received log ++ bytes
  | .Finished :: _ => []
  | _ :: log => received log
  | [] => []

def queued : List ConnectionAction → List UInt8
  | .Queued response :: log => queued log ++ response
  | _ :: log => queued log
  | [] => []

def written : List ConnectionAction → List UInt8
  | .Wrote bytes :: log => written log ++ bytes
  | _ :: log => written log
  | [] => []

/-- Every request was dispatched with no response pending, and it was a frame of its own: the
bytes that came in since the last finished response begin with it. A response that is finished
was written completely. -/
def Disciplined : List ConnectionAction → Prop
  | .Dispatched payload :: log =>
    pending log = false ∧ frame payload <+: received log ∧ Disciplined log
  | .Finished :: log => written log = queued log ∧ Disciplined log
  | _ :: log => Disciplined log
  | [] => True

instance decidableDisciplined : (log : List ConnectionAction) → Decidable (Disciplined log)
  | .Dispatched payload :: log =>
    haveI := decidableDisciplined log
    inferInstanceAs (Decidable
      (pending log = false ∧ frame payload <+: received log ∧ Disciplined log))
  | .Read _ :: log => decidableDisciplined log
  | .Queued _ :: log => decidableDisciplined log
  | .Wrote _ :: log => decidableDisciplined log
  | .Finished :: log =>
    haveI := decidableDisciplined log
    inferInstanceAs (Decidable (written log = queued log ∧ Disciplined log))
  | [] => isTrue trivial

/-! ## The invariant -/

/-- The framing state tells which bytes came in. -/
def Framed (connection : Connection) (bytes : List UInt8) : Prop :=
  connection.header.length = 4 ∧
    match connection.expected_payload with
    | none => connection.header_read < 4 ∧ bytes = connection.header.take connection.header_read
    | some expected =>
      fromBeBytes connection.header = expected ∧ connection.payload.length < expected ∧
        bytes = connection.header ++ connection.payload

/-- No response is queued, and all of the former ones have been written. -/
structure Idle (connection : Connection) (log : List ConnectionAction) : Prop where
  no_output : connection.output = none
  not_pending : pending log = false
  all_written : written log = queued log
  framed : Framed connection (received log)

/-- A response is queued, and a part of it has been written. -/
structure Busy (connection : Connection) (log : List ConnectionAction) (output : List UInt8) :
    Prop where
  has_output : connection.output = some output
  offset_le : connection.output_offset ≤ output.length
  part_written : ∃ former, queued log = former ++ output ∧
    written log = former ++ output.take connection.output_offset

def Sound {ρ : Type} (c : Conversation ρ) : Prop :=
  Disciplined c.log ∧ (Idle c.connection c.log ∨ ∃ output, Busy c.connection c.log output)

theorem Sound.written_prefix {ρ : Type} {c : Conversation ρ} (h : Sound c) :
    written c.log <+: queued c.log := by
  obtain ⟨-, hidle | ⟨output, hbusy⟩⟩ := h
  · rw [hidle.all_written]
  · obtain ⟨former, hqueued, hwritten⟩ := hbusy.part_written
    rw [hqueued, hwritten, List.prefix_append_right_inj]
    exact List.take_prefix _ _

theorem accepted_sound {ρ : Type} (peer : PeerCredentials) (now : Nat) (runtime : ρ) :
    Sound { connection := .accepted peer now, runtime } :=
  ⟨trivial, Or.inl ⟨rfl, rfl, rfl, rfl, by simp [Connection.accepted], rfl⟩⟩

/-! ## Reading with no response pending -/

section reading

variable {ρ μ : Type} {service : Service ρ μ} {c : Conversation ρ}

/-- The first response that is queued after all others have been written. -/
theorem queued_busy {connection : Connection} {log : List ConnectionAction} {output : List UInt8}
    (hwritten : written log = queued log) (houtput : connection.output = some output)
    (hoffset : connection.output_offset = 0) : Busy connection (.Queued output :: log) output where
  has_output := houtput
  offset_le := by omega
  part_written := ⟨queued log, rfl, by simpa [written, hoffset] using hwritten⟩

theorem queueError_sound (hdisciplined : Disciplined c.log) (hwritten : written c.log = queued c.log)
    (error : BackendError) : Sound (queueError service c error) :=
  ⟨hdisciplined, Or.inr ⟨_, queued_busy hwritten rfl rfl⟩⟩

theorem checkHeader_ok {readers length : Nat} {header : List UInt8}
    (h : checkHeader readers header = .ok length) :
    fromBeBytes header = length ∧ 0 < length ∧ length ≤ MAX_REQUEST_FRAME_BYTES ∧
      readers < MAX_BODY_READERS := by
  simp only [checkHeader, throw_eq, error_bind, ite_error_ok_iff, pure_ok_iff] at h
  obtain ⟨hzero, hlarge, hreaders, rfl⟩ := h
  exact ⟨rfl, Nat.pos_of_ne_zero hzero, Nat.le_of_not_lt hlarge, Nat.lt_of_not_le hreaders⟩

theorem fillHeader_length {connection : Connection} {bytes : List UInt8}
    (h : connection.header_read + bytes.length ≤ connection.header.length) :
    (connection.fillHeader bytes).length = connection.header.length := by
  simp only [Connection.fillHeader, List.length_append, List.length_take, List.length_drop]
  omega

theorem fillHeader_take {connection : Connection} {bytes : List UInt8}
    (h : connection.header_read + bytes.length ≤ connection.header.length) :
    (connection.fillHeader bytes).take (connection.header_read + bytes.length) =
      connection.header.take connection.header_read ++ bytes := by
  unfold Connection.fillHeader
  rw [List.take_left']
  simp only [List.length_append, List.length_take]
  omega

theorem readHeader_sound (hdisciplined : Disciplined c.log) (hidle : Idle c.connection c.log)
    (hexpected : c.connection.expected_payload = none) (readers : Nat) {bytes : List UInt8}
    (hroom : bytes.length ≤ c.connection.room) : Sound (readHeader service readers c bytes) := by
  obtain ⟨hoff, hpending, hwritten, hlength, hframed⟩ := hidle
  rw [hexpected] at hframed
  obtain ⟨hread, hreceived⟩ := hframed
  simp only [Connection.room, hexpected, Option.isNone_none, if_true] at hroom
  have hfits : c.connection.header_read + bytes.length ≤ c.connection.header.length := by omega
  have hfill := fillHeader_length hfits
  have htake := fillHeader_take hfits
  unfold readHeader
  dsimp only
  split_ifs with hcomplete
  · split
    · apply queueError_sound
      · exact hdisciplined
      · exact hwritten
    · rename_i length hcheck
      obtain ⟨hvalue, hpos, -, -⟩ := checkHeader_ok hcheck
      refine ⟨hdisciplined, Or.inl ⟨hoff, hpending, hwritten, hfill.trans hlength, hvalue, hpos, ?_⟩⟩
      rw [hcomplete, List.take_length] at htake
      simp [received, hreceived, htake]
  · refine ⟨hdisciplined, Or.inl ⟨hoff, hpending, hwritten, hfill.trans hlength, ?_⟩⟩
    rw [hfill] at hcomplete
    simp only [hexpected]
    refine ⟨by omega, ?_⟩
    rw [htake, ← hreceived]
    rfl

theorem dispatchBody_sound (hdisciplined : Disciplined c.log)
    (hwritten : written c.log = queued c.log) (hpending : pending c.log = false)
    (hframe : frame c.connection.payload <+: received c.log) :
    Sound (dispatchBody service c) := by
  unfold dispatchBody
  dsimp only
  split
  · apply queueError_sound
    · exact hdisciplined
    · exact hwritten
  · exact ⟨⟨hpending, hframe, hdisciplined⟩, Or.inr ⟨_, queued_busy hwritten rfl rfl⟩⟩

theorem readBody_sound (hdisciplined : Disciplined c.log) (hidle : Idle c.connection c.log)
    {expected : Nat} (hexpected : c.connection.expected_payload = some expected)
    (bytes : List UInt8) : Sound (readBody service expected c bytes) := by
  obtain ⟨hoff, hpending, hwritten, hlength, hframed⟩ := hidle
  rw [hexpected] at hframed
  obtain ⟨hvalue, hpayload, hreceived⟩ := hframed
  unfold readBody
  dsimp only
  split_ifs with hcomplete
  · refine dispatchBody_sound hdisciplined hwritten hpending ?_
    -- The header is that of the payload, and the bytes beyond the payload were dropped.
    have hheader : toBeBytes expected = c.connection.header := by
      rw [← hvalue, toBeBytes_fromBeBytes hlength]
    simp only [frame, hcomplete, hheader, received, hreceived, List.append_assoc,
      List.prefix_append_right_inj]
    exact List.take_prefix _ _
  · refine ⟨hdisciplined, Or.inl ⟨hoff, hpending, hwritten, hlength, ?_⟩⟩
    simp only [hexpected]
    simp only [List.length_append, List.length_take] at hcomplete ⊢
    refine ⟨hvalue, by omega, ?_⟩
    have hall : bytes.take (expected - c.connection.payload.length) = bytes := by
      apply List.take_of_length_le
      omega
    simp [received, hreceived, hall]

/-- One turn of the loop of `read_connection`. -/
theorem readBytes_sound (hdisciplined : Disciplined c.log) (hidle : Idle c.connection c.log)
    (readers : Nat) {bytes : List UInt8} (hroom : bytes.length ≤ c.connection.room) :
    Sound (readBytes service readers c bytes) := by
  unfold readBytes
  split
  · rename_i hexpected
    exact readHeader_sound hdisciplined hidle hexpected readers hroom
  · rename_i expected hexpected
    exact readBody_sound hdisciplined hidle hexpected bytes

theorem readConnection_idle_sound (readers : Nat) (stream : List ReadItem)
    (hdisciplined : Disciplined c.log) (hidle : Idle c.connection c.log) :
    Sound (readConnection service readers c stream).1 := by
  fun_induction readConnection service readers c stream with
  | case1 => exact ⟨hdisciplined, Or.inl hidle⟩
  | case2 c stream first more rest hread next houtput =>
    exact readBytes_sound hdisciplined hidle readers (read_length_le hread)
  | case3 c stream first more rest hread next houtput ih =>
    have hnext : Sound next := readBytes_sound hdisciplined hidle readers (read_length_le hread)
    obtain ⟨hdisciplined, hidle | ⟨output, hbusy⟩⟩ := hnext
    · exact ih hdisciplined hidle
    · simp [next, hbusy.has_output] at houtput
  | case4 => exact ⟨hdisciplined, Or.inl hidle⟩
  | case5 c stream rest hread ih => exact ih hdisciplined hidle
  | case6 => exact ⟨hdisciplined, Or.inl hidle⟩

/-! ## Reading with a response pending -/

/-- These bytes complete the header of a frame that is refused, or the body of a frame. -/
def Connection.completes (connection : Connection) (readers : Nat) (bytes : List UInt8) : Bool :=
  match connection.expected_payload with
  | none =>
    connection.header_read + bytes.length = (connection.fillHeader bytes).length &&
      !(checkHeader readers (connection.fillHeader bytes)).isOk
  | some expected =>
    (connection.payload ++ bytes.take (expected - connection.payload.length)).length = expected

/-- Bytes that complete nothing leave the response as it is. -/
theorem readBytes_busy (hdisciplined : Disciplined c.log) {output : List UInt8}
    (hbusy : Busy c.connection c.log output) {readers : Nat} {bytes : List UInt8}
    (hquiet : c.connection.completes readers bytes = false) :
    Disciplined (readBytes service readers c bytes).log ∧
      Busy (readBytes service readers c bytes).connection (readBytes service readers c bytes).log
        output := by
  obtain ⟨houtput, hoffset, hpart⟩ := hbusy
  unfold Connection.completes at hquiet
  unfold readBytes
  split
  · rename_i hexpected
    rw [hexpected] at hquiet
    unfold readHeader
    dsimp only at hquiet ⊢
    split_ifs with hcomplete
    · split
      · rename_i error hcheck
        simp [hcomplete, hcheck, Except.isOk, Except.toBool] at hquiet
      · exact ⟨hdisciplined, houtput, hoffset, hpart⟩
    · exact ⟨hdisciplined, houtput, hoffset, hpart⟩
  · rename_i expected hexpected
    rw [hexpected] at hquiet
    unfold readBody
    dsimp only at hquiet ⊢
    rw [if_neg (by simpa using hquiet)]
    exact ⟨hdisciplined, houtput, hoffset, hpart⟩

theorem readConnection_busy_sound (readers : Nat) (stream : List ReadItem)
    (hdisciplined : Disciplined c.log) {output : List UInt8}
    (hbusy : Busy c.connection c.log output)
    (hquiet : ∀ bytes, firstBytes c.connection.room stream = some bytes →
      c.connection.completes readers bytes = false) :
    Sound (readConnection service readers c stream).1 := by
  have hsame : Sound c := ⟨hdisciplined, Or.inr ⟨output, hbusy⟩⟩
  fun_induction readConnection service readers c stream with
  | case1 => exact hsame
  | case2 c stream first more rest hread next houtput =>
    have hnext : Disciplined next.log ∧ Busy next.connection next.log output :=
      readBytes_busy hdisciplined hbusy (hquiet _ (firstBytes_of_read hread))
    exact ⟨hnext.1, Or.inr ⟨output, hnext.2⟩⟩
  | case3 c stream first more rest hread next houtput ih =>
    -- The response is still there after the bytes, so the loop does not go on.
    have hnext : Disciplined next.log ∧ Busy next.connection next.log output :=
      readBytes_busy hdisciplined hbusy (hquiet _ (firstBytes_of_read hread))
    simp [hnext.2.has_output] at houtput
  | case4 => exact hsame
  | case5 c stream rest hread ih =>
    rw [firstBytes_of_interrupted hread] at hquiet
    exact ih hdisciplined hbusy hquiet hsame
  | case6 => exact hsame

/-! ## Writing -/

theorem Busy.wrote {connection : Connection} {log : List ConnectionAction} {output : List UInt8}
    (hbusy : Busy connection log output) (count : Nat) :
    let bytes := (output.drop connection.output_offset).take count
    Busy { connection with output_offset := connection.output_offset + bytes.length }
      (.Wrote bytes :: log) output := by
  obtain ⟨houtput, hoffset, former, hqueued, hwritten⟩ := hbusy
  refine ⟨houtput, ?_, former, hqueued, ?_⟩
  · simp only [List.length_take, List.length_drop]
    omega
  · simp only [written, hwritten, List.append_assoc, List.append_cancel_left_eq]
    rw [List.take_add]
    congr 1
    simp only [List.take_eq_take_iff, List.length_take, List.length_drop]
    omega

theorem Busy.all_written {connection : Connection} {log : List ConnectionAction}
    {output : List UInt8} (hbusy : Busy connection log output)
    (hdone : connection.output_offset = output.length) : written log = queued log := by
  obtain ⟨former, hqueued, hwritten⟩ := hbusy.part_written
  rw [hqueued, hwritten, hdone, List.take_length]

/-- After the whole response is written, the connection is ready for another request. -/
theorem Busy.finished {connection : Connection} {log : List ConnectionAction} {output : List UInt8}
    (hbusy : Busy connection log output) (hdone : connection.output_offset = output.length)
    (now : Nat) : Idle (connection.keepAlive now) (.Finished :: log) := by
  refine ⟨rfl, rfl, hbusy.all_written hdone, rfl, ?_⟩
  simp [Connection.keepAlive, received]

theorem writeOutput_sound (now : Nat) (items : List WriteItem) (hdisciplined : Disciplined c.log)
    {output : List UInt8} (hbusy : Busy c.connection c.log output) :
    Sound (writeOutput now output c items).1 := by
  have hsame : Sound c := ⟨hdisciplined, Or.inr ⟨output, hbusy⟩⟩
  fun_induction writeOutput now output c items with
  | case1 => exact hsame
  | case2 => exact hsame
  | case3 c rest ih => exact ih hdisciplined hbusy hsame
  | case4 => exact hsame
  | case5 => exact hsame
  | case6 c count rest bytes hbytes next hdone hkeep =>
    have hwrote := hbusy.wrote count
    exact ⟨⟨hwrote.all_written hdone, hdisciplined⟩, Or.inl (hwrote.finished hdone now)⟩
  | case7 c count rest bytes hbytes next hdone hkeep =>
    exact ⟨hdisciplined, Or.inr ⟨output, hbusy.wrote count⟩⟩
  | case8 c count rest bytes hbytes next hdone ih =>
    exact ih hdisciplined (hbusy.wrote count) ⟨hdisciplined, Or.inr ⟨output, hbusy.wrote count⟩⟩

theorem writeConnection_sound (now : Nat) (items : List WriteItem) (hsound : Sound c) :
    Sound (writeConnection now c items).1 := by
  unfold writeConnection
  split
  · exact hsound
  · rename_i output houtput
    obtain ⟨hdisciplined, hidle | ⟨output', hbusy⟩⟩ := hsound
    · rw [hidle.no_output] at houtput
      cases houtput
    · obtain rfl := Option.some.inj (houtput.symm.trans hbusy.has_output)
      exact writeOutput_sound now items hdisciplined hbusy

/-! ## Every run -/

theorem expireConnection_sound (now : Nat) (hsound : Sound c) :
    Sound (expireConnection service now c).1 := by
  unfold expireConnection
  split_ifs with hexpired hnone
  · obtain ⟨hdisciplined, hidle | ⟨output, hbusy⟩⟩ := hsound
    · exact ⟨hdisciplined, Or.inr ⟨_, queued_busy hidle.all_written rfl rfl⟩⟩
    · simp [hbusy.has_output] at hnone
  · exact hsound
  · exact hsound

/-- The event does not complete a frame while a response is pending. -/
def Waits (c : Conversation ρ) : ConnectionEvent ρ → Prop
  | .Ready readable _ readers _ stream _ _ =>
    readable = true → c.connection.output.isSome →
      ∀ bytes, firstBytes c.connection.room stream = some bytes →
        c.connection.completes readers bytes = false
  | .Expire _ => True

theorem hear_sound {readable : Bool} {readers : Nat} {stream : List ReadItem} (hsound : Sound c)
    (hwaits : readable = true → c.connection.output.isSome →
      ∀ bytes, firstBytes c.connection.room stream = some bytes →
        c.connection.completes readers bytes = false) :
    Sound (hear service readable readers c stream).1 := by
  unfold hear
  split_ifs with hreadable
  · obtain ⟨hdisciplined, hidle | ⟨output, hbusy⟩⟩ := hsound
    · exact readConnection_idle_sound readers stream hdisciplined hidle
    · exact readConnection_busy_sound readers stream hdisciplined hbusy
        (hwaits hreadable (by simp [hbusy.has_output]))
  · exact hsound

theorem onEvent_sound (service : Service ρ μ) (event : ConnectionEvent ρ) (hsound : Sound c)
    (hwaits : Waits c event) : Sound (onEvent service c event).1 := by
  cases event with
  | Ready readable writable readers runtime stream items now =>
    have hread : Sound (hear service readable readers { c with runtime } stream).1 :=
      hear_sound hsound hwaits
    unfold onEvent handleConnection
    dsimp only
    split
    · exact writeConnection_sound now items hread
    · exact hread
  | Expire now => exact expireConnection_sound now hsound

/-- No event of the run completes a frame while a response is pending. -/
def WaitsAlong (service : Service ρ μ) : Conversation ρ → List (ConnectionEvent ρ) → Prop
  | _, [] => True
  | c, event :: events =>
    Waits c event ∧ ((onEvent service c event).2 = true →
      WaitsAlong service (onEvent service c event).1 events)

theorem converse_sound (events : List (ConnectionEvent ρ)) (hsound : Sound c)
    (hwaits : WaitsAlong service c events) : Sound (converse service c events).1 := by
  induction events generalizing c with
  | nil => exact hsound
  | cons event events ih =>
    have hnext := onEvent_sound service event hsound hwaits.1
    unfold converse
    dsimp only
    split_ifs with halive
    · exact ih hnext (hwaits.2 halive)
    · exact hnext

/-- When no read completes a frame while a response is pending, every frame is dispatched at
most once and with no response pending, and what is written is a beginning of what was queued. -/
theorem one_request_at_a_time (service : Service ρ μ) (peer : PeerCredentials) (now : Nat)
    (runtime : ρ) (events : List (ConnectionEvent ρ))
    (hwaits : WaitsAlong service { connection := .accepted peer now, runtime } events) :
    let log := (converse service { connection := .accepted peer now, runtime } events).1.log
    Disciplined log ∧ written log <+: queued log := by
  have hsound := converse_sound events (accepted_sound peer now runtime) hwaits
  exact ⟨hsound.1, hsound.written_prefix⟩

end reading

/-! ## A hang-up while a response is pending -/

def asciiBytes (text : String) : List UInt8 := text.toList.map fun c => UInt8.ofNat c.toNat

def commitText : String :=
  "\x7b\"version\":4,\"request\":\x7b\"type\":\"commit_exec\",\"prepare_id\":\"0000\"\x7d\x7d"

def errorText (error : BackendError) : String :=
  "\x7b\"version\":4,\"response\":\x7b\"type\":\"error\",\"class\":\"" ++ error.error_class ++
    "\",\"retryable\":" ++ toString error.retryable ++ ",\"message\":\"" ++ error.message ++
    "\",\"action_id\":null,\"path\":null\x7d\x7d"

/-- The commit of a transaction that the backend does not know, and the responses to it. -/
def commitService : Service BackendRuntime TransactionRequest where
  decode := fun payload =>
    if payload = asciiBytes commitText then .ok (.CommitExec "0000") else .error emptyFrameError
  dispatch := fun runtime peer request _ =>
    let handled := handle runtime { peer, host := quietRequestHost, start := 0, now := 0, request }
    (handled.runtime, handled.response.getD unknownTransaction, false)
  encode := fun response => match response with
    | .Error error => frame (asciiBytes (errorText error))
    | _ => []

def readEvent (runtime : BackendRuntime) (writable : Bool) (bytes : List UInt8) :
    ConnectionEvent BackendRuntime :=
  .Ready true writable 0 runtime (dataItem bytes) [.Takes 1000] 0

def newConversation : Conversation BackendRuntime where
  connection := .accepted ordinaryPeer 0
  runtime := aliasRuntime

/-- A commit in two parts and then its response. -/
def plainEvents : List (ConnectionEvent BackendRuntime) :=
  [readEvent aliasRuntime false ((frame (asciiBytes commitText)).take 10),
    readEvent aliasRuntime false ((frame (asciiBytes commitText)).drop 10),
    .Ready false true 0 aliasRuntime [] [.Takes 20, .WouldBlock] 0,
    .Ready false true 0 aliasRuntime [] [.Takes 1000] 0]

theorem plain_commit_is_disciplined :
    WaitsAlong commitService newConversation plainEvents ∧
      (let log := (converse commitService newConversation plainEvents).1.log
      Disciplined log ∧ written log <+: queued log) := by
  have hfirst : (onEvent commitService newConversation
      (readEvent aliasRuntime false ((frame (asciiBytes commitText)).take 10))).1.connection.output =
        none := by
    decide +kernel
  have hwaits : WaitsAlong commitService newConversation plainEvents := by
    refine ⟨?_, fun _ => ⟨?_, fun _ => ⟨?_, fun _ => ⟨?_, fun _ => trivial⟩⟩⟩⟩
    · intro _ houtput
      cases houtput
    · intro _ houtput
      rw [hfirst] at houtput
      cases houtput
    · intro hreadable
      cases hreadable
    · intro hreadable
      cases hreadable
  exact ⟨hwaits, one_request_at_a_time commitService ordinaryPeer 0 aliasRuntime plainEvents hwaits⟩

/-- One more byte and a hang-up, and the commit is dispatched again. -/
def hangUpEvents : List (ConnectionEvent BackendRuntime) :=
  [readEvent aliasRuntime false (frame (asciiBytes commitText)), readEvent aliasRuntime true [32]]

theorem hang_up_dispatches_again :
    let log := (converse commitService newConversation hangUpEvents).1.log
    (log.filter fun action => action matches .Dispatched _) =
        [.Dispatched (asciiBytes commitText), .Dispatched (asciiBytes commitText)] ∧
      received log = frame (asciiBytes commitText) ++ [32] ∧ ¬ Disciplined log := by
  decide +kernel

end init_backend
