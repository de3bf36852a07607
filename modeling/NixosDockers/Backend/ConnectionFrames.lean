-- The framing of a connection: however the bytes of a frame are cut, the frame
-- is answered as when it comes in one piece, and the next frame on a kept
-- connection finds it as a new one does.
import NixosDockers.Backend.ConnectionRun

open frames sockets results

namespace init_backend

/-! ## The bytes that are kept -/

section bounds

variable {ρ μ : Type} {service : Service ρ μ} {c : Conversation ρ}

/-- No more bytes are kept than the header has declared. -/
def WithinLength (header payload : List UInt8) : Option Nat → Prop
  | none => payload = []
  | some expected => fromBeBytes header = expected ∧ payload.length ≤ expected

def Connection.bounded (connection : Connection) : Prop :=
  WithinLength connection.header connection.payload connection.expected_payload

theorem dispatchBody_bounded (h : c.connection.bounded) :
    (dispatchBody service c).connection.bounded := by
  unfold dispatchBody
  dsimp only
  split
  · exact h
  · exact h

theorem readHeader_bounded (h : c.connection.bounded)
    (hexpected : c.connection.expected_payload = none) (readers : Nat) (bytes : List UInt8) :
    (readHeader service readers c bytes).connection.bounded := by
  have hfilled : WithinLength (c.connection.fillHeader bytes) c.connection.payload
      c.connection.expected_payload := by
    unfold Connection.bounded at h
    rw [hexpected] at h ⊢
    exact h
  unfold readHeader
  dsimp only
  split_ifs
  · split
    · exact hfilled
    · rename_i length hcheck
      exact ⟨(checkHeader_ok hcheck).1, Nat.zero_le _⟩
  · exact hfilled

theorem readBody_bounded (h : c.connection.bounded) {expected : Nat}
    (hexpected : c.connection.expected_payload = some expected) (bytes : List UInt8) :
    (readBody service expected c bytes).connection.bounded := by
  have hfilled : WithinLength c.connection.header
      (c.connection.payload ++ bytes.take (expected - c.connection.payload.length))
      c.connection.expected_payload := by
    unfold Connection.bounded at h
    rw [hexpected] at h ⊢
    refine ⟨h.1, ?_⟩
    have := h.2
    simp only [List.length_append, List.length_take]
    omega
  unfold readBody
  dsimp only
  split_ifs
  · exact dispatchBody_bounded hfilled
  · exact hfilled

theorem readBytes_bounded (h : c.connection.bounded) (readers : Nat) (bytes : List UInt8) :
    (readBytes service readers c bytes).connection.bounded := by
  unfold readBytes
  split
  · rename_i hexpected
    exact readHeader_bounded h hexpected readers bytes
  · rename_i expected hexpected
    exact readBody_bounded h hexpected bytes

theorem readConnection_bounded (h : c.connection.bounded) (readers : Nat)
    (stream : List ReadItem) :
    (readConnection service readers c stream).1.connection.bounded := by
  fun_induction readConnection service readers c stream with
  | case1 => exact h
  | case2 => exact readBytes_bounded h readers _
  | case3 c stream first more rest hread next houtput ih => exact ih (readBytes_bounded h readers _)
  | case4 => exact h
  | case5 c stream rest hread ih => exact ih h
  | case6 => exact h

theorem writeConnection_bounded (h : c.connection.bounded) (now : Nat) (items : List WriteItem) :
    (writeConnection now c items).1.connection.bounded := by
  unfold writeConnection
  split
  · exact h
  · rename_i output houtput
    clear houtput
    fun_induction writeOutput now output c items with
    | case1 => exact h
    | case2 => exact h
    | case3 c rest ih => exact ih h
    | case4 => exact h
    | case5 => exact h
    | case6 => exact rfl
    | case7 => exact h
    | case8 c count rest bytes hbytes next hdone ih => exact ih h

theorem hear_bounded (h : c.connection.bounded) (readable : Bool) (readers : Nat)
    (stream : List ReadItem) : (hear service readable readers c stream).1.connection.bounded := by
  unfold hear
  split_ifs
  · exact readConnection_bounded h readers stream
  · exact h

theorem onEvent_bounded (h : c.connection.bounded) (event : ConnectionEvent ρ) :
    (onEvent service c event).1.connection.bounded := by
  cases event with
  | Ready readable writable readers runtime stream items now =>
    have hread : (hear service readable readers { c with runtime } stream).1.connection.bounded := by
      apply hear_bounded
      exact h
    unfold onEvent handleConnection
    dsimp only
    split
    · exact writeConnection_bounded hread now items
    · exact hread
  | Expire now =>
    unfold onEvent expireConnection
    dsimp only
    split_ifs <;> exact h

theorem accepted_bounded (peer : PeerCredentials) (now : Nat) :
    (Connection.accepted peer now).bounded :=
  rfl

/-- In every run of every connection. -/
theorem converse_bounded (h : c.connection.bounded) (events : List (ConnectionEvent ρ)) :
    (converse service c events).1.connection.bounded := by
  induction events generalizing c with
  | nil => exact h
  | cons event events ih =>
    unfold converse
    dsimp only
    split_ifs
    · exact ih (onEvent_bounded h event)
    · exact onEvent_bounded h event

end bounds

/-! ## The framing state -/

section framing

variable {ρ μ : Type} {service : Service ρ μ}

/-- The connection is as `accept_connections` enters it, but for its deadline and for a hello
that it may have had. -/
def Connection.fresh (connection : Connection) : Prop :=
  ∃ peer frame_deadline hello_completed, connection = { peer, frame_deadline, hello_completed }

/-- The framing state after some bytes of a frame that is not complete. -/
def Connection.after (connection : Connection) (bytes : List UInt8) : Connection :=
  if bytes.length < 4 then
    { connection with
      header := bytes ++ connection.header.drop bytes.length
      header_read := bytes.length }
  else
    { connection with
      header := bytes.take 4
      header_read := 4
      expected_payload := some (fromBeBytes (bytes.take 4))
      payload := bytes.drop 4
      body_admitted := true }

/-- What the reads alone have left out. -/
def ConnectionAction.isRead : ConnectionAction → Bool
  | .Read _ => true
  | _ => false

/-- The conversation without how its bytes were cut. -/
def Conversation.uncut (c : Conversation ρ) : Conversation ρ :=
  { c with log := c.log.filter fun action => !action.isRead }

/-- The answer to a frame that comes in one piece: the error of its header, or the dispatch of
its payload. -/
def serveFrame (service : Service ρ μ) (readers : Nat) (c : Conversation ρ)
    (payload : List UInt8) : Conversation ρ :=
  let header := toBeBytes payload.length
  match checkHeader readers header with
  | .error error =>
    queueError service { c with connection := { c.connection with header, header_read := 4 } } error
  | .ok length =>
    dispatchBody service { c with
      connection := { c.connection with
        header
        header_read := 4
        expected_payload := some length
        payload
        body_admitted := true } }

theorem serveFrame_error {readers : Nat} {c : Conversation ρ} {payload : List UInt8}
    {error : BackendError} (h : checkHeader readers (toBeBytes payload.length) = .error error) :
    serveFrame service readers c payload =
      queueError service { c with
        connection := { c.connection with
          header := toBeBytes payload.length
          header_read := 4 } } error := by
  unfold serveFrame
  dsimp only
  rw [h]

theorem serveFrame_ok {readers length : Nat} {c : Conversation ρ} {payload : List UInt8}
    (h : checkHeader readers (toBeBytes payload.length) = .ok length) :
    serveFrame service readers c payload =
      dispatchBody service { c with
        connection := { c.connection with
          header := toBeBytes payload.length
          header_read := 4
          expected_payload := some length
          payload
          body_admitted := true } } := by
  unfold serveFrame
  dsimp only
  rw [h]

theorem uncut_queueError (c : Conversation ρ) (error : BackendError) :
    (queueError service c error).uncut = queueError service c.uncut error := by
  simp [Conversation.uncut, queueError, ConnectionAction.isRead]

theorem uncut_dispatchBody (c : Conversation ρ) :
    (dispatchBody service c).uncut = dispatchBody service c.uncut := by
  unfold dispatchBody
  dsimp only [Conversation.uncut]
  split
  · exact uncut_queueError _ _
  · simp [ConnectionAction.isRead]

/-! ## One read -/

theorem fillHeader_after {start : Connection} {got bytes : List UInt8}
    (hgot : got.length < 4) :
    (start.after got).fillHeader bytes =
      got ++ bytes ++ start.header.drop (got.length + bytes.length) := by
  unfold Connection.after
  rw [if_pos hgot]
  simp only [Connection.fillHeader, List.take_left, List.drop_append, List.drop_drop]
  rw [List.drop_of_length_le (by omega)]
  simp

theorem fillHeader_full {start : Connection} (hfresh : start.fresh) {got bytes : List UInt8}
    (hgot : got.length < 4) (hfull : got.length + bytes.length = 4) :
    (start.after got).fillHeader bytes = got ++ bytes := by
  rw [fillHeader_after hgot, hfull]
  obtain ⟨peer, deadline, hello, rfl⟩ := hfresh
  simp

theorem after_room {start : Connection} (hfresh : start.fresh) (got : List UInt8) :
    (start.after got).room = if got.length < 4 then 4 - got.length else SCRATCH_BYTES := by
  obtain ⟨peer, deadline, hello, rfl⟩ := hfresh
  unfold Connection.after
  split_ifs with hgot
  · simp only [Connection.room, Option.isNone_none, if_true,
      List.length_append, List.length_drop, List.length_cons, List.length_nil]
    omega
  · rfl

theorem after_expected {start : Connection} (hfresh : start.fresh) (got : List UInt8) :
    (start.after got).expected_payload =
      if got.length < 4 then none else some (fromBeBytes (got.take 4)) := by
  obtain ⟨peer, deadline, hello, rfl⟩ := hfresh
  unfold Connection.after
  split_ifs <;> rfl

theorem after_output {start : Connection} (hfresh : start.fresh) (got : List UInt8) :
    (start.after got).output = none := by
  obtain ⟨peer, deadline, hello, rfl⟩ := hfresh
  unfold Connection.after
  split_ifs <;> rfl

section read

variable {start : Connection} {c : Conversation ρ} {got bytes : List UInt8} (readers : Nat)

theorem uncut_readHeader_part (hfresh : start.fresh) (hc : c.connection = start.after got)
    (hpart : got.length + bytes.length < 4) :
    (readHeader service readers c bytes).uncut =
      { c.uncut with connection := start.after (got ++ bytes) } := by
  have hgot : got.length < 4 := by omega
  have hfill : (start.after got).fillHeader bytes = _ := fillHeader_after hgot
  obtain ⟨peer, deadline, hello, rfl⟩ := hfresh
  unfold readHeader
  simp only [hc, hfill]
  rw [if_neg]
  · simp [Conversation.uncut, ConnectionAction.isRead, Connection.after, hgot, hpart]
  · simp [Connection.after, hgot]
    omega

theorem uncut_readHeader_full (hfresh : start.fresh) (hc : c.connection = start.after got)
    (hgot : got.length < 4) (hfull : got.length + bytes.length = 4) :
    (readHeader service readers c bytes).uncut =
      match checkHeader readers (got ++ bytes) with
      | .error error => queueError service { c.uncut with
          connection := { start with header := got ++ bytes, header_read := 4 } } error
      | .ok _ => { c.uncut with connection := start.after (got ++ bytes) } := by
  have hfill := fillHeader_full hfresh hgot hfull
  obtain ⟨peer, deadline, hello, rfl⟩ := hfresh
  unfold readHeader
  simp only [hc, hfill]
  rw [if_pos (by simp [Connection.after, hgot])]
  rcases hcheck : checkHeader readers (got ++ bytes) with error | length
  · rw [uncut_queueError]
    simp [Conversation.uncut, ConnectionAction.isRead, Connection.after, hgot, hfull]
  · obtain ⟨hvalue, -⟩ := checkHeader_ok hcheck
    have htake : (got ++ bytes).take 4 = got ++ bytes := by
      apply List.take_of_length_le
      simp [hfull]
    simp [Conversation.uncut, ConnectionAction.isRead, Connection.after, hgot, hfull, hvalue, htake]

/-- Bytes of a body that do not go beyond it. -/
theorem uncut_readBody (hc : c.connection = start.after got) {expected : Nat} (hgot : 4 ≤ got.length)
    (hfits : got.length + bytes.length ≤ 4 + expected) :
    (readBody service expected c bytes).uncut =
      if got.length + bytes.length = 4 + expected then
        dispatchBody service { c.uncut with connection := start.after (got ++ bytes) }
      else { c.uncut with connection := start.after (got ++ bytes) } := by
  have hbytes : bytes.take (expected - (got.length - 4)) = bytes := by
    apply List.take_of_length_le
    omega
  have hnext : start.after (got ++ bytes) =
      { start.after got with payload := got.drop 4 ++ bytes } := by
    have htake : (got ++ bytes).take 4 = got.take 4 := List.take_append_of_le_length hgot
    have hdrop : (got ++ bytes).drop 4 = got.drop 4 ++ bytes := List.drop_append_of_le_length hgot
    unfold Connection.after
    rw [if_neg (by simp only [List.length_append]; omega), if_neg (by omega), htake, hdrop]
  have hpayload : (start.after got).payload = got.drop 4 := by
    unfold Connection.after
    rw [if_neg (by omega)]
  unfold readBody
  simp only [hc, hpayload, List.length_drop, hbytes, List.length_append]
  by_cases hfull : got.length + bytes.length = 4 + expected
  · rw [if_pos (by omega), if_pos hfull, uncut_dispatchBody, hnext]
    simp [Conversation.uncut, ConnectionAction.isRead]
  · rw [if_neg (by omega), if_neg hfull, hnext]
    simp [Conversation.uncut, ConnectionAction.isRead]

end read

/-! ## One frame -/

/-- Some bytes of a frame have come in on a connection that was fresh, and the frame is not
complete. A header that is complete was admitted. -/
structure Underway (base : Conversation ρ) (payload : List UInt8) (readers : Nat)
    (got : List UInt8) (c : Conversation ρ) : Prop where
  same : c.uncut = { base.uncut with connection := base.connection.after got }
  short : got.length < 4 + payload.length
  admitted : 4 ≤ got.length →
    checkHeader readers (toBeBytes payload.length) = .ok payload.length

/-- The frame has been answered as one that comes in one piece. -/
def Answered (service : Service ρ μ) (base : Conversation ρ) (payload : List UInt8)
    (readers : Nat) (c : Conversation ρ) : Prop :=
  c.uncut = serveFrame service readers base.uncut payload

section frame

variable {base c : Conversation ρ} {payload got bytes : List UInt8} {readers admission : Nat}

theorem Underway.connection_eq (h : Underway base payload readers got c) :
    c.connection = base.connection.after got := by
  have := congrArg Conversation.connection h.same
  exact this

theorem length_frame (payload : List UInt8) : (frame payload).length = 4 + payload.length := by
  simp [frame]

theorem serveFrame_output (readers : Nat) (c : Conversation ρ) (payload : List UInt8) :
    (serveFrame service readers c payload).connection.output.isSome := by
  unfold serveFrame dispatchBody
  dsimp only
  split
  · rfl
  · split <;> rfl

theorem Answered.output (h : Answered service base payload readers c) :
    c.connection.output.isSome := by
  have hout : c.uncut.connection.output.isSome := by
    rw [h]
    exact serveFrame_output readers base.uncut payload
  exact hout

theorem prefix_header {head : List UInt8} (hhead : head <+: frame payload)
    (hlength : 4 ≤ head.length) : head.take 4 = toBeBytes payload.length := by
  rw [List.prefix_iff_eq_take] at hhead
  rw [hhead, List.take_take, Nat.min_eq_left hlength]
  exact List.take_left' (length_toBeBytes _)

theorem prefix_all {whole : List UInt8} (hhead : whole <+: frame payload)
    (hlength : whole.length = 4 + payload.length) : whole = frame payload :=
  hhead.eq_of_length (hlength.trans (length_frame payload).symm)

theorem after_frame (hsize : payload.length < 2 ^ 32) (start : Connection) :
    start.after (frame payload) =
      { start with
        header := toBeBytes payload.length
        header_read := 4
        expected_payload := some payload.length
        payload
        body_admitted := true } := by
  have htake : (frame payload).take 4 = toBeBytes payload.length :=
    List.take_left' (length_toBeBytes _)
  have hdrop : (frame payload).drop 4 = payload := List.drop_left' (length_toBeBytes _)
  unfold Connection.after
  rw [if_neg (by rw [length_frame]; omega), htake, hdrop, fromBeBytes_toBeBytes hsize]

/-- A read takes a frame that is underway further or answers it. -/
theorem Underway.readBytes (h : Underway base payload admission got c)
    (hfresh : base.connection.fresh) (hsize : payload.length < 2 ^ 32)
    (hhead : got ++ bytes <+: frame payload) (hroom : bytes.length ≤ c.connection.room)
    (hreaders : got.length < 4 → admission = readers) :
    Answered service base payload admission (readBytes service readers c bytes) ∨
      Underway base payload admission (got ++ bytes) (readBytes service readers c bytes) := by
  have hc := h.connection_eq
  have hlength := hhead.length_le
  rw [List.length_append, length_frame] at hlength
  rw [hc, after_room hfresh] at hroom
  have hexpected := after_expected hfresh got
  unfold init_backend.readBytes
  rw [hc, hexpected]
  by_cases hgot : got.length < 4
  · rw [if_pos hgot] at hroom ⊢
    obtain rfl := hreaders hgot
    by_cases hpart : got.length + bytes.length < 4
    · refine Or.inr ⟨?_, by simp only [List.length_append]; omega, ?_⟩
      · rw [uncut_readHeader_part _ hfresh hc hpart, h.same]
      · simp only [List.length_append]
        omega
    · have hfull : got.length + bytes.length = 4 := by omega
      have hheader : got ++ bytes = toBeBytes payload.length := by
        rw [← prefix_header hhead (by simp [hfull]), List.take_of_length_le (by simp [hfull])]
      have hnext : (readHeader service admission c bytes).uncut = _ :=
        uncut_readHeader_full admission hfresh hc hgot hfull
      rw [hheader] at hnext
      rcases hcheck : checkHeader admission (toBeBytes payload.length) with error | length
      · rw [hcheck] at hnext
        left
        unfold Answered
        rw [hnext, serveFrame_error hcheck, h.same]
        rfl
      · rw [hcheck] at hnext
        obtain ⟨hvalue, hpos, -⟩ := checkHeader_ok hcheck
        rw [fromBeBytes_toBeBytes hsize] at hvalue
        subst hvalue
        refine Or.inr ⟨?_, by simp only [List.length_append]; omega, fun _ => hcheck⟩
        rw [hnext, h.same, hheader]
  · rw [if_neg hgot]
    have hadmitted := h.admitted (by omega)
    have hheader := prefix_header ((List.prefix_append got bytes).trans hhead) (by omega)
    have hvalue : fromBeBytes (got.take 4) = payload.length := by
      rw [hheader, fromBeBytes_toBeBytes hsize]
    have hnext : (readBody service payload.length c bytes).uncut = _ :=
      uncut_readBody hc (by omega) hlength
    rw [hvalue]
    dsimp only
    by_cases hfull : got.length + bytes.length = 4 + payload.length
    · rw [if_pos hfull] at hnext
      have hwhole := prefix_all hhead (by simpa using hfull)
      left
      unfold Answered
      rw [hnext, serveFrame_ok hadmitted, hwhole, after_frame hsize, h.same]
      rfl
    · rw [if_neg hfull] at hnext
      refine Or.inr ⟨?_, by simp only [List.length_append]; omega, fun _ => hadmitted⟩
      rw [hnext, h.same]

theorem Underway.room_pos (h : Underway base payload admission got c)
    (hfresh : base.connection.fresh) : 0 < c.connection.room := by
  rw [h.connection_eq, after_room hfresh]
  split_ifs
  · omega
  · decide

/-- So does a whole event. -/
theorem Underway.readConnection (h : Underway base payload admission got c)
    (hfresh : base.connection.fresh) (hsize : payload.length < 2 ^ 32) {stream : List ReadItem}
    (hcalm : Calm stream) (hhead : got ++ bytesOf stream <+: frame payload)
    (hreaders : got.length < 4 → admission = readers) :
    let result := init_backend.readConnection service readers c stream
    result.2.1 = true ∧
      (Answered service base payload admission result.1 ∨
        Underway base payload admission (got ++ bytesOf stream) result.1) := by
  fun_induction init_backend.readConnection service readers c stream generalizing got with
  | case1 c stream rest hread =>
    obtain ⟨hnonempty, -⟩ := hcalm.read_ok (h.room_pos hfresh) hread
    exact absurd rfl hnonempty
  | case2 c stream first more rest hread next =>
    rename_i houtput
    obtain ⟨-, -, hbytes⟩ := hcalm.read_ok (h.room_pos hfresh) hread
    rw [hbytes, ← List.append_assoc] at hhead
    have hnext : Answered service base payload admission next ∨
        Underway base payload admission (got ++ first :: more) next :=
      h.readBytes hfresh hsize ((List.prefix_append _ _).trans hhead) (read_length_le hread)
        hreaders
    rcases hnext with hanswered | hunderway
    · exact ⟨rfl, Or.inl hanswered⟩
    · rw [hunderway.connection_eq, after_output hfresh] at houtput
      cases houtput
  | case3 c stream first more rest hread next houtput =>
    rename_i ih
    obtain ⟨-, hrest, hbytes⟩ := hcalm.read_ok (h.room_pos hfresh) hread
    rw [hbytes, ← List.append_assoc] at hhead ⊢
    have hnext : Answered service base payload admission next ∨
        Underway base payload admission (got ++ first :: more) next :=
      h.readBytes hfresh hsize ((List.prefix_append _ _).trans hhead) (read_length_le hread)
        hreaders
    rcases hnext with hanswered | hunderway
    · exact absurd hanswered.output houtput
    · refine ih hunderway hrest hhead fun hlength => hreaders ?_
      simp only [List.length_append] at hlength
      omega
  | case4 c stream rest hread =>
    rw [hcalm.read_wouldBlock hread, List.append_nil]
    exact ⟨rfl, Or.inr h⟩
  | case5 c stream rest hread ih =>
    obtain ⟨hrest, hbytes⟩ := hcalm.read_interrupted hread
    rw [hbytes] at hhead ⊢
    exact ih h hrest hhead hreaders
  | case6 c stream rest hread => exact absurd hread hcalm.read_failed

/-! ## One frame in many events -/

/-- What one event finds in the socket before it blocks, with the runtime and the admitted
bodies of that moment. -/
structure Chunk (ρ : Type) where
  readers : Nat
  runtime : ρ
  stream : List ReadItem

def chunkBytes (chunks : List (Chunk ρ)) : List UInt8 :=
  (chunks.map fun chunk => bytesOf chunk.stream).flatten

/-- One event after the other. While a response is pending, `poll` asks only whether the
connection can be written. -/
def readChunks (service : Service ρ μ) : Conversation ρ → List (Chunk ρ) → Conversation ρ × Bool
  | c, [] => (c, true)
  | c, chunk :: chunks =>
    if c.connection.output.isSome then (c, true)
    else
      let result := init_backend.readConnection service chunk.readers
        { c with runtime := chunk.runtime } chunk.stream
      if result.2.1 then readChunks service result.1 chunks else (result.1, false)

theorem readChunks_answered (houtput : c.connection.output.isSome) (chunks : List (Chunk ρ)) :
    readChunks service c chunks = (c, true) := by
  cases chunks with
  | nil => rfl
  | cons chunk chunks => simp [readChunks, houtput]

theorem Underway.readChunks (h : Underway base payload admission got c)
    (hfresh : base.connection.fresh) (hsize : payload.length < 2 ^ 32) {chunks : List (Chunk ρ)}
    (hcalm : ∀ chunk ∈ chunks, Calm chunk.stream) (hall : got ++ chunkBytes chunks = frame payload) :
    ∃ readers, ((4 ≤ got.length ∧ readers = admission) ∨ ∃ header ∈ chunks, readers = header.readers) ∧
      ∃ body ∈ chunks, (init_backend.readChunks service c chunks).2 = true ∧
        Answered service { base with runtime := body.runtime } payload readers
          (init_backend.readChunks service c chunks).1 := by
  induction chunks generalizing base c got admission with
  | nil =>
    have hlength := congrArg List.length hall
    have hshort := h.short
    simp only [chunkBytes, List.map_nil, List.flatten_nil, List.append_nil, length_frame] at hlength
    omega
  | cons chunk chunks ih =>
    rw [List.forall_mem_cons] at hcalm
    have houtput : c.connection.output = none := by rw [h.connection_eq, after_output hfresh]
    -- Until the header is complete, the next event decides about its admission.
    obtain ⟨readers, hcurrent, hchosen⟩ : ∃ readers, (got.length < 4 → readers = chunk.readers) ∧
        ((4 ≤ got.length ∧ readers = admission) ∨
          (got.length < 4 ∧ readers = chunk.readers)) := by
      by_cases hgot : got.length < 4
      · exact ⟨chunk.readers, fun _ => rfl, Or.inr ⟨hgot, rfl⟩⟩
      · exact ⟨admission, by omega, Or.inl ⟨by omega, rfl⟩⟩
    have hhere : Underway { base with runtime := chunk.runtime } payload readers got
        { c with runtime := chunk.runtime } := by
      refine ⟨?_, h.short, fun hgot => ?_⟩
      · have hlog := congrArg Conversation.log h.same
        simpa [Conversation.uncut, h.connection_eq] using hlog
      · rcases hchosen with ⟨-, rfl⟩ | ⟨hshort, -⟩
        · exact h.admitted hgot
        · omega
    have hbytes : got ++ bytesOf chunk.stream ++ chunkBytes chunks = frame payload := by
      rw [← hall, List.append_assoc]
      rfl
    have hhead : got ++ bytesOf chunk.stream <+: frame payload := by
      rw [← hbytes]
      exact List.prefix_append _ _
    have hread : _ ∧ (Answered service { base with runtime := chunk.runtime } payload readers _ ∨ _) :=
      hhere.readConnection hfresh hsize hcalm.1 hhead hcurrent
    obtain ⟨halive, hnext⟩ := hread
    unfold init_backend.readChunks
    rw [if_neg (by simp [houtput]), if_pos halive]
    have hhead : ∃ header ∈ chunk :: chunks, chunk.readers = header.readers := ⟨chunk, by simp, rfl⟩
    rcases hnext with hanswered | hunderway
    · rw [readChunks_answered hanswered.output]
      refine ⟨readers, ?_, chunk, by simp, rfl, hanswered⟩
      rcases hchosen with hold | ⟨-, rfl⟩
      · exact Or.inl hold
      · exact Or.inr hhead
    · obtain ⟨final, hfinal, body, hbody, hkept, hanswered⟩ := ih hunderway hfresh hcalm.2 hbytes
      refine ⟨final, ?_, body, List.mem_cons_of_mem _ hbody, hkept, hanswered⟩
      rcases hfinal with ⟨-, rfl⟩ | ⟨header, hheader, rfl⟩
      · rcases hchosen with hold | ⟨-, rfl⟩
        · exact Or.inl hold
        · exact Or.inr hhead
      · exact Or.inr ⟨header, List.mem_cons_of_mem _ hheader, rfl⟩

/-- A frame that comes in on a fresh connection, however it is cut. -/
theorem readChunks_frame (hfresh : base.connection.fresh) (hsize : payload.length < 2 ^ 32)
    {chunks : List (Chunk ρ)} (hcalm : ∀ chunk ∈ chunks, Calm chunk.stream)
    (hall : chunkBytes chunks = frame payload) :
    ∃ header ∈ chunks, ∃ body ∈ chunks, (readChunks service base chunks).2 = true ∧
      Answered service { base with runtime := body.runtime } payload header.readers
        (readChunks service base chunks).1 := by
  have hstart : base.connection.after [] = base.connection := by
    obtain ⟨peer, deadline, hello, hbase⟩ := hfresh
    rw [hbase]
    rfl
  have hunderway : Underway base payload 0 [] base := by
    refine ⟨by rw [hstart]; rfl, by simp, fun h => ?_⟩
    simp at h
  obtain ⟨readers, ⟨hgot, -⟩ | ⟨header, hheader, rfl⟩, body, hbody, halive, hanswered⟩ :=
    hunderway.readChunks hfresh hsize hcalm hall
  · simp at hgot
  · exact ⟨header, hheader, body, hbody, halive, hanswered⟩

end frame

/-! ## After the response -/

/-- The events in which the response can be written, each with its time. -/
def writeAll : Conversation ρ → List (Nat × List WriteItem) → Conversation ρ × Bool
  | c, [] => (c, true)
  | c, (now, items) :: rest =>
    let result := writeConnection now c items
    if result.2 then writeAll result.1 rest else result

/-- The connection after a response: as a new one, but for the deadline and the hello. -/
def Connection.renewed (connection : Connection) (peer : PeerCredentials) : Prop :=
  connection = { peer, frame_deadline := connection.frame_deadline, hello_completed := true }

theorem renewed_fresh {connection : Connection} {peer : PeerCredentials}
    (h : connection.renewed peer) : connection.fresh :=
  ⟨peer, _, true, h⟩

theorem keepAlive_renewed (connection : Connection) (now : Nat) :
    (connection.keepAlive now).renewed connection.peer :=
  rfl

/-- A response that is being written stays the output until the connection is renewed. -/
def Written (peer : PeerCredentials) (connection : Connection) : Prop :=
  connection.peer = peer ∧ connection.output.isSome ∨ connection.renewed peer

theorem writeOutput_written {c : Conversation ρ} {output : List UInt8} {peer : PeerCredentials}
    (hpeer : c.connection.peer = peer) (houtput : c.connection.output.isSome) (now : Nat)
    (items : List WriteItem) : Written peer (writeOutput now output c items).1.connection := by
  fun_induction writeOutput now output c items with
  | case1 => exact Or.inl ⟨hpeer, houtput⟩
  | case2 => exact Or.inl ⟨hpeer, houtput⟩
  | case3 c rest ih => exact ih hpeer houtput
  | case4 => exact Or.inl ⟨hpeer, houtput⟩
  | case5 => exact Or.inl ⟨hpeer, houtput⟩
  | case6 c count rest bytes hbytes next hdone hkeep =>
    subst hpeer
    exact Or.inr (keepAlive_renewed next.connection now)
  | case7 => exact Or.inl ⟨hpeer, houtput⟩
  | case8 c count rest bytes hbytes next hdone ih => exact ih hpeer houtput

theorem writeConnection_written {c : Conversation ρ} {peer : PeerCredentials}
    (h : Written peer c.connection) (now : Nat) (items : List WriteItem) :
    Written peer (writeConnection now c items).1.connection := by
  unfold writeConnection
  split
  · exact h
  · rename_i output houtput
    rcases h with ⟨hpeer, hsome⟩ | hrenewed
    · exact writeOutput_written hpeer hsome now items
    · rw [hrenewed] at houtput
      cases houtput

theorem writeAll_written {c : Conversation ρ} {peer : PeerCredentials}
    (h : Written peer c.connection) (writes : List (Nat × List WriteItem)) :
    Written peer (writeAll c writes).1.connection := by
  induction writes generalizing c with
  | nil => exact h
  | cons write writes ih =>
    have hnext := writeConnection_written h write.1 write.2
    unfold writeAll
    dsimp only
    split_ifs
    · exact ih hnext
    · exact hnext

/-! ## All frames of a connection -/

/-- A frame as it is sent, how its bytes arrive, and how its response is written. -/
structure Turn (ρ : Type) where
  payload : List UInt8
  chunks : List (Chunk ρ)
  writes : List (Nat × List WriteItem)
  fits : payload.length < 2 ^ 32
  calm : ∀ chunk ∈ chunks, Calm chunk.stream
  whole : chunkBytes chunks = frame payload

/-- The requests that went to the runtime, newest first. -/
def dispatched (log : List ConnectionAction) : List (List UInt8) :=
  log.filterMap fun action => match action with
    | .Dispatched payload => some payload
    | _ => none

/-- The frame is admitted and its payload is a message. -/
def accepts (service : Service ρ μ) (readers : Nat) (payload : List UInt8) : Bool :=
  (checkHeader readers (toBeBytes payload.length)).isOk && (service.decode payload).isOk

/-- The frame is answered as one that comes in one piece, in the event that completes its header
and the one that completes its body. -/
def AsInOnePiece (service : Service ρ μ) (c : Conversation ρ) (turn : Turn ρ) : Prop :=
  let heard := readChunks service c turn.chunks
  ∃ header ∈ turn.chunks, ∃ body ∈ turn.chunks, heard.2 = true ∧
    heard.1.uncut =
      serveFrame service header.readers { c.uncut with runtime := body.runtime } turn.payload ∧
    heard.1.uncut = (readChunks service c
      [⟨header.readers, body.runtime, dataItem (frame turn.payload)⟩]).1.uncut ∧
    dispatched heard.1.log =
      (if accepts service header.readers turn.payload then [turn.payload] else []) ++
        dispatched c.log

/-- One frame after the other, each sent after the response to the one before it. -/
def AnswersAll (service : Service ρ μ) : Conversation ρ → List (Turn ρ) → Prop
  | _, [] => True
  | c, turn :: turns =>
    let told := writeAll (readChunks service c turn.chunks).1 turn.writes
    AsInOnePiece service c turn ∧
      (told.2 = true → told.1.connection.output = none →
        told.1.connection.renewed c.connection.peer ∧ AnswersAll service told.1 turns)

theorem dispatched_uncut (c : Conversation ρ) : dispatched c.uncut.log = dispatched c.log := by
  unfold dispatched Conversation.uncut
  rw [List.filterMap_filter]
  congr 1
  funext action
  cases action <;> rfl

theorem dispatched_serveFrame (readers : Nat) (c : Conversation ρ) (payload : List UInt8) :
    dispatched (serveFrame service readers c payload).log =
      (if accepts service readers payload then [payload] else []) ++ dispatched c.log := by
  rcases hcheck : checkHeader readers (toBeBytes payload.length) with error | length
  · rw [serveFrame_error hcheck]
    simp [accepts, hcheck, queueError, dispatched, Except.isOk, Except.toBool]
  · rw [serveFrame_ok hcheck]
    rcases hdecode : service.decode payload with error | message <;>
      simp [accepts, hcheck, hdecode, dispatchBody, queueError, dispatched, Except.isOk,
        Except.toBool]

theorem serveFrame_peer (readers : Nat) (c : Conversation ρ) (payload : List UInt8) :
    (serveFrame service readers c payload).connection.peer = c.connection.peer := by
  unfold serveFrame dispatchBody
  dsimp only
  split
  · rfl
  · split <;> rfl

theorem turn_answered {c : Conversation ρ} (hfresh : c.connection.fresh) (turn : Turn ρ) :
    AsInOnePiece service c turn := by
  obtain ⟨header, hheader, body, hbody, halive, hanswered⟩ :
      ∃ header ∈ turn.chunks, ∃ body ∈ turn.chunks,
        (readChunks service c turn.chunks).2 = true ∧ Answered service _ _ _ _ :=
    readChunks_frame hfresh turn.fits turn.calm turn.whole
  let piece : Chunk ρ := ⟨header.readers, body.runtime, dataItem (frame turn.payload)⟩
  have hpiece : chunkBytes [piece] = frame turn.payload := by
    have hbytes := bytesOf_dataItem_append (frame turn.payload) []
    simpa [chunkBytes, piece, bytesOf] using hbytes
  obtain ⟨header', hheader', body', hbody', -, hone⟩ :
      ∃ header' ∈ [piece], ∃ body' ∈ [piece],
        (readChunks service c [piece]).2 = true ∧ Answered service _ _ _ _ :=
    readChunks_frame hfresh turn.fits (by simpa [piece] using calm_dataItem _) hpiece
  obtain rfl := List.mem_singleton.mp hheader'
  obtain rfl := List.mem_singleton.mp hbody'
  refine ⟨header, hheader, body, hbody, halive, hanswered, hanswered.trans hone.symm, ?_⟩
  rw [← dispatched_uncut, hanswered, dispatched_serveFrame]
  congr 1
  exact dispatched_uncut c

theorem turns_answered {c : Conversation ρ} (hfresh : c.connection.fresh) (turns : List (Turn ρ)) :
    AnswersAll service c turns := by
  induction turns generalizing c with
  | nil => trivial
  | cons turn turns ih =>
    have hturn : AsInOnePiece service c turn := turn_answered hfresh turn
    refine ⟨hturn, fun halive hnone => ?_⟩
    obtain ⟨header, -, body, -, -, hserved, -⟩ := hturn
    have hpeer : (readChunks service c turn.chunks).1.connection.peer = c.connection.peer :=
      (congrArg (·.connection.peer) hserved).trans (serveFrame_peer _ _ _)
    have hanswered : Answered service { c with runtime := body.runtime } turn.payload header.readers
        (readChunks service c turn.chunks).1 := hserved
    rcases writeAll_written (Or.inl ⟨hpeer, hanswered.output⟩) turn.writes with ⟨-, hsome⟩ | hrenewed
    · simp [hnone] at hsome
    · exact ⟨hrenewed, ih (renewed_fresh hrenewed)⟩

end framing

end init_backend
