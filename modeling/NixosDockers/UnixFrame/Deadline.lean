-- Frames read and written by an absolute deadline (`unix-frame/src/lib.rs`), and that they are
-- the frames of the readers and writers without one.
import NixosDockers.UnixFrame.Codec

namespace unix_frame

/-! ## Waiting -/

/-- What `poll` says of a descriptor: `POLLNVAL`, `POLLERR`, and whether one of the awaited
events or `POLLHUP` is set. -/
structure Revents where
  invalid : Bool := false
  error : Bool := false
  ready : Bool := false

/-- What a call of `poll` returns. -/
inductive PollResult where
  | Ready (revents : Revents)
  | TimedOut
  | Interrupted
  | Failed

/-- One turn of `wait_fd`: the clock in nanoseconds, and what `poll` answers to a timeout in
milliseconds. -/
structure Wait where
  now : Nat
  poll : Nat → PollResult

def ioError {α : Type} (kind : IoErrorKind) (message : String) : Except FrameError α :=
  .error (.Io ⟨kind, message⟩)

/-- The timeout that `wait_fd` gives to `poll`. -/
def pollMillis (remaining : Nat) : Nat := min (remaining / 10 ^ 6 + 1) (2 ^ 31 - 1)

/-- `wait_fd`. Nothing is returned as long as it waits. -/
def waitFd (deadline : Nat) : List Wait → Option (Except FrameError Unit × List Wait)
  | [] => none
  | wait :: waits =>
    let remaining := deadline - wait.now
    if remaining = 0 then some (ioError .TimedOut "backend request deadline expired", waits)
    else
      match wait.poll (pollMillis remaining) with
      | .Ready revents =>
        if revents.invalid then some (ioError .InvalidInput "backend socket is invalid", waits)
        else if revents.error then some (ioError .Other "backend socket poll failed", waits)
        else if revents.ready then some (.ok (), waits)
        else waitFd deadline waits
      | .TimedOut => waitFd deadline waits
      | .Interrupted => waitFd deadline waits
      | .Failed => some (ioError .Os "system error", waits)

/-- Waiting takes turns. -/
theorem waitFd_length {deadline : Nat} {waits rest : List Wait} {result : Except FrameError Unit}
    (h : waitFd deadline waits = some (result, rest)) : rest.length < waits.length := by
  induction waits with
  | nil => cases h
  | cons wait waits ih =>
    have hlater (hwait : waitFd deadline waits = some (result, rest)) :
        rest.length < (wait :: waits).length := Nat.lt_succ_of_lt (ih hwait)
    have hnow (hwait : waits = rest) : rest.length < (wait :: waits).length :=
      hwait ▸ Nat.lt_succ_self _
    unfold waitFd at h
    dsimp only at h
    split_ifs at h with hremaining
    · exact hnow (Prod.mk.inj (Option.some.inj h)).2
    · split at h
      · split_ifs at h
        · exact hnow (Prod.mk.inj (Option.some.inj h)).2
        · exact hnow (Prod.mk.inj (Option.some.inj h)).2
        · exact hnow (Prod.mk.inj (Option.some.inj h)).2
        · exact hlater h
      · exact hlater h
      · exact hlater h
      · exact hnow (Prod.mk.inj (Option.some.inj h)).2

/-! ## Reading by a deadline -/

/-- `read_exact_until`. The buffer has room for `size` bytes. -/
def readExactUntil (deadline size : Nat) (stream : List sockets.ReadItem) (waits : List Wait) :
    Option (Except FrameError (List UInt8) × List sockets.ReadItem × List Wait) :=
  if size = 0 then some (.ok [], stream, waits)
  else
    match _ : waitFd deadline waits with
    | none => none
    | some (.error error, waits) => some (.error error, stream, waits)
    | some (.ok (), waits) =>
      match sockets.read size stream with
      | (.Ok [], stream) =>
        some (ioError .UnexpectedEof
          "backend closed the connection before the frame was complete", stream, waits)
      | (.Ok (first :: more), stream) =>
        (readExactUntil deadline (size - (first :: more).length) stream waits).map
          fun (result, after) => (result.map ((first :: more) ++ ·), after)
      | (.Interrupted, stream) => readExactUntil deadline size stream waits
      | (.WouldBlock, stream) => readExactUntil deadline size stream waits
      | (.Failed, stream) => some (ioError .Os "system error", stream, waits)
  termination_by waits.length
  decreasing_by all_goals exact waitFd_length ‹_›

/-- `read_json_frame_until`. -/
def readJsonFrameUntil {α : Type} (fromSlice : List UInt8 → Except String α) (deadline : Nat)
    (limit : UInt64) (stream : List sockets.ReadItem) (waits : List Wait) :
    Option (Except FrameError α × List sockets.ReadItem × List Wait) :=
  match readExactUntil deadline 4 stream waits with
  | none => none
  | some (.error error, after) => some (.error error, after)
  | some (.ok header, stream, waits) =>
    let length := frames.fromBeBytes header
    match checkLength length limit with
    | .error error => some (.error error, stream, waits)
    | .ok () =>
      match readExactUntil deadline length stream waits with
      | none => none
      | some (.error error, after) => some (.error error, after)
      | some (.ok payload, after) => some ((fromSlice payload).mapError FrameError.Json, after)

/-! ## Writing by a deadline -/

/-- The sending side of a socket: what it will do with each `send`, and the bytes that it has
taken. -/
structure Outgoing where
  script : List sockets.WriteItem
  taken : List UInt8

/-- What a call of `send` returns. -/
inductive SendResult where
  | Ok (count : Nat)
  | WouldBlock
  | Interrupted
  | Failed

/-- `send`: a socket takes a beginning of the buffer. -/
def send (socket : Outgoing) (buffer : List UInt8) : SendResult × Outgoing :=
  match socket.script with
  | [] => (.WouldBlock, socket)
  | .Takes count :: script =>
    (.Ok (min count buffer.length), ⟨script, socket.taken ++ buffer.take count⟩)
  | .WouldBlock :: script => (.WouldBlock, { socket with script })
  | .Interrupted :: script => (.Interrupted, { socket with script })
  | .Failed :: script => (.Failed, { socket with script })

structure FrameWriteError where
  error : FrameError
  bytes_written : Nat

/-- The loop of `write_all_until` from `offset` on. -/
def writeAllUntil (deadline : Nat) (buffer : List UInt8) (offset : Nat) (socket : Outgoing)
    (waits : List Wait) : Option (Except FrameWriteError Nat × Outgoing) :=
  if offset < buffer.length then
    match _ : waitFd deadline waits with
    | none => none
    | some (.error error, _) => some (.error ⟨error, offset⟩, socket)
    | some (.ok (), waits) =>
      match send socket (buffer.drop offset) with
      | (.Ok (count + 1), socket) =>
        writeAllUntil deadline buffer (offset + (count + 1)) socket waits
      | (.Ok 0, socket) =>
        some (.error ⟨.Io ⟨.WriteZero, "backend frame write made no progress"⟩, offset⟩, socket)
      | (.Interrupted, socket) => writeAllUntil deadline buffer offset socket waits
      | (.WouldBlock, socket) => writeAllUntil deadline buffer offset socket waits
      | (.Failed, socket) => some (.error ⟨.Io ⟨.Os, "system error"⟩, offset⟩, socket)
  else some (.ok offset, socket)
  termination_by waits.length
  decreasing_by all_goals exact waitFd_length ‹_›

/-- `write_json_frame_until`. -/
def writeJsonFrameUntil (deadline : Nat) (limit : UInt64) (value : Serialization)
    (socket : Outgoing) (waits : List Wait) : Option (Except FrameWriteError Nat × Outgoing) :=
  match encodeJsonFrame value limit with
  | .error error => some (.error ⟨error, 0⟩, socket)
  | .ok frame => writeAllUntil deadline frame 0 socket waits

/-! ## Readers with and without a deadline -/

/-- A stream for a reader that the system lets wait. -/
def noWait (stream : List sockets.ReadItem) : List sockets.ReadItem :=
  stream.filter (· ≠ .WouldBlock)

theorem noWait_dataItem_append (bytes : List UInt8) (stream : List sockets.ReadItem) :
    noWait (sockets.dataItem bytes ++ stream) = sockets.dataItem bytes ++ noWait stream := by
  cases bytes <;> rfl

/-- One `read` of a stream and of the stream without waiting. -/
theorem read_noWait (size : Nat) (stream : List sockets.ReadItem) :
    (∃ rest, sockets.read size stream = (.WouldBlock, rest) ∧ noWait stream = noWait rest) ∨
      ∃ result rest, sockets.read size stream = (result, rest) ∧ result ≠ .WouldBlock ∧
        sockets.read size (noWait stream) = (result, noWait rest) := by
  cases stream with
  | nil => exact Or.inl ⟨[], rfl, rfl⟩
  | cons item rest =>
    cases item with
    | WouldBlock => exact Or.inl ⟨rest, rfl, rfl⟩
    | Data first more =>
      refine Or.inr ⟨_, _, rfl, by simp, ?_⟩
      rw [noWait_dataItem_append]
      rfl
    | Interrupted => exact Or.inr ⟨_, _, rfl, by simp, rfl⟩
    | Closed => exact Or.inr ⟨_, _, rfl, by simp, rfl⟩
    | Failed => exact Or.inr ⟨_, _, rfl, by simp, rfl⟩

theorem read_noWait_eq {size : Nat} {stream rest : List sockets.ReadItem}
    {result : sockets.ReadResult} (h : sockets.read size stream = (result, rest))
    (hresult : result ≠ .WouldBlock) :
    sockets.read size (noWait stream) = (result, noWait rest) := by
  obtain ⟨after, hread, -⟩ | ⟨other, after, hread, -, heq⟩ := read_noWait size stream
  · rw [hread] at h
    exact absurd (Prod.mk.inj h).1.symm hresult
  · rw [hread] at h
    obtain ⟨rfl, rfl⟩ := Prod.mk.inj h
    exact heq

theorem noWait_eq_of_wouldBlock {size : Nat} {stream rest : List sockets.ReadItem}
    (h : sockets.read size stream = (.WouldBlock, rest)) : noWait stream = noWait rest := by
  obtain ⟨after, hread, heq⟩ | ⟨other, after, hread, hother, -⟩ := read_noWait size stream
  · rw [hread] at h
    rw [heq, (Prod.mk.inj h).2]
  · rw [hread] at h
    exact absurd (Prod.mk.inj h).1 hother

/-- The first part that `read` gives begins what `read_exact` gives. -/
theorem readExact_of_part {size : Nat} {stream rest : List sockets.ReadItem} {first : UInt8}
    {more : List UInt8} (hsize : size ≠ 0)
    (h : sockets.read size stream = (.Ok (first :: more), rest)) :
    readExact size stream =
      ((readExact (size - (first :: more).length) rest).1.map ((first :: more) ++ ·),
        (readExact (size - (first :: more).length) rest).2) := by
  rw [readExact, if_neg hsize]
  split
  · case h_1 hread => rw [h] at hread; cases hread
  · case h_2 hread =>
    rw [h] at hread
    obtain ⟨hbytes, rfl⟩ := Prod.mk.inj hread
    obtain ⟨rfl, rfl⟩ := List.cons.inj (sockets.ReadResult.Ok.inj hbytes)
    split
    · case h_1 heq => rw [heq]; rfl
    · case h_2 heq => rw [heq]; rfl
  · case h_3 hread => rw [h] at hread; cases hread
  · case h_4 hread => rw [h] at hread; cases hread
  · case h_5 hread => rw [h] at hread; cases hread

theorem readExact_of_interrupted {size : Nat} {stream rest : List sockets.ReadItem}
    (hsize : size ≠ 0) (h : sockets.read size stream = (.Interrupted, rest)) :
    readExact size stream = readExact size rest := by
  rw [readExact, if_neg hsize]
  split
  · case h_1 hread => rw [h] at hread; cases hread
  · case h_2 hread => rw [h] at hread; cases hread
  · case h_3 hread => rw [h] at hread; rw [(Prod.mk.inj hread).2]
  · case h_4 hread => rw [h] at hread; cases hread
  · case h_5 hread => rw [h] at hread; cases hread

/-- A buffer that is filled was begun, or the reading was interrupted. -/
theorem readExact_ok_cases {size : Nat} {stream rest : List sockets.ReadItem}
    {bytes : List UInt8} (hsize : size ≠ 0) (h : readExact size stream = (.ok bytes, rest)) :
    (∃ first more after, sockets.read size stream = (.Ok (first :: more), after)) ∨
      ∃ after, sockets.read size stream = (.Interrupted, after) := by
  rw [readExact, if_neg hsize] at h
  split at h
  · cases h
  · case h_2 hread => exact Or.inl ⟨_, _, _, hread⟩
  · case h_3 hread => exact Or.inr ⟨_, hread⟩
  · cases h
  · cases h

/-- What is read by the deadline is what is read without one. -/
theorem readExactUntil_ok (deadline size : Nat) (stream : List sockets.ReadItem)
    (waits : List Wait) :
    ∀ (bytes : List UInt8) (rest : List sockets.ReadItem) (left : List Wait),
      readExactUntil deadline size stream waits = some (.ok bytes, rest, left) →
      readExact size (noWait stream) = (.ok bytes, noWait rest) := by
  fun_induction readExactUntil deadline size stream waits with
  | case1 stream waits =>
    intro bytes rest left h
    obtain ⟨hbytes, hrest⟩ := Prod.mk.inj (Option.some.inj h)
    obtain ⟨rfl, -⟩ := Prod.mk.inj hrest
    obtain rfl := Except.ok.inj hbytes
    rw [readExact, if_pos rfl]
  | case2 size stream waits hsize hwait => intro bytes rest left h; cases h
  | case3 size stream waits hsize error left hwait => intro bytes rest left h; cases h
  | case4 size stream waits hsize left hwait after hread => intro bytes rest left h; cases h
  | case5 size stream waits hsize left hwait first more after hread ih =>
    intro bytes rest final h
    obtain ⟨⟨result, after'⟩, hlater, heq⟩ := Option.map_eq_some_iff.mp h
    obtain ⟨hresult, rfl⟩ := Prod.mk.inj heq
    cases result with
    | error error => cases hresult
    | ok tail =>
      obtain rfl := Except.ok.inj hresult
      rw [readExact_of_part hsize (read_noWait_eq hread (by simp)), ih _ _ _ hlater]
      rfl
  | case6 size stream waits hsize left hwait after hread ih =>
    intro bytes rest final h
    rw [readExact_of_interrupted hsize (read_noWait_eq hread (by simp))]
    exact ih _ _ _ h
  | case7 size stream waits hsize left hwait after hread ih =>
    intro bytes rest final h
    rw [noWait_eq_of_wouldBlock hread]
    exact ih _ _ _ h
  | case8 size stream waits hsize left hwait after hread => intro bytes rest left h; cases h

/-- A socket that is ready at every turn before the deadline. -/
def Patient (deadline : Nat) (waits : List Wait) : Prop :=
  ∀ wait ∈ waits, wait.now < deadline ∧
    wait.poll (pollMillis (deadline - wait.now)) = .Ready { ready := true }

theorem Patient.waitFd_eq {deadline : Nat} {wait : Wait} {waits : List Wait}
    (h : Patient deadline (wait :: waits)) : waitFd deadline (wait :: waits) = some (.ok (), waits) := by
  obtain ⟨hnow, hpoll⟩ := h wait (by simp)
  have hremaining : deadline - wait.now ≠ 0 := by omega
  unfold waitFd
  dsimp only
  rw [if_neg hremaining, hpoll]
  rfl

theorem Patient.tail {deadline : Nat} {wait : Wait} {waits : List Wait}
    (h : Patient deadline (wait :: waits)) : Patient deadline waits :=
  fun other hother => h other (List.mem_cons_of_mem _ hother)

/-- Whoever waits on a socket that is ready goes on in the next turn. -/
theorem Patient.waitFd_cases {deadline : Nat} {waits left : List Wait}
    {result : Except FrameError Unit} (h : Patient deadline waits)
    (hwait : waitFd deadline waits = some (result, left)) :
    result = .ok () ∧ Patient deadline left ∧ waits.length = left.length + 1 := by
  cases waits with
  | nil => cases hwait
  | cons wait waits =>
    rw [h.waitFd_eq] at hwait
    obtain ⟨rfl, rfl⟩ := Prod.mk.inj (Option.some.inj hwait)
    exact ⟨rfl, h.tail, rfl⟩

theorem readExact_nil {size : Nat} {rest : List sockets.ReadItem} {bytes : List UInt8}
    (hsize : size ≠ 0) : readExact size [] ≠ (.ok bytes, rest) := by
  intro h
  obtain ⟨first, more, after, hread⟩ | ⟨after, hread⟩ := readExact_ok_cases hsize h
  · cases hread
  · cases hread

theorem eq_nil_of_weight {stream : List sockets.ReadItem} (h : sockets.weight stream = 0) :
    stream = [] := by
  cases stream with
  | nil => rfl
  | cons item stream =>
    rw [sockets.weight_cons] at h
    cases item <;> simp [sockets.ReadItem.weight] at h

theorem read_wouldBlock_weight {size : Nat} {stream rest : List sockets.ReadItem}
    (h : sockets.read size stream = (.WouldBlock, rest)) :
    stream = [] ∨ sockets.weight rest < sockets.weight stream := by
  unfold sockets.read at h
  split at h
  all_goals cases h
  · exact Or.inl rfl
  · right
    simp [sockets.ReadItem.weight]

/-- What is read without a deadline is read by a deadline that leaves the time for it. -/
theorem readExactUntil_patient (deadline size : Nat) (stream : List sockets.ReadItem)
    (waits : List Wait) :
    ∀ (bytes : List UInt8) (rest : List sockets.ReadItem), Patient deadline waits →
      sockets.weight stream ≤ waits.length →
      readExact size (noWait stream) = (.ok bytes, rest) →
      ∃ after left, readExactUntil deadline size stream waits = some (.ok bytes, after, left) ∧
        noWait after = rest ∧ Patient deadline left ∧ sockets.weight after ≤ left.length := by
  fun_induction readExactUntil deadline size stream waits with
  | case1 stream waits =>
    intro bytes rest hpatient hweight h
    rw [readExact, if_pos rfl] at h
    obtain ⟨hbytes, rfl⟩ := Prod.mk.inj h
    obtain rfl := Except.ok.inj hbytes
    exact ⟨stream, waits, rfl, rfl, hpatient, hweight⟩
  | case2 size stream waits hsize hwait =>
    intro bytes rest hpatient hweight h
    cases waits with
    | nil =>
      rw [eq_nil_of_weight (Nat.le_zero.mp hweight)] at h
      exact absurd h (readExact_nil hsize)
    | cons wait waits =>
      rw [hpatient.waitFd_eq] at hwait
      cases hwait
  | case3 size stream waits hsize error left hwait =>
    intro bytes rest hpatient
    cases (hpatient.waitFd_cases hwait).1
  | case4 size stream waits hsize left hwait after hread =>
    intro bytes rest hpatient hweight h
    have hread := read_noWait_eq hread (by simp)
    obtain ⟨first, more, next, hpart⟩ | ⟨next, hpart⟩ := readExact_ok_cases hsize h
    · rw [hread] at hpart
      cases hpart
    · rw [hread] at hpart
      cases hpart
  | case5 size stream waits hsize left hwait first more after hread ih =>
    intro bytes rest hpatient hweight h
    obtain ⟨-, hleft, hlength⟩ := hpatient.waitFd_cases hwait
    have hless := sockets.read_data_weight hread
    rw [readExact_of_part hsize (read_noWait_eq hread (by simp))] at h
    obtain ⟨hbytes, rfl⟩ := Prod.mk.inj h
    cases htail : (readExact (size - (first :: more).length) (noWait after)).1 with
    | error error =>
      rw [htail] at hbytes
      cases hbytes
    | ok tail =>
      rw [htail] at hbytes
      obtain rfl := Except.ok.inj hbytes
      obtain ⟨final, last, hlater, heq, hlast, hfinal⟩ :=
        ih tail _ hleft (by omega) (Prod.ext htail rfl)
      rw [hlater]
      exact ⟨final, last, rfl, heq, hlast, hfinal⟩
  | case6 size stream waits hsize left hwait after hread ih =>
    intro bytes rest hpatient hweight h
    obtain ⟨-, hleft, hlength⟩ := hpatient.waitFd_cases hwait
    have hless := sockets.read_interrupted_weight hread
    rw [readExact_of_interrupted hsize (read_noWait_eq hread (by simp))] at h
    exact ih bytes rest hleft (by omega) h
  | case7 size stream waits hsize left hwait after hread ih =>
    intro bytes rest hpatient hweight h
    obtain ⟨-, hleft, hlength⟩ := hpatient.waitFd_cases hwait
    rw [noWait_eq_of_wouldBlock hread] at h
    rcases read_wouldBlock_weight hread with rfl | hless
    · cases hread
      exact absurd h (readExact_nil hsize)
    · exact ih bytes rest hleft (by omega) h
  | case8 size stream waits hsize left hwait after hread =>
    intro bytes rest hpatient hweight h
    have hread := read_noWait_eq hread (by simp)
    obtain ⟨first, more, next, hpart⟩ | ⟨next, hpart⟩ := readExact_ok_cases hsize h
    · rw [hread] at hpart
      cases hpart
    · rw [hread] at hpart
      cases hpart

/-- A frame that is read by the deadline is the frame that is read without one. -/
theorem readJsonFrameUntil_ok {α : Type} {fromSlice : List UInt8 → Except String α}
    {deadline : Nat} {limit : UInt64} {stream rest : List sockets.ReadItem}
    {waits left : List Wait} {value : α}
    (h : readJsonFrameUntil fromSlice deadline limit stream waits =
      some (.ok value, rest, left)) :
    readJsonFrame fromSlice (noWait stream) limit = (.ok value, noWait rest) := by
  unfold readJsonFrameUntil at h
  unfold readJsonFrame readPayload
  cases hheader : readExactUntil deadline 4 stream waits with
  | none => rw [hheader] at h; cases h
  | some header =>
    obtain ⟨header, after, between⟩ := header
    rw [hheader] at h
    cases header with
    | error error => cases h
    | ok header =>
      rw [readExactUntil_ok _ _ _ _ _ _ _ hheader]
      dsimp only at h ⊢
      cases hcheck : checkLength (frames.fromBeBytes header) limit with
      | error error => rw [hcheck] at h; cases h
      | ok _ =>
        rw [hcheck] at h
        dsimp only at h ⊢
        cases hpayload : readExactUntil deadline (frames.fromBeBytes header) after between with
        | none => rw [hpayload] at h; cases h
        | some payload =>
          obtain ⟨payload, final, last⟩ := payload
          rw [hpayload] at h
          cases payload with
          | error error => cases h
          | ok payload =>
            rw [readExactUntil_ok _ _ _ _ _ _ _ hpayload]
            obtain ⟨hvalue, hrest⟩ := Prod.mk.inj (Option.some.inj h)
            exact Prod.ext hvalue (congrArg noWait (Prod.mk.inj hrest).1)

/-- A frame that is read without a deadline is read by one that leaves the time for it. -/
theorem readJsonFrameUntil_patient {α : Type} {fromSlice : List UInt8 → Except String α}
    {deadline : Nat} {limit : UInt64} {stream rest : List sockets.ReadItem} {waits : List Wait}
    {value : α} (hpatient : Patient deadline waits)
    (hweight : sockets.weight stream ≤ waits.length)
    (h : readJsonFrame fromSlice (noWait stream) limit = (.ok value, rest)) :
    ∃ after left, readJsonFrameUntil fromSlice deadline limit stream waits =
      some (.ok value, after, left) ∧ noWait after = rest := by
  unfold readJsonFrame readPayload at h
  unfold readJsonFrameUntil
  rcases hheader : readExact 4 (noWait stream) with ⟨header, next⟩
  rw [hheader] at h
  cases header with
  | error error => cases h
  | ok header =>
    obtain ⟨after, left, hread, rfl, hleft, hafter⟩ :=
      readExactUntil_patient _ _ _ _ _ _ hpatient hweight hheader
    rw [hread]
    dsimp only at h ⊢
    cases hcheck : checkLength (frames.fromBeBytes header) limit with
    | error error => rw [hcheck] at h; cases h
    | ok _ =>
      rw [hcheck] at h
      dsimp only at h ⊢
      rcases hpayload : readExact (frames.fromBeBytes header) (noWait after) with ⟨payload, last⟩
      rw [hpayload] at h
      cases payload with
      | error error => cases h
      | ok payload =>
        obtain ⟨final, spare, hread', rfl, -⟩ :=
          readExactUntil_patient _ _ _ _ _ _ hleft hafter hpayload
        rw [hread']
        obtain ⟨hvalue, rfl⟩ := Prod.mk.inj h
        exact ⟨final, spare, congrArg some (Prod.ext hvalue rfl), rfl⟩

/-! ## Bytes that were sent -/

/-- A socket takes as many bytes of the buffer as `send` says. -/
theorem send_ok {socket after : Outgoing} {buffer : List UInt8} {count : Nat}
    (h : send socket buffer = (.Ok count, after)) :
    count ≤ buffer.length ∧ after.taken = socket.taken ++ buffer.take count := by
  unfold send at h
  split at h
  · cases h
  · obtain ⟨hcount, rfl⟩ := Prod.mk.inj h
    obtain rfl := SendResult.Ok.inj hcount
    exact ⟨Nat.min_le_right _ _, congrArg (socket.taken ++ ·) List.take_eq_take_min⟩
  · cases h
  · cases h
  · cases h

/-- A socket takes nothing else. -/
theorem send_taken {socket after : Outgoing} {buffer : List UInt8} {result : SendResult}
    (h : send socket buffer = (result, after)) (hresult : ∀ count, result ≠ .Ok count) :
    after.taken = socket.taken := by
  unfold send at h
  split at h
  · cases h; rfl
  · cases h; exact absurd rfl (hresult _)
  · cases h; rfl
  · cases h; rfl
  · cases h; rfl

/-- The bytes that a write has sent: all of them when it succeeds, and otherwise as many as its
error says. -/
def Sent (buffer : List UInt8) (socket after : Outgoing) : Except FrameWriteError Nat → Prop
  | .ok count => count = buffer.length ∧ after.taken = socket.taken ++ buffer
  | .error failure => failure.bytes_written ≤ buffer.length ∧
    after.taken = socket.taken ++ buffer.take failure.bytes_written

theorem writeAllUntil_sent (deadline : Nat) (buffer : List UInt8) (offset : Nat)
    (socket : Outgoing) (waits : List Wait) :
    ∀ (start after : Outgoing) (result : Except FrameWriteError Nat),
      offset ≤ buffer.length → socket.taken = start.taken ++ buffer.take offset →
      writeAllUntil deadline buffer offset socket waits = some (result, after) →
      Sent buffer start after result := by
  fun_induction writeAllUntil deadline buffer offset socket waits with
  | case1 => intro start after result hoffset htaken h; cases h
  | case2 =>
    intro start after result hoffset htaken h
    cases h
    exact ⟨hoffset, htaken⟩
  | case3 offset socket waits hless left hwait count next hsend ih =>
    intro start after result hoffset htaken h
    obtain ⟨hcount, hnext⟩ := send_ok hsend
    rw [List.length_drop] at hcount
    refine ih start after result (by omega) ?_ h
    rw [hnext, htaken, List.append_assoc, List.take_add]
  | case4 offset socket waits hless left hwait next hsend =>
    intro start after result hoffset htaken h
    obtain ⟨-, hnext⟩ := send_ok hsend
    rw [List.take_zero, List.append_nil] at hnext
    cases h
    exact ⟨hoffset, hnext.trans htaken⟩
  | case5 offset socket waits hless left hwait next hsend ih =>
    intro start after result hoffset htaken h
    exact ih start after result hoffset ((send_taken hsend (by simp)).trans htaken) h
  | case6 offset socket waits hless left hwait next hsend ih =>
    intro start after result hoffset htaken h
    exact ih start after result hoffset ((send_taken hsend (by simp)).trans htaken) h
  | case7 offset socket waits hless left hwait next hsend =>
    intro start after result hoffset htaken h
    cases h
    exact ⟨hoffset, (send_taken hsend (by simp)).trans htaken⟩
  | case8 offset socket waits hless =>
    intro start after result hoffset htaken h
    obtain rfl : offset = buffer.length := Nat.le_antisymm hoffset (Nat.le_of_not_lt hless)
    rw [List.take_length] at htaken
    cases h
    exact ⟨rfl, htaken⟩

/-- The counter of a write is the number of bytes that the socket has taken of the frame. -/
theorem writeJsonFrameUntil_sent {deadline : Nat} {limit : UInt64} {value : Serialization}
    {socket after : Outgoing} {waits : List Wait} {result : Except FrameWriteError Nat}
    (h : writeJsonFrameUntil deadline limit value socket waits = some (result, after)) :
    (∃ error, encodeJsonFrame value limit = .error error ∧ result = .error ⟨error, 0⟩ ∧
        after = socket) ∨
      ∃ frame, encodeJsonFrame value limit = .ok frame ∧ Sent frame socket after result := by
  unfold writeJsonFrameUntil at h
  split at h
  · case h_1 error herror =>
    obtain ⟨rfl, rfl⟩ := Prod.mk.inj (Option.some.inj h)
    exact Or.inl ⟨error, herror, rfl, rfl⟩
  · case h_2 frame hframe =>
    refine Or.inr ⟨frame, hframe, ?_⟩
    apply writeAllUntil_sent _ _ _ _ _ socket after result (Nat.zero_le _) ?_ h
    rw [List.take_zero, List.append_nil]

/-! ## The codec -/

/-- What the four implementations agree on. A payload whose length needs more than four bytes is
refused; every other payload within the limit is framed and read back, by both readers, from
any chunks. -/
theorem frame_codec :
    (∀ (payload : List UInt8) (limit : UInt64), 0 < payload.length →
      payload.length ≤ limit.toNat →
      (2 ^ 32 ≤ payload.length →
        encodePayloadFrame payload limit = .error (.LengthOverflow payload.length)) ∧
      (payload.length < 2 ^ 32 → ∃ frame, encodePayloadFrame payload limit = .ok frame ∧
        ∀ (left : List UInt8) (stream : List sockets.ReadItem), sockets.Calm stream →
          sockets.bytesOf stream = frame ++ left →
          ∃ rest, readPayload stream limit = (.ok payload, rest) ∧ sockets.Calm rest ∧
            sockets.bytesOf rest = left)) ∧
    (∀ (header left : List UInt8) (stream : List sockets.ReadItem) (limit : UInt64),
      header.length = 4 → sockets.Calm stream → sockets.bytesOf stream = header ++ left →
      frames.fromBeBytes header ≤ left.length →
      ((∃ payload, (readPayload stream limit).1 = .ok payload) ↔
        0 < frames.fromBeBytes header ∧ frames.fromBeBytes header ≤ limit.toNat)) ∧
    (∀ (value : Serialization) (limit : UInt64),
      (value.writes.flatten.length ≤ limit.toNat →
        serializeBounded value limit = value.toVec) ∧
      (limit.toNat < value.writes.flatten.length →
        ∃ length, serializeBounded value limit = .error (.TooLarge length limit.toNat))) ∧
    (∀ {α : Type} (fromSlice : List UInt8 → Except String α) (deadline : Nat) (limit : UInt64)
      (stream : List sockets.ReadItem) (waits : List Wait) (value : α),
      (∀ rest left, readJsonFrameUntil fromSlice deadline limit stream waits =
          some (.ok value, rest, left) →
        readJsonFrame fromSlice (noWait stream) limit = (.ok value, noWait rest)) ∧
      (Patient deadline waits → sockets.weight stream ≤ waits.length →
        ∀ rest, readJsonFrame fromSlice (noWait stream) limit = (.ok value, rest) →
          ∃ after left, readJsonFrameUntil fromSlice deadline limit stream waits =
            some (.ok value, after, left) ∧ noWait after = rest)) ∧
    (∀ (deadline : Nat) (limit : UInt64) (value : Serialization) (socket after : Outgoing)
      (waits : List Wait) (result : Except FrameWriteError Nat),
      writeJsonFrameUntil deadline limit value socket waits = some (result, after) →
      (∃ error, encodeJsonFrame value limit = .error error ∧ result = .error ⟨error, 0⟩ ∧
        after = socket) ∨
      ∃ frame, encodeJsonFrame value limit = .ok frame ∧ Sent frame socket after result) := by
  refine ⟨?_, ?_, serializeBounded_cases, ?_, ?_⟩
  · intro payload limit hpos hlimit
    rw [encodePayloadFrame_eq hpos hlimit]
    constructor
    · intro hlong
      rw [if_neg (Nat.not_lt.mpr hlong)]
    · intro hfits
      rw [if_pos hfits]
      exact ⟨_, rfl, fun left stream hcalm hstream =>
        readPayload_frame hcalm hpos hlimit hfits hstream⟩
  · intro header left stream limit hheader hcalm hstream hleft
    exact header_accepted_iff hcalm hheader hstream hleft
  · intro α fromSlice deadline limit stream waits value
    exact ⟨fun rest left h => readJsonFrameUntil_ok h,
      fun hpatient hweight rest h => readJsonFrameUntil_patient hpatient hweight h⟩
  · intro deadline limit value socket after waits result h
    exact writeJsonFrameUntil_sent h

/-- A payload within its limit that no frame can hold. -/
theorem long_payload_is_refused :
    ¬ ∀ (payload : List UInt8) (limit : UInt64), 0 < payload.length →
      payload.length ≤ limit.toNat → ∃ frame, encodePayloadFrame payload limit = .ok frame := by
  intro h
  have hlength : (List.replicate (2 ^ 32) (0 : UInt8)).length = 2 ^ 32 := List.length_replicate
  have hlimit : (UInt64.ofNat (2 ^ 32)).toNat = 2 ^ 32 := by decide
  obtain ⟨frame, hframe⟩ := h (List.replicate (2 ^ 32) 0) (UInt64.ofNat (2 ^ 32))
    (by rw [hlength]; decide) (by rw [hlength, hlimit])
  rw [encodePayloadFrame_eq (by rw [hlength]; decide) (by rw [hlength, hlimit]), hlength,
    if_neg (by decide)] at hframe
  cases hframe

end unix_frame
