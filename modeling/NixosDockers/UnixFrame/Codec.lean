-- Frames of the Unix protocols (`unix-frame/src/lib.rs`): a payload after its length in
-- four bytes, written and read without a deadline.
import NixosDockers.Lib.Frames
import NixosDockers.Lib.Sockets

namespace unix_frame

/-! ## Errors -/

/-- `io::ErrorKind`, as far as frames meet it. `Os` stands for the other errors of the system. -/
inductive IoErrorKind where
  | UnexpectedEof
  | WriteZero
  | TimedOut
  | WouldBlock
  | InvalidInput
  | Other
  | Os
  deriving DecidableEq, Repr

structure IoError where
  kind : IoErrorKind
  message : String
  deriving DecidableEq, Repr

inductive FrameError where
  | Io (error : IoError)
  | Json (error : String)
  | Empty
  | TooLarge (length limit : Nat)
  | LengthOverflow (length : Nat)
  deriving DecidableEq, Repr

/-! ## Payloads after their length -/

/-- `check_length`. -/
def checkLength (length : Nat) (limit : UInt64) : Except FrameError Unit :=
  if length = 0 then .error .Empty
  else if length > limit.toNat then .error (.TooLarge length limit.toNat)
  else .ok ()

/-- `ensure_payload`. -/
def ensurePayload (payload : List UInt8) (limit : UInt64) : Except FrameError Unit :=
  checkLength payload.length limit

/-- `u32::try_from` of a length. -/
def u32TryFrom (length : Nat) : Except FrameError Nat :=
  if length < 2 ^ 32 then .ok length else .error (.LengthOverflow length)

/-- `encode_payload_frame`. -/
def encodePayloadFrame (payload : List UInt8) (limit : UInt64) :
    Except FrameError (List UInt8) := do
  ensurePayload payload limit
  let length ← u32TryFrom payload.length
  return frames.toBeBytes length ++ payload

theorem checkLength_ok_iff {length : Nat} {limit : UInt64} :
    checkLength length limit = .ok () ↔ 0 < length ∧ length ≤ limit.toNat := by
  unfold checkLength
  by_cases hzero : length = 0
  · simp [hzero]
  · rw [if_neg hzero]
    by_cases hlimit : length > limit.toNat
    · rw [if_pos hlimit]
      exact ⟨fun h => (nomatch h), fun h => by omega⟩
    · rw [if_neg hlimit]
      exact ⟨fun _ => by omega, fun _ => rfl⟩

/-- A payload within the limit is framed when its length fits into four bytes. -/
theorem encodePayloadFrame_eq {payload : List UInt8} {limit : UInt64}
    (hpos : 0 < payload.length) (hlimit : payload.length ≤ limit.toNat) :
    encodePayloadFrame payload limit =
      if payload.length < 2 ^ 32 then .ok (frames.frame payload)
      else .error (.LengthOverflow payload.length) := by
  have hok : ensurePayload payload limit = .ok () := checkLength_ok_iff.mpr ⟨hpos, hlimit⟩
  unfold encodePayloadFrame u32TryFrom
  rw [hok]
  by_cases hlength : payload.length < 2 ^ 32
  · rw [if_pos hlength, if_pos hlength]
    rfl
  · rw [if_neg hlength, if_neg hlength]
    rfl

/-! ## The bounded writer -/

/-- A JSON serialization: the buffers that it hands to `write_all`, one after another, and how
it ends when all of them are taken. No JSON text is empty. -/
structure Serialization where
  writes : List (List UInt8)
  outcome : Except String Unit
  written : outcome = .ok () → writes.flatten ≠ []

/-- `serde_json::to_vec`: the serialization into a buffer without a bound. -/
def Serialization.toVec (value : Serialization) : Except FrameError (List UInt8) :=
  match value.outcome with
  | .ok () => .ok value.writes.flatten
  | .error error => .error (.Json error)

structure BoundedVecWriter where
  bytes : List UInt8
  limit : UInt64
  exceeded_length : Option Nat

/-- `usize::MAX`. -/
def usizeMax : Nat := 2 ^ 64 - 1

/-- `usize::checked_add`. -/
def checkedAdd (left right : Nat) : Option Nat :=
  if left + right ≤ usizeMax then some (left + right) else none

/-- `BoundedVecWriter::write`: the buffer is taken whole or not at all. -/
def BoundedVecWriter.write (writer : BoundedVecWriter) (buffer : List UInt8) :
    BoundedVecWriter × Except IoError Nat :=
  match checkedAdd writer.bytes.length buffer.length with
  | none =>
    ({ writer with exceeded_length := some usizeMax },
      .error ⟨.Other, "frame length overflow"⟩)
  | some next_length =>
    if next_length > writer.limit.toNat then
      ({ writer with exceeded_length := some next_length },
        .error ⟨.Other, "frame exceeds limit"⟩)
    else ({ writer with bytes := writer.bytes ++ buffer }, .ok buffer.length)

/-- `Write::write_all`: an empty buffer is not written, and the rest after one `write` is
empty, since a `write` takes everything. -/
def BoundedVecWriter.writeAll (writer : BoundedVecWriter) (buffer : List UInt8) :
    BoundedVecWriter × Except IoError Unit :=
  if buffer = [] then (writer, .ok ())
  else
    match writer.write buffer with
    | (writer, .ok _) => (writer, .ok ())
    | (writer, .error error) => (writer, .error error)

/-- `serde_json::to_writer`: the first failed write ends the serialization. -/
def toWriter (outcome : Except String Unit) :
    BoundedVecWriter → List (List UInt8) → BoundedVecWriter × Except String Unit
  | writer, [] => (writer, outcome)
  | writer, buffer :: buffers =>
    match writer.writeAll buffer with
    | (writer, .ok ()) => toWriter outcome writer buffers
    | (writer, .error error) => (writer, .error error.message)

/-- `serialize_bounded`. -/
def serializeBounded (value : Serialization) (limit : UInt64) :
    Except FrameError (List UInt8) :=
  let (writer, result) := toWriter value.outcome ⟨[], limit, none⟩ value.writes
  match writer.exceeded_length with
  | some length => .error (.TooLarge length limit.toNat)
  | none =>
    match result with
    | .error error => .error (.Json error)
    | .ok () => do
      checkLength writer.bytes.length limit
      return writer.bytes

/-- `encode_json_frame`. -/
def encodeJsonFrame (value : Serialization) (limit : UInt64) :
    Except FrameError (List UInt8) := do
  let payload ← serializeBounded value limit
  encodePayloadFrame payload limit

/-- One write is taken, or the limit is passed. -/
theorem writeAll_cases (writer : BoundedVecWriter) (buffer : List UInt8)
    (hbytes : writer.bytes.length ≤ writer.limit.toNat) :
    (writer.bytes.length + buffer.length ≤ writer.limit.toNat ∧
        writer.writeAll buffer = ({ writer with bytes := writer.bytes ++ buffer }, .ok ())) ∨
      (writer.limit.toNat < writer.bytes.length + buffer.length ∧
        ∃ length error, writer.writeAll buffer =
          ({ writer with exceeded_length := some length }, .error error)) := by
  have hmax : writer.limit.toNat ≤ usizeMax := by
    have := writer.limit.toNat_lt
    unfold usizeMax
    omega
  unfold BoundedVecWriter.writeAll
  by_cases hempty : buffer = []
  · subst hempty
    left
    rw [if_pos rfl, List.append_nil]
    exact ⟨hbytes, rfl⟩
  · rw [if_neg hempty]
    unfold BoundedVecWriter.write checkedAdd
    by_cases hsum : writer.bytes.length + buffer.length ≤ usizeMax
    · rw [if_pos hsum]
      dsimp only
      by_cases hlimit : writer.bytes.length + buffer.length > writer.limit.toNat
      · right
        rw [if_pos hlimit]
        exact ⟨hlimit, _, _, rfl⟩
      · left
        rw [if_neg hlimit]
        exact ⟨Nat.le_of_not_lt hlimit, rfl⟩
    · right
      rw [if_neg hsum]
      exact ⟨by omega, _, _, rfl⟩

/-- The serialization comes to its end when all buffers fit, and sets the length that was too
much otherwise. -/
theorem toWriter_cases (outcome : Except String Unit) (buffers : List (List UInt8)) :
    ∀ writer : BoundedVecWriter, writer.bytes.length ≤ writer.limit.toNat →
      (writer.bytes.length + buffers.flatten.length ≤ writer.limit.toNat ∧
          toWriter outcome writer buffers =
            ({ writer with bytes := writer.bytes ++ buffers.flatten }, outcome)) ∨
        (writer.limit.toNat < writer.bytes.length + buffers.flatten.length ∧
          ∃ length, (toWriter outcome writer buffers).1.exceeded_length = some length) := by
  induction buffers with
  | nil =>
    intro writer hbytes
    left
    rw [List.flatten_nil, List.append_nil]
    exact ⟨hbytes, rfl⟩
  | cons buffer buffers ih =>
    intro writer hbytes
    rw [List.flatten_cons, List.length_append, ← Nat.add_assoc]
    unfold toWriter
    obtain ⟨hfits, heq⟩ | ⟨hlong, length, error, heq⟩ := writeAll_cases writer buffer hbytes
    · rw [heq]
      dsimp only
      have hnext := ih { writer with bytes := writer.bytes ++ buffer } (by
        rw [List.length_append]
        exact hfits)
      rw [List.length_append, List.append_assoc] at hnext
      exact hnext
    · right
      rw [heq]
      exact ⟨by omega, length, rfl⟩

/-- However the output is split into writes: within the limit it is the output without a
bound, beyond it the serialization is refused. -/
theorem serializeBounded_cases (value : Serialization) (limit : UInt64) :
    (value.writes.flatten.length ≤ limit.toNat → serializeBounded value limit = value.toVec) ∧
      (limit.toNat < value.writes.flatten.length →
        ∃ length, serializeBounded value limit = .error (.TooLarge length limit.toNat)) := by
  have hcases := toWriter_cases value.outcome value.writes ⟨[], limit, none⟩ (Nat.zero_le _)
  rw [List.length_nil, Nat.zero_add, List.nil_append] at hcases
  dsimp only at hcases
  unfold serializeBounded
  constructor
  · intro hfits
    obtain ⟨-, heq⟩ | ⟨hlong, -⟩ := hcases
    · rw [heq]
      unfold Serialization.toVec
      dsimp only
      cases houtcome : value.outcome with
      | error error => rfl
      | ok _ =>
        have hpos := List.length_pos_iff.mpr (value.written houtcome)
        dsimp only
        rw [checkLength_ok_iff.mpr ⟨hpos, hfits⟩]
        rfl
    · omega
  · intro hlong
    obtain ⟨hfits, -⟩ | ⟨-, length, heq⟩ := hcases
    · omega
    · refine ⟨length, ?_⟩
      dsimp only
      rw [heq]

/-! ## Reading -/

/-- `Read::read_exact`. Only interrupts are tried again. -/
def readExact (size : Nat) (stream : List sockets.ReadItem) :
    Except IoError (List UInt8) × List sockets.ReadItem :=
  if size = 0 then (.ok [], stream)
  else
    match _ : sockets.read size stream with
    | (.Ok [], rest) => (.error ⟨.UnexpectedEof, "failed to fill whole buffer"⟩, rest)
    | (.Ok (first :: more), rest) =>
      match readExact (size - (first :: more).length) rest with
      | (.ok bytes, rest) => (.ok ((first :: more) ++ bytes), rest)
      | (.error error, rest) => (.error error, rest)
    | (.Interrupted, rest) => readExact size rest
    | (.WouldBlock, rest) => (.error ⟨.WouldBlock, "operation would block"⟩, rest)
    | (.Failed, rest) => (.error ⟨.Os, "system error"⟩, rest)
  termination_by sockets.weight stream
  decreasing_by
    · exact sockets.read_data_weight ‹_›
    · exact sockets.read_interrupted_weight ‹_›

/-- `read_payload`. -/
def readPayload (stream : List sockets.ReadItem) (limit : UInt64) :
    Except FrameError (List UInt8) × List sockets.ReadItem :=
  match readExact 4 stream with
  | (.error error, stream) => (.error (.Io error), stream)
  | (.ok header, stream) =>
    let length := frames.fromBeBytes header
    match checkLength length limit with
    | .error error => (.error error, stream)
    | .ok () =>
      match readExact length stream with
      | (.error error, stream) => (.error (.Io error), stream)
      | (.ok payload, stream) => (.ok payload, stream)

/-- `read_json_frame`. What the text stands for is a parameter. -/
def readJsonFrame {α : Type} (fromSlice : List UInt8 → Except String α)
    (stream : List sockets.ReadItem) (limit : UInt64) :
    Except FrameError α × List sockets.ReadItem :=
  match readPayload stream limit with
  | (.error error, stream) => (.error error, stream)
  | (.ok payload, stream) => ((fromSlice payload).mapError FrameError.Json, stream)

/-- However the bytes come, the next ones are read and the others stay. -/
theorem readExact_calm (size : Nat) (stream : List sockets.ReadItem) :
    ∀ bytes left : List UInt8, sockets.Calm stream → bytes.length = size →
      sockets.bytesOf stream = bytes ++ left →
      ∃ rest, readExact size stream = (.ok bytes, rest) ∧ sockets.Calm rest ∧
        sockets.bytesOf rest = left := by
  fun_induction readExact size stream with
  | case1 stream =>
    intro bytes left hcalm hsize hstream
    obtain rfl := List.length_eq_zero_iff.mp hsize
    exact ⟨stream, rfl, hcalm, hstream⟩
  | case2 size stream hsize rest h =>
    intro bytes left hcalm
    exact absurd rfl (hcalm.read_ok (Nat.pos_of_ne_zero hsize) h).1
  | case3 size stream hsize first more rest h tail left' heq ih =>
    intro bytes left hcalm hlength hstream
    obtain ⟨wanted, rfl, hrest, hbytes⟩ :=
      hcalm.read_part (Nat.pos_of_ne_zero hsize) h hlength hstream
    rw [List.length_append] at hlength
    obtain ⟨after, hread, hafter, hleft⟩ := ih wanted left hrest (by omega) hbytes
    rw [heq] at hread
    obtain ⟨htail, rfl⟩ := Prod.mk.inj hread
    obtain rfl := Except.ok.inj htail
    exact ⟨_, rfl, hafter, hleft⟩
  | case4 size stream hsize first more rest h error rest' heq ih =>
    intro bytes left hcalm hlength hstream
    obtain ⟨wanted, rfl, hrest, hbytes⟩ :=
      hcalm.read_part (Nat.pos_of_ne_zero hsize) h hlength hstream
    rw [List.length_append] at hlength
    obtain ⟨after, hread, -⟩ := ih wanted left hrest (by omega) hbytes
    rw [heq] at hread
    cases (Prod.mk.inj hread).1
  | case5 size stream hsize rest h ih =>
    intro bytes left hcalm hlength hstream
    obtain ⟨hrest, hbytes⟩ := hcalm.read_interrupted h
    exact ih bytes left hrest hlength (hbytes ▸ hstream)
  | case6 size stream hsize rest h =>
    intro bytes left hcalm hlength hstream
    rw [hcalm.read_wouldBlock h] at hstream
    have hnil := List.append_eq_nil_iff.mp hstream.symm
    rw [hnil.1, List.length_nil] at hlength
    exact absurd hlength.symm hsize
  | case7 size stream hsize rest h =>
    intro bytes left hcalm
    exact absurd h hcalm.read_failed

/-- The header decides what follows it: a length that is refused ends the reading, and a
length that is accepted is the number of bytes that are read. -/
theorem readPayload_header {header left : List UInt8} {stream : List sockets.ReadItem}
    {limit : UInt64} (hcalm : sockets.Calm stream) (hheader : header.length = 4)
    (hstream : sockets.bytesOf stream = header ++ left) :
    (∀ error, checkLength (frames.fromBeBytes header) limit = .error error →
        (readPayload stream limit).1 = .error error) ∧
      (checkLength (frames.fromBeBytes header) limit = .ok () →
        ∀ payload more, payload.length = frames.fromBeBytes header → left = payload ++ more →
          ∃ rest, readPayload stream limit = (.ok payload, rest) ∧ sockets.Calm rest ∧
            sockets.bytesOf rest = more) := by
  obtain ⟨rest, hread, hrest, hleft⟩ := readExact_calm 4 stream header left hcalm hheader hstream
  unfold readPayload
  rw [hread]
  dsimp only
  constructor
  · intro error herror
    rw [herror]
  · intro hok payload more hlength hmore
    obtain ⟨after, hpayload, hafter, hbytes⟩ :=
      readExact_calm _ rest payload more hrest hlength (hleft.trans hmore)
    rw [hok, hpayload]
    exact ⟨after, rfl, hafter, hbytes⟩

/-- A framed payload is read back, and nothing after it is touched. -/
theorem readPayload_frame {payload left : List UInt8} {stream : List sockets.ReadItem}
    {limit : UInt64} (hcalm : sockets.Calm stream) (hpos : 0 < payload.length)
    (hlimit : payload.length ≤ limit.toNat) (hfits : payload.length < 2 ^ 32)
    (hstream : sockets.bytesOf stream = frames.frame payload ++ left) :
    ∃ rest, readPayload stream limit = (.ok payload, rest) ∧ sockets.Calm rest ∧
      sockets.bytesOf rest = left := by
  unfold frames.frame at hstream
  rw [List.append_assoc] at hstream
  have hlength := frames.fromBeBytes_toBeBytes hfits
  obtain ⟨-, hread⟩ := @readPayload_header _ _ _ limit hcalm (frames.length_toBeBytes _) hstream
  apply hread
  · rw [hlength]
    exact checkLength_ok_iff.mpr ⟨hpos, hlimit⟩
  · exact hlength.symm
  · rfl

/-- A header is accepted exactly when its length is not zero and within the limit. -/
theorem header_accepted_iff {header left : List UInt8} {stream : List sockets.ReadItem}
    {limit : UInt64} (hcalm : sockets.Calm stream) (hheader : header.length = 4)
    (hstream : sockets.bytesOf stream = header ++ left)
    (hleft : frames.fromBeBytes header ≤ left.length) :
    (∃ payload, (readPayload stream limit).1 = .ok payload) ↔
      0 < frames.fromBeBytes header ∧ frames.fromBeBytes header ≤ limit.toNat := by
  obtain ⟨hrefused, haccepted⟩ := @readPayload_header _ _ _ limit hcalm hheader hstream
  rw [← checkLength_ok_iff]
  constructor
  · rintro ⟨payload, hpayload⟩
    cases hcheck : checkLength (frames.fromBeBytes header) limit with
    | ok _ => rfl
    | error error =>
      rw [hrefused error hcheck] at hpayload
      cases hpayload
  · intro hcheck
    obtain ⟨rest, hread, -⟩ := haccepted hcheck (left.take (frames.fromBeBytes header))
      (left.drop (frames.fromBeBytes header)) (List.length_take_of_le hleft)
      (List.take_append_drop _ _).symm
    exact ⟨_, congrArg Prod.fst hread⟩

end unix_frame
