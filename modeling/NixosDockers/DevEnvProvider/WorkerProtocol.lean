-- The frames between the supervisor and a provider worker
-- (`dev-env-provider`: `worker_protocol.rs`), with the requests of `command.rs`.
import NixosDockers.Lib.Cursors
import NixosDockers.Lib.TreeMaps
import NixosDockers.Lib.Results
import NixosDockers.DevEnv.Snapshot

open rust_text results cursors tree_maps dev_env

namespace dev_env_provider

/-! ## Commands -/

inductive CommandError where
  | InvalidProgram
  | InvalidArgument
  | InvalidEnvironment
  | InvalidTimeout
  | Worker (message : String)
  | Protocol (message : String)
  deriving DecidableEq, Repr

/-- A path is its bytes, a timeout its nanoseconds. -/
structure CommandRequest where
  program : String
  args : List String := []
  cwd : List UInt8
  environment : Std.ExtTreeMap String String := ∅
  timeout : Option ℕ := none
  max_stdout_bytes : ℕ := 1024 * 1024
  max_stderr_bytes : ℕ := 64 * 1024

/-- The check of an entry of the environment, the same in `CommandRequest::validate` and in
`WorkerRequest::decode`. -/
def invalidEntry (entry : String × String) : Bool :=
  entry.1 = "" || hasChar entry.1 '=' || hasChar entry.1 nul || hasChar entry.2 nul

def CommandRequest.validate (request : CommandRequest) : Except CommandError Unit := do
  if request.program = "" || hasChar request.program nul then throw .InvalidProgram
  if request.args.any fun argument => hasChar argument nul then throw .InvalidArgument
  if request.environment.toList.any invalidEntry then throw .InvalidEnvironment
  if request.timeout.any (· = 0) then throw .InvalidTimeout

structure CommandOutput where
  status : Option Int32
  timed_out : Bool
  stdout : List UInt8
  stderr : List UInt8
  deriving DecidableEq

/-! ## Frames -/

def FRAME_LIMIT : ℕ := 34 * 1024 * 1024
def REQUEST_LIMIT : ℕ := 8 * 1024 * 1024
def FIELD_LIMIT : ℕ := 1024 * 1024
def OUTPUT_LIMIT : ℕ := 16 * 1024 * 1024
def PROTOCOL_VERSION : UInt16 := 1
def REQUEST : UInt8 := 1
def CANCEL : UInt8 := 2
def RESPONSE : UInt8 := 3
def SUCCESS : UInt8 := 0
def FAILURE : UInt8 := 1

structure WorkerIdentity where
  uid : UInt32
  gid : UInt32
  supplementary_groups : List UInt32
  deriving DecidableEq

structure WorkerRequest where
  program : String
  args : List String
  cwd : List UInt8
  environment : Std.ExtTreeMap String String
  timeout : Option ℕ
  max_stdout_bytes : ℕ
  max_stderr_bytes : ℕ
  identity : Option WorkerIdentity
  deriving DecidableEq

def WorkerRequest.fromCommand (request : CommandRequest) (identity : Option EffectiveIdentity) :
    WorkerRequest where
  program := request.program
  args := request.args
  cwd := request.cwd
  environment := request.environment
  timeout := request.timeout
  max_stdout_bytes := min request.max_stdout_bytes OUTPUT_LIMIT
  max_stderr_bytes := min request.max_stderr_bytes OUTPUT_LIMIT
  identity := identity.map fun identity =>
    ⟨identity.uid, identity.gid, identity.supplementary_groups⟩

/-! ## The encoder

Each of its functions gives the bytes that it appends. -/

namespace Encoder

def finish (limit : ℕ) (bytes : List UInt8) : Except CommandError (List UInt8) :=
  if bytes.length > limit then .error (.Protocol "worker frame exceeds the protocol limit")
  else .ok bytes

def u8 (value : UInt8) : List UInt8 := toBe 1 value.toNat
def u16 (value : UInt16) : List UInt8 := toBe 2 value.toNat
def u32 (value : UInt32) : List UInt8 := toBe 4 value.toNat
def i32 (value : Int32) : List UInt8 := u32 value.toUInt32
def u64 (value : UInt64) : List UInt8 := toBe 8 value.toNat

/-- A field behind its length, with the limit and the messages of its kind. -/
def field (limit : ℕ) (large exceeds : String) (value : List UInt8) :
    Except CommandError (List UInt8) :=
  if value.length ≥ 2 ^ 32 then .error (.Protocol large)
  else if value.length > limit then .error (.Protocol exceeds)
  else .ok (u32 (UInt32.ofNat value.length) ++ value)

def bytes : List UInt8 → Except CommandError (List UInt8) :=
  field FIELD_LIMIT "worker field is too large" "worker field exceeds the protocol limit"

def largeBytes : List UInt8 → Except CommandError (List UInt8) :=
  field OUTPUT_LIMIT "worker output is too large" "worker output exceeds the protocol limit"

def string (value : String) : Except CommandError (List UInt8) := bytes value.toByteArray.data.toList

def checkedCount (count : ℕ) : Except CommandError UInt32 :=
  if count < 2 ^ 32 then .ok (UInt32.ofNat count)
  else .error (.Protocol "worker collection is too large")

def strings (values : List String) : Except CommandError (List UInt8) := do
  let count ← checkedCount values.length
  let parts ← values.mapM string
  return u32 count ++ parts.flatten

def entry (entry : String × String) : Except CommandError (List UInt8) := do
  let name ← string entry.1
  let value ← string entry.2
  return name ++ value

/-- The loop over the environment of a request, behind its count. -/
def environment (values : Std.ExtTreeMap String String) : Except CommandError (List UInt8) := do
  let count ← checkedCount values.size
  let parts ← values.toList.mapM entry
  return u32 count ++ parts.flatten

def optionU64 : Option UInt64 → List UInt8
  | some value => u8 1 ++ u64 value
  | none => u8 0

def identity : Option WorkerIdentity → Except CommandError (List UInt8)
  | some identity => do
    let count ← checkedCount identity.supplementary_groups.length
    return u8 1 ++ (u32 identity.uid ++ (u32 identity.gid ++
      (u32 count ++ (identity.supplementary_groups.map u32).flatten)))
  | none => return u8 0

end Encoder

/-- `u64::try_from(timeout.as_millis()).unwrap_or(u64::MAX)`. -/
def timeoutMs (timeout : ℕ) : UInt64 :=
  if timeout / 1000000 < 2 ^ 64 then UInt64.ofNat (timeout / 1000000) else UInt64.ofNat (2 ^ 64 - 1)

def WorkerRequest.encode (request : WorkerRequest) : Except CommandError (List UInt8) := do
  let program ← Encoder.string request.program
  let cwd ← Encoder.bytes request.cwd
  let args ← Encoder.strings request.args
  let environment ← Encoder.environment request.environment
  let identity ← Encoder.identity request.identity
  Encoder.finish REQUEST_LIMIT (Encoder.u16 PROTOCOL_VERSION ++ Encoder.u8 REQUEST ++ (program ++
    (cwd ++ (args ++ (environment ++ (Encoder.optionU64 (request.timeout.map timeoutMs) ++
    (Encoder.u64 (UInt64.ofNat request.max_stdout_bytes) ++
    (Encoder.u64 (UInt64.ofNat request.max_stderr_bytes) ++ identity))))))))

def WorkerProtocol.encodeCancel : Except CommandError (List UInt8) :=
  Encoder.finish REQUEST_LIMIT (Encoder.u16 PROTOCOL_VERSION ++ Encoder.u8 CANCEL)

def encodeStatus : Option Int32 → List UInt8
  | some status => Encoder.u8 1 ++ Encoder.i32 status
  | none => Encoder.u8 0

def WorkerProtocol.encodeOutput (output : CommandOutput) : Except CommandError (List UInt8) := do
  let stdout ← Encoder.largeBytes output.stdout
  let stderr ← Encoder.largeBytes output.stderr
  Encoder.finish FRAME_LIMIT (Encoder.u16 PROTOCOL_VERSION ++ Encoder.u8 RESPONSE ++
    (Encoder.u8 SUCCESS ++ (encodeStatus output.status ++ (Encoder.u8 (if output.timed_out then 1 else 0) ++
    (stdout ++ stderr)))))

/-! ## The decoder -/

namespace Decoder

def TRUNCATED : String := "worker frame is truncated"

def u8 : Reader String UInt8 := do
  let value ← number TRUNCATED 1
  return UInt8.ofNat value

def u16 : Reader String UInt16 := do
  let value ← number TRUNCATED 2
  return UInt16.ofNat value

def u32 : Reader String UInt32 := do
  let value ← number TRUNCATED 4
  return UInt32.ofNat value

def i32 : Reader String Int32 := do
  let value ← u32
  return value.toInt32

def u64 : Reader String UInt64 := do
  let value ← number TRUNCATED 8
  return UInt64.ofNat value

/-- On 64 bits, no number is refused. -/
def usize : Reader String ℕ := do
  let value ← u64
  return value.toNat

def header (kind : UInt8) : Reader String Unit := do
  let version ← u16
  refuseIf (version ≠ PROTOCOL_VERSION)
    ("worker protocol version " ++ toString version ++ " is unsupported; expected " ++
      toString PROTOCOL_VERSION)
  let found ← u8
  refuseIf (found ≠ kind) "worker frame kind is invalid"

def count (limit : ℕ) : Reader String ℕ := do
  let count ← u32
  refuseIf (count.toNat > limit) "worker collection exceeds the protocol limit"
  return count.toNat

def field (limit : ℕ) (exceeds : String) : Reader String (List UInt8) := do
  let length ← u32
  refuseIf (length.toNat > limit) exceeds
  take TRUNCATED length.toNat

def bytes : Reader String (List UInt8) := field FIELD_LIMIT "worker field exceeds the protocol limit"

def largeBytes : Reader String (List UInt8) :=
  field OUTPUT_LIMIT "worker output exceeds the protocol limit"

/-- `String::from_utf8`. -/
def fromUtf8 (value : List UInt8) : Reader String String :=
  match String.fromUTF8? ⟨value.toArray⟩ with
  | some text => pure text
  | none => fail "worker string is not valid UTF-8"

def string : Reader String String := do
  let value ← bytes
  fromUtf8 value

def strings : Reader String (List String) := do
  let count ← count 10000
  readMany string count

/-- The loop over the entries of the environment. -/
def entries : ℕ → Std.ExtTreeMap String String → Reader String (Std.ExtTreeMap String String)
  | 0, environment => pure environment
  | count + 1, environment => do
    let name ← string
    let value ← string
    refuseIf (name ∈ environment) "worker request repeats an environment key"
    entries count (environment.insert name value)

def environment : Reader String (Std.ExtTreeMap String String) := do
  let count ← count 10000
  entries count ∅

def optionU64 : Reader String (Option UInt64) := do
  let flag ← u8
  if flag = 0 then pure none
  else if flag = 1 then some <$> u64
  else fail "worker optional value flag is invalid"

def identity : Reader String (Option WorkerIdentity) := do
  let flag ← u8
  if flag = 0 then pure none
  else if flag = 1 then do
    let uid ← u32
    let gid ← u32
    refuseIf (uid = 0 ∧ gid ≠ 0) "worker request root identity has a non-root group"
    let group_count ← count 1024
    let supplementary_groups ← readMany u32 group_count
    return some ⟨uid, gid, supplementary_groups⟩
  else fail "worker request identity flag is invalid"

def TRAILING : String := "worker frame contains trailing data"

end Decoder

/-- What `decode` checks behind the end of the frame. -/
def WorkerRequest.check (request : WorkerRequest) : Except String WorkerRequest := do
  if request.program = "" || hasChar request.program nul then
    throw "worker request program is invalid"
  if request.args.any fun argument => hasChar argument nul then
    throw "worker request argument contains NUL"
  if request.environment.toList.any invalidEntry then throw "worker request environment is invalid"
  if request.timeout.any (· = 0) then throw "worker request timeout must be positive"
  return request

/-- The fields of a request, up to the end of the frame. -/
def WorkerRequest.fields : Reader String WorkerRequest := do
  Decoder.header REQUEST
  let program ← Decoder.string
  let cwd ← Decoder.bytes
  let args ← Decoder.strings
  let environment ← Decoder.environment
  let timeout ← Decoder.optionU64
  let max_stdout_bytes ← Decoder.usize
  let max_stderr_bytes ← Decoder.usize
  refuseIf (max_stdout_bytes > OUTPUT_LIMIT ∨ max_stderr_bytes > OUTPUT_LIMIT)
    "worker request output limit exceeds the protocol limit"
  let identity ← Decoder.identity
  return ⟨program, args, cwd, environment,
    timeout.map fun milliseconds => milliseconds.toNat * 1000000,
    max_stdout_bytes, max_stderr_bytes, identity⟩

def WorkerRequest.decode (frame : List UInt8) : Except (Stop String) WorkerRequest :=
  readAll (do
    let request ← fields
    finish Decoder.TRAILING
    settle request.check) frame

def WorkerProtocol.decodeCancel (frame : List UInt8) : Except (Stop String) Unit :=
  readAll (do
    Decoder.header CANCEL
    finish Decoder.TRAILING) frame

def decodeStatus : Reader String (Option Int32) := do
  let flag ← Decoder.u8
  if flag = 0 then pure none
  else if flag = 1 then some <$> Decoder.i32
  else fail "worker response status flag is invalid"

/-- The fields of an output, up to the end of the frame. -/
def CommandOutput.fields : Reader String CommandOutput := do
  let status ← decodeStatus
  let timed_out ← Decoder.u8
  let stdout ← Decoder.largeBytes
  let stderr ← Decoder.largeBytes
  return ⟨status, timed_out ≠ 0, stdout, stderr⟩

def WorkerProtocol.decodeResponse (frame : List UInt8) : Except (Stop CommandError) CommandOutput :=
  readAll (do
    mapErr .Protocol (Decoder.header RESPONSE)
    let kind ← mapErr .Protocol Decoder.u8
    if kind = SUCCESS then do
      let output ← mapErr .Protocol CommandOutput.fields
      mapErr .Protocol (finish Decoder.TRAILING)
      settle (.ok output)
    else if kind = FAILURE then do
      let message ← mapErr .Protocol Decoder.string
      mapErr .Protocol (finish Decoder.TRAILING)
      settle (.error (.Worker message))
    else fail (.Protocol "worker response kind is invalid")) frame

/-! ## What is written is read back -/

theorem reads_u8 (value : UInt8) : Reads Decoder.u8 (Encoder.u8 value) value := by
  have hbound : value.toNat < 256 ^ 1 := value.toNat_lt
  have h := (reads_number Decoder.TRUNCATED hbound).map UInt8.ofNat
  rwa [UInt8.ofNat_toNat] at h

theorem reads_u16 (value : UInt16) : Reads Decoder.u16 (Encoder.u16 value) value := by
  have hbound : value.toNat < 256 ^ 2 := value.toNat_lt
  have h := (reads_number Decoder.TRUNCATED hbound).map UInt16.ofNat
  rwa [UInt16.ofNat_toNat] at h

theorem reads_u32 (value : UInt32) : Reads Decoder.u32 (Encoder.u32 value) value := by
  have hbound : value.toNat < 256 ^ 4 := value.toNat_lt
  have h := (reads_number Decoder.TRUNCATED hbound).map UInt32.ofNat
  rwa [UInt32.ofNat_toNat] at h

theorem reads_u64 (value : UInt64) : Reads Decoder.u64 (Encoder.u64 value) value := by
  have hbound : value.toNat < 256 ^ 8 := value.toNat_lt
  have h := (reads_number Decoder.TRUNCATED hbound).map UInt64.ofNat
  rwa [UInt64.ofNat_toNat] at h

theorem reads_i32 (value : Int32) : Reads Decoder.i32 (Encoder.i32 value) value := by
  have h := (reads_u32 value.toUInt32).map UInt32.toInt32
  rwa [Int32.toInt32_toUInt32] at h

theorem reads_usize {value : ℕ} (h : value < 2 ^ 64) :
    Reads Decoder.usize (Encoder.u64 (UInt64.ofNat value)) value := by
  have hread := (reads_u64 (UInt64.ofNat value)).map UInt64.toNat
  rwa [UInt64.toNat_ofNat_of_lt' h] at hread

theorem reads_header (kind : UInt8) :
    Reads (Decoder.header kind) (Encoder.u16 PROTOCOL_VERSION ++ Encoder.u8 kind) () := by
  refine (reads_u16 _).bind (Reads.refuseIf_bind (not_not_intro rfl) ?_)
  have hkind := (reads_u8 kind).bind
    (f := fun found => refuseIf (found ≠ kind) "worker frame kind is invalid")
    (reads_refuseIf (not_not_intro rfl) _)
  rwa [List.append_nil] at hkind

theorem reads_field {limit : ℕ} {large exceeds : String} {value part : List UInt8}
    (h : Encoder.field limit large exceeds value = .ok part) (exceeds' : String) :
    Reads (Decoder.field limit exceeds') part value := by
  rw [Encoder.field, ite_error_ok_iff, ite_error_ok_iff] at h
  obtain ⟨hsize, hlimit, hpart⟩ := h
  obtain rfl := Except.ok.inj hpart
  have hlength : (UInt32.ofNat value.length).toNat = value.length :=
    UInt32.toNat_ofNat_of_lt' (not_le.mp hsize)
  refine (reads_u32 _).bind ?_
  rw [hlength]
  exact Reads.refuseIf_bind hlimit (reads_take _ value)

theorem reads_string {value : String} {part : List UInt8} (h : Encoder.string value = .ok part) :
    Reads Decoder.string part value := by
  refine (reads_field h "worker field exceeds the protocol limit").bind_nil ?_
  have htext : String.fromUTF8? value.toByteArray = some value := by
    rw [String.fromUTF8?, dif_pos value.isValidUTF8]
    rfl
  show Reads (match String.fromUTF8? value.toByteArray with
    | some text => pure text
    | none => fail "worker string is not valid UTF-8") [] value
  rw [htext]
  exact .pure value

theorem checkedCount_ok_iff {count : ℕ} {value : UInt32} :
    Encoder.checkedCount count = .ok value ↔ count < 2 ^ 32 ∧ UInt32.ofNat count = value := by
  rw [Encoder.checkedCount]
  split_ifs with h
  · rw [Except.ok.injEq, and_iff_right h]
  · exact iff_of_false nofun fun hboth => h hboth.1

theorem reads_count {limit count : ℕ} {value : UInt32} (h : Encoder.checkedCount count = .ok value)
    (hlimit : count ≤ limit) : Reads (Decoder.count limit) (Encoder.u32 value) count := by
  obtain ⟨hsize, rfl⟩ := checkedCount_ok_iff.mp h
  have hcount : (UInt32.ofNat count).toNat = count := UInt32.toNat_ofNat_of_lt' hsize
  refine (reads_u32 (UInt32.ofNat count)).bind_nil ?_
  rw [hcount]
  exact Reads.refuseIf_bind (not_lt.mpr hlimit) (.pure count)

/-- The encoder writes counts that the decoder does not read. -/
theorem refuses_count {limit count : ℕ} {value : UInt32}
    (h : Encoder.checkedCount count = .ok value) (hlimit : limit < count) :
    Refuses (Decoder.count limit) (Encoder.u32 value) := by
  obtain ⟨hsize, rfl⟩ := checkedCount_ok_iff.mp h
  have hcount : (UInt32.ofNat count).toNat = count := UInt32.toNat_ofNat_of_lt' hsize
  refine (reads_u32 (UInt32.ofNat count)).refuses_nil ?_
  rw [hcount, refuseIf, if_pos hlimit]
  exact (refuses_fail _ []).bind _ []

theorem reads_strings {values : List String} {part : List UInt8}
    (h : Encoder.strings values = .ok part) (hlimit : values.length ≤ 10000) :
    Reads Decoder.strings part values := by
  simp only [Encoder.strings, bind_ok_iff, pure_ok_iff] at h
  obtain ⟨count, hcount, parts, hparts, rfl⟩ := h
  refine (reads_count hcount hlimit).bind (Reads.many ?_)
  refine (List.Forall₂.flip (mapM_ok_iff.mp hparts)).imp ?_
  intro part value hpart
  exact reads_string hpart

theorem refuses_strings {values : List String} {part : List UInt8}
    (h : Encoder.strings values = .ok part) (hlimit : 10000 < values.length) :
    Refuses Decoder.strings part := by
  simp only [Encoder.strings, bind_ok_iff, pure_ok_iff] at h
  obtain ⟨count, hcount, parts, _, rfl⟩ := h
  exact (refuses_count hcount hlimit).bind _ _

theorem reads_entries {entries : List (String × String)} {parts : List (List UInt8)}
    {e : Std.ExtTreeMap String String}
    (h : List.Forall₂ (fun entry part => Encoder.entry entry = .ok part) entries parts)
    (hkeys : (entries.map Prod.fst).Nodup) (hnew : ∀ entry ∈ entries, entry.1 ∉ e) :
    Reads (Decoder.entries entries.length e) parts.flatten
      (insertAll e entries) := by
  induction h generalizing e with
  | nil => exact .pure e
  | @cons entry part entries parts hpart _ ih =>
    rw [Encoder.entry, bind_ok_iff] at hpart
    obtain ⟨name, hname, hpart⟩ := hpart
    rw [bind_ok_iff] at hpart
    obtain ⟨value, hvalue, hpart⟩ := hpart
    obtain rfl := pure_ok_iff.mp hpart
    rw [List.map_cons, List.nodup_cons] at hkeys
    rw [List.flatten_cons, List.append_assoc]
    refine (reads_string hname).bind ((reads_string hvalue).bind ?_)
    refine Reads.refuseIf_bind (hnew entry List.mem_cons_self) (ih hkeys.2 ?_)
    intro other hother hmem
    rcases Std.ExtTreeMap.mem_insert.mp hmem with heq | hmem
    · have hsame : entry.1 = other.1 := Std.LawfulEqOrd.eq_of_compare heq
      exact hkeys.1 (hsame ▸ List.mem_map_of_mem hother)
    · exact hnew other (List.mem_cons_of_mem _ hother) hmem

theorem reads_environment {values : Std.ExtTreeMap String String} {part : List UInt8}
    (h : Encoder.environment values = .ok part) (hlimit : values.size ≤ 10000) :
    Reads Decoder.environment part values := by
  simp only [Encoder.environment, bind_ok_iff, pure_ok_iff] at h
  obtain ⟨count, hcount, parts, hparts, rfl⟩ := h
  refine (reads_count hcount hlimit).bind ?_
  have hkeys : (values.toList.map Prod.fst).Nodup := by
    rw [Std.ExtTreeMap.map_fst_toList_eq_keys]
    exact Std.ExtTreeMap.nodup_keys
  have hread := reads_entries (mapM_ok_iff.mp hparts) hkeys (e := ∅)
    fun entry _ => Std.ExtTreeMap.not_mem_empty
  rwa [Std.ExtTreeMap.length_toList, insertAll_toList] at hread

theorem refuses_environment {values : Std.ExtTreeMap String String} {part : List UInt8}
    (h : Encoder.environment values = .ok part) (hlimit : 10000 < values.size) :
    Refuses Decoder.environment part := by
  simp only [Encoder.environment, bind_ok_iff, pure_ok_iff] at h
  obtain ⟨count, hcount, parts, _, rfl⟩ := h
  exact (refuses_count hcount hlimit).bind _ _

theorem reads_optionU64 (value : Option UInt64) :
    Reads Decoder.optionU64 (Encoder.optionU64 value) value := by
  cases value with
  | none => exact (reads_u8 0).bind_nil (.pure none)
  | some value => exact (reads_u8 1).bind ((reads_u64 value).map some)

theorem reads_identity {identity : Option WorkerIdentity} {part : List UInt8}
    (h : Encoder.identity identity = .ok part)
    (hroot : ∀ i ∈ identity, ¬ (i.uid = 0 ∧ i.gid ≠ 0))
    (hlimit : ∀ i ∈ identity, i.supplementary_groups.length ≤ 1024) :
    Reads Decoder.identity part identity := by
  cases identity with
  | none =>
    obtain rfl := pure_ok_iff.mp h
    exact (reads_u8 0).bind_nil (.pure none)
  | some identity =>
    rw [Encoder.identity, bind_ok_iff] at h
    obtain ⟨count, hcount, hpart⟩ := h
    obtain rfl := pure_ok_iff.mp hpart
    have hgroups : Reads (readMany Decoder.u32 identity.supplementary_groups.length)
        (identity.supplementary_groups.map Encoder.u32).flatten identity.supplementary_groups := by
      refine Reads.many ?_
      rw [List.forall₂_map_left_iff]
      exact List.forall₂_same.mpr fun group _ => reads_u32 group
    refine (reads_u8 1).bind ((reads_u32 _).bind ((reads_u32 _).bind ?_))
    refine Reads.refuseIf_bind (hroot identity rfl) ?_
    exact (reads_count hcount (hlimit identity rfl)).bind (hgroups.map _)

theorem refuses_identity {identity : WorkerIdentity} {part : List UInt8}
    (h : Encoder.identity (some identity) = .ok part)
    (hroot : ¬ (identity.uid = 0 ∧ identity.gid ≠ 0))
    (hlimit : 1024 < identity.supplementary_groups.length) : Refuses Decoder.identity part := by
  rw [Encoder.identity, bind_ok_iff] at h
  obtain ⟨count, hcount, hpart⟩ := h
  obtain rfl := pure_ok_iff.mp hpart
  refine (reads_u8 1).refuses ((reads_u32 _).refuses ((reads_u32 _).refuses ?_))
  refine Refuses.refuseIf_bind hroot ?_
  exact (refuses_count hcount hlimit).bind _ _

/-! ## Requests -/

/-- The collections of the request are not longer than the decoder reads. -/
def WorkerRequest.Countable (request : WorkerRequest) : Prop :=
  request.args.length ≤ 10000 ∧ request.environment.size ≤ 10000 ∧
    ∀ identity ∈ request.identity, identity.supplementary_groups.length ≤ 1024

/-- What the encoder relies on: `from_command` caps the outputs, and a valid identity of root has
the group of root. -/
structure WorkerRequest.Sendable (request : WorkerRequest) : Prop where
  stdout : request.max_stdout_bytes ≤ OUTPUT_LIMIT
  stderr : request.max_stderr_bytes ≤ OUTPUT_LIMIT
  root : ∀ identity ∈ request.identity, ¬ (identity.uid = 0 ∧ identity.gid ≠ 0)

/-- A request with its timeout in whole milliseconds, as the frame holds it. -/
def WorkerRequest.delivered (request : WorkerRequest) : WorkerRequest :=
  { request with
    timeout := (request.timeout.map timeoutMs).map fun milliseconds => milliseconds.toNat * 1000000 }

theorem WorkerRequest.encode_ok_iff {request : WorkerRequest} {frame : List UInt8} :
    request.encode = .ok frame ↔ ∃ program, Encoder.string request.program = .ok program ∧
      ∃ cwd, Encoder.bytes request.cwd = .ok cwd ∧
      ∃ args, Encoder.strings request.args = .ok args ∧
      ∃ environment, Encoder.environment request.environment = .ok environment ∧
      ∃ identity, Encoder.identity request.identity = .ok identity ∧
      Encoder.finish REQUEST_LIMIT (Encoder.u16 PROTOCOL_VERSION ++ Encoder.u8 REQUEST ++ (program ++
        (cwd ++ (args ++ (environment ++ (Encoder.optionU64 (request.timeout.map timeoutMs) ++
        (Encoder.u64 (UInt64.ofNat request.max_stdout_bytes) ++
        (Encoder.u64 (UInt64.ofNat request.max_stderr_bytes) ++ identity)))))))) = .ok frame := by
  simp only [WorkerRequest.encode, bind_ok_iff]

theorem finish_ok_iff {limit : ℕ} {bytes frame : List UInt8} :
    Encoder.finish limit bytes = .ok frame ↔ bytes.length ≤ limit ∧ bytes = frame := by
  rw [Encoder.finish, ite_error_ok_iff, not_lt, Except.ok.injEq]

theorem lt_of_le_output {n : ℕ} (h : n ≤ OUTPUT_LIMIT) : n < 2 ^ 64 :=
  lt_of_le_of_lt h (by decide)

theorem WorkerRequest.reads_fields {request : WorkerRequest} {frame : List UInt8}
    (h : request.encode = .ok frame) (hsend : request.Sendable) (hcount : request.Countable) :
    Reads fields frame request.delivered := by
  obtain ⟨program, hprogram, cwd, hcwd, args, hargs, environment, henvironment, identity, hidentity,
    hframe⟩ := encode_ok_iff.mp h
  obtain ⟨-, rfl⟩ := finish_ok_iff.mp hframe
  refine (reads_header REQUEST).bind ((reads_string hprogram).bind ((reads_field hcwd _).bind ?_))
  refine (reads_strings hargs hcount.1).bind ((reads_environment henvironment hcount.2.1).bind ?_)
  refine (reads_optionU64 _).bind ((reads_usize (lt_of_le_output hsend.stdout)).bind
    ((reads_usize (lt_of_le_output hsend.stderr)).bind ?_))
  have hlimits : ¬ (request.max_stdout_bytes > OUTPUT_LIMIT ∨
      request.max_stderr_bytes > OUTPUT_LIMIT) := by
    rw [not_or]
    exact ⟨not_lt.mpr hsend.stdout, not_lt.mpr hsend.stderr⟩
  refine Reads.refuseIf_bind hlimits ?_
  exact (reads_identity hidentity hsend.root hcount.2.2).map fun identity =>
    { request.delivered with identity }

/-- One collection that is too long stops the decoder at its count. -/
theorem WorkerRequest.refuses_fields {request : WorkerRequest} {frame : List UInt8}
    (h : request.encode = .ok frame) (hsend : request.Sendable) (hcount : ¬ request.Countable) :
    Refuses fields frame := by
  obtain ⟨program, hprogram, cwd, hcwd, args, hargs, environment, henvironment, identity, hidentity,
    hframe⟩ := encode_ok_iff.mp h
  obtain ⟨-, rfl⟩ := finish_ok_iff.mp hframe
  refine (reads_header REQUEST).refuses ((reads_string hprogram).refuses
    ((reads_field hcwd _).refuses ?_))
  by_cases hlength : request.args.length ≤ 10000
  swap
  · exact (refuses_strings hargs (not_le.mp hlength)).bind _ _
  refine (reads_strings hargs hlength).refuses ?_
  by_cases hsize : request.environment.size ≤ 10000
  swap
  · exact (refuses_environment henvironment (not_le.mp hsize)).bind _ _
  refine (reads_environment henvironment hsize).refuses ?_
  refine (reads_optionU64 _).refuses ((reads_usize (lt_of_le_output hsend.stdout)).refuses
    ((reads_usize (lt_of_le_output hsend.stderr)).refuses ?_))
  have hlimits : ¬ (request.max_stdout_bytes > OUTPUT_LIMIT ∨
      request.max_stderr_bytes > OUTPUT_LIMIT) := by
    rw [not_or]
    exact ⟨not_lt.mpr hsend.stdout, not_lt.mpr hsend.stderr⟩
  refine Refuses.refuseIf_bind hlimits ?_
  cases hsome : request.identity with
  | none =>
    exact absurd ⟨hlength, hsize, by simp [hsome]⟩ hcount
  | some named =>
    rw [hsome] at hidentity
    have hgroups : 1024 < named.supplementary_groups.length := by
      by_contra hle
      refine hcount ⟨hlength, hsize, ?_⟩
      rw [hsome]
      rintro _ ⟨⟩
      exact not_lt.mp hle
    have hread := (refuses_identity hidentity (hsend.root named hsome) hgroups).bind
      (fun identity => pure { request.delivered with identity }) []
    rwa [List.append_nil] at hread

/-- What the decoder makes of a frame of the encoder. -/
theorem WorkerRequest.decode_eq {request : WorkerRequest} {frame : List UInt8}
    (h : request.encode = .ok frame) (hsend : request.Sendable) (hcount : request.Countable) :
    decode frame = request.delivered.check.mapError .Error := by
  have hanswer := (reads_fields h hsend hcount).answers
    (f := fun request => finish Decoder.TRAILING >>= fun _ => settle request.check)
    (answers_finish Decoder.TRAILING request.delivered.check)
  rw [List.append_nil] at hanswer
  exact hanswer.readAll_eq

theorem WorkerRequest.decode_error {request : WorkerRequest} {frame : List UInt8}
    (h : request.encode = .ok frame) (hsend : request.Sendable) (hcount : ¬ request.Countable) :
    ∃ error, decode frame = .error (.Error error) := by
  obtain ⟨error, herror⟩ := ((refuses_fields h hsend hcount).bind
    (fun request => finish Decoder.TRAILING >>= fun _ => settle request.check) []).readAll_error
  rw [List.append_nil] at herror
  exact ⟨error, herror⟩

theorem WorkerRequest.check_ok_iff {request decoded : WorkerRequest} :
    request.check = .ok decoded ↔
      (¬ (request.program = "" || hasChar request.program nul) = true ∧
      ¬ (request.args.any fun argument => hasChar argument nul) = true ∧
      ¬ request.environment.toList.any invalidEntry = true ∧
      ¬ request.timeout.any (· = 0) = true) ∧ request = decoded := by
  simp only [check, throw_eq, error_bind, ite_error_ok_iff, pure_ok_iff, and_assoc]

theorem CommandRequest.validate_ok_iff {request : CommandRequest} :
    request.validate = .ok () ↔
      ¬ (request.program = "" || hasChar request.program nul) = true ∧
      ¬ (request.args.any fun argument => hasChar argument nul) = true ∧
      ¬ request.environment.toList.any invalidEntry = true ∧
      ¬ request.timeout.any (· = 0) = true := by
  simp only [validate, throw_eq, error_bind, ite_error_ok_iff, pure_ok_iff, and_true]

/-- The request as the worker has to see it. -/
def CommandRequest.received (request : CommandRequest) (identity : Option EffectiveIdentity) :
    WorkerRequest :=
  { WorkerRequest.fromCommand request identity with
    timeout := request.timeout.map fun timeout => timeout / 1000000 * 1000000 }

/-- The request and the identity are inside the limits of the decoder, and the timeout is a positive
number of milliseconds that fits in 64 bits. -/
def CommandRequest.Carried (request : CommandRequest) (identity : Option EffectiveIdentity) : Prop :=
  request.args.length ≤ 10000 ∧ request.environment.size ≤ 10000 ∧
    (∀ i ∈ identity, i.supplementary_groups.length ≤ 1024) ∧
    ∀ timeout ∈ request.timeout, 1000000 ≤ timeout ∧ timeout / 1000000 < 2 ^ 64

theorem sendable_fromCommand (request : CommandRequest) {identity : Option EffectiveIdentity}
    (hidentity : ∀ i ∈ identity, i.validate = .ok ()) :
    (WorkerRequest.fromCommand request identity).Sendable where
  stdout := min_le_right _ _
  stderr := min_le_right _ _
  root i hi := by
    obtain ⟨effective, heffective, rfl⟩ := Option.map_eq_some_iff.mp hi
    have hvalid := hidentity effective heffective
    simp only [EffectiveIdentity.validate, throw_eq, error_bind, ite_error_ok_iff] at hvalid
    simpa using hvalid.2.2.1

theorem countable_fromCommand_iff (request : CommandRequest) (identity : Option EffectiveIdentity) :
    (WorkerRequest.fromCommand request identity).Countable ↔
      request.args.length ≤ 10000 ∧ request.environment.size ≤ 10000 ∧
        ∀ i ∈ identity, i.supplementary_groups.length ≤ 1024 := by
  cases identity <;> simp [WorkerRequest.Countable, WorkerRequest.fromCommand]

theorem any_zero_iff (n : ℕ) : (some n).any (· = 0) = true ↔ n = 0 := by
  rw [Option.any_some, decide_eq_true_iff]

/-- The timeout that the frame holds is the one rounded down, and not zero. -/
theorem timeout_delivered_iff (timeout : Option ℕ) :
    ((timeout.map timeoutMs).map fun milliseconds => milliseconds.toNat * 1000000) =
        timeout.map (fun timeout => timeout / 1000000 * 1000000) ∧
      ¬ (((timeout.map timeoutMs).map fun milliseconds => milliseconds.toNat * 1000000).any
        (· = 0)) = true ↔
    ∀ t ∈ timeout, 1000000 ≤ t ∧ t / 1000000 < 2 ^ 64 := by
  cases timeout with
  | none => simp
  | some t =>
    have hmax : (UInt64.ofNat (2 ^ 64 - 1)).toNat = 2 ^ 64 - 1 := rfl
    by_cases hsize : t / 1000000 < 2 ^ 64
    · have hms : (timeoutMs t).toNat = t / 1000000 := by
        rw [timeoutMs, if_pos hsize]
        exact UInt64.toNat_ofNat_of_lt' hsize
      simp only [Option.map_some, any_zero_iff, Option.mem_def, Option.some.injEq, forall_eq', hms,
        hsize, and_true, true_and]
      omega
    · have hms : (timeoutMs t).toNat = 2 ^ 64 - 1 := by
        rw [timeoutMs, if_neg hsize]
        exact hmax
      simp only [Option.map_some, any_zero_iff, Option.mem_def, Option.some.injEq, forall_eq', hms,
        hsize, and_false, iff_false, not_and]
      omega

/-- When a request comes out of its frame as it has to. -/
theorem decode_received_iff {request : CommandRequest} {identity : Option EffectiveIdentity}
    {frame : List UInt8} (hrequest : request.validate = .ok ())
    (hidentity : ∀ i ∈ identity, i.validate = .ok ())
    (h : (WorkerRequest.fromCommand request identity).encode = .ok frame) :
    WorkerRequest.decode frame = .ok (request.received identity) ↔ request.Carried identity := by
  have hsend := sendable_fromCommand request hidentity
  by_cases hcount : (WorkerRequest.fromCommand request identity).Countable
  · rw [WorkerRequest.decode_eq h hsend hcount, mapError_ok_iff, WorkerRequest.check_ok_iff]
    rw [CommandRequest.validate_ok_iff] at hrequest
    rw [countable_fromCommand_iff] at hcount
    obtain ⟨hargs, henvironment, hgroups⟩ := hcount
    have htimeout := timeout_delivered_iff request.timeout
    constructor
    · rintro ⟨⟨-, -, -, hpositive⟩, hsame⟩
      have heq := congrArg WorkerRequest.timeout hsame
      exact ⟨hargs, henvironment, hgroups, htimeout.mp ⟨heq, hpositive⟩⟩
    · rintro ⟨-, -, -, hmilliseconds⟩
      obtain ⟨heq, hpositive⟩ := htimeout.mpr hmilliseconds
      refine ⟨⟨hrequest.1, hrequest.2.1, hrequest.2.2.1, hpositive⟩, ?_⟩
      exact congrArg (fun timeout => { WorkerRequest.fromCommand request identity with timeout }) heq
  · obtain ⟨error, herror⟩ := WorkerRequest.decode_error h hsend hcount
    rw [herror]
    refine iff_of_false nofun fun hcarried => hcount ?_
    rw [countable_fromCommand_iff]
    exact ⟨hcarried.1, hcarried.2.1, hcarried.2.2.1⟩

/-! ## Outputs -/

theorem field_ok {limit : ℕ} {large exceeds : String} {value : List UInt8}
    (hsize : value.length < 2 ^ 32) (h : value.length ≤ limit) :
    ∃ part, Encoder.field limit large exceeds value = .ok part ∧
      part.length = 4 + value.length := by
  refine ⟨Encoder.u32 (UInt32.ofNat value.length) ++ value, ?_, ?_⟩
  · rw [Encoder.field, if_neg (not_le.mpr hsize), if_neg (not_lt.mpr h)]
  · rw [List.length_append, Encoder.u32, length_toBe]

theorem reads_status (status : Option Int32) : Reads decodeStatus (encodeStatus status) status := by
  cases status with
  | none => exact (reads_u8 0).bind_nil (.pure none)
  | some status => exact (reads_u8 1).bind ((reads_i32 status).map some)

theorem reads_output {output : CommandOutput} {stdout stderr : List UInt8}
    (hstdout : Encoder.largeBytes output.stdout = .ok stdout)
    (hstderr : Encoder.largeBytes output.stderr = .ok stderr) :
    Reads CommandOutput.fields (encodeStatus output.status ++
      (Encoder.u8 (if output.timed_out then 1 else 0) ++ (stdout ++ stderr))) output := by
  refine (reads_status _).bind ((reads_u8 _).bind ((reads_field hstdout _).bind ?_))
  have hflag : decide ((if output.timed_out then (1 : UInt8) else 0) ≠ 0) = output.timed_out := by
    cases output.timed_out <;> rfl
  rw [hflag]
  exact (reads_field hstderr _).map fun stderr => { output with stderr }

theorem length_encodeStatus_le (status : Option Int32) : (encodeStatus status).length ≤ 5 := by
  cases status with
  | none => exact (length_toBe 1 _).trans_le (by decide)
  | some status =>
    rw [encodeStatus, List.length_append, Encoder.u8, Encoder.i32, Encoder.u32, length_toBe,
      length_toBe]

theorem exists_encodeOutput {output : CommandOutput} (hstdout : output.stdout.length ≤ OUTPUT_LIMIT)
    (hstderr : output.stderr.length ≤ OUTPUT_LIMIT) :
    ∃ frame, WorkerProtocol.encodeOutput output = .ok frame := by
  have hsize : OUTPUT_LIMIT < 2 ^ 32 := by decide
  obtain ⟨stdout, hout, hlength⟩ := field_ok (lt_of_le_of_lt hstdout hsize) hstdout
  obtain ⟨stderr, herr, hlength'⟩ := field_ok (lt_of_le_of_lt hstderr hsize) hstderr
  simp only [WorkerProtocol.encodeOutput, bind_ok_iff, finish_ok_iff]
  refine ⟨_, stdout, hout, stderr, herr, ?_, rfl⟩
  have hstatus := length_encodeStatus_le output.status
  simp only [List.length_append, Encoder.u8, Encoder.u16, length_toBe]
  simp only [OUTPUT_LIMIT] at hstdout hstderr
  simp only [FRAME_LIMIT]
  omega

theorem decodeResponse_encodeOutput {output : CommandOutput} {frame : List UInt8}
    (h : WorkerProtocol.encodeOutput output = .ok frame) :
    WorkerProtocol.decodeResponse frame = .ok output := by
  simp only [WorkerProtocol.encodeOutput, bind_ok_iff, finish_ok_iff] at h
  obtain ⟨stdout, hstdout, stderr, hstderr, -, rfl⟩ := h
  have hanswer : Answers (mapErr CommandError.Protocol (finish Decoder.TRAILING) >>= fun _ =>
      settle (.ok output)) [] (.ok output) := by
    rw [mapErr_finish]
    exact answers_finish _ _
  have houtput := ((reads_output hstdout hstderr).mapErr CommandError.Protocol).answers
    (f := fun output => mapErr CommandError.Protocol (finish Decoder.TRAILING) >>= fun _ =>
      settle (.ok output)) hanswer
  rw [List.append_nil] at houtput
  show readAll _ _ = Except.mapError Stop.Error (Except.ok output)
  refine Answers.readAll_eq (((reads_header RESPONSE).mapErr _).answers ?_)
  exact ((reads_u8 SUCCESS).mapErr _).answers houtput

/-! ## Arbitrary frames -/

theorem confined_u8 : Confined Decoder.u8 :=
  (confined_number _ _).bind fun _ => confined_pure _

theorem confined_u16 : Confined Decoder.u16 :=
  (confined_number _ _).bind fun _ => confined_pure _

theorem confined_u32 : Confined Decoder.u32 :=
  (confined_number _ _).bind fun _ => confined_pure _

theorem confined_i32 : Confined Decoder.i32 := confined_u32.bind fun _ => confined_pure _

theorem confined_u64 : Confined Decoder.u64 :=
  (confined_number _ _).bind fun _ => confined_pure _

theorem confined_usize : Confined Decoder.usize := confined_u64.bind fun _ => confined_pure _

theorem confined_header (kind : UInt8) : Confined (Decoder.header kind) :=
  confined_u16.bind fun _ => (confined_refuseIf _ _).bind fun _ =>
    confined_u8.bind fun _ => confined_refuseIf _ _

theorem confined_count (limit : ℕ) : Confined (Decoder.count limit) :=
  confined_u32.bind fun _ => (confined_refuseIf _ _).bind fun _ => confined_pure _

theorem confined_field (limit : ℕ) (exceeds : String) : Confined (Decoder.field limit exceeds) :=
  confined_u32.bind fun _ => (confined_refuseIf _ _).bind fun _ => confined_take _ _

theorem confined_string : Confined Decoder.string := by
  refine (confined_field _ _).bind fun value => ?_
  rw [Decoder.fromUtf8]
  cases String.fromUTF8? ⟨value.toArray⟩ with
  | none => exact confined_fail _
  | some text => exact confined_pure text

theorem confined_strings : Confined Decoder.strings :=
  (confined_count _).bind fun count => confined_string.many count

theorem confined_entries (count : ℕ) (environment : Std.ExtTreeMap String String) :
    Confined (Decoder.entries count environment) := by
  induction count generalizing environment with
  | zero => exact confined_pure environment
  | succ count ih =>
    exact confined_string.bind fun name => confined_string.bind fun value =>
      (confined_refuseIf _ _).bind fun _ => ih (environment.insert name value)

theorem confined_environment : Confined Decoder.environment :=
  (confined_count _).bind fun count => confined_entries count ∅

theorem confined_optionU64 : Confined Decoder.optionU64 :=
  confined_u8.bind fun _ => (confined_pure none).ite
    ((confined_u64.bind fun _ => confined_pure _).ite (confined_fail _))

theorem confined_identity : Confined Decoder.identity := by
  refine confined_u8.bind fun flag => (confined_pure none).ite (Confined.ite ?_ (confined_fail _))
  refine confined_u32.bind fun uid => confined_u32.bind fun gid => ?_
  exact (confined_refuseIf _ _).bind fun _ => (confined_count 1024).bind fun count =>
    (confined_u32.many count).bind fun groups => confined_pure _

theorem WorkerRequest.confined_fields : Confined fields := by
  refine (confined_header REQUEST).bind fun _ => confined_string.bind fun program => ?_
  refine (confined_field _ _).bind fun cwd => confined_strings.bind fun args => ?_
  refine confined_environment.bind fun environment => confined_optionU64.bind fun timeout => ?_
  refine confined_usize.bind fun stdout => confined_usize.bind fun stderr => ?_
  exact (confined_refuseIf _ _).bind fun _ => confined_identity.bind fun _ => confined_pure _

theorem confined_status : Confined decodeStatus :=
  confined_u8.bind fun _ => (confined_pure none).ite
    ((confined_i32.bind fun _ => confined_pure _).ite (confined_fail _))

theorem CommandOutput.confined_fields : Confined fields :=
  confined_status.bind fun _ => confined_u8.bind fun _ => (confined_field _ _).bind fun _ =>
    (confined_field _ _).bind fun _ => confined_pure _

/-- The decoder of whole frames stays inside the frame, and a frame that it accepts is refused with
more bytes behind it. -/
def Exact {ε α : Type} (decode : List UInt8 → Except (Stop ε) α) : Prop :=
  (∀ frame, decode frame ≠ .error .Panic) ∧
    ∀ frame a extra, decode frame = .ok a → extra ≠ [] →
      ∃ error, decode (frame ++ extra) = .error (.Error error)

theorem Exact.of_ended {ε α : Type} {reader : Reader ε α} (h : Ended reader) :
    Exact (readAll reader) :=
  ⟨h.readAll_ne_panic, fun _ _ _ hread hextra => h.readAll_extra hread hextra⟩

theorem exact_decode : Exact WorkerRequest.decode :=
  Exact.of_ended (WorkerRequest.confined_fields.ended fun _ => ended_finish _ _)

theorem exact_decodeCancel : Exact WorkerProtocol.decodeCancel :=
  Exact.of_ended ((confined_header CANCEL).ended fun _ => finish_settle Decoder.TRAILING ▸
    ended_finish Decoder.TRAILING (.ok ()))

theorem exact_decodeResponse : Exact WorkerProtocol.decodeResponse := by
  refine Exact.of_ended (((confined_header RESPONSE).mapErr _).ended fun _ =>
    (confined_u8.mapErr _).ended fun kind => ?_)
  refine Ended.ite ((CommandOutput.confined_fields.mapErr _).ended fun output => ?_)
    (Ended.ite ((confined_string.mapErr _).ended fun message => ?_) (ended_fail _))
  · rw [mapErr_finish]
    exact ended_finish _ _
  · rw [mapErr_finish]
    exact ended_finish _ _

/-! ## The protocol -/

theorem worker_protocol_round_trips_iff {request : CommandRequest}
    {identity : Option EffectiveIdentity} {frame : List UInt8} (hrequest : request.validate = .ok ())
    (hidentity : ∀ i ∈ identity, i.validate = .ok ())
    (h : (WorkerRequest.fromCommand request identity).encode = .ok frame) :
    (WorkerRequest.decode frame = .ok (request.received identity) ↔ request.Carried identity) ∧
    (∀ output : CommandOutput, output.stdout.length ≤ OUTPUT_LIMIT →
      output.stderr.length ≤ OUTPUT_LIMIT → ∃ frame, WorkerProtocol.encodeOutput output = .ok frame ∧
        WorkerProtocol.decodeResponse frame = .ok output) ∧
    Exact WorkerRequest.decode ∧ Exact WorkerProtocol.decodeCancel ∧
      Exact WorkerProtocol.decodeResponse := by
  refine ⟨decode_received_iff hrequest hidentity h, ?_, exact_decode, exact_decodeCancel,
    exact_decodeResponse⟩
  intro output hstdout hstderr
  obtain ⟨frame, hframe⟩ := exists_encodeOutput hstdout hstderr
  exact ⟨frame, hframe, decodeResponse_encodeOutput hframe⟩

/-- `/bin/true` in `/` with a timeout of so many nanoseconds. -/
def shortCommand (timeout : ℕ) : CommandRequest :=
  { program := "/bin/true", cwd := [47], timeout := some timeout }

def workerUser : EffectiveIdentity :=
  { uid := 1000, gid := 100, user := "user", home := "/home/user", supplementary_groups := [100, 27] }

theorem shortCommand_round_trips : ∃ frame,
    (WorkerRequest.fromCommand (shortCommand 1500000) (some workerUser)).encode = .ok frame ∧
    WorkerRequest.decode frame = .ok ((shortCommand 1500000).received (some workerUser)) := by
  obtain ⟨frame, hframe⟩ := exists_of_isOk (x :=
    (WorkerRequest.fromCommand (shortCommand 1500000) (some workerUser)).encode) (by decide)
  have hidentity : ∀ i ∈ some workerUser, i.validate = .ok () := by
    rintro _ ⟨⟩
    decide
  have hcarried : (shortCommand 1500000).Carried (some workerUser) := by
    refine ⟨by decide, by decide, ?_, ?_⟩
    · rintro _ ⟨⟩
      decide
    · rintro _ ⟨⟩
      decide
  have hvalid : (shortCommand 1500000).validate = .ok () := by decide
  have hround := worker_protocol_round_trips_iff hvalid hidentity hframe
  exact ⟨frame, hframe, hround.1.mpr hcarried⟩

/-- A timeout below a millisecond is valid, is sent as zero, and the worker refuses it. -/
theorem timeout_of_a_nanosecond_is_refused :
    (shortCommand 1).validate = .ok () ∧ ∃ frame,
      (WorkerRequest.fromCommand (shortCommand 1) none).encode = .ok frame ∧
      WorkerRequest.decode frame = .error (.Error "worker request timeout must be positive") := by
  refine ⟨by decide, ?_⟩
  obtain ⟨frame, hframe⟩ := exists_of_isOk (x :=
    (WorkerRequest.fromCommand (shortCommand 1) none).encode) (by decide)
  have hsend : (WorkerRequest.fromCommand (shortCommand 1) none).Sendable :=
    sendable_fromCommand (shortCommand 1) nofun
  have hcount : (WorkerRequest.fromCommand (shortCommand 1) none).Countable := by
    refine ⟨by decide, by decide, nofun⟩
  refine ⟨frame, hframe, ?_⟩
  rw [WorkerRequest.decode_eq hframe hsend hcount]
  decide

end dev_env_provider
