-- How large the frame of a valid request can get: the limits of its collections are on
-- raw bytes, and the limit of the frame is on what the escapes make of them.
import NixosDockers.DevEnv.RequestFrames

open rust_text results json_text

namespace dev_env

variable {context : RequestContext} {envelope : BackendRequestEnvelope}
  {entries : List (String × String)} {values : Std.ExtTreeMap String String} {total : ℕ}

/-! ## What validation says -/

/-- The raw bytes of the entries of a map. -/
def rawBytes (entries : List (String × String)) : ℕ :=
  (entries.map fun entry => byteLen entry.1 + byteLen entry.2).sum

/-- The characters of the values that are written by their codes. -/
def valueCodes (entries : List (String × String)) : ℕ :=
  (entries.map fun entry => longEscapes entry.2).sum

theorem sumValues_ok {start : ℕ} (h : sumValues start entries = .ok total) :
    (∀ entry ∈ entries, isKeyName entry.1 = true) ∧ total = start + rawBytes entries := by
  induction entries generalizing start with
  | nil => exact ⟨fun _ hentry => absurd hentry List.not_mem_nil, (Except.ok.inj h).symm⟩
  | cons entry entries ih =>
    obtain ⟨name, value⟩ := entry
    unfold sumValues at h
    rw [ite_error_ok_iff, ite_error_ok_iff, ite_error_ok_iff] at h
    obtain ⟨hname, -, -, hrest⟩ := h
    obtain ⟨hnames, htotal⟩ := ih hrest
    constructor
    · intro other hother
      rcases List.mem_cons.mp hother with rfl | hother
      · simpa using hname
      · exact hnames other hother
    · unfold rawBytes at htotal ⊢
      rw [htotal, List.map_cons, List.sum_cons]
      dsimp only
      omega

theorem validateRequestValues_ok (h : validateRequestValues values = .ok ()) :
    (∀ entry ∈ values.toList, isKeyName entry.1 = true) ∧ rawBytes values.toList ≤ 65536 := by
  unfold validateRequestValues at h
  rw [bind_ok_iff] at h
  obtain ⟨total_bytes, hsum, hlimit⟩ := h
  obtain ⟨hnames, htotal⟩ := sumValues_ok hsum
  rw [ite_error_ok_iff] at hlimit
  exact ⟨hnames, by omega⟩

/-- The limits of a valid request. -/
structure Limited (context : RequestContext) : Prop where
  request_id : byteLen context.request_id ≤ 128
  identity : ∀ name, context.requested_identity = .User name → byteLen name ≤ 32
  shell_args : context.shell_args.length ≤ 128
  shell_bytes : (context.shell_args.map byteLen).sum ≤ 65536
  inputs : context.typed_runtime_inputs.toList.length ≤ 64
  input_names : ∀ entry ∈ context.typed_runtime_inputs.toList, isKeyName entry.1 = true
  input_bytes : rawBytes context.typed_runtime_inputs.toList ≤ 65536
  ambient_names : ∀ entry ∈ context.filtered_ambient_environment.toList, isKeyName entry.1 = true
  ambient_bytes : rawBytes context.filtered_ambient_environment.toList ≤ 65536

theorem RequestContext.limited (h : context.validate = .ok ()) : Limited context := by
  unfold RequestContext.validate at h
  rw [ite_error_ok_iff] at h
  obtain ⟨hid, h⟩ := h
  rw [bind_ok_iff] at h
  obtain ⟨-, -, h⟩ := h
  rw [ite_error_ok_iff, ite_error_ok_iff, ite_error_ok_iff] at h
  obtain ⟨-, hargs, hbytes, h⟩ := h
  rw [bind_ok_iff] at h
  obtain ⟨⟨⟩, hidentity, h⟩ := h
  rw [ite_error_ok_iff] at h
  obtain ⟨hinputs, h⟩ := h
  rw [bind_ok_iff] at h
  obtain ⟨⟨⟩, htyped, hambient⟩ := h
  have hname : ∀ name, context.requested_identity = .User name → byteLen name ≤ 32 := by
    intro name heq
    rw [heq, mapError_ok_iff] at hidentity
    unfold IdentityRequest.validate at hidentity
    by_cases hvalid : (name ≠ "" && byteLen name ≤ 32 && name.toList.all isUserChar) = true
    · simp only [Bool.and_eq_true, decide_eq_true_eq] at hvalid
      exact hvalid.1.2
    · dsimp only at hidentity
      rw [if_neg hvalid] at hidentity
      cases hidentity
  obtain ⟨hinputNames, hinputBytes⟩ := validateRequestValues_ok htyped
  obtain ⟨hambientNames, hambientBytes⟩ := validateRequestValues_ok hambient
  refine ⟨?_, hname, ?_, Nat.not_lt.mp hbytes, ?_, hinputNames, hinputBytes, hambientNames,
    hambientBytes⟩
  · unfold isRequestId at hid
    simp only [Bool.not_eq_true', Bool.not_eq_false, Bool.and_eq_true, decide_eq_true_eq] at hid
    exact hid.1.2
  · simp only [Bool.or_eq_true, decide_eq_true_eq, not_or] at hargs
    exact Nat.not_lt.mp hargs.1
  · rw [Std.ExtTreeMap.length_toList]
    exact Nat.not_lt.mp hinputs

/-! ## What the collections take -/

theorem isKeyName_chars {name : String} (h : isKeyName name = true) :
    ∀ c ∈ name.toList, (c.isUpper || c.isDigit || c = '_') = true := by
  unfold isKeyName at h
  cases hchars : name.toList with
  | nil => exact fun c hc => absurd hc List.not_mem_nil
  | cons first rest =>
    rw [hchars] at h
    dsimp only at h
    rw [Bool.and_eq_true, List.all_eq_true] at h
    intro c hc
    rcases List.mem_cons.mp hc with rfl | hrest
    · have hfirst := h.1
      simp only [Bool.or_eq_true, decide_eq_true_eq] at hfirst ⊢
      rcases hfirst with hupper | hscore
      · exact .inl (.inl hupper)
      · exact .inr hscore
    · exact h.2 c hrest

theorem isKeyName_size {name : String} (h : isKeyName name = true) : 1 ≤ byteLen name := by
  rw [byteLen_eq_sum]
  unfold isKeyName at h
  cases hchars : name.toList with
  | nil => rw [hchars] at h; exact absurd h Bool.false_ne_true
  | cons first rest =>
    have hpos := utf8Size_pos first
    rw [List.map_cons, List.sum_cons]
    omega

/-- A letter, a digit or an underscore needs no escape. -/
theorem keyChar_plain {c : Char} (h : (c.isUpper || c.isDigit || c = '_') = true) :
    (!hasShortEscape c && !isLongEscape c) = true := by
  have hcode : c.toNat = 95 ∨ 65 ≤ c.toNat ∧ c.toNat ≤ 90 ∨ 48 ≤ c.toNat ∧ c.toNat ≤ 57 := by
    simp only [Bool.or_eq_true, decide_eq_true_eq] at h
    rcases h with (hupper | hdigit) | rfl
    · simp only [Char.isUpper, decide_eq_true_eq] at hupper
      exact .inr (.inl hupper)
    · simp only [Char.isDigit, Bool.and_eq_true, decide_eq_true_eq] at hdigit
      exact .inr (.inr hdigit)
    · exact .inl rfl
  refine plain_of_printable (by omega) ?_ ?_
  all_goals
    rintro rfl
    exact absurd hcode (by decide)

/-- A key name needs no escapes. -/
theorem byteLen_quoted_name {name : String} (h : isKeyName name = true) :
    byteLen (quoted name) = 2 + byteLen name :=
  byteLen_quoted_plain (List.all_eq_true.mpr fun c hc => keyChar_plain (isKeyName_chars h c hc))

/-- What the entries of a map take in its JSON, from the raw bytes and the codes. -/
theorem entries_size (h : ∀ entry ∈ entries, isKeyName entry.1 = true) :
    valueCodes entries ≤ rawBytes entries ∧
    (entries.map fun entry => byteLen (quoted entry.1) + byteLen (quoted entry.2) + 2).sum ≤
      6 * entries.length + 2 * rawBytes entries + 4 * valueCodes entries ∧
    (entries.map fun entry => byteLen (quoted entry.1) + byteLen (quoted entry.2) + 2).sum ≤
      7 * rawBytes entries := by
  unfold valueCodes rawBytes
  induction entries with
  | nil => exact ⟨Nat.le_refl 0, Nat.le_refl 0, Nat.le_refl 0⟩
  | cons entry entries ih =>
    have hname := h entry List.mem_cons_self
    have hpos := isKeyName_size hname
    have hquoted := byteLen_quoted_name hname
    have hvalue := byteLen_quoted_le entry.2
    have hcodes := longEscapes_le entry.2
    have hrest := ih fun other hother => h other (List.mem_cons_of_mem _ hother)
    simp only [List.map_cons, List.sum_cons, List.length_cons]
    omega

theorem byteLen_mapJson_le (values : Std.ExtTreeMap String String) :
    byteLen (mapJson values) ≤ 2 + (values.toList.map fun entry =>
      byteLen (quoted entry.1) + byteLen (quoted entry.2) + 2).sum := by
  have hobject := byteLen_object_le (values.toList.map fun entry => (entry.1, quoted entry.2))
  rw [List.map_map] at hobject
  exact hobject

/-- What the arguments take, from the raw bytes and the codes. -/
theorem byteLen_args_le (args : List String) :
    byteLen (array (args.map quoted)) ≤
      2 + 3 * args.length + 2 * (args.map byteLen).sum + 4 * (args.map longEscapes).sum := by
  have harray := byteLen_array_le (args.map quoted)
  have hitems : ((args.map quoted).map fun item => byteLen item + 1).sum ≤
      3 * args.length + 2 * (args.map byteLen).sum + 4 * (args.map longEscapes).sum := by
    induction args with
    | nil => exact Nat.le_refl 0
    | cons arg args ih =>
      have harg := byteLen_quoted_le arg
      have hrest := ih (byteLen_array_le _)
      simp only [List.map_cons, List.sum_cons, List.length_cons]
      omega
  omega

theorem longEscapes_args_le (args : List String) :
    (args.map longEscapes).sum ≤ (args.map byteLen).sum :=
  List.sum_le_sum fun arg _ => longEscapes_le arg

/-! ## What a request takes -/

theorem byteLen_mode_le (mode : RequestMode) : byteLen mode.json ≤ 13 := by
  cases mode <;> decide

theorem byteLen_identity_le {identity : IdentityRequest}
    (h : ∀ name, identity = .User name → byteLen name ≤ 32) : byteLen identity.json ≤ 300 := by
  cases identity with
  | Peer => decide
  | Root => decide
  | User name =>
    have hname := byteLen_quoted_le_six name
    have hlimit := h name rfl
    have hobject := byteLen_object_le [("kind", quoted "user"), ("name", quoted name)]
    have hkind : byteLen (quoted "kind") = 6 := by decide
    have huser : byteLen (quoted "user") = 6 := by decide
    have hfield : byteLen (quoted "name") = 6 := by decide
    simp only [List.map_cons, List.map_nil, List.sum_cons, List.sum_nil] at hobject
    show byteLen (object [("kind", quoted "user"), ("name", quoted name)]) ≤ 300
    omega

/-- What a context takes beside its three collections. -/
theorem byteLen_context_le (h : Limited context) (hcwd : byteLen context.cwd ≤ 4096)
    (hshell : byteLen context.shell ≤ 4096) :
    byteLen context.json ≤ 51000 + byteLen (array (context.shell_args.map quoted)) +
      byteLen (mapJson context.typed_runtime_inputs) +
      byteLen (mapJson context.filtered_ambient_environment) := by
  have hid := byteLen_quoted_le_six context.request_id
  have hlimit := h.request_id
  have hmode := byteLen_mode_le context.mode
  have hquotedCwd := byteLen_quoted_le_six context.cwd
  have hquotedShell := byteLen_quoted_le_six context.shell
  have hidentity := byteLen_identity_le h.identity
  have hidName : byteLen (quoted "request_id") = 12 := by decide
  have hmodeName : byteLen (quoted "mode") = 6 := by decide
  have hcwdName : byteLen (quoted "cwd") = 5 := by decide
  have hshellName : byteLen (quoted "shell") = 7 := by decide
  have hargsName : byteLen (quoted "shell_args") = 12 := by decide
  have hidentityName : byteLen (quoted "requested_identity") = 20 := by decide
  have hinputsName : byteLen (quoted "typed_runtime_inputs") = 22 := by decide
  have hambientName : byteLen (quoted "filtered_ambient_environment") = 30 := by decide
  unfold RequestContext.json
  refine (byteLen_object_le _).trans ?_
  split_ifs
  all_goals
    simp only [List.map_append, List.sum_append, List.map_cons, List.map_nil, List.sum_cons,
      List.sum_nil]
    omega

/-- The texts that validation puts no limit on. -/
def BackendRequest.TextsWithin (limit : ℕ) : BackendRequest → Prop
  | .Prepare context => byteLen context.cwd ≤ limit ∧ byteLen context.shell ≤ limit
  | .Explain path => ∀ text ∈ path, byteLen text ≤ limit
  | .Trust (.Path path) => byteLen path ≤ limit
  | _ => True

/-- The characters of the arguments and the inputs that are written by their codes. -/
def BackendRequest.codes : BackendRequest → ℕ
  | .Prepare context =>
    (context.shell_args.map longEscapes).sum + valueCodes context.typed_runtime_inputs.toList
  | _ => 0

/-- The largest text of a valid context, and of one with few codes. -/
theorem byteLen_prepare_le (h : context.validate = .ok ()) (hcwd : byteLen context.cwd ≤ 4096)
    (hshell : byteLen context.shell ≤ 4096) :
    byteLen context.json ≤ 1297000 ∧
      byteLen context.json ≤ 773000 + 4 * (BackendRequest.Prepare context).codes := by
  have hlimited := RequestContext.limited h
  have hcontext := byteLen_context_le hlimited hcwd hshell
  have hargs := byteLen_args_le context.shell_args
  have hargCodes := longEscapes_args_le context.shell_args
  have hinputs := byteLen_mapJson_le context.typed_runtime_inputs
  have hambient := byteLen_mapJson_le context.filtered_ambient_environment
  obtain ⟨hinputCodes, hinputSize, -⟩ := entries_size hlimited.input_names
  obtain ⟨-, -, hambientSize⟩ := entries_size hlimited.ambient_names
  have hlength := hlimited.shell_args
  have hbytes := hlimited.shell_bytes
  have hcount := hlimited.inputs
  have hinputBytes := hlimited.input_bytes
  have hambientBytes := hlimited.ambient_bytes
  simp only [BackendRequest.codes]
  omega

theorem byteLen_byte_le (byte : UInt8) : byteLen (toString byte.toNat) ≤ 3 := by
  have hsmall : ∀ n < 256, byteLen (toString n) ≤ 3 := by decide +kernel
  exact hsmall byte.toNat byte.toNat_lt

theorem byteLen_digest_le (digest : Fingerprint) :
    byteLen (array (digest.toList.map fun byte => toString byte.toNat)) ≤ 130 := by
  have harray := byteLen_array_le (digest.toList.map fun byte => toString byte.toNat)
  have hbytes : ((digest.toList.map fun byte => toString byte.toNat).map
      fun item => byteLen item + 1).sum ≤ digest.toList.length * 4 := by
    rw [← List.length_map (fun byte : UInt8 => toString byte.toNat),
      ← List.length_map (fun item : String => byteLen item + 1)]
    refine List.sum_le_card_nsmul _ 4 fun size hsize => ?_
    obtain ⟨item, hitem, rfl⟩ := List.mem_map.mp hsize
    obtain ⟨byte, -, rfl⟩ := List.mem_map.mp hitem
    exact Nat.succ_le_succ (byteLen_byte_le byte)
  rw [Vector.length_toList] at hbytes
  omega

/-- A tagged object with one field. -/
theorem byteLen_tagged_le {tag tagValue name value : String} {limit : ℕ}
    (h : byteLen (quoted tag) + byteLen (quoted tagValue) + byteLen (quoted name) ≤ limit) :
    byteLen (object [(tag, quoted tagValue), (name, value)]) ≤ 6 + limit + byteLen value := by
  have hobject := byteLen_object_le [(tag, quoted tagValue), (name, value)]
  simp only [List.map_cons, List.map_nil, List.sum_cons, List.sum_nil] at hobject
  omega

theorem byteLen_target_le {target : TrustTarget}
    (h : (BackendRequest.Trust target).TextsWithin 4096) : byteLen target.json ≤ 25000 := by
  cases target with
  | Path path =>
    have hlimit : byteLen path ≤ 4096 := h
    have hquoted := byteLen_quoted_le_six path
    have hpath : byteLen (object [("kind", quoted "path"), ("path", quoted path)]) ≤
        6 + 18 + byteLen (quoted path) := byteLen_tagged_le (by decide)
    exact hpath.trans (by omega)
  | Sha256 digest =>
    have hdigest := byteLen_digest_le digest
    exact (byteLen_tagged_le (by decide : _ ≤ 24)).trans (by omega)

/-- The largest text of a request, by its kind. -/
theorem byteLen_request_le {request : BackendRequest}
    (h : ∀ context, request = .Prepare context → context.validate = .ok ())
    (htexts : request.TextsWithin 4096) :
    byteLen request.json ≤ 1298000 ∧ byteLen request.json ≤ 774000 + 4 * request.codes := by
  cases request with
  | Prepare context =>
    obtain ⟨hall, hfew⟩ := byteLen_prepare_le (h context rfl) htexts.1 htexts.2
    have hobject : byteLen (object [("type", quoted "prepare"), ("context", context.json)]) ≤
        6 + 24 + byteLen context.json := byteLen_tagged_le (by decide)
    exact ⟨hobject.trans (by omega), hobject.trans (by omega)⟩
  | Explain path =>
    have hpath : byteLen ((path.map quoted).getD "null") ≤ 25000 := by
      cases path with
      | none => decide
      | some path =>
        have hlimit : byteLen path ≤ 4096 := htexts path rfl
        have hquoted := byteLen_quoted_le_six path
        show byteLen (quoted path) ≤ 25000
        omega
    have hobject : byteLen (object [("type", quoted "explain"),
          ("path", (path.map quoted).getD "null")]) ≤
        6 + 21 + byteLen ((path.map quoted).getD "null") := byteLen_tagged_le (by decide)
    exact ⟨hobject.trans (by omega), hobject.trans (by omega)⟩
  | Trust target =>
    have htarget := byteLen_target_le htexts
    have hobject : byteLen (object [("type", quoted "trust"), ("target", target.json)]) ≤
        6 + 21 + byteLen target.json := byteLen_tagged_le (by decide)
    exact ⟨hobject.trans (by omega), hobject.trans (by omega)⟩
  | Reload wait => cases wait <;> decide
  | Hello => decide
  | Status => decide
  | Plan => decide
  | Doctor => decide
  | Stop => decide

/-- What validation says of the envelope. -/
theorem BackendRequestEnvelope.validate_ok (h : envelope.validate = .ok ()) :
    envelope.protocol = DEVENV_BACKEND_PROTOCOL_VERSION ∧ byteLen envelope.request_id ≤ 128 ∧
      ∀ context, envelope.request = .Prepare context → context.validate = .ok () := by
  unfold BackendRequestEnvelope.validate at h
  rw [ite_error_ok_iff, ite_error_ok_iff] at h
  obtain ⟨hprotocol, hid, hrequest⟩ := h
  refine ⟨not_not.mp hprotocol, ?_, ?_⟩
  · unfold isRequestId at hid
    simp only [Bool.not_eq_true', Bool.not_eq_false, Bool.and_eq_true, decide_eq_true_eq] at hid
    exact hid.1.2
  · intro context heq
    rw [heq] at hrequest
    dsimp only at hrequest
    rw [ite_error_ok_iff, mapError_ok_iff] at hrequest
    exact hrequest.2

theorem byteLen_envelope_le (h : envelope.validate = .ok ())
    (htexts : envelope.request.TextsWithin 4096) :
    byteLen envelope.json ≤ 1310720 ∧
      byteLen envelope.json ≤ 786000 + 4 * envelope.request.codes := by
  obtain ⟨hprotocol, hid, hcontext⟩ := envelope.validate_ok h
  obtain ⟨hall, hfew⟩ := byteLen_request_le hcontext htexts
  have hquotedId := byteLen_quoted_le_six envelope.request_id
  have hobject := byteLen_object_le [("protocol", toString envelope.protocol.toNat),
    ("request_id", quoted envelope.request_id), ("request", envelope.request.json)]
  have hprotocolName : byteLen (quoted "protocol") = 10 := by decide
  have hidName : byteLen (quoted "request_id") = 12 := by decide
  have hrequestName : byteLen (quoted "request") = 9 := by decide
  have hversion : byteLen (toString envelope.protocol.toNat) = 1 := by
    rw [hprotocol]
    decide
  simp only [List.map_cons, List.map_nil, List.sum_cons, List.sum_nil] at hobject
  unfold BackendRequestEnvelope.json
  omega

/-! ## The limit of a frame -/

/-- A valid request fits a frame unless its arguments and inputs are full of codes. A frame that
fits is read back, and one that does not is refused before it is sent. -/
theorem valid_requests_fit_without_codes
    (from_slice : List UInt8 → Except String BackendRequestEnvelope)
    (h : envelope.validate = .ok ()) (htexts : envelope.request.TextsWithin 4096)
    (hserde : from_slice (asBytes envelope.json) = .ok envelope) :
    (asBytes envelope.json).length ≤ 1310720 ∧
    (envelope.request.codes ≤ 65536 →
      (asBytes envelope.json).length ≤ MAX_BACKEND_FRAME_BYTES) ∧
    ((asBytes envelope.json).length ≤ MAX_BACKEND_FRAME_BYTES →
      envelope.encode = .ok (asBytes envelope.json) ∧
        BackendRequestEnvelope.decode from_slice (asBytes envelope.json) = .ok envelope) ∧
    (MAX_BACKEND_FRAME_BYTES < (asBytes envelope.json).length →
      envelope.encode = .error (.FrameTooLarge (asBytes envelope.json).length)) := by
  obtain ⟨hall, hfew⟩ := byteLen_envelope_le h htexts
  have hencode : envelope.encode = encodeJson envelope.json := by
    unfold BackendRequestEnvelope.encode
    rw [h, ok_bind]
  have hnonempty : asBytes envelope.json ≠ [] := by
    intro hempty
    have hlength := congrArg List.length hempty
    have hopen : byteLen "\x7b" = 1 := rfl
    rw [length_asBytes] at hlength
    unfold BackendRequestEnvelope.json object at hlength
    rw [byteLen_append, byteLen_append, hopen, List.length_nil] at hlength
    omega
  refine ⟨?_, ?_, ?_, ?_⟩
  · exact (length_asBytes envelope.json).le.trans hall
  · intro hcodes
    have hlimit : byteLen envelope.json ≤ MAX_BACKEND_FRAME_BYTES := by
      unfold MAX_BACKEND_FRAME_BYTES
      omega
    exact (length_asBytes envelope.json).le.trans hlimit
  · intro hfits
    constructor
    · rw [hencode]
      unfold encodeJson
      exact if_neg (Nat.not_lt.mpr hfits)
    · unfold BackendRequestEnvelope.decode ensureFrameSize
      rw [if_neg (not_or.mpr ⟨hnonempty, Nat.not_lt.mpr hfits⟩), hserde]
      show (envelope.validate >>= fun _ => pure envelope) = _
      rw [h, ok_bind]
      rfl
  · intro hlarge
    rw [hencode]
    unfold encodeJson
    exact if_pos hlarge

/-- A command with a quotation mark and an escape in its arguments, two inputs and two ambient
variables. -/
def printfContext : RequestContext where
  request_id := "prepare"
  mode := .Exec
  cwd := "/workspace/crates"
  shell := "bash"
  shell_args := ["-c", "printf '\x1b[0m\"%s\"\\n' \"$GREETING\""]
  typed_runtime_inputs := Std.ExtTreeMap.ofList [("GREETING", "grüezi"), ("JOBS", "4")]
  filtered_ambient_environment := Std.ExtTreeMap.ofList [("HOME", "/home/dev"), ("TERM", "xterm")]

def printfEnvelope : BackendRequestEnvelope where
  request_id := "prepare"
  request := .Prepare printfContext

/-- A request with arguments, inputs and ambient variables is read back from its frame. -/
theorem prepare_fits :
    ∃ from_slice, printfEnvelope.request.codes = 1 ∧
      printfEnvelope.encode = .ok (asBytes printfEnvelope.json) ∧
      BackendRequestEnvelope.decode from_slice (asBytes printfEnvelope.json) =
        .ok printfEnvelope := by
  have hcodes : printfEnvelope.request.codes = 1 := by decide +kernel
  have hvalid : printfEnvelope.validate = .ok () := by decide +kernel
  have htexts : printfEnvelope.request.TextsWithin 4096 := by
    constructor <;> decide
  obtain ⟨-, hfits, hread, -⟩ := valid_requests_fit_without_codes
    (fun payload => if payload = asBytes printfEnvelope.json then .ok printfEnvelope
      else .error "expected value") hvalid htexts (if_pos rfl)
  exact ⟨_, hcodes, hread (hfits (hcodes.le.trans (by decide)))⟩

/-! ## A request full of codes -/

/-- A text of codes only. -/
def controls (count : ℕ) : String := String.ofList (List.replicate count '\x01')

/-- A request with one argument, one input and one variable. -/
def filledContext (arg value : String) : RequestContext where
  request_id := "prepare"
  mode := .Exec
  cwd := "/workspace"
  shell := "bash"
  shell_args := [arg]
  typed_runtime_inputs := Std.ExtTreeMap.insert ∅ "A" value
  filtered_ambient_environment := Std.ExtTreeMap.insert ∅ "A" value

/-- A request with its three collections at their limits. -/
def fullContext : RequestContext := filledContext (controls 65536) (controls 65535)

theorem byteLen_controls (count : ℕ) : byteLen (controls count) = count := by
  unfold controls
  rw [byteLen_ofList, List.map_replicate, List.sum_replicate, smul_eq_mul]
  exact Nat.mul_one count

theorem hasChar_controls (count : ℕ) : hasChar (controls count) nul = false := by
  unfold hasChar controls
  rw [String.toList_ofList, List.contains_eq_mem, decide_eq_false_iff_not, List.mem_replicate]
  rintro ⟨-, hnul⟩
  exact absurd hnul (by decide)

theorem toList_singleton (value : String) :
    (Std.ExtTreeMap.insert ∅ "A" value : Std.ExtTreeMap String String).toList = [("A", value)] :=
  rfl

theorem validate_singleton {count : ℕ} (h : count ≤ 65535) :
    validateRequestValues (Std.ExtTreeMap.insert ∅ "A" (controls count)) = .ok () := by
  have hname : isKeyName "A" = true := by decide
  have hsize : byteLen "A" = 1 := rfl
  have hsum : sumValues 0 [("A", controls count)] = .ok (0 + 1 + count) := by
    unfold sumValues
    rw [hname, hasChar_controls, hsize, byteLen_controls, if_neg (by decide), if_neg (by decide),
      if_neg (by omega)]
    rfl
  unfold validateRequestValues
  rw [toList_singleton, hsum, ok_bind, if_neg (by omega)]

theorem RequestContext.validate_of (hid : isRequestId context.request_id = true)
    (hcwd : validateCwd context.cwd = .ok ())
    (hshell : (context.shell = "" || hasChar context.shell nul) = false)
    (hargs : (context.shell_args.length > 128 || context.shell_args.any (hasChar · nul)) = false)
    (hbytes : (context.shell_args.map byteLen).sum ≤ 65536)
    (hidentity : context.requested_identity.validate = .ok ())
    (hinputs : context.typed_runtime_inputs.toList.length ≤ 64)
    (htyped : validateRequestValues context.typed_runtime_inputs = .ok ())
    (hambient : validateRequestValues context.filtered_ambient_environment = .ok ()) :
    context.validate = .ok () := by
  rw [Std.ExtTreeMap.length_toList] at hinputs
  unfold RequestContext.validate
  rw [hid, if_neg (by decide), hcwd, ok_bind, if_neg (by rw [hshell]; decide),
    if_neg (by rw [hargs]; decide), if_neg (Nat.not_lt.mpr hbytes), hidentity]
  show (if _ then _ else _) = _
  rw [if_neg (Nat.not_lt.mpr hinputs), htyped, ok_bind, hambient]

theorem fullContext_validate : fullContext.validate = .ok () := by
  refine RequestContext.validate_of (by decide) (by decide) (by decide)
    ?_ ?_ rfl ?_ (validate_singleton (Nat.le_refl _)) (validate_singleton (Nat.le_refl _))
  · show ([controls 65536].length > 128 || [controls 65536].any (hasChar · nul)) = false
    rw [List.any_cons, hasChar_controls]
    decide
  · show ([controls 65536].map byteLen).sum ≤ 65536
    rw [List.map_singleton, List.sum_singleton, byteLen_controls]
  · exact of_decide_eq_true rfl

def fullEnvelope : BackendRequestEnvelope := {
  request_id := "prepare"
  request := .Prepare fullContext }

theorem fullEnvelope_validate : fullEnvelope.validate = .ok () := by
  have hid : isRequestId fullEnvelope.request_id = true := by decide
  have hcontext : fullContext.validate.mapError BackendProtocolError.InvalidContext = .ok () := by
    rw [fullContext_validate]
    rfl
  unfold BackendRequestEnvelope.validate
  rw [if_neg (by decide), hid, if_neg (by decide)]
  exact (if_neg (by decide)).trans hcontext

theorem le_byteLen_mapJson (value : String) :
    byteLen (quoted value) ≤ byteLen (mapJson (Std.ExtTreeMap.insert ∅ "A" value)) := by
  have hobject := le_byteLen_object [("A", quoted value)]
  rw [List.map_singleton, List.sum_singleton] at hobject
  unfold mapJson
  rw [toList_singleton, List.map_singleton]
  exact hobject

/-- The collections of a context are part of its text. -/
theorem le_byteLen_context (h : context.shell_args ≠ []) :
    byteLen (array (context.shell_args.map quoted)) +
        byteLen (mapJson context.typed_runtime_inputs) +
        byteLen (mapJson context.filtered_ambient_environment) ≤ byteLen context.json := by
  unfold RequestContext.json
  refine le_trans ?_ (le_byteLen_object _)
  rw [if_neg h]
  simp only [List.map_append, List.sum_append, List.map_cons, List.map_nil, List.sum_cons,
    List.sum_nil]
  omega

/-- A context is part of the text of its message. -/
theorem le_byteLen_prepare (request_id : String) (context : RequestContext) :
    byteLen context.json ≤
      byteLen (BackendRequestEnvelope.mk ⟨request_id, .Prepare context⟩ 5).json := by
  have hrequest := le_byteLen_object [("type", quoted "prepare"), ("context", context.json)]
  have henvelope := le_byteLen_object [("protocol", toString (5 : UInt16).toNat),
    ("request_id", quoted request_id), ("request", (BackendRequest.Prepare context).json)]
  simp only [List.map_cons, List.map_nil, List.sum_cons, List.sum_nil] at hrequest henvelope
  unfold BackendRequestEnvelope.json
  simp only [BackendRequest.json] at henvelope ⊢
  omega

theorem le_byteLen_filledContext (arg value : String) :
    byteLen (quoted arg) + 2 * byteLen (quoted value) ≤ byteLen (filledContext arg value).json := by
  have hargs := le_byteLen_array [quoted arg]
  have hmap := le_byteLen_mapJson value
  have hnonempty : (filledContext arg value).shell_args ≠ [] := List.cons_ne_nil _ _
  have hshell : (filledContext arg value).shell_args.map quoted = [quoted arg] := rfl
  have htyped : (filledContext arg value).typed_runtime_inputs =
      Std.ExtTreeMap.insert ∅ "A" value := rfl
  have hambient : (filledContext arg value).filtered_ambient_environment =
      Std.ExtTreeMap.insert ∅ "A" value := rfl
  have hcontext := le_byteLen_context hnonempty
  rw [hshell, htyped, hambient] at hcontext
  rw [List.map_singleton, List.sum_singleton] at hargs
  omega

/-- The raw limits do not keep a request within a frame. -/
theorem full_request_exceeds_the_frame :
    ¬ ∀ envelope : BackendRequestEnvelope, envelope.validate = .ok () →
      envelope.request.TextsWithin 4096 →
        (asBytes envelope.json).length ≤ MAX_BACKEND_FRAME_BYTES := by
  intro h
  have hcwd : byteLen fullContext.cwd ≤ 4096 := by decide
  have hshell : byteLen fullContext.shell ≤ 4096 := by decide
  have hfits := h fullEnvelope fullEnvelope_validate ⟨hcwd, hshell⟩
  have hfilled := le_byteLen_filledContext (controls 65536) (controls 65535)
  have harg : byteLen (quoted (controls 65536)) = 2 + 6 * 65536 :=
    byteLen_quoted_replicate (by decide) 65536
  have hvalue : byteLen (quoted (controls 65535)) = 2 + 6 * 65535 :=
    byteLen_quoted_replicate (by decide) 65535
  have henvelope := le_byteLen_prepare "prepare" (filledContext (controls 65536) (controls 65535))
  rw [harg, hvalue] at hfilled
  have hlarge := (hfilled.trans henvelope).trans ((length_asBytes _).ge.trans hfits)
  exact absurd hlarge (by decide)

end dev_env
