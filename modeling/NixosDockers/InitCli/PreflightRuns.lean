-- The handoff in every run: what is executed was checked, committed and released; what is
-- reported happened; and both processes come to an end (`container-init-cli`: `preflight.rs`,
-- `application.rs`).
import NixosDockers.InitCli.Preflight

open cursors length_frames traces

namespace init_cli

/-! ## The frames -/

theorem readSpecFrame_frame {payload tail : List UInt8} (hne : payload.length ≠ 0)
    (hfits : payload.length ≤ MAX_HANDOFF_SPEC_BYTES) :
    readSpecFrame (specFrame payload ++ tail) = .Whole payload tail := by
  have hlt : payload.length < 256 ^ 4 := by
    have hmax : MAX_HANDOFF_SPEC_BYTES = 16777216 := rfl
    omega
  have hlength : 4 ≤ (frame 4 payload).length := by
    rw [length_frame]
    omega
  unfold readSpecFrame specFrame
  rw [if_neg (by rw [List.length_append]; omega)]
  dsimp only
  rw [List.take_append_of_le_length hlength, take_frame, fromBe_toBe hlt,
    readPiece_frame hlt, if_neg]
  rw [Bool.or_eq_true, decide_eq_true_eq, decide_eq_true_eq]
  omega

/-- A part of the frame keeps the helper waiting. -/
theorem readSpecFrame_start {payload bytes : List UInt8}
    (hfits : payload.length ≤ MAX_HANDOFF_SPEC_BYTES) (hstart : bytes <+: specFrame payload)
    (hless : bytes.length < (specFrame payload).length) : readSpecFrame bytes = .Partial := by
  have hlt : payload.length < 256 ^ 4 := by
    have hmax : MAX_HANDOFF_SPEC_BYTES = 16777216 := rfl
    omega
  unfold specFrame at hstart hless
  rw [length_frame] at hless
  unfold readSpecFrame
  split
  · rfl
  · rename_i hwidth
    obtain ⟨more, hmore⟩ := id hstart
    have htake : bytes.take 4 = toBe 4 payload.length := by
      rw [← take_frame, ← hmore, List.take_append_of_le_length (by omega)]
    dsimp only
    rw [htake, fromBe_toBe hlt, readPiece_start hlt hstart hless, if_neg]
    rw [Bool.or_eq_true, decide_eq_true_eq, decide_eq_true_eq]
    omega

theorem flatten_errorWrites {message : List UInt8} :
    (errorWrites message).flatten = ERROR :: frame 2 (errorText message) := by
  simp [errorWrites, frame]

theorem length_errorText_lt {message : List UInt8} : (errorText message).length < 256 ^ 2 := by
  rw [errorText, List.length_take]
  omega

/-- Behind the tag, a part of an error is waited for or is the whole text. -/
theorem readErrorBody_start {message bytes : List UInt8}
    (h : ERROR :: bytes <+: (errorWrites message).flatten) :
    readErrorBody bytes = .Partial ∨
      bytes = frame 2 (errorText message) ∧ readErrorBody bytes = .Whole (errorText message) [] := by
  rw [flatten_errorWrites, List.cons_prefix_cons] at h
  obtain ⟨-, hstart⟩ := h
  rcases Nat.lt_or_ge bytes.length (2 + (errorText message).length) with hless | hge
  · exact .inl (readPiece_start length_errorText_lt hstart hless)
  · have heq : bytes = frame 2 (errorText message) :=
      hstart.eq_of_length_le (by rw [length_frame]; exact hge)
    refine .inr ⟨heq, ?_⟩
    have hwhole := @readPiece_frame 2 (errorText message) [] length_errorText_lt
    rwa [List.append_nil, ← heq] at hwhole

/-! ## What the helper has written -/

/-- The bytes that the parent has read of what the helper wrote, while it still reads. -/
def Parent.consumed : Parent → Option (List UInt8)
  | .Prepared | .Writing | .Waiting .ForReady => some []
  | .ReadingError .ForReady => some [ERROR]
  | .Committing | .Releasing | .Waiting .ForExec => some [READY]
  | .ReadingError .ForExec => some [READY, ERROR]
  | .Watching | .AbortingWrite _ _ | .AbortingKill _ _ | .AbortingWait _ _ | .AbortingBackend _
  | .Returned _ => none

/-- What stands before the text of an error: nothing when a check has failed, the message of
readiness when `exec` has. -/
def Lead (setting : Setting) (lead message : List UInt8) : Prop :=
  (lead = [] ∧ ∃ text, verify setting.process setting.spec = .error text ∧
    message = setting.bytes text) ∨
  (lead = [READY] ∧ verify setting.process setting.spec = .ok ())

/-- What a helper has written in all, by where it is. -/
def Stream (setting : Setting) : Helper → List UInt8 → Prop
  | .Absent, stream | .Loading, stream | .Checking _, stream | .Announcing _, stream => stream = []
  | .Awaiting _, stream | .Released _, stream | .Execing _, stream | .Running _, stream =>
    stream = [READY] ∧ verify setting.process setting.spec = .ok ()
  | .Reporting writes _, stream => ∃ lead message written, Lead setting lead message ∧
    errorWrites message = written ++ writes ∧ stream = lead ++ written.flatten
  | .Ended _, stream => stream = [] ∨ ∃ lead message part, Lead setting lead message ∧
    part <+: (errorWrites message).flatten ∧ stream = lead ++ part

variable {setting : Setting} {helper : Helper} {stream rest : List UInt8}

/-- A helper that ends leaves what it has written. -/
theorem Stream.ended (status : ExitStatus) (h : Stream setting helper stream) :
    Stream setting (.Ended status) stream := by
  cases helper with
  | Absent | Loading | Checking | Announcing => exact .inl h
  | Awaiting | Released | Execing | Running =>
    obtain ⟨hstream, hverify⟩ := h
    refine .inr ⟨[READY], [], [], .inr ⟨rfl, hverify⟩, List.nil_prefix, ?_⟩
    rw [hstream, List.append_nil]
  | Reporting writes code =>
    obtain ⟨lead, message, written, hlead, hwrites, hstream⟩ := h
    refine .inr ⟨lead, message, written.flatten, hlead, ?_, hstream⟩
    rw [hwrites, List.flatten_append]
    exact List.prefix_append _ _
  | Ended => exact h

/-- A message of readiness comes from a helper that has passed its checks. -/
theorem Stream.ready (h : Stream setting helper (READY :: rest)) :
    verify setting.process setting.spec = .ok () := by
  rcases h.ended (.Code 0) with hnil | ⟨lead, message, part, hlead, hpart, hstream⟩
  · cases hnil
  · rcases hlead with ⟨rfl, -⟩ | ⟨-, hverify⟩
    · rw [List.nil_append] at hstream
      rw [← hstream, flatten_errorWrites, List.cons_prefix_cons] at hpart
      exact absurd hpart.1 (by decide)
    · exact hverify

/-- An error without readiness is what a check of the helper has told. -/
theorem Stream.refusal (h : Stream setting helper (ERROR :: rest)) :
    ∃ text, verify setting.process setting.spec = .error text ∧
      ERROR :: rest <+: (errorWrites (setting.bytes text)).flatten := by
  rcases h.ended (.Code 0) with hnil | ⟨lead, message, part, hlead, hpart, hstream⟩
  · cases hnil
  · rcases hlead with ⟨rfl, text, hverify, rfl⟩ | ⟨rfl, -⟩
    · rw [List.nil_append] at hstream
      exact ⟨text, hverify, hstream ▸ hpart⟩
    · rw [List.singleton_append, List.cons.injEq] at hstream
      exact absurd hstream.1 (by decide)

/-- Behind the message of readiness there can be an error only. -/
theorem Stream.after_ready (h : Stream setting helper (READY :: rest)) :
    ∃ message, rest <+: (errorWrites message).flatten := by
  rcases h.ended (.Code 0) with hnil | ⟨lead, message, part, hlead, hpart, hstream⟩
  · cases hnil
  · rcases hlead with ⟨rfl, -⟩ | ⟨rfl, -⟩
    · rw [List.nil_append] at hstream
      rw [← hstream, flatten_errorWrites, List.cons_prefix_cons] at hpart
      exact absurd hpart.1 (by decide)
    · rw [List.singleton_append, List.cons.injEq] at hstream
      exact ⟨message, hstream.2 ▸ hpart⟩

/-- The first byte is a tag of the protocol. -/
theorem Stream.tag {tag : UInt8} (h : Stream setting helper (tag :: rest)) :
    tag = READY ∨ tag = ERROR := by
  rcases h.ended (.Code 0) with hnil | ⟨lead, message, part, hlead, hpart, hstream⟩
  · cases hnil
  · rcases hlead with ⟨rfl, -⟩ | ⟨rfl, -⟩
    · rw [List.nil_append] at hstream
      rw [← hstream, flatten_errorWrites, List.cons_prefix_cons] at hpart
      exact .inr hpart.1
    · rw [List.singleton_append, List.cons.injEq] at hstream
      exact .inl hstream.1

/-- The bytes that the helper writes come behind those it has written. -/
theorem Stream.reported {write : List UInt8} {writes : List (List UInt8)} {code : ℕ}
    (h : Stream setting (.Reporting (write :: writes) code) stream) :
    Stream setting (.Reporting writes code) (stream ++ write) := by
  obtain ⟨lead, message, written, hlead, hwrites, rfl⟩ := h
  refine ⟨lead, message, written ++ [write], hlead, ?_, ?_⟩
  · rw [hwrites, List.append_assoc, List.singleton_append]
  · rw [List.flatten_append, List.flatten_singleton, List.append_assoc]

/-! ## Where the two processes are -/

/-- The spec that the helper has read. -/
def Helper.spec : Helper → Option HandoffSpec
  | .Checking spec | .Announcing spec | .Awaiting spec | .Released spec | .Execing spec
  | .Running spec => some spec
  | .Absent | .Loading | .Reporting _ _ | .Ended _ => none

def Helper.checked : Helper → Bool
  | .Announcing _ | .Awaiting _ | .Released _ | .Execing _ | .Running _ => true
  | _ => false

/-- The helper has read its release. -/
def Helper.going : Helper → Bool
  | .Released _ | .Execing _ | .Running _ => true
  | _ => false

/-- The parent writes nothing more, or has not begun to. -/
def Parent.cut : Parent → Bool
  | .Prepared | .Writing | .AbortingKill _ _ | .AbortingWait _ _ | .AbortingBackend _
  | .Returned _ => true
  | _ => false

namespace State

variable {s s' : State} {e : Event}

/-- What the helper knows and has written, and what waits for it. -/
structure Sound (setting : Setting) (s : State) : Prop where
  held : ∀ spec, s.helper.spec = some spec → spec = setting.spec
  checked : s.helper.checked = true → verify setting.process setting.spec = .ok ()
  stream : ∀ bytes, s.parent.consumed = some bytes →
    Stream setting s.helper (bytes ++ s.to_parent)
  prepared : s.parent = .Prepared → s.helper = .Absent ∧ s.to_helper = []
  writing : s.parent = .Writing → s.helper.spec = none ∧ s.to_helper = []
  fits : s.helper = .Loading → setting.specFits = true
  inbox : s.helper = .Loading →
    (∃ tail, s.to_helper = specFrame setting.payload ++ tail ∧
      (COMMIT ∈ tail → s.released = true)) ∨
    (s.to_helper <+: specFrame setting.payload ∧ s.parent.cut = true)
  loaded : s.helper.spec ≠ none → COMMIT ∈ s.to_helper → s.released = true
  going : s.helper.going = true → s.released = true

/-- The helper goes on, with what its new place needs. -/
theorem Sound.of_helper (hs : s.Sound setting) (hparent : s'.parent = s.parent)
    (hto : ∀ byte ∈ s'.to_helper, byte ∈ s.to_helper) (hempty : s.to_helper = [] → s'.to_helper = [])
    (hreleased : s'.released = s.released)
    (hloading : s'.helper ≠ .Loading) (hprepared : s.helper ≠ .Absent)
    (hheld : ∀ spec, s'.helper.spec = some spec → s.helper.spec = some spec)
    (hchecked : s'.helper.checked = true → verify setting.process setting.spec = .ok ())
    (hstream : ∀ bytes, s.parent.consumed = some bytes →
      Stream setting s.helper (bytes ++ s.to_parent) →
      Stream setting s'.helper (bytes ++ s'.to_parent))
    (hgoing : s'.helper.going = true → s.released = true) : s'.Sound setting where
  held spec hspec := hs.held spec (hheld spec hspec)
  checked := hchecked
  stream bytes hbytes := by
    rw [hparent] at hbytes
    exact hstream bytes hbytes (hs.stream bytes hbytes)
  prepared h := absurd (hs.prepared (hparent ▸ h)).1 hprepared
  writing h := by
    obtain ⟨hnone, hnil⟩ := hs.writing (hparent ▸ h)
    refine ⟨Option.eq_none_iff_forall_ne_some.mpr fun spec hspec => ?_, hempty hnil⟩
    rw [hheld spec hspec] at hnone
    cases hnone
  fits h := absurd h hloading
  inbox h := absurd h hloading
  loaded hspec hmem := by
    rw [hreleased]
    refine hs.loaded (fun hnone => ?_) (hto _ hmem)
    obtain ⟨spec, hsome⟩ := Option.ne_none_iff_exists'.mp hspec
    rw [hheld spec hsome] at hnone
    cases hnone
  going h := by
    rw [hreleased]
    exact hgoing h

/-- The helper ends. -/
theorem Sound.of_end (hs : s.Sound setting) {status : ExitStatus} (h : s'.helper = .Ended status)
    (hparent : s'.parent = s.parent) (hempty : s.to_helper = [] → s'.to_helper = [])
    (hfrom : s'.to_parent = s.to_parent) (hprepared : s.helper ≠ .Absent) : s'.Sound setting where
  held spec hspec := by
    rw [h] at hspec
    cases hspec
  checked hchecked := by
    rw [h] at hchecked
    cases hchecked
  stream bytes hbytes := by
    rw [h, hfrom]
    exact (hs.stream bytes (hparent ▸ hbytes)).ended status
  prepared hprep := absurd (hs.prepared (hparent ▸ hprep)).1 hprepared
  writing hwriting := ⟨by rw [h]; rfl, hempty (hs.writing (hparent ▸ hwriting)).2⟩
  fits hloading := by
    rw [h] at hloading
    cases hloading
  inbox hloading := by
    rw [h] at hloading
    cases hloading
  loaded hspec := by
    rw [h] at hspec
    exact absurd rfl hspec
  going hgoing := by
    rw [h] at hgoing
    cases hgoing

/-- The parent goes on; it may have written and read. -/
theorem Sound.of_parent (hs : s.Sound setting) (hhelper : s'.helper = s.helper)
    (hreleased : s.released = true → s'.released = true)
    (hprepared : s'.parent ≠ .Prepared) (hwriting : s'.parent ≠ .Writing)
    (hstream : ∀ bytes, s'.parent.consumed = some bytes →
      ∃ before, s.parent.consumed = some before ∧ bytes ++ s'.to_parent = before ++ s.to_parent)
    (hinbox : s.helper = .Loading →
      (∃ tail, s'.to_helper = specFrame setting.payload ++ tail ∧
        (COMMIT ∈ tail → s'.released = true)) ∨
      (s'.to_helper <+: specFrame setting.payload ∧ s'.parent.cut = true))
    (hloaded : s.helper.spec ≠ none → COMMIT ∈ s'.to_helper → s'.released = true) :
    s'.Sound setting where
  held := by
    rw [hhelper]
    exact hs.held
  checked := by
    rw [hhelper]
    exact hs.checked
  stream bytes hbytes := by
    obtain ⟨before, hbefore, heq⟩ := hstream bytes hbytes
    rw [hhelper, heq]
    exact hs.stream before hbefore
  prepared h := absurd h hprepared
  writing h := absurd h hwriting
  fits := by
    rw [hhelper]
    exact hs.fits
  inbox := by
    rw [hhelper]
    exact hinbox
  loaded := by
    rw [hhelper]
    exact hloaded
  going := by
    rw [hhelper]
    exact fun h => hreleased (hs.going h)

/-- The parent goes on without writing. -/
theorem Sound.of_quiet_parent (hs : s.Sound setting) (hhelper : s'.helper = s.helper)
    (hreleased : s'.released = s.released) (hto : s'.to_helper = s.to_helper)
    (hprepared : s'.parent ≠ .Prepared) (hwriting : s'.parent ≠ .Writing)
    (hcut : s.parent.cut = true → s'.parent.cut = true)
    (hstream : ∀ bytes, s'.parent.consumed = some bytes →
      ∃ before, s.parent.consumed = some before ∧ bytes ++ s'.to_parent = before ++ s.to_parent) :
    s'.Sound setting := by
  refine hs.of_parent hhelper (fun h => by rw [hreleased, h]) hprepared hwriting hstream ?_ ?_
  · intro hloading
    rw [hto, hreleased]
    exact (hs.inbox hloading).imp_right (And.imp_right hcut)
  · rw [hto, hreleased]
    exact hs.loaded

theorem absent_of_alive {helper : Helper} (h : helper.alive = true) : helper ≠ .Absent := by
  rintro rfl
  cases h

/-- A signal that the parent sends ends the helper if it is there. -/
theorem Sound.of_kill (hs : s.Sound setting) {backend : Bool} {error : HandoffError} :
    ({ s with
      parent := .AbortingWait backend error
      helper := s.helper.killed SIGKILL } : State).Sound setting := by
  have hquiet : ({ s with parent := .AbortingWait backend error } : State).Sound setting :=
    hs.of_quiet_parent rfl rfl rfl nofun nofun (fun _ => rfl) nofun
  unfold Helper.killed
  split
  · rename_i halive
    exact hquiet.of_end rfl rfl id rfl (absent_of_alive halive)
  · exact hquiet

/-- The word that follows an abort of the parent is no release. -/
theorem Sound.of_abort (hs : s.Sound setting) {backend ok : Bool} {error : HandoffError}
    (h : s.parent = .AbortingWrite backend error) :
    ({ s with
      parent := .AbortingKill backend error
      to_helper := if ok then s.to_helper ++ [ABORT] else s.to_helper } : State).Sound setting := by
  have hmem : ∀ {bytes : List UInt8}, COMMIT ∈ bytes ++ [ABORT] → COMMIT ∈ bytes := by
    intro bytes hmem
    rcases List.mem_append.mp hmem with hmem | hmem
    · exact hmem
    · exact absurd (List.mem_singleton.mp hmem) (by decide)
  refine hs.of_parent rfl id nofun nofun nofun (fun hloading => ?_) (fun hspec hcommit => ?_)
  · rcases hs.inbox hloading with ⟨tail, htail, hreleased⟩ | ⟨-, hcut⟩
    · left
      dsimp only
      split
      · exact ⟨tail ++ [ABORT], by rw [htail, List.append_assoc], fun h => hreleased (hmem h)⟩
      · exact ⟨tail, htail, hreleased⟩
    · rw [h] at hcut
      cases hcut
  · dsimp only at hcommit
    split at hcommit
    · exact hs.loaded hspec (hmem hcommit)
    · exact hs.loaded hspec hcommit

/-- The helper reads the frame that the parent has written, and nothing else. -/
theorem Sound.loaded_frame (hs : s.Sound setting) {payload rest : List UInt8}
    (h : s.helper = .Loading) (hbytes : readSpecFrame s.to_helper = .Whole payload rest) :
    payload = setting.payload ∧ (COMMIT ∈ rest → s.released = true) := by
  have hfits := hs.fits h
  simp only [Setting.specFits, Bool.and_eq_true, decide_eq_true_eq] at hfits
  obtain ⟨hne, hle⟩ := hfits
  have hframe : ∀ tail, s.to_helper = specFrame setting.payload ++ tail →
      payload = setting.payload ∧ rest = tail := by
    intro tail htail
    rw [htail, readSpecFrame_frame hne hle, SpecFrame.Whole.injEq] at hbytes
    exact ⟨hbytes.1.symm, hbytes.2.symm⟩
  rcases hs.inbox h with ⟨tail, htail, hreleased⟩ | ⟨hstart, -⟩
  · obtain ⟨hpayload, rfl⟩ := hframe tail htail
    exact ⟨hpayload, hreleased⟩
  · rcases Nat.lt_or_ge s.to_helper.length (specFrame setting.payload).length with hless | hge
    · rw [readSpecFrame_start hle hstart hless] at hbytes
      cases hbytes
    · obtain ⟨hpayload, rfl⟩ := hframe [] (by rw [hstart.eq_of_length_le hge, List.append_nil])
      exact ⟨hpayload, nofun⟩

theorem Sound.of_load (hs : s.Sound setting) {rest : List UInt8} (h : s.helper = .Loading)
    (hnil : s.to_helper ≠ []) (hrest : COMMIT ∈ rest → s.released = true) :
    ({ s with helper := .Checking setting.spec, to_helper := rest } : State).Sound setting where
  held := by
    rintro spec ⟨⟩
    rfl
  checked := nofun
  stream bytes hbytes := by
    have hstream := hs.stream bytes hbytes
    rw [h] at hstream
    exact hstream
  prepared hprepared := by
    have habsent := (hs.prepared hprepared).1
    rw [h] at habsent
    cases habsent
  writing hwriting := absurd (hs.writing hwriting).2 hnil
  fits := nofun
  inbox := nofun
  loaded _ := hrest
  going := nofun

/-- The helper has an error to tell. -/
theorem Sound.of_report (hs : s.Sound setting) {writes : List (List UInt8)} {code : ℕ}
    (h : s'.helper = .Reporting writes code) (hparent : s'.parent = s.parent)
    (hto : s'.to_helper = s.to_helper) (hreleased : s'.released = s.released)
    (hprepared : s.helper ≠ .Absent)
    (hstream : ∀ bytes, s.parent.consumed = some bytes →
      Stream setting s.helper (bytes ++ s.to_parent) →
      Stream setting (.Reporting writes code) (bytes ++ s'.to_parent)) : s'.Sound setting := by
  refine hs.of_helper hparent (by rw [hto]; exact fun _ => id) (by rw [hto]; exact id) hreleased
    ?_ hprepared ?_ ?_ ?_ ?_
  · rw [h]
    nofun
  · intro spec hspec
    rw [h] at hspec
    cases hspec
  · rw [h]
    nofun
  · rw [h]
    exact hstream
  · rw [h]
    nofun

theorem Sound.moves (h : Moves setting s e s')
    (hdecode : setting.decode setting.payload = some setting.spec) (hs : s.Sound setting) :
    s'.Sound setting := by
  cases h with
  | spawned h hfits =>
    obtain ⟨habsent, hnil⟩ := hs.prepared h
    have hstream := hs.stream [] (by rw [h]; rfl)
    rw [habsent] at hstream
    exact
      { held := fun spec hspec => by cases hspec
        checked := nofun
        stream := by
          rintro bytes ⟨⟩
          exact hstream
        prepared := nofun
        writing := fun _ => ⟨rfl, hnil⟩
        fits := fun _ => hfits
        inbox := fun _ => .inr ⟨by rw [show _ = s.to_helper from rfl, hnil]; exact List.nil_prefix, rfl⟩
        loaded := fun hspec => absurd rfl hspec
        going := nofun }
  | unspawned h => exact hs.of_quiet_parent rfl rfl rfl nofun nofun (fun _ => rfl) nofun
  | specWritten h =>
    refine hs.of_parent rfl id nofun nofun ?_ (fun _ => .inl ⟨[], (List.append_nil _).symm, nofun⟩) ?_
    · rintro bytes ⟨⟩
      exact ⟨[], by rw [h]; rfl, rfl⟩
    · exact fun hspec => absurd (hs.writing h).1 hspec
  | specCut h =>
    refine hs.of_parent rfl id nofun nofun nofun (fun _ => .inr ⟨List.take_prefix _ _, rfl⟩) ?_
    exact fun hspec => absurd (hs.writing h).1 hspec
  | closedEarly h | closed h | invalidTag h | errorRead h | errorCut h | expired h | uncommitted h
  | unreleased h | readyAgain h =>
    exact hs.of_quiet_parent rfl rfl rfl nofun nofun (by rw [h]; nofun) nofun
  | ready h hbytes =>
    refine hs.of_quiet_parent rfl rfl rfl nofun nofun (by rw [h]; nofun) ?_
    rintro bytes ⟨⟩
    exact ⟨[], by rw [h]; rfl, by rw [hbytes]; rfl⟩
  | errorTag h hbytes =>
    rename_i stage rest
    refine hs.of_quiet_parent rfl rfl rfl nofun nofun (by rw [h]; nofun) fun bytes hbytes' => ?_
    cases stage with
    | ForReady =>
      cases hbytes'
      exact ⟨[], by rw [h]; rfl, by rw [hbytes]; rfl⟩
    | ForExec =>
      cases hbytes'
      exact ⟨[READY], by rw [h]; rfl, by rw [hbytes]; rfl⟩
  | committed h =>
    refine hs.of_quiet_parent rfl rfl rfl nofun nofun (by rw [h]; nofun) ?_
    rintro bytes ⟨⟩
    exact ⟨[READY], by rw [h]; rfl, rfl⟩
  | released h =>
    refine hs.of_parent rfl (fun _ => rfl) nofun nofun ?_ (fun hloading => ?_) (fun _ _ => rfl)
    · rintro bytes ⟨⟩
      exact ⟨[READY], by rw [h]; rfl, rfl⟩
    · have hstream := hs.stream [READY] (by rw [h]; rfl)
      rw [hloading] at hstream
      cases hstream
  | watched h | unwatched h | backendAborted h =>
    exact hs.of_quiet_parent rfl rfl rfl nofun nofun (fun _ => rfl) nofun
  | abortWritten h => exact hs.of_abort h
  | killed => exact hs.of_kill
  | reaped h hended => 
    refine hs.of_quiet_parent rfl rfl rfl ?_ ?_ ?_ ?_
    · dsimp only
      split <;> nofun
    · dsimp only
      split <;> nofun
    · intro _
      dsimp only
      split <;> rfl
    · dsimp only
      split <;> nofun
  | loadCut h | loadRefused h =>
    exact hs.of_end rfl rfl id rfl (by rw [h]; nofun)
  | loadInvalid h hbytes hnone =>
    obtain ⟨rfl, -⟩ := hs.loaded_frame h hbytes
    rw [hdecode] at hnone
    cases hnone
  | loaded h hbytes hspec =>
    obtain ⟨rfl, hrest⟩ := hs.loaded_frame h hbytes
    rw [hdecode] at hspec
    cases hspec
    refine hs.of_load h (fun hnil => ?_) hrest
    rw [hnil] at hbytes
    cases hbytes
  | checkFailed h hverify =>
    rename_i spec text
    obtain rfl := hs.held spec (by rw [h]; rfl)
    refine hs.of_report rfl rfl rfl rfl (by rw [h]; nofun) fun bytes _ hstream => ?_
    rw [h] at hstream
    refine ⟨[], setting.bytes text, [], .inl ⟨rfl, text, hverify, rfl⟩, rfl, ?_⟩
    rw [show bytes ++ s.to_parent = [] from hstream]
    rfl
  | checkPassed h hverify =>
    rename_i spec
    obtain rfl := hs.held spec (by rw [h]; rfl)
    refine hs.of_helper rfl (fun _ => id) id rfl nofun (by rw [h]; nofun) ?_ (fun _ => hverify) ?_
      nofun
    · rw [h]
      exact fun _ => id
    · intro bytes _ hstream
      rw [h] at hstream
      exact hstream
  | announced h hopen =>
    have hverify := hs.checked (by rw [h]; rfl)
    refine hs.of_helper rfl (fun _ => id) id rfl nofun (by rw [h]; nofun) ?_ (fun _ => hverify) ?_
      nofun
    · rw [h]
      exact fun _ => id
    · intro bytes _ hstream
      rw [h] at hstream
      refine ⟨?_, hverify⟩
      rw [← List.append_assoc, show bytes ++ s.to_parent = [] from hstream]
      rfl
  | unannounced h | releaseLost h | cloexecFailed h | reportEnded h | exited h =>
    exact hs.of_end rfl rfl id rfl (by rw [h]; nofun)
  | releaseRead h hbytes =>
    have hverify := hs.checked (by rw [h]; rfl)
    have hreleased := hs.loaded (by rw [h]; nofun) (by rw [hbytes]; exact List.mem_cons_self)
    refine hs.of_helper rfl ?_ ?_ rfl nofun (by rw [h]; nofun) ?_ (fun _ => hverify) ?_
      (fun _ => hreleased)
    · rw [hbytes]
      exact fun byte => List.mem_cons_of_mem _
    · rw [hbytes]
      nofun
    · rw [h]
      exact fun _ => id
    · intro bytes _ hstream
      rw [h] at hstream
      exact hstream
  | releaseRefused h hbytes =>
    exact hs.of_end rfl rfl (by rw [hbytes]; nofun) rfl (by rw [h]; nofun)
  | cloexec h | executed h =>
    have hverify := hs.checked (by rw [h]; rfl)
    have hreleased := hs.going (by rw [h]; rfl)
    refine hs.of_helper rfl (fun _ => id) id rfl nofun (by rw [h]; nofun) ?_ (fun _ => hverify) ?_
      (fun _ => hreleased)
    · rw [h]
      exact fun _ => id
    · intro bytes _ hstream
      rw [h] at hstream
      exact hstream
  | execFailed h =>
    rename_i spec message
    refine hs.of_report rfl rfl rfl rfl (by rw [h]; nofun) fun bytes _ hstream => ?_
    rw [h] at hstream
    refine ⟨[READY], message, [], .inr ⟨rfl, hstream.2⟩, rfl, ?_⟩
    rw [show bytes ++ s.to_parent = [READY] from hstream.1]
    rfl
  | reported h =>
    refine hs.of_report rfl rfl rfl rfl (by rw [h]; nofun) fun bytes hbytes hstream => ?_
    rw [h] at hstream
    have hopen : s.parent.isOpen = true := by
      cases hparent : s.parent with
      | Returned => rw [hparent] at hbytes; cases hbytes
      | _ => rfl
    dsimp only
    rw [if_pos hopen, ← List.append_assoc]
    exact hstream.reported
  | died h => exact hs.of_end rfl rfl id rfl (absent_of_alive h)

/-! ## The transaction and the release -/

end State

/-- Whether the commit was answered with success, by where the parent is. -/
def Parent.pastCommit : Parent → Option Bool
  | .Prepared | .Writing | .Waiting .ForReady | .ReadingError .ForReady | .Committing
  | .AbortingBackend _ => some false
  | .Releasing | .Waiting .ForExec | .ReadingError .ForExec | .Watching => some true
  | .AbortingWrite backend _ | .AbortingKill backend _ | .AbortingWait backend _ => some !backend
  | .Returned _ => none

def Parent.pastRelease : Parent → Bool
  | .Waiting .ForExec | .ReadingError .ForExec | .Watching => true
  | _ => false

/-- The parent has waited for the end of the helper. -/
def Parent.pastWait : Parent → Bool
  | .AbortingWait _ _ | .AbortingBackend _ => true
  | .Returned (.error error) => error ≠ .WaitFailed
  | _ => false

/-- Nothing is executed here, and no success is told. -/
def Helper.silent : Helper → Bool
  | .Running _ => false
  | .Reporting _ code => code ≠ 0
  | .Ended status => status ≠ .Code 0
  | _ => true

/-- The error that the parent is on its way to return. -/
def Parent.error : Parent → Option HandoffError
  | .AbortingWrite _ error | .AbortingKill _ error | .AbortingWait _ error
  | .AbortingBackend error | .Returned (.error error) => some error
  | _ => none

namespace State

variable {s s' : State} {e : Event}

/-- What the backend and the helper have been told, by where the parent is. -/
structure Ledger (setting : Setting) (s : State) : Prop where
  balance : ∀ b, s.parent.pastCommit = some b → s.committed = b ∧ s.aborts = 0
  let_go : s.parent.pastRelease = true → s.released = true
  order : s.released = true → s.committed = true
  answered : s.committed = true → s.asked = true
  verified : s.asked = true → verify setting.process setting.spec = .ok ()
  succeeded : ∀ n, s.parent = .Returned (.ok n) →
    s.released = true ∧ s.aborts = 0 ∧ ∃ status, s.helper = .Ended status ∧ n = status.value
  failed : ∀ error, s.parent = .Returned (.error error) →
    (s.committed = false ∧ s.aborts = 1) ∨ (s.committed = true ∧ s.aborts = 0)

theorem Ledger.of_helper (hs : s.Ledger setting) (hparent : s'.parent = s.parent)
    (hcommitted : s'.committed = s.committed) (haborts : s'.aborts = s.aborts)
    (hreleased : s'.released = s.released) (hasked : s'.asked = s.asked)
    (hended : ∀ status, s.helper = .Ended status → s'.helper = .Ended status) :
    s'.Ledger setting where
  balance := by
    rw [hparent, hcommitted, haborts]
    exact hs.balance
  let_go := by
    rw [hparent, hreleased]
    exact hs.let_go
  order := by
    rw [hreleased, hcommitted]
    exact hs.order
  answered := by
    rw [hcommitted, hasked]
    exact hs.answered
  verified := by
    rw [hasked]
    exact hs.verified
  succeeded n hn := by
    rw [hparent] at hn
    rw [hreleased, haborts]
    obtain ⟨hreleased, haborts, status, hstatus, hvalue⟩ := hs.succeeded n hn
    exact ⟨hreleased, haborts, status, hended status hstatus, hvalue⟩
  failed := by
    rw [hparent, hcommitted, haborts]
    exact hs.failed

/-- The parent goes on where the same has happened. -/
theorem Ledger.of_parent (hs : s.Ledger setting) {b : Bool}
    (hbefore : s.parent.pastCommit = some b) (hafter : s'.parent.pastCommit = some b)
    (hcommitted : s'.committed = s.committed) (haborts : s'.aborts = s.aborts)
    (hreleased : s'.released = s.released) (hasked : s'.asked = s.asked)
    (hlet_go : s'.parent.pastRelease = true → s.parent.pastRelease = true) :
    s'.Ledger setting where
  balance c hc := by
    rw [hafter] at hc
    obtain rfl := Option.some.inj hc
    rw [hcommitted, haborts]
    exact hs.balance b hbefore
  let_go h := by
    rw [hreleased]
    exact hs.let_go (hlet_go h)
  order := by
    rw [hreleased, hcommitted]
    exact hs.order
  answered := by
    rw [hcommitted, hasked]
    exact hs.answered
  verified := by
    rw [hasked]
    exact hs.verified
  succeeded n hn := by
    rw [hn] at hafter
    cases hafter
  failed error herror := by
    rw [herror] at hafter
    cases hafter

theorem Stage.pastCommit_waiting {stage : Stage} :
    (Parent.Waiting stage).pastCommit = some !stage.backend := by
  cases stage <;> rfl

theorem Stage.pastCommit_reading {stage : Stage} :
    (Parent.ReadingError stage).pastCommit = some !stage.backend := by
  cases stage <;> rfl

theorem Ledger.moves (h : Moves setting s e s') (hsound : s.Sound setting)
    (hs : s.Ledger setting) : s'.Ledger setting := by
  cases h with
  | spawned h | specWritten h | specCut h | unspawned h | closedEarly h | ready h | readyAgain h
  | unreleased h =>
    exact hs.of_parent (by rw [h]; rfl) rfl rfl rfl rfl rfl nofun
  | closed h => exact hs.of_parent (by rw [h]; rfl) rfl rfl rfl rfl rfl fun _ => by rw [h]; rfl
  | errorTag h =>
    rename_i stage rest hbytes
    refine hs.of_parent (by rw [h]; exact Stage.pastCommit_waiting) Stage.pastCommit_reading rfl rfl
      rfl rfl fun hpast => ?_
    rw [h]
    cases stage with
    | ForReady => cases hpast
    | ForExec => rfl
  | invalidTag h | expired h =>
    exact hs.of_parent (by rw [h]; exact Stage.pastCommit_waiting) rfl rfl rfl rfl rfl nofun
  | errorRead h | errorCut h =>
    exact hs.of_parent (by rw [h]; exact Stage.pastCommit_reading) rfl rfl rfl rfl rfl nofun
  | committed h =>
    have hbefore := hs.balance false (by rw [h]; rfl)
    have hready := hsound.stream [READY] (by rw [h]; rfl)
    exact
      { balance := by
          rintro b ⟨⟩
          exact ⟨rfl, hbefore.2⟩
        let_go := nofun
        order := fun _ => rfl
        answered := fun _ => rfl
        verified := fun _ => hready.ready
        succeeded := nofun
        failed := nofun }
  | uncommitted h =>
    have hbefore := hs.balance false (by rw [h]; rfl)
    have hready := hsound.stream [READY] (by rw [h]; rfl)
    exact
      { balance := by
          rintro b ⟨⟩
          exact hbefore
        let_go := nofun
        order := hs.order
        answered := fun _ => rfl
        verified := fun _ => hready.ready
        succeeded := nofun
        failed := nofun }
  | released h =>
    have hbefore := hs.balance true (by rw [h]; rfl)
    exact
      { balance := by
          rintro b ⟨⟩
          exact hbefore
        let_go := fun _ => rfl
        order := fun _ => hbefore.1
        answered := hs.answered
        verified := hs.verified
        succeeded := nofun
        failed := nofun }
  | watched h hended =>
    have hbefore := hs.balance true (by rw [h]; rfl)
    exact
      { balance := nofun
        let_go := nofun
        order := hs.order
        answered := hs.answered
        verified := hs.verified
        succeeded := by
          rintro n ⟨⟩
          exact ⟨hs.let_go (by rw [h]; rfl), hbefore.2, _, hended, rfl⟩
        failed := nofun }
  | unwatched h =>
    have hbefore := hs.balance true (by rw [h]; rfl)
    exact ⟨nofun, nofun, hs.order, hs.answered, hs.verified, nofun, fun _ _ => .inr hbefore⟩
  | abortWritten h | killed h => exact hs.of_parent (by rw [h]; rfl) rfl rfl rfl rfl rfl nofun
  | reaped h hended =>
    rename_i backend error status
    cases backend with
    | true => exact hs.of_parent (by rw [h]; rfl) rfl rfl rfl rfl rfl nofun
    | false =>
      have hbefore := hs.balance true (by rw [h]; rfl)
      exact ⟨nofun, nofun, hs.order, hs.answered, hs.verified, nofun, fun _ _ => .inr hbefore⟩
  | backendAborted h =>
    have hbefore := hs.balance false (by rw [h]; rfl)
    exact ⟨nofun, nofun, hs.order, hs.answered, hs.verified, nofun,
      fun _ _ => .inl ⟨hbefore.1, congrArg (· + 1) hbefore.2⟩⟩
  | loadCut h | loadRefused h | loadInvalid h | loaded h | checkFailed h | checkPassed h
  | announced h | unannounced h | releaseLost h | releaseRead h | releaseRefused h | cloexec h
  | cloexecFailed h | executed h | execFailed h | reported h | reportEnded h | exited h =>
    exact hs.of_helper rfl rfl rfl rfl rfl (by rw [h]; nofun)
  | died h =>
    refine hs.of_helper rfl rfl rfl rfl rfl fun status hstatus => ?_
    rw [hstatus] at h
    cases h

/-! ## What is executed and what is reported -/

/-- What an error of the parent tells. -/
def Explained (setting : Setting) : HandoffError → Prop
  | .InvalidMessage | .UnexpectedReady => False
  | .PreflightFailed message => ∃ text, verify setting.process setting.spec = .error text ∧
    message = errorText (setting.bytes text)
  | _ => True

/-- What was executed, how the helper ends, and what the parent says of it. -/
structure Outcome (setting : Setting) (s : State) : Prop where
  executed : ∀ spec, s.executed = some spec → spec = setting.spec ∧ s.released = true
  running : ∀ spec, s.helper = .Running spec → s.executed = some spec
  codes : ∀ writes code, s.helper = .Reporting writes code → code ≠ 0
  unexecuted : s.helper = .Ended (.Code 0) → s.executed ≠ none
  waited : s.parent.pastWait = true → s.helper.alive = false
  explained : ∀ error, s.parent.error = some error → Explained setting error

theorem Outcome.of_parent (hs : s.Outcome setting) (hhelper : s'.helper = s.helper)
    (hexecuted : s'.executed = s.executed) (hreleased : s.released = true → s'.released = true)
    (hwait : s'.parent.pastWait = true → s.helper.alive = false)
    (hexplained : ∀ error, s'.parent.error = some error → Explained setting error) :
    s'.Outcome setting where
  executed := by
    rw [hexecuted]
    exact fun spec hspec => (hs.executed spec hspec).imp_right hreleased
  running := by
    rw [hhelper, hexecuted]
    exact hs.running
  codes := by
    rw [hhelper]
    exact hs.codes
  unexecuted := by
    rw [hhelper, hexecuted]
    exact hs.unexecuted
  waited := by
    rw [hhelper]
    exact hwait
  explained := hexplained

/-- A live helper goes on, with nothing executed by it. -/
theorem Outcome.of_helper (hs : s.Outcome setting) (hparent : s'.parent = s.parent)
    (hexecuted : s'.executed = s.executed) (hreleased : s'.released = s.released)
    (halive : s.helper.alive = true) (hsilent : s'.helper.silent = true) :
    s'.Outcome setting where
  executed := by
    rw [hexecuted, hreleased]
    exact hs.executed
  running spec h := by
    rw [h] at hsilent
    cases hsilent
  codes writes code h := by
    rw [h] at hsilent
    exact of_decide_eq_true hsilent
  unexecuted h := by
    rw [h] at hsilent
    cases hsilent
  waited h := by
    have hdead := hs.waited (hparent ▸ h)
    rw [halive] at hdead
    cases hdead
  explained := by
    rw [hparent]
    exact hs.explained

/-- After the message of readiness no byte but the tag of an error comes. -/
theorem Sound.tag_of_waiting (hs : s.Sound setting) {stage : Stage} {tag : UInt8}
    {rest : List UInt8} (h : s.parent = .Waiting stage) (hbytes : s.to_parent = tag :: rest) :
    tag = ERROR ∨ tag = READY ∧ stage = .ForReady := by
  cases stage with
  | ForReady =>
    have hstream := hs.stream [] (by rw [h]; rfl)
    rw [hbytes, List.nil_append] at hstream
    exact hstream.tag.symm.imp_right fun htag => ⟨htag, rfl⟩
  | ForExec =>
    have hstream := hs.stream [READY] (by rw [h]; rfl)
    rw [hbytes, List.singleton_append] at hstream
    obtain ⟨message, hstart⟩ := hstream.after_ready
    rw [flatten_errorWrites, List.cons_prefix_cons] at hstart
    exact .inl hstart.1

theorem Sound.explained_error (hs : s.Sound setting) {stage : Stage} {message rest : List UInt8}
    (h : s.parent = .ReadingError stage) (hbody : readErrorBody s.to_parent = .Whole message rest) :
    Explained setting (stage.failed message) := by
  cases stage with
  | ForReady =>
    have hstream := hs.stream [ERROR] (by rw [h]; rfl)
    rw [List.singleton_append] at hstream
    obtain ⟨text, hverify, hstart⟩ := hstream.refusal
    rcases readErrorBody_start hstart with hshort | ⟨-, hwhole⟩
    · rw [hshort] at hbody
      cases hbody
    · rw [hwhole, Piece.Whole.injEq] at hbody
      exact ⟨text, hverify, hbody.1.symm⟩
  | ForExec => exact trivial

theorem killed_alive {signal : ℕ} {helper : Helper} : (helper.killed signal).alive = false := by
  unfold Helper.killed
  split
  · rfl
  · rename_i h
    exact Bool.not_eq_true _ ▸ h

theorem Outcome.of_kill (hs : s.Outcome setting) {backend : Bool} {error : HandoffError}
    (h : s.parent = .AbortingKill backend error) :
    ({ s with
      parent := .AbortingWait backend error
      helper := s.helper.killed SIGKILL } : State).Outcome setting := by
  have hexplained : ∀ other, some error = some other → Explained setting other := by
    rintro other ⟨⟩
    exact hs.explained error (by rw [h]; rfl)
  have hkilled : ∀ {helper : Helper}, helper.alive = false → s.helper.killed SIGKILL = helper →
      helper = s.helper ∨ helper = .Ended (.Signal SIGKILL) := by
    intro helper _ heq
    unfold Helper.killed at heq
    split at heq
    · exact .inr heq.symm
    · exact .inl heq.symm
  rcases hkilled killed_alive rfl with hsame | hended
  · have hdead : s.helper.alive = false := by
      rw [← hsame]
      exact killed_alive
    exact hs.of_parent hsame rfl id (fun _ => hdead) hexplained
  · exact
      { executed := hs.executed
        running := fun spec hspec => by rw [hended] at hspec; cases hspec
        codes := fun writes code hcode => by rw [hended] at hcode; cases hcode
        unexecuted := fun hzero => by rw [hended] at hzero; cases hzero
        waited := fun _ => killed_alive
        explained := hexplained }

theorem Outcome.of_exec (hs : s.Outcome setting) {spec : HandoffSpec} (hspec : spec = setting.spec)
    (hreleased : s.released = true) (halive : s.helper.alive = true) :
    ({ s with helper := .Running spec, executed := some spec } : State).Outcome setting where
  executed := by
    rintro other ⟨⟩
    exact ⟨hspec, hreleased⟩
  running := by
    rintro other ⟨⟩
    rfl
  codes _ _ h := by cases h
  unexecuted h := by cases h
  waited h := by
    have hdead := hs.waited h
    rw [halive] at hdead
    cases hdead
  explained := hs.explained

theorem Outcome.of_exit (hs : s.Outcome setting) {spec : HandoffSpec} {status : ExitStatus}
    (h : s.helper = .Running spec) :
    ({ s with helper := .Ended status } : State).Outcome setting where
  executed := hs.executed
  running _ h := by cases h
  codes _ _ h := by cases h
  unexecuted _ := by
    rw [show _ = s.executed from rfl, hs.running spec h]
    nofun
  waited _ := rfl
  explained := hs.explained

theorem Outcome.moves (h : Moves setting s e s') (hsound : s.Sound setting)
    (hs : s.Outcome setting) : s'.Outcome setting := by
  cases h with
  | spawned h =>
    obtain ⟨habsent, -⟩ := hsound.prepared h
    exact
      { executed := hs.executed
        running := fun _ h => by cases h
        codes := fun _ _ h => by cases h
        unexecuted := fun h => by cases h
        waited := nofun
        explained := nofun }
  | specWritten h | ready h | closed h | errorTag h | committed h | released h =>
    exact hs.of_parent rfl rfl (by first | exact id | exact fun _ => rfl) nofun nofun
  | specCut h | closedEarly h | uncommitted h | unreleased h =>
    refine hs.of_parent rfl rfl id nofun ?_
    rintro error ⟨⟩
    exact trivial
  | expired h | errorCut h =>
    refine hs.of_parent rfl rfl id nofun ?_
    rintro error ⟨⟩
    exact trivial
  | unspawned h =>
    refine hs.of_parent rfl rfl id (fun _ => by rw [(hsound.prepared h).1]; rfl) ?_
    rintro error ⟨⟩
    exact trivial
  | readyAgain h hbytes =>
    rcases hsound.tag_of_waiting h hbytes with htag | ⟨-, hstage⟩
    · exact absurd htag (by decide)
    · cases hstage
  | invalidTag h hbytes hready herror =>
    rcases hsound.tag_of_waiting h hbytes with htag | ⟨htag, -⟩
    · exact absurd htag herror
    · exact absurd htag hready
  | errorRead h hbody =>
    refine hs.of_parent rfl rfl id nofun ?_
    rintro error ⟨⟩
    exact hsound.explained_error h hbody
  | watched h hended => exact hs.of_parent rfl rfl id nofun nofun
  | unwatched h =>
    have hnot : Parent.pastWait (.Returned (.error .WaitFailed)) ≠ true := by decide
    refine hs.of_parent rfl rfl id (fun hwait => absurd hwait hnot) ?_
    rintro error ⟨⟩
    exact trivial
  | abortWritten h =>
    refine hs.of_parent rfl rfl id nofun ?_
    rintro error ⟨⟩
    exact hs.explained _ (by rw [h]; rfl)
  | killed h => exact hs.of_kill h
  | reaped h hended =>
    rename_i backend error status
    refine hs.of_parent rfl rfl id (fun _ => by rw [hended]; rfl) fun other hother => ?_
    refine hs.explained other ?_
    cases backend <;> rw [h] <;> exact hother
  | backendAborted h =>
    refine hs.of_parent rfl rfl id (fun _ => hs.waited (by rw [h]; rfl)) ?_
    rintro error ⟨⟩
    exact hs.explained _ (by rw [h]; rfl)
  | loadCut h | loadRefused h | loadInvalid h | unannounced h | releaseLost h | releaseRefused h
  | cloexecFailed h | loaded h | checkPassed h | announced h | releaseRead h | cloexec h
  | checkFailed h | execFailed h =>
    exact hs.of_helper rfl rfl rfl (by rw [h]; rfl) rfl
  | reported h =>
    have hcode := hs.codes _ _ h
    exact hs.of_helper rfl rfl rfl (by rw [h]; rfl) (decide_eq_true hcode)
  | reportEnded h =>
    have hcode := hs.codes _ _ h
    refine hs.of_helper rfl rfl rfl (by rw [h]; rfl) (decide_eq_true fun heq => hcode ?_)
    exact ExitStatus.Code.inj heq
  | executed h =>
    exact hs.of_exec (hsound.held _ (by rw [h]; rfl)) (hsound.going (by rw [h]; rfl))
      (by rw [h]; rfl)
  | exited h => exact hs.of_exit h
  | died h => exact hs.of_helper rfl rfl rfl h rfl

end State

end init_cli
