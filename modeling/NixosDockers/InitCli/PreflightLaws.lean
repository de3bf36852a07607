-- The laws of the handoff, from the state before the helper is started: nothing runs that was
-- not checked, committed and released; the result tells the truth; and the two processes
-- neither wait for each other nor go on for ever (`container-init-cli`: `preflight.rs`,
-- `application.rs`).
import NixosDockers.InitCli.PreflightRuns

open cursors length_frames traces

namespace init_cli

/-- The parent has not started a helper, or is past its end. -/
def Parent.unpaired : Parent → Bool
  | .Prepared | .AbortingBackend _ | .Returned _ => true
  | _ => false

/-- The helper has not told that it is ready. -/
def Helper.unready : Helper → Bool
  | .Absent | .Loading | .Checking _ | .Announcing _ => true
  | _ => false

/-- It is there, and does not wait for its release. -/
def Helper.busy : Helper → Bool
  | .Absent | .Awaiting _ => false
  | _ => true

/-- What nobody does by himself: a deadline passes, a signal comes, a wait fails. -/
def Event.forced : Event → Bool
  | .Expire | .Die _ | .Watch false => true
  | _ => false

variable {setting : Setting} {helper : Helper}

theorem Stream.unready {tag : UInt8} {rest : List UInt8} (h : Stream setting helper (tag :: rest)) :
    helper.unready = false := by
  cases helper with
  | Absent | Loading | Checking | Announcing => cases h
  | _ => rfl

namespace State

variable {s s' : State} {e : Event}

/-! ## Neither waits for nothing -/

/-- What keeps each process from waiting for a byte that never comes. -/
structure Paired (s : State) : Prop where
  present : s.helper = .Absent → s.parent.unpaired = true
  ahead : s.released = true → s.helper.unready = false
  told : ∀ spec, s.helper = .Awaiting spec → s.released = true → s.to_helper ≠ []
  watching : s.parent = .Watching → s.helper.isOpen = false

theorem Paired.of_parent (hs : s.Paired) (hhelper : s'.helper = s.helper)
    (hreleased : s'.released = s.released)
    (hunpaired : s.parent.unpaired = false ∨ s'.parent.unpaired = true)
    (hto : s.helper.spec ≠ none → s.to_helper ≠ [] → s'.to_helper ≠ [])
    (hwatching : s'.parent ≠ .Watching ∨ s.helper.isOpen = false) : s'.Paired where
  present h := by
    rw [hhelper] at h
    refine hunpaired.resolve_left fun hpaired => ?_
    rw [hs.present h] at hpaired
    cases hpaired
  ahead h := by
    rw [hhelper]
    exact hs.ahead (hreleased ▸ h)
  told spec h hrel := by
    rw [hhelper] at h
    exact hto (by rw [h]; nofun) (hs.told spec h (hreleased ▸ hrel))
  watching h := by
    rw [hhelper]
    exact hwatching.resolve_left fun hne => hne h

/-- The helper goes on, and does not begin to wait. -/
theorem Paired.of_helper (hs : s.Paired) (hparent : s'.parent = s.parent)
    (hreleased : s'.released = s.released) (hbusy : s'.helper.busy = true)
    (hready : s.helper.unready = true ∨ s'.helper.unready = false)
    (hopen : s.helper.isOpen = true ∨ s'.helper.isOpen = false) : s'.Paired where
  present h := by
    rw [h] at hbusy
    cases hbusy
  ahead h := by
    refine hready.resolve_left fun hunready => ?_
    rw [hs.ahead (hreleased ▸ h)] at hunready
    cases hunready
  told spec h := by
    rw [h] at hbusy
    cases hbusy
  watching h := by
    refine hopen.resolve_left fun hopen => ?_
    rw [hs.watching (hparent ▸ h)] at hopen
    cases hopen

theorem killed_cases (signal : ℕ) (helper : Helper) :
    helper.killed signal = helper ∨ helper.killed signal = .Ended (.Signal signal) := by
  unfold Helper.killed
  split
  · exact .inr rfl
  · exact .inl rfl

theorem Paired.moves (h : Moves setting s e s') (hsound : s.Sound setting)
    (hledger : s.Ledger setting) (hs : s.Paired) : s'.Paired := by
  cases h with
  | spawned h =>
    have hbefore := (hledger.balance false (by rw [h]; rfl)).1
    have hunreleased : s.released ≠ true := fun hreleased => by
      rw [hledger.order hreleased] at hbefore
      cases hbefore
    exact ⟨fun h => (by cases h), fun h => absurd h hunreleased, fun _ h => (by cases h),
      fun h => (by cases h)⟩
  | unspawned h => exact hs.of_parent rfl rfl (.inr rfl) (fun _ => id) (.inl nofun)
  | specWritten h | specCut h =>
    have hnone := (hsound.writing h).1
    exact hs.of_parent rfl rfl (.inl (by rw [h]; rfl)) (fun hne => absurd hnone hne) (.inl nofun)
  | closedEarly h | ready h | readyAgain h | errorTag h | invalidTag h | errorRead h | errorCut h
  | expired h | committed h | uncommitted h | unreleased h | watched h | unwatched h =>
    exact hs.of_parent rfl rfl (.inl (by rw [h]; rfl)) (fun _ => id) (.inl nofun)
  | closed h hempty hclosed =>
    exact hs.of_parent rfl rfl (.inl (by rw [h]; rfl)) (fun _ => id) (.inr hclosed)
  | released h =>
    have hready := hsound.stream [READY] (by rw [h]; rfl)
    exact
      { present := fun habsent => by
          have hunpaired := hs.present habsent
          rw [h] at hunpaired
          cases hunpaired
        ahead := fun _ => hready.unready
        told := fun _ _ _ => List.append_ne_nil_of_right_ne_nil _ (List.cons_ne_nil _ _)
        watching := fun h => by cases h }
  | abortWritten h =>
    refine hs.of_parent rfl rfl (.inl (by rw [h]; rfl)) (fun _ hne => ?_) (.inl nofun)
    dsimp only
    split
    · exact List.append_ne_nil_of_left_ne_nil hne _
    · exact hne
  | killed h =>
    rename_i backend error
    have hquiet : ({ s with parent := .AbortingWait backend error } : State).Paired :=
      hs.of_parent rfl rfl (.inl (by rw [h]; rfl)) (fun _ => id) (.inl nofun)
    rcases killed_cases SIGKILL s.helper with hsame | hended
    · rw [hsame]
      exact hquiet
    · rw [hended]
      exact hquiet.of_helper rfl rfl rfl (.inr rfl) (.inr rfl)
  | reaped h =>
    rename_i backend error status hended
    cases backend with
    | true => exact hs.of_parent rfl rfl (.inr rfl) (fun _ => id) (.inl nofun)
    | false => exact hs.of_parent rfl rfl (.inr rfl) (fun _ => id) (.inl nofun)
  | backendAborted h => exact hs.of_parent rfl rfl (.inr rfl) (fun _ => id) (.inl nofun)
  | loadCut h | loadRefused h | loadInvalid h | unannounced h | releaseLost h | releaseRefused h
  | cloexecFailed h | reportEnded h | exited h | died h | executed h =>
    exact hs.of_helper rfl rfl rfl (.inr rfl) (.inr rfl)
  | loaded h | checkPassed h | checkFailed h | execFailed h | reported h | releaseRead h
  | cloexec h =>
    exact hs.of_helper rfl rfl rfl (by rw [h]; first | exact .inr rfl | exact .inl rfl)
      (.inl (by rw [h]; rfl))
  | announced h hopen =>
    have hunreleased : s.released ≠ true := fun hreleased => by
      have hready := hs.ahead hreleased
      rw [h] at hready
      cases hready
    refine ⟨fun h => (by cases h), fun h => absurd h hunreleased,
      fun _ _ h => absurd h hunreleased, fun hwatching => ?_⟩
    have hclosed := hs.watching hwatching
    rw [h] at hclosed
    cases hclosed

/-! ## Every run -/

/-- Before `PreflightChild::spawn`. -/
def start : State := {}

structure Lawful (setting : Setting) (s : State) : Prop where
  sound : s.Sound setting
  ledger : s.Ledger setting
  outcome : s.Outcome setting
  paired : s.Paired

theorem lawful_start : start.Lawful setting where
  sound :=
    { held := fun _ h => by cases h
      checked := fun h => by cases h
      stream := by
        rintro bytes ⟨⟩
        rfl
      prepared := fun _ => ⟨rfl, rfl⟩
      writing := fun h => by cases h
      fits := fun h => by cases h
      inbox := fun h => by cases h
      loaded := fun h => absurd rfl h
      going := fun h => by cases h }
  ledger :=
    { balance := by
        rintro b ⟨⟩
        exact ⟨rfl, rfl⟩
      let_go := fun h => by cases h
      order := fun h => by cases h
      answered := fun h => by cases h
      verified := fun h => by cases h
      succeeded := fun _ h => by cases h
      failed := fun _ h => by cases h }
  outcome :=
    { executed := fun _ h => by cases h
      running := fun _ h => by cases h
      codes := fun _ _ h => by cases h
      unexecuted := fun h => by cases h
      waited := fun h => by cases h
      explained := fun _ h => by cases h }
  paired := ⟨fun _ => rfl, fun h => (by cases h), fun _ h => (by cases h), fun h => (by cases h)⟩

theorem Lawful.kept (hdecode : setting.decode setting.payload = some setting.spec)
    (h : s.step setting e = some s') (hs : s.Lawful setting) : s'.Lawful setting := by
  have hmoves := moves_of_step h
  exact ⟨hs.sound.moves hmoves hdecode, hs.ledger.moves hmoves hs.sound,
    hs.outcome.moves hmoves hs.sound, hs.paired.moves hmoves hs.sound hs.ledger⟩

theorem lawful_run (hdecode : setting.decode setting.payload = some setting.spec)
    {events : List Event} (hrun : follow (State.step setting) start events = some s) :
    s.Lawful setting :=
  follow_kept (fun _ _ _ h hs => hs.kept hdecode h) hrun lawful_start

/-! ## The end -/

end State

/-- The steps that a process has left, at most. -/
def Parent.weight : Parent → ℕ
  | .Prepared => 21
  | .Writing => 10
  | .Waiting .ForReady => 9
  | .Committing => 8
  | .Releasing => 7
  | .Waiting .ForExec => 6
  | .ReadingError _ => 5
  | .AbortingWrite _ _ => 4
  | .AbortingKill _ _ => 3
  | .AbortingWait _ _ => 2
  | .AbortingBackend _ => 1
  | .Watching => 1
  | .Returned _ => 0

def Helper.weight : Helper → ℕ
  | .Absent | .Ended _ => 0
  | .Loading => 10
  | .Checking _ => 9
  | .Announcing _ => 8
  | .Awaiting _ => 7
  | .Released _ => 6
  | .Execing _ => 5
  | .Reporting writes _ => writes.length + 1
  | .Running _ => 1

/-- The helper goes on by itself. -/
def Helper.acts : Helper → Bool
  | .Checking _ | .Announcing _ | .Released _ | .Execing _ | .Reporting _ _ | .Running _ => true
  | _ => false

namespace State

variable {s s' : State} {e : Event}

def weight (s : State) : ℕ := s.parent.weight + s.helper.weight

theorem killed_weight {signal : ℕ} {helper : Helper} :
    (helper.killed signal).weight ≤ helper.weight := by
  rcases killed_cases signal helper with hsame | hended
  · rw [hsame]
  · rw [hended]
    exact Nat.zero_le _

theorem weight_pos_of_alive {helper : Helper} (h : helper.alive = true) : 0 < helper.weight := by
  cases helper with
  | Absent | Ended => cases h
  | _ => simp [Helper.weight]

theorem Moves.lowers (h : Moves setting s e s') : s'.weight < s.weight := by
  unfold weight
  cases h with
  | spawned h =>
    rw [h]
    simp [Parent.weight, Helper.weight]
    omega
  | unspawned h | specWritten h | specCut h | closedEarly h | closed h | ready h | readyAgain h
  | committed h | uncommitted h | released h | unreleased h | watched h | unwatched h
  | abortWritten h | backendAborted h | errorRead h | errorCut h =>
    rw [h]
    simp [Parent.weight]
  | errorTag h =>
    rename_i stage rest hbytes
    rw [h]
    cases stage <;> simp [Parent.weight]
  | invalidTag h =>
    rename_i stage tag rest hbytes hready herror
    rw [h]
    cases stage <;> simp [Parent.weight]
  | expired h =>
    rename_i stage
    rw [h]
    cases stage <;> simp [Parent.weight]
  | killed h =>
    have hkilled := @killed_weight SIGKILL s.helper
    rw [h]
    simp only [Parent.weight]
    omega
  | reaped h =>
    rename_i backend error status hended
    rw [h]
    cases backend <;> simp [Parent.weight]
  | loadCut h | loadRefused h | loadInvalid h | loaded h | checkPassed h | announced h
  | unannounced h | releaseLost h | releaseRead h | releaseRefused h | cloexec h | cloexecFailed h
  | executed h | reported h | reportEnded h | exited h =>
    rw [h]
    simp [Helper.weight]
  | checkFailed h | execFailed h =>
    rw [h]
    simp [Helper.weight, errorWrites]
  | died h =>
    exact Nat.lt_add_of_pos_right (weight_pos_of_alive h)

/-- Something can happen without a deadline, a signal or a failed wait. -/
def CanMove (setting : Setting) (s : State) : Prop :=
  ∃ e : Event, e.forced = false ∧ s.step setting e ≠ none

theorem canMove_of_acts (h : s.helper.acts = true) : s.CanMove setting := by
  cases hhelper : s.helper with
  | Absent | Loading | Awaiting | Ended =>
    rw [hhelper] at h
    cases h
  | Checking spec =>
    refine ⟨.Check, rfl, ?_⟩
    simp only [step, check, hhelper]
    split <;> nofun
  | Announcing spec =>
    refine ⟨.Announce, rfl, ?_⟩
    simp only [step, announce, hhelper]
    split <;> nofun
  | Released spec => exact ⟨.SetCloexec true, rfl, by simp [step, setCloexec, hhelper]⟩
  | Execing spec => exact ⟨.Exec none, rfl, by simp [step, exec, hhelper]⟩
  | Reporting writes code =>
    refine ⟨.Report, rfl, ?_⟩
    cases writes <;> simp [step, report, hhelper]
  | Running spec => exact ⟨.Exit (.Code 0), rfl, by simp [step, exit, hhelper]⟩

theorem canMove_of_loading (h : s.helper = .Loading)
    (hbytes : readSpecFrame s.to_helper ≠ .Partial ∨ s.parent.isOpen = false) :
    s.CanMove setting := by
  refine ⟨.Load, rfl, ?_⟩
  simp only [step, load, h]
  split
  · rename_i hshort
    rw [hbytes.resolve_left fun hne => hne hshort]
    nofun
  · nofun
  · split <;> nofun

theorem canMove_of_awaiting {spec : HandoffSpec} (h : s.helper = .Awaiting spec)
    (hbytes : s.to_helper ≠ [] ∨ s.parent.isOpen = false) : s.CanMove setting := by
  refine ⟨.ReadRelease, rfl, ?_⟩
  simp only [step, readRelease, h]
  split
  · rename_i hempty
    rw [hbytes.resolve_left fun hne => hne hempty]
    nofun
  · split <;> nofun

theorem cut_of_unpaired {parent : Parent} (h : parent.unpaired = true) : parent.cut = true := by
  cases parent with
  | Prepared | AbortingBackend | Returned => rfl
  | _ => cases h

/-- A parent that reads can go on, or its helper can. -/
theorem Lawful.canMove_of_open (hs : s.Lawful setting) {bytes : List UInt8}
    (hbytes : s.parent.consumed = some bytes) (hcut : s.parent.cut = false)
    (hwait : s.parent.pastRelease = true ∨ bytes ++ s.to_parent ≠ [READY])
    (hopen : s.helper.isOpen = true) : s.CanMove setting := by
  have hstream := hs.sound.stream bytes hbytes
  cases hhelper : s.helper with
  | Absent =>
    rw [cut_of_unpaired (hs.paired.present hhelper)] at hcut
    cases hcut
  | Loading =>
    rcases hs.sound.inbox hhelper with ⟨tail, htail, -⟩ | ⟨-, hcuts⟩
    · refine canMove_of_loading hhelper (.inl ?_)
      have hfits := hs.sound.fits hhelper
      rw [Setting.specFits, Bool.and_eq_true, decide_eq_true_eq, decide_eq_true_eq] at hfits
      rw [htail, readSpecFrame_frame hfits.1 hfits.2]
      rintro ⟨⟩
    · rw [hcut] at hcuts
      cases hcuts
  | Awaiting spec =>
    rw [hhelper] at hstream
    have hreleased := hs.ledger.let_go (hwait.resolve_right fun hne => hne hstream.1)
    exact canMove_of_awaiting hhelper (.inl (hs.paired.told spec hhelper hreleased))
  | Running | Ended =>
    rw [hhelper] at hopen
    cases hopen
  | Checking | Announcing | Released | Execing | Reporting =>
    exact canMove_of_acts (by rw [hhelper]; rfl)

theorem Lawful.canMove_of_parent (hs : s.Lawful setting)
    (hparent : ∀ result, s.parent ≠ .Returned result) : s.CanMove setting := by
  cases h : s.parent with
  | Prepared => exact ⟨.Spawn false, rfl, by simp [step, spawn, h]⟩
  | Writing => exact ⟨.WriteSpec 0 true, rfl, by simp [step, writeSpec, h]⟩
  | Waiting stage =>
    by_cases hquiet : s.to_parent = [] ∧ s.helper.isOpen = true
    · obtain ⟨hempty, hopen⟩ := hquiet
      cases stage with
      | ForReady =>
        exact hs.canMove_of_open (by rw [h]; rfl) (by rw [h]; rfl) (.inr (by rw [hempty]; nofun))
          hopen
      | ForExec =>
        exact hs.canMove_of_open (by rw [h]; rfl) (by rw [h]; rfl) (.inl (by rw [h]; rfl)) hopen
    · refine ⟨.Poll, rfl, ?_⟩
      simp only [step, poll, h]
      split
      · rename_i hempty
        rw [if_neg fun hopen => hquiet ⟨hempty, hopen⟩]
        cases stage <;> nofun
      · rename_i tag rest hbytes
        by_cases hready : tag = READY
        · rw [if_pos hready]
          cases stage <;> nofun
        · rw [if_neg hready]
          split <;> nofun
  | ReadingError stage =>
    by_cases hquiet : readErrorBody s.to_parent = .Partial ∧ s.helper.isOpen = true
    · obtain ⟨-, hopen⟩ := hquiet
      cases stage with
      | ForReady =>
        refine hs.canMove_of_open (by rw [h]; rfl) (by rw [h]; rfl) (.inr ?_) hopen
        rw [List.singleton_append]
        exact fun heq => absurd (List.cons.inj heq).1 (by decide)
      | ForExec =>
        exact hs.canMove_of_open (by rw [h]; rfl) (by rw [h]; rfl) (.inl (by rw [h]; rfl)) hopen
    · refine ⟨.ReadError, rfl, ?_⟩
      simp only [step, readError, h]
      split
      · nofun
      · rename_i hshort
        rw [if_neg fun hopen => hquiet ⟨hshort, hopen⟩]
        nofun
  | Committing => exact ⟨.Commit true, rfl, by simp [step, commit, h]⟩
  | Releasing => exact ⟨.Release true, rfl, by simp [step, release, h]⟩
  | Watching =>
    have hclosed := hs.paired.watching h
    cases hhelper : s.helper with
    | Running => exact canMove_of_acts (by rw [hhelper]; rfl)
    | Ended => exact ⟨.Watch true, rfl, by simp [step, watch, h, hhelper]⟩
    | _ =>
      rw [hhelper] at hclosed
      cases hclosed
  | AbortingWrite backend error => exact ⟨.AbortWrite true, rfl, by simp [step, abortWrite, h]⟩
  | AbortingKill backend error => exact ⟨.Kill, rfl, by simp [step, kill, h]⟩
  | AbortingWait backend error =>
    have hdead := hs.outcome.waited (by rw [h]; rfl)
    cases hhelper : s.helper with
    | Absent =>
      have hunpaired := hs.paired.present hhelper
      rw [h] at hunpaired
      cases hunpaired
    | Ended => exact ⟨.Reap, rfl, by simp [step, reap, h, hhelper]⟩
    | _ =>
      rw [hhelper] at hdead
      cases hdead
  | AbortingBackend error => exact ⟨.AbortBackend, rfl, by simp [step, abortBackend, h]⟩
  | Returned result => exact absurd h (hparent result)

/-- A helper whose parent has returned goes on to its end. -/
theorem canMove_of_alive {result : Except HandoffError ℕ} (h : s.parent = .Returned result)
    (halive : s.helper.alive = true) : s.CanMove setting := by
  have hclosed : s.parent.isOpen = false := by
    rw [h]
    rfl
  cases hhelper : s.helper with
  | Absent | Ended =>
    rw [hhelper] at halive
    cases halive
  | Loading => exact canMove_of_loading hhelper (.inr hclosed)
  | Awaiting => exact canMove_of_awaiting hhelper (.inr hclosed)
  | _ => exact canMove_of_acts (by rw [hhelper]; rfl)

/-! ## The laws -/

/-- A root service whose helper reads its spec from one byte. -/
def serviceSpec : HandoffSpec where
  command := { program := "a", args := [] }
  identity :=
    { uid := 0, gid := 0, user := "root", home := "/", run_as_root := true
      uid_source := .RunAsRoot, gid_source := .RunAsRoot, workspace := .NotMounted }
  supplemental_groups := []
  root_service := true
  original_cwd := "/"
  cwd_object := { device := 0, inode := 0 }
  login_environment := ∅
  environment := ∅

def serviceSetting : Setting where
  spec := serviceSpec
  payload := [0]
  decode := fun _ => some serviceSpec
  process :=
    { uid := 0, gid := 0, groups := .ok [], max_groups := 0, cwd := .ok { device := 0, inode := 0 }
      page_size := 4096, argument_limit := 2097152 }
  bytes := fun _ => []

/-- The service is checked, committed, released and executed, and ends. -/
def serviceRun : List Event :=
  [.Spawn true, .WriteSpec 0 true, .Load, .Check, .Announce, .Poll, .Commit true, .Release true,
    .ReadRelease, .SetCloexec true, .Exec none, .Poll, .Exit (.Code 0), .Watch true]

def serviceEnd : State where
  parent := .Returned (.ok 0)
  helper := .Ended (.Code 0)
  asked := true
  committed := true
  released := true
  executed := some serviceSpec

/-- Only the spec of the parent is ever executed: after its helper has checked it, the backend
has answered the commit with success and the parent has released it, in this order. The backend
is asked to commit only after the checks have passed, whatever it answers. -/
theorem nothing_runs_unchecked (hdecode : setting.decode setting.payload = some setting.spec)
    {events : List Event} (hrun : follow (State.step setting) start events = some s) :
    (∀ spec, s.executed = some spec → spec = setting.spec ∧ s.released = true) ∧
      (s.released = true → s.committed = true) ∧ (s.committed = true → s.asked = true) ∧
      (s.asked = true → verify setting.process setting.spec = .ok ()) := by
  have hs := lawful_run hdecode hrun
  exact ⟨hs.outcome.executed, hs.ledger.order, hs.ledger.answered, hs.ledger.verified⟩

theorem service_is_checked :
    (∀ spec, serviceEnd.executed = some spec → spec = serviceSpec ∧ serviceEnd.released = true) ∧
      (serviceEnd.released = true → serviceEnd.committed = true) ∧
      (serviceEnd.committed = true → serviceEnd.asked = true) ∧
      (serviceEnd.asked = true → verify serviceSetting.process serviceSpec = .ok ()) :=
  @nothing_runs_unchecked serviceSetting serviceEnd rfl serviceRun rfl

theorem value_eq_zero {status : ExitStatus} (h : status.value = 0) : status = .Code 0 := by
  cases status with
  | Code code => rw [show code = 0 from h]
  | Signal signal =>
    change 128 + signal = 0 at h
    omega

/-- The result is the truth. A status comes from a released helper that has ended with it, and
it is zero only when the command was executed. An error leaves no helper behind unless the wait
itself has failed, and tells of a failed check only what the check has told. It asks the backend
to abort exactly once if no commit was answered with success, which a backend whose answer was
lost hears after it has committed, and never if one was. -/
theorem result_is_the_truth (hdecode : setting.decode setting.payload = some setting.spec)
    {events : List Event} (hrun : follow (State.step setting) start events = some s) :
    (∀ n, s.parent = .Returned (.ok n) → s.released = true ∧ s.aborts = 0 ∧
      (∃ status, s.helper = .Ended status ∧ n = status.value) ∧
      (n = 0 → s.executed = some setting.spec)) ∧
    ∀ error, s.parent = .Returned (.error error) →
      (s.committed = false ∧ s.executed = none ∧ s.aborts = 1 ∨
        s.committed = true ∧ s.aborts = 0) ∧
      (error ≠ .WaitFailed → s.helper.alive = false) ∧ Explained setting error := by
  have hs := lawful_run hdecode hrun
  refine ⟨fun n hn => ?_, fun error herror => ?_⟩
  · obtain ⟨hreleased, haborts, status, hended, rfl⟩ := hs.ledger.succeeded n hn
    refine ⟨hreleased, haborts, ⟨status, hended, rfl⟩, fun hzero => ?_⟩
    rw [value_eq_zero hzero] at hended
    obtain ⟨spec, hspec⟩ := Option.ne_none_iff_exists'.mp (hs.outcome.unexecuted hended)
    rw [hspec, (hs.outcome.executed spec hspec).1]
  · refine ⟨?_, fun hne => ?_, hs.outcome.explained error (by rw [herror]; rfl)⟩
    · refine (hs.ledger.failed error herror).imp_left fun ⟨hcommitted, haborts⟩ => ?_
      refine ⟨hcommitted, Option.eq_none_iff_forall_ne_some.mpr fun spec hspec => ?_, haborts⟩
      have hreleased := (hs.outcome.executed spec hspec).2
      rw [hs.ledger.order hreleased] at hcommitted
      cases hcommitted
    · refine hs.outcome.waited ?_
      rw [herror]
      exact decide_eq_true hne

theorem service_result_is_the_truth :
    (∀ n, serviceEnd.parent = .Returned (.ok n) → serviceEnd.released = true ∧
      serviceEnd.aborts = 0 ∧ (∃ status, serviceEnd.helper = .Ended status ∧ n = status.value) ∧
      (n = 0 → serviceEnd.executed = some serviceSpec)) ∧
    ∀ error, serviceEnd.parent = .Returned (.error error) →
      (serviceEnd.committed = false ∧ serviceEnd.executed = none ∧ serviceEnd.aborts = 1 ∨
        serviceEnd.committed = true ∧ serviceEnd.aborts = 0) ∧
      (error ≠ .WaitFailed → serviceEnd.helper.alive = false) ∧ Explained serviceSetting error :=
  @result_is_the_truth serviceSetting serviceEnd rfl serviceRun rfl

/-- The two processes come to an end: no run is longer than 21 steps, and while the parent has
not returned or the helper lives, one of them can go on without a deadline or a signal. -/
theorem handoff_ends (hdecode : setting.decode setting.payload = some setting.spec)
    {events : List Event} (hrun : follow (State.step setting) start events = some s) :
    events.length ≤ 21 ∧
      ((∃ result, s.parent = .Returned result) ∧ s.helper.alive = false ∨ s.CanMove setting) := by
  refine ⟨?_, ?_⟩
  · have hshort := @follow_length_le _ _ (State.step setting) (fun _ => True) (fun _ => True) weight
      (fun _ _ _ _ _ => trivial) (fun _ _ _ _ h _ => (moves_of_step h).lowers) _ _ _ hrun
      (fun _ _ => trivial) trivial
    have hstart : start.weight = 21 := rfl
    omega
  · have hs := lawful_run hdecode hrun
    by_cases hreturned : ∃ result, s.parent = .Returned result
    · obtain ⟨result, hresult⟩ := hreturned
      cases halive : s.helper.alive with
      | false => exact .inl ⟨⟨result, hresult⟩, rfl⟩
      | true => exact .inr (canMove_of_alive hresult halive)
    · push Not at hreturned
      exact .inr (hs.canMove_of_parent hreturned)

theorem service_ends : serviceRun.length ≤ 21 ∧
    ((∃ result, serviceEnd.parent = .Returned result) ∧ serviceEnd.helper.alive = false ∨
      serviceEnd.CanMove serviceSetting) :=
  @handoff_ends serviceSetting serviceEnd rfl serviceRun rfl

end State

end init_cli
