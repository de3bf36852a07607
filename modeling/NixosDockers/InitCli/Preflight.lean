-- The handoff of an `exec` to its helper process: the two processes, their control socket and
-- the backend's transaction, in every order of steps (`container-init-cli`: `preflight.rs`,
-- `application.rs`).
import NixosDockers.InitCli.ExecBudget
import NixosDockers.Lib.LengthFrames
import NixosDockers.Lib.Quiescence

open cursors length_frames traces

namespace init_cli

/-! ## The control socket -/

def MAX_HANDOFF_SPEC_BYTES : ℕ := 16 * 1024 * 1024
def READY : UInt8 := 82
def ERROR : UInt8 := 69
def COMMIT : UInt8 := 67
def ABORT : UInt8 := 65

/-- The frame of a spec, as the parent writes it. -/
def specFrame (payload : List UInt8) : List UInt8 := frame 4 payload

/-- What the helper makes of the bytes that have come: a payload and what follows it, nothing
yet, or a length that it refuses. -/
inductive SpecFrame where
  | Partial
  | Refused
  | Whole (payload rest : List UInt8)

def readSpecFrame (bytes : List UInt8) : SpecFrame :=
  if bytes.length < 4 then .Partial
  else
    let length := fromBe (bytes.take 4)
    if length = 0 || length > MAX_HANDOFF_SPEC_BYTES then .Refused
    else
      match readPiece 4 bytes with
      | .Partial => .Partial
      | .Whole payload rest => .Whole payload rest

def errorText (message : List UInt8) : List UInt8 := message.take (min message.length 65535)

/-- The writes of `send_control_error`. -/
def errorWrites (message : List UInt8) : List (List UInt8) :=
  [[ERROR], toBe 2 (errorText message).length, errorText message]

/-- The rest of an error message, behind its tag. -/
def readErrorBody (bytes : List UInt8) : Piece := readPiece 2 bytes

/-! ## The two processes -/

/-- How a process ends. -/
inductive ExitStatus where
  | Code (code : ℕ)
  | Signal (signal : ℕ)
  deriving DecidableEq

/-- `status.code()`, or 128 and the signal. -/
def ExitStatus.value : ExitStatus → ℕ
  | .Code code => code
  | .Signal signal => 128 + signal

inductive HandoffError where
  | NotStarted
  | Interrupted
  | InvalidMessage
  | UnexpectedEof
  | PreflightFailed (message : List UInt8)
  | ExitedEarly
  | CommitFailed
  | NotReleased
  | UnexpectedReady
  | ExecFailed (message : List UInt8)
  | WaitFailed
  deriving DecidableEq

/-- What the parent waits for on the control socket. -/
inductive Stage where
  | ForReady
  | ForExec
  deriving DecidableEq

/-- Where the `exec` command of the application is. -/
inductive Parent where
  | Prepared
  | Writing
  | Waiting (stage : Stage)
  /-- It has read the tag of an error. -/
  | ReadingError (stage : Stage)
  | Committing
  | Releasing
  | Watching
  /-- `child.abort()` before its write, its kill and its wait; `backend` tells whether
  `client.abort_until` comes after it. -/
  | AbortingWrite (backend : Bool) (error : HandoffError)
  | AbortingKill (backend : Bool) (error : HandoffError)
  | AbortingWait (backend : Bool) (error : HandoffError)
  | AbortingBackend (error : HandoffError)
  | Returned (result : Except HandoffError ℕ)

/-- Where `run_helper` is. -/
inductive Helper where
  | Absent
  | Loading
  | Checking (spec : HandoffSpec)
  | Announcing (spec : HandoffSpec)
  | Awaiting (spec : HandoffSpec)
  | Released (spec : HandoffSpec)
  /-- The control socket closes on `exec` now. -/
  | Execing (spec : HandoffSpec)
  /-- The writes that `send_control_error` has left, and the exit code after them. -/
  | Reporting (writes : List (List UInt8)) (code : ℕ)
  | Running (spec : HandoffSpec)
  | Ended (status : ExitStatus)

structure State where
  parent : Parent := .Prepared
  helper : Helper := .Absent
  /-- The bytes in the socket. -/
  to_helper : List UInt8 := []
  to_parent : List UInt8 := []
  /-- The backend was asked to commit, whatever its answer was and if there was one. -/
  asked : Bool := false
  /-- The commit was answered with success. A backend whose answer is lost may have committed
  too: the parent does not know it. -/
  committed : Bool := false
  /-- The aborts that were asked for. -/
  aborts : ℕ := 0
  /-- The history that the laws speak of: what was released, and what was executed. -/
  released : Bool := false
  executed : Option HandoffSpec := none

/-- What the two processes have around them: the spec in its JSON form, how the helper reads
it, and what the helper's system calls return. -/
structure Setting where
  spec : HandoffSpec
  payload : List UInt8
  decode : List UInt8 → Option HandoffSpec
  process : HelperProcess
  /-- The bytes of a text. -/
  bytes : String → List UInt8

inductive Event where
  /-- `PreflightChild::spawn` up to the start of the helper. -/
  | Spawn (ok : Bool)
  /-- The spec is written, or only some bytes of it. -/
  | WriteSpec (written : ℕ) (ok : Bool)
  | Poll
  | ReadError
  /-- The deadline has passed, or a signal has come. -/
  | Expire
  | Commit (ok : Bool)
  | Release (ok : Bool)
  | Watch (ok : Bool)
  | AbortWrite (ok : Bool)
  | Kill
  | Reap
  | AbortBackend
  | Load
  | Check
  | Announce
  | ReadRelease
  | SetCloexec (ok : Bool)
  | Exec (error : Option (List UInt8))
  | Report
  | Exit (status : ExitStatus)
  | Die (signal : ℕ)

/-! ## The steps of the parent -/

def Parent.isOpen : Parent → Bool
  | .Returned _ => false
  | _ => true

/-- The helper holds its end of the control socket. -/
def Helper.isOpen : Helper → Bool
  | .Running _ | .Ended _ => false
  | _ => true

def Helper.alive : Helper → Bool
  | .Absent | .Ended _ => false
  | _ => true

def SIGKILL : ℕ := 9

/-- The helper when a signal ends it. -/
def Helper.killed (signal : ℕ) (helper : Helper) : Helper :=
  if helper.alive then .Ended (.Signal signal) else helper

/-- An error before the commit is answered is followed by the abort of the transaction. -/
def Stage.backend : Stage → Bool
  | .ForReady => true
  | .ForExec => false

def Stage.failed : Stage → List UInt8 → HandoffError
  | .ForReady, message => .PreflightFailed message
  | .ForExec, message => .ExecFailed message

namespace Setting

def specFits (setting : Setting) : Bool :=
  setting.payload.length ≠ 0 && setting.payload.length ≤ MAX_HANDOFF_SPEC_BYTES

end Setting

namespace State

def spawn (setting : Setting) (s : State) (ok : Bool) : Option State :=
  match s.parent with
  | .Prepared =>
    if ok && setting.specFits then some { s with parent := .Writing, helper := .Loading }
    else some { s with parent := .AbortingBackend .NotStarted }
  | _ => none

def writeSpec (setting : Setting) (s : State) (written : ℕ) (ok : Bool) : Option State :=
  match s.parent with
  | .Writing =>
    if ok then
      some { s with parent := .Waiting .ForReady, to_helper := specFrame setting.payload }
    else
      some { s with
        parent := .AbortingKill true .NotStarted
        to_helper := (specFrame setting.payload).take written }
  | _ => none

/-- `wait_control_message` up to the tag. -/
def poll (s : State) : Option State :=
  match s.parent with
  | .Waiting stage =>
    match s.to_parent with
    | [] =>
      if s.helper.isOpen then none
      else
        match stage with
        | .ForReady => some { s with parent := .AbortingWrite true .ExitedEarly }
        | .ForExec => some { s with parent := .Watching }
    | tag :: rest =>
      if tag = READY then
        match stage with
        | .ForReady => some { s with parent := .Committing, to_parent := rest }
        | .ForExec =>
          some { s with parent := .AbortingWrite false .UnexpectedReady, to_parent := rest }
      else if tag = ERROR then some { s with parent := .ReadingError stage, to_parent := rest }
      else
        some { s with
          parent := .AbortingWrite stage.backend .InvalidMessage
          to_parent := rest }
  | _ => none

def readError (s : State) : Option State :=
  match s.parent with
  | .ReadingError stage =>
    match readErrorBody s.to_parent with
    | .Whole message rest =>
      some { s with
        parent := .AbortingWrite stage.backend (stage.failed message)
        to_parent := rest }
    | .Partial =>
      if s.helper.isOpen then none
      else some { s with parent := .AbortingWrite stage.backend .UnexpectedEof }
  | _ => none

def expire (s : State) : Option State :=
  match s.parent with
  | .Waiting stage => some { s with parent := .AbortingWrite stage.backend .Interrupted }
  | _ => none

def commit (s : State) (ok : Bool) : Option State :=
  match s.parent with
  | .Committing =>
    if ok then some { s with parent := .Releasing, asked := true, committed := true }
    else some { s with parent := .AbortingWrite true .CommitFailed, asked := true }
  | _ => none

def release (s : State) (ok : Bool) : Option State :=
  match s.parent with
  | .Releasing =>
    if ok then
      some { s with
        parent := .Waiting .ForExec
        to_helper := s.to_helper ++ [COMMIT]
        released := true }
    else some { s with parent := .AbortingWrite false .NotReleased }
  | _ => none

/-- `wait_for_runtime`. -/
def watch (s : State) (ok : Bool) : Option State :=
  match s.parent with
  | .Watching =>
    if ok then
      match s.helper with
      | .Ended status => some { s with parent := .Returned (.ok status.value) }
      | _ => none
    else some { s with parent := .Returned (.error .WaitFailed) }
  | _ => none

def abortWrite (s : State) (ok : Bool) : Option State :=
  match s.parent with
  | .AbortingWrite backend error =>
    some { s with
      parent := .AbortingKill backend error
      to_helper := if ok then s.to_helper ++ [ABORT] else s.to_helper }
  | _ => none

def kill (s : State) : Option State :=
  match s.parent with
  | .AbortingKill backend error =>
    some { s with parent := .AbortingWait backend error, helper := s.helper.killed SIGKILL }
  | _ => none

def reap (s : State) : Option State :=
  match s.parent, s.helper with
  | .AbortingWait backend error, .Ended _ =>
    some { s with
      parent := if backend then .AbortingBackend error else .Returned (.error error) }
  | _, _ => none

def abortBackend (s : State) : Option State :=
  match s.parent with
  | .AbortingBackend error =>
    some { s with parent := .Returned (.error error), aborts := s.aborts + 1 }
  | _ => none

/-! ## The steps of the helper -/

def load (setting : Setting) (s : State) : Option State :=
  match s.helper with
  | .Loading =>
    match readSpecFrame s.to_helper with
    | .Partial => if s.parent.isOpen then none else some { s with helper := .Ended (.Code 126) }
    | .Refused => some { s with helper := .Ended (.Code 126) }
    | .Whole payload rest =>
      match setting.decode payload with
      | none => some { s with helper := .Ended (.Code 126), to_helper := rest }
      | some spec => some { s with helper := .Checking spec, to_helper := rest }
  | _ => none

def check (setting : Setting) (s : State) : Option State :=
  match s.helper with
  | .Checking spec =>
    match verify setting.process spec with
    | .error error => some { s with helper := .Reporting (errorWrites (setting.bytes error)) 126 }
    | .ok () => some { s with helper := .Announcing spec }
  | _ => none

def announce (s : State) : Option State :=
  match s.helper with
  | .Announcing spec =>
    if s.parent.isOpen then
      some { s with helper := .Awaiting spec, to_parent := s.to_parent ++ [READY] }
    else some { s with helper := .Ended (.Code 126) }
  | _ => none

def readRelease (s : State) : Option State :=
  match s.helper with
  | .Awaiting spec =>
    match s.to_helper with
    | [] => if s.parent.isOpen then none else some { s with helper := .Ended (.Code 126) }
    | byte :: rest =>
      if byte = COMMIT then some { s with helper := .Released spec, to_helper := rest }
      else some { s with helper := .Ended (.Code 125), to_helper := rest }
  | _ => none

def setCloexec (s : State) (ok : Bool) : Option State :=
  match s.helper with
  | .Released spec =>
    some { s with helper := if ok then .Execing spec else .Ended (.Code 126) }
  | _ => none

def exec (s : State) (error : Option (List UInt8)) : Option State :=
  match s.helper with
  | .Execing spec =>
    match error with
    | none => some { s with helper := .Running spec, executed := some spec }
    | some error => some { s with helper := .Reporting (errorWrites error) 127 }
  | _ => none

def report (s : State) : Option State :=
  match s.helper with
  | .Reporting [] code => some { s with helper := .Ended (.Code code) }
  | .Reporting (write :: writes) code =>
    some { s with
      helper := .Reporting writes code
      to_parent := if s.parent.isOpen then s.to_parent ++ write else s.to_parent }
  | _ => none

def exit (s : State) (status : ExitStatus) : Option State :=
  match s.helper with
  | .Running _ => some { s with helper := .Ended status }
  | _ => none

def die (s : State) (signal : ℕ) : Option State :=
  if s.helper.alive then some { s with helper := .Ended (.Signal signal) } else none

def step (setting : Setting) (s : State) : Event → Option State
  | .Spawn ok => s.spawn setting ok
  | .WriteSpec written ok => s.writeSpec setting written ok
  | .Poll => s.poll
  | .ReadError => s.readError
  | .Expire => s.expire
  | .Commit ok => s.commit ok
  | .Release ok => s.release ok
  | .Watch ok => s.watch ok
  | .AbortWrite ok => s.abortWrite ok
  | .Kill => s.kill
  | .Reap => s.reap
  | .AbortBackend => s.abortBackend
  | .Load => s.load setting
  | .Check => s.check setting
  | .Announce => s.announce
  | .ReadRelease => s.readRelease
  | .SetCloexec ok => s.setCloexec ok
  | .Exec error => s.exec error
  | .Report => s.report
  | .Exit status => s.exit status
  | .Die signal => s.die signal

/-! ## What a step can do -/

variable {setting : Setting} {s s' : State} {e : Event}

/-- The steps by their guards, each with what it leaves behind. -/
inductive Moves (setting : Setting) (s : State) : Event → State → Prop
  | spawned (h : s.parent = .Prepared) (hfits : setting.specFits = true) :
    Moves setting s (.Spawn true) { s with parent := .Writing, helper := .Loading }
  | unspawned {ok} (h : s.parent = .Prepared) :
    Moves setting s (.Spawn ok) { s with parent := .AbortingBackend .NotStarted }
  | specWritten {written} (h : s.parent = .Writing) : Moves setting s (.WriteSpec written true)
      { s with parent := .Waiting .ForReady, to_helper := specFrame setting.payload }
  | specCut {written} (h : s.parent = .Writing) : Moves setting s (.WriteSpec written false)
      { s with
        parent := .AbortingKill true .NotStarted
        to_helper := (specFrame setting.payload).take written }
  | closedEarly (h : s.parent = .Waiting .ForReady) (hempty : s.to_parent = [])
    (hclosed : s.helper.isOpen = false) :
    Moves setting s .Poll { s with parent := .AbortingWrite true .ExitedEarly }
  | closed (h : s.parent = .Waiting .ForExec) (hempty : s.to_parent = [])
    (hclosed : s.helper.isOpen = false) : Moves setting s .Poll { s with parent := .Watching }
  | ready {rest} (h : s.parent = .Waiting .ForReady) (hbytes : s.to_parent = READY :: rest) :
    Moves setting s .Poll { s with parent := .Committing, to_parent := rest }
  | readyAgain {rest} (h : s.parent = .Waiting .ForExec) (hbytes : s.to_parent = READY :: rest) :
    Moves setting s .Poll
      { s with parent := .AbortingWrite false .UnexpectedReady, to_parent := rest }
  | errorTag {stage rest} (h : s.parent = .Waiting stage) (hbytes : s.to_parent = ERROR :: rest) :
    Moves setting s .Poll { s with parent := .ReadingError stage, to_parent := rest }
  | invalidTag {stage tag rest} (h : s.parent = .Waiting stage) (hbytes : s.to_parent = tag :: rest)
    (hready : tag ≠ READY) (herror : tag ≠ ERROR) : Moves setting s .Poll
      { s with parent := .AbortingWrite stage.backend .InvalidMessage, to_parent := rest }
  | errorRead {stage message rest} (h : s.parent = .ReadingError stage)
    (hbody : readErrorBody s.to_parent = .Whole message rest) : Moves setting s .ReadError
      { s with
        parent := .AbortingWrite stage.backend (stage.failed message)
        to_parent := rest }
  | errorCut {stage} (h : s.parent = .ReadingError stage)
    (hbody : readErrorBody s.to_parent = .Partial) (hclosed : s.helper.isOpen = false) :
    Moves setting s .ReadError { s with parent := .AbortingWrite stage.backend .UnexpectedEof }
  | expired {stage} (h : s.parent = .Waiting stage) :
    Moves setting s .Expire { s with parent := .AbortingWrite stage.backend .Interrupted }
  | committed (h : s.parent = .Committing) :
    Moves setting s (.Commit true) { s with parent := .Releasing, asked := true, committed := true }
  | uncommitted (h : s.parent = .Committing) :
    Moves setting s (.Commit false)
      { s with parent := .AbortingWrite true .CommitFailed, asked := true }
  | released (h : s.parent = .Releasing) : Moves setting s (.Release true)
      { s with
        parent := .Waiting .ForExec
        to_helper := s.to_helper ++ [COMMIT]
        released := true }
  | unreleased (h : s.parent = .Releasing) :
    Moves setting s (.Release false) { s with parent := .AbortingWrite false .NotReleased }
  | watched {status} (h : s.parent = .Watching) (hended : s.helper = .Ended status) :
    Moves setting s (.Watch true) { s with parent := .Returned (.ok status.value) }
  | unwatched (h : s.parent = .Watching) :
    Moves setting s (.Watch false) { s with parent := .Returned (.error .WaitFailed) }
  | abortWritten {backend error ok} (h : s.parent = .AbortingWrite backend error) :
    Moves setting s (.AbortWrite ok)
      { s with
        parent := .AbortingKill backend error
        to_helper := if ok then s.to_helper ++ [ABORT] else s.to_helper }
  | killed {backend error} (h : s.parent = .AbortingKill backend error) : Moves setting s .Kill
      { s with parent := .AbortingWait backend error, helper := s.helper.killed SIGKILL }
  | reaped {backend error status} (h : s.parent = .AbortingWait backend error)
    (hended : s.helper = .Ended status) : Moves setting s .Reap
      { s with parent := if backend then .AbortingBackend error else .Returned (.error error) }
  | backendAborted {error} (h : s.parent = .AbortingBackend error) :
    Moves setting s .AbortBackend
      { s with parent := .Returned (.error error), aborts := s.aborts + 1 }
  | loadCut (h : s.helper = .Loading) (hbytes : readSpecFrame s.to_helper = .Partial)
    (hclosed : s.parent.isOpen = false) :
    Moves setting s .Load { s with helper := .Ended (.Code 126) }
  | loadRefused (h : s.helper = .Loading) (hbytes : readSpecFrame s.to_helper = .Refused) :
    Moves setting s .Load { s with helper := .Ended (.Code 126) }
  | loadInvalid {payload rest} (h : s.helper = .Loading)
    (hbytes : readSpecFrame s.to_helper = .Whole payload rest)
    (hdecode : setting.decode payload = none) :
    Moves setting s .Load { s with helper := .Ended (.Code 126), to_helper := rest }
  | loaded {payload rest spec} (h : s.helper = .Loading)
    (hbytes : readSpecFrame s.to_helper = .Whole payload rest)
    (hdecode : setting.decode payload = some spec) :
    Moves setting s .Load { s with helper := .Checking spec, to_helper := rest }
  | checkFailed {spec error} (h : s.helper = .Checking spec)
    (hverify : verify setting.process spec = .error error) : Moves setting s .Check
      { s with helper := .Reporting (errorWrites (setting.bytes error)) 126 }
  | checkPassed {spec} (h : s.helper = .Checking spec)
    (hverify : verify setting.process spec = .ok ()) :
    Moves setting s .Check { s with helper := .Announcing spec }
  | announced {spec} (h : s.helper = .Announcing spec) (hopen : s.parent.isOpen = true) :
    Moves setting s .Announce
      { s with helper := .Awaiting spec, to_parent := s.to_parent ++ [READY] }
  | unannounced {spec} (h : s.helper = .Announcing spec) (hclosed : s.parent.isOpen = false) :
    Moves setting s .Announce { s with helper := .Ended (.Code 126) }
  | releaseLost {spec} (h : s.helper = .Awaiting spec) (hempty : s.to_helper = [])
    (hclosed : s.parent.isOpen = false) :
    Moves setting s .ReadRelease { s with helper := .Ended (.Code 126) }
  | releaseRead {spec rest} (h : s.helper = .Awaiting spec)
    (hbytes : s.to_helper = COMMIT :: rest) :
    Moves setting s .ReadRelease { s with helper := .Released spec, to_helper := rest }
  | releaseRefused {spec byte rest} (h : s.helper = .Awaiting spec)
    (hbytes : s.to_helper = byte :: rest) (hbyte : byte ≠ COMMIT) :
    Moves setting s .ReadRelease { s with helper := .Ended (.Code 125), to_helper := rest }
  | cloexec {spec} (h : s.helper = .Released spec) :
    Moves setting s (.SetCloexec true) { s with helper := .Execing spec }
  | cloexecFailed {spec} (h : s.helper = .Released spec) :
    Moves setting s (.SetCloexec false) { s with helper := .Ended (.Code 126) }
  | executed {spec} (h : s.helper = .Execing spec) :
    Moves setting s (.Exec none) { s with helper := .Running spec, executed := some spec }
  | execFailed {spec error} (h : s.helper = .Execing spec) :
    Moves setting s (.Exec (some error)) { s with helper := .Reporting (errorWrites error) 127 }
  | reported {write writes code} (h : s.helper = .Reporting (write :: writes) code) :
    Moves setting s .Report
      { s with
        helper := .Reporting writes code
        to_parent := if s.parent.isOpen then s.to_parent ++ write else s.to_parent }
  | reportEnded {code} (h : s.helper = .Reporting [] code) :
    Moves setting s .Report { s with helper := .Ended (.Code code) }
  | exited {spec status} (h : s.helper = .Running spec) :
    Moves setting s (.Exit status) { s with helper := .Ended status }
  | died {signal} (h : s.helper.alive = true) :
    Moves setting s (.Die signal) { s with helper := .Ended (.Signal signal) }

theorem moves_of_spawn {ok : Bool} (h : s.spawn setting ok = some s') :
    Moves setting s (.Spawn ok) s' := by
  unfold spawn at h
  split at h
  · rename_i hparent
    split at h
    · rename_i hfits
      obtain rfl := Option.some.inj h
      obtain ⟨rfl, hfits⟩ := Bool.and_eq_true_iff.mp hfits
      exact .spawned hparent hfits
    · obtain rfl := Option.some.inj h
      exact .unspawned hparent
  · cases h

theorem moves_of_writeSpec {written : ℕ} {ok : Bool}
    (h : s.writeSpec setting written ok = some s') :
    Moves setting s (.WriteSpec written ok) s' := by
  unfold writeSpec at h
  split at h
  · rename_i hparent
    cases ok with
    | true =>
      obtain rfl := Option.some.inj h
      exact .specWritten hparent
    | false =>
      obtain rfl := Option.some.inj h
      exact .specCut hparent
  · cases h

theorem moves_of_poll (h : s.poll = some s') : Moves setting s .Poll s' := by
  unfold poll at h
  split at h
  · rename_i stage hparent
    split at h
    · rename_i hempty
      split at h
      · cases h
      · rename_i hopen
        rw [Bool.not_eq_true] at hopen
        cases stage with
        | ForReady =>
          obtain rfl := Option.some.inj h
          exact .closedEarly hparent hempty hopen
        | ForExec =>
          obtain rfl := Option.some.inj h
          exact .closed hparent hempty hopen
    · rename_i tag rest hbytes
      split at h
      · rename_i htag
        subst htag
        cases stage with
        | ForReady =>
          obtain rfl := Option.some.inj h
          exact .ready hparent hbytes
        | ForExec =>
          obtain rfl := Option.some.inj h
          exact .readyAgain hparent hbytes
      · rename_i hready
        split at h
        · rename_i htag
          subst htag
          obtain rfl := Option.some.inj h
          exact .errorTag hparent hbytes
        · rename_i herror
          obtain rfl := Option.some.inj h
          exact .invalidTag hparent hbytes hready herror
  · cases h

theorem moves_of_readError (h : s.readError = some s') : Moves setting s .ReadError s' := by
  unfold readError at h
  split at h
  · rename_i stage hparent
    split at h
    · rename_i message rest hbody
      obtain rfl := Option.some.inj h
      exact .errorRead hparent hbody
    · rename_i hbody
      split at h
      · cases h
      · rename_i hopen
        rw [Bool.not_eq_true] at hopen
        obtain rfl := Option.some.inj h
        exact .errorCut hparent hbody hopen
  · cases h

theorem moves_of_commit {ok : Bool} (h : s.commit ok = some s') :
    Moves setting s (.Commit ok) s' := by
  unfold commit at h
  split at h
  · rename_i hparent
    cases ok with
    | true =>
      obtain rfl := Option.some.inj h
      exact .committed hparent
    | false =>
      obtain rfl := Option.some.inj h
      exact .uncommitted hparent
  · cases h

theorem moves_of_release {ok : Bool} (h : s.release ok = some s') :
    Moves setting s (.Release ok) s' := by
  unfold release at h
  split at h
  · rename_i hparent
    cases ok with
    | true =>
      obtain rfl := Option.some.inj h
      exact .released hparent
    | false =>
      obtain rfl := Option.some.inj h
      exact .unreleased hparent
  · cases h

theorem moves_of_watch {ok : Bool} (h : s.watch ok = some s') : Moves setting s (.Watch ok) s' := by
  unfold watch at h
  split at h
  · rename_i hparent
    cases ok with
    | true =>
      rw [if_pos rfl] at h
      split at h
      · rename_i hended
        obtain rfl := Option.some.inj h
        exact .watched hparent hended
      · cases h
    | false =>
      obtain rfl := Option.some.inj h
      exact .unwatched hparent
  · cases h

theorem moves_of_reap (h : s.reap = some s') : Moves setting s .Reap s' := by
  unfold reap at h
  split at h
  · rename_i hparent hended
    obtain rfl := Option.some.inj h
    exact .reaped hparent hended
  · cases h

theorem moves_of_load (h : s.load setting = some s') : Moves setting s .Load s' := by
  unfold load at h
  split at h
  · rename_i hhelper
    split at h
    · rename_i hbytes
      split at h
      · cases h
      · rename_i hopen
        rw [Bool.not_eq_true] at hopen
        obtain rfl := Option.some.inj h
        exact .loadCut hhelper hbytes hopen
    · rename_i hbytes
      obtain rfl := Option.some.inj h
      exact .loadRefused hhelper hbytes
    · rename_i hbytes
      split at h
      · rename_i hdecode
        obtain rfl := Option.some.inj h
        exact .loadInvalid hhelper hbytes hdecode
      · rename_i hdecode
        obtain rfl := Option.some.inj h
        exact .loaded hhelper hbytes hdecode
  · cases h

theorem moves_of_check (h : s.check setting = some s') : Moves setting s .Check s' := by
  unfold check at h
  split at h
  · rename_i hhelper
    split at h
    · rename_i hverify
      obtain rfl := Option.some.inj h
      exact .checkFailed hhelper hverify
    · rename_i hverify
      obtain rfl := Option.some.inj h
      exact .checkPassed hhelper hverify
  · cases h

theorem moves_of_announce (h : s.announce = some s') : Moves setting s .Announce s' := by
  unfold announce at h
  split at h
  · rename_i hhelper
    split at h
    · rename_i hopen
      obtain rfl := Option.some.inj h
      exact .announced hhelper hopen
    · rename_i hopen
      rw [Bool.not_eq_true] at hopen
      obtain rfl := Option.some.inj h
      exact .unannounced hhelper hopen
  · cases h

theorem moves_of_readRelease (h : s.readRelease = some s') : Moves setting s .ReadRelease s' := by
  unfold readRelease at h
  split at h
  · rename_i hhelper
    split at h
    · rename_i hempty
      split at h
      · cases h
      · rename_i hopen
        rw [Bool.not_eq_true] at hopen
        obtain rfl := Option.some.inj h
        exact .releaseLost hhelper hempty hopen
    · rename_i byte rest hbytes
      split at h
      · rename_i hbyte
        subst hbyte
        obtain rfl := Option.some.inj h
        exact .releaseRead hhelper hbytes
      · rename_i hbyte
        obtain rfl := Option.some.inj h
        exact .releaseRefused hhelper hbytes hbyte
  · cases h

theorem moves_of_setCloexec {ok : Bool} (h : s.setCloexec ok = some s') :
    Moves setting s (.SetCloexec ok) s' := by
  unfold setCloexec at h
  split at h
  · rename_i hhelper
    cases ok with
    | true =>
      obtain rfl := Option.some.inj h
      exact .cloexec hhelper
    | false =>
      obtain rfl := Option.some.inj h
      exact .cloexecFailed hhelper
  · cases h

theorem moves_of_exec {error : Option (List UInt8)} (h : s.exec error = some s') :
    Moves setting s (.Exec error) s' := by
  unfold exec at h
  split at h
  · rename_i hhelper
    cases error with
    | none =>
      obtain rfl := Option.some.inj h
      exact .executed hhelper
    | some error =>
      obtain rfl := Option.some.inj h
      exact .execFailed hhelper
  · cases h

theorem moves_of_report (h : s.report = some s') : Moves setting s .Report s' := by
  unfold report at h
  split at h
  · rename_i hhelper
    obtain rfl := Option.some.inj h
    exact .reportEnded hhelper
  · rename_i hhelper
    obtain rfl := Option.some.inj h
    exact .reported hhelper
  · cases h

theorem moves_of_step (h : s.step setting e = some s') : Moves setting s e s' := by
  cases e with
  | Spawn ok => exact moves_of_spawn h
  | WriteSpec written ok => exact moves_of_writeSpec h
  | Poll => exact moves_of_poll h
  | ReadError => exact moves_of_readError h
  | Expire =>
    change s.expire = some s' at h
    unfold expire at h
    split at h
    · rename_i hparent
      obtain rfl := Option.some.inj h
      exact .expired hparent
    · cases h
  | Commit ok => exact moves_of_commit h
  | Release ok => exact moves_of_release h
  | Watch ok => exact moves_of_watch h
  | AbortWrite ok =>
    change s.abortWrite ok = some s' at h
    unfold abortWrite at h
    split at h
    · rename_i hparent
      obtain rfl := Option.some.inj h
      exact .abortWritten hparent
    · cases h
  | Kill =>
    change s.kill = some s' at h
    unfold kill at h
    split at h
    · rename_i hparent
      obtain rfl := Option.some.inj h
      exact .killed hparent
    · cases h
  | Reap => exact moves_of_reap h
  | AbortBackend =>
    change s.abortBackend = some s' at h
    unfold abortBackend at h
    split at h
    · rename_i hparent
      obtain rfl := Option.some.inj h
      exact .backendAborted hparent
    · cases h
  | Load => exact moves_of_load h
  | Check => exact moves_of_check h
  | Announce => exact moves_of_announce h
  | ReadRelease => exact moves_of_readRelease h
  | SetCloexec ok => exact moves_of_setCloexec h
  | Exec error => exact moves_of_exec h
  | Report => exact moves_of_report h
  | Exit status =>
    change s.exit status = some s' at h
    unfold exit at h
    split at h
    · rename_i hhelper
      obtain rfl := Option.some.inj h
      exact .exited hhelper
    · cases h
  | Die signal =>
    change s.die signal = some s' at h
    unfold die at h
    split at h
    · rename_i halive
      obtain rfl := Option.some.inj h
      exact .died halive
    · cases h

end State

end init_cli
