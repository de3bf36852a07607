-- The check of a prepared handoff by the client (`validate_prepared` of
-- `client.rs`), and which handoffs of the server pass it.
import NixosDockers.Backend.Client
import NixosDockers.Backend.Capacity
import NixosDockers.Backend.Identity
import NixosDockers.BootstrapModel.PlanOrder
import NixosDockers.Core.IdentityTexts
import NixosDockers.Lib.Results

open bootstrap_model init_core rust_text results

namespace init_backend

/-! ## The check of the client -/

/-- The credentials of the client's own process. -/
structure CallerCredentials where
  uid : UInt32
  gid : UInt32
  groups : Option (List UInt32)
  deriving DecidableEq, Repr

def handoffCredentialsMatch (caller : CallerCredentials) (identity : ResolvedIdentity)
    (supplemental_groups : List UInt32) (root_service : Bool) : Bool :=
  caller.uid = 0 ||
    (!root_service && !identity.run_as_root && identity.uid = caller.uid &&
      identity.gid = caller.gid && caller.groups = some supplemental_groups)

def isAsciiHexdigit (c : Char) : Bool :=
  c.isDigit || ('a' ≤ c && c ≤ 'f') || ('A' ≤ c && c ≤ 'F')

/-- A value of the login environment that the client takes. -/
def loginValueValid (value : String) : Bool :=
  value ≠ "" && !hasChar value nul && !hasChar value '\n'

/-- `validate_prepared`. The limit of the groups is a value of the platform. -/
def validatePrepared (group_limit : Nat) (caller : CallerCredentials) (prepared : PreparedHandoff) :
    Except BackendClientError PreparedHandoff :=
  let value (name : String) := prepared.login_environment.lookup name
  let login_environment_valid := prepared.login_environment.length = 3 &&
    ["HOME", "USER", "LOGNAME"].all fun name => (value name).any loginValueValid
  let home_matches := (value "HOME").any fun home =>
    startsWith home "/" && home = prepared.identity.home
  let user_matches := (value "USER").any fun user => user = prepared.identity.user
  let logname_matches := (value "LOGNAME").any fun user => user = prepared.identity.user
  if !isAbsolute prepared.command.program ||
      prepared.command.args.any (hasChar · nul) ||
      !isAbsolute prepared.cwd ||
      holdsParentDir prepared.cwd ||
      !login_environment_valid ||
      (!prepared.root_service && (!home_matches || !user_matches || !logname_matches)) ||
      (prepared.root_service && (value "HOME" ≠ some "/root" || value "USER" ≠ some "root" ||
        value "LOGNAME" ≠ some "root")) ||
      !isAbsolute prepared.identity.home ||
      hasChar prepared.identity.user nul ||
      prepared.supplemental_groups.length > group_limit ||
      (!prepared.root_service && !prepared.supplemental_groups.contains prepared.identity.gid) ||
      (prepared.supplemental_groups.zip prepared.supplemental_groups.tail).any
        (fun pair => pair.1 ≥ pair.2) ||
      !handoffCredentialsMatch caller prepared.identity prepared.supplemental_groups
        prepared.root_service ||
      byteLen prepared.prepare_id ≠ 48 ||
      !prepared.prepare_id.toList.all isAsciiHexdigit ||
      byteLen prepared.snapshot_id = 0 ||
      byteLen prepared.snapshot_id > 128 ||
      prepared.cwd_object.inode = 0 then .error .UnexpectedResponse
  else .ok prepared

/-! ## The texts of an identity -/

/-- The client takes the texts of the identity as they stand. -/
structure TextsTaken (identity : ResolvedIdentity) : Prop where
  user : loginValueValid identity.user = true
  home : loginValueValid identity.home = true
  absolute : isAbsolute identity.home = true

/-- All that the client checks beside the texts of the identity. -/
structure RestTaken (group_limit : Nat) (caller : CallerCredentials) (prepared : PreparedHandoff) :
    Prop where
  program : isAbsolute prepared.command.program = true
  args : prepared.command.args.any (hasChar · nul) = false
  cwd : isAbsolute prepared.cwd = true
  no_parent : holdsParentDir prepared.cwd = false
  login : prepared.login_environment = [("HOME", prepared.identity.home),
    ("LOGNAME", prepared.identity.user), ("USER", prepared.identity.user)]
  no_root_service : prepared.root_service = false
  room : prepared.supplemental_groups.length ≤ group_limit
  member : prepared.identity.gid ∈ prepared.supplemental_groups
  sorted : prepared.supplemental_groups.Pairwise (· < ·)
  credentials : handoffCredentialsMatch caller prepared.identity prepared.supplemental_groups
    false = true
  id_length : byteLen prepared.prepare_id = 48
  id_digits : prepared.prepare_id.toList.all isAsciiHexdigit = true
  snapshot_some : byteLen prepared.snapshot_id ≠ 0
  snapshot_short : byteLen prepared.snapshot_id ≤ 128
  inode : prepared.cwd_object.inode ≠ 0

theorem sorted_windows {groups : List UInt32} (h : groups.Pairwise (· < ·)) :
    (groups.zip groups.tail).any (fun pair => pair.1 ≥ pair.2) = false := by
  induction groups with
  | nil => rfl
  | cons first groups ih =>
    cases groups with
    | nil => rfl
    | cons second rest =>
      obtain ⟨hfirst, hrest⟩ := List.pairwise_cons.mp h
      have hlt : first < second := hfirst second List.mem_cons_self
      have hnot : ¬ second ≤ first := fun hle => absurd hlt (UInt32.not_lt.mpr hle)
      simpa [hnot] using ih hrest

/-- With everything else in order, the texts of the identity decide. -/
theorem RestTaken.accepted_iff {group_limit : Nat} {caller : CallerCredentials}
    {prepared : PreparedHandoff} (h : RestTaken group_limit caller prepared) :
    validatePrepared group_limit caller prepared = .ok prepared ↔
      TextsTaken prepared.identity := by
  have hhome : prepared.login_environment.lookup "HOME" = some prepared.identity.home := by
    rw [h.login]
    rfl
  have hlogname : prepared.login_environment.lookup "LOGNAME" = some prepared.identity.user := by
    rw [h.login]
    rfl
  have huser : prepared.login_environment.lookup "USER" = some prepared.identity.user := by
    rw [h.login]
    rfl
  have hlength : prepared.login_environment.length = 3 := by
    rw [h.login]
    rfl
  have hroom : ¬ prepared.supplemental_groups.length > group_limit := not_lt.mpr h.room
  have hshort : ¬ byteLen prepared.snapshot_id > 128 := not_lt.mpr h.snapshot_short
  have hmember : prepared.supplemental_groups.contains prepared.identity.gid = true := by
    rw [List.contains_iff_mem]
    exact h.member
  unfold validatePrepared
  simp only [hhome, hlogname, huser, hlength, h.program, h.args, h.cwd, h.no_parent,
    h.no_root_service, hroom, hmember, sorted_windows h.sorted, h.credentials, h.id_length,
    h.id_digits, h.snapshot_some, hshort, h.inode]
  have htexts : (!(decide True && ["HOME", "USER", "LOGNAME"].all fun name =>
      Option.any loginValueValid (List.lookup name prepared.login_environment))) =
        !(loginValueValid prepared.identity.home && loginValueValid prepared.identity.user) := by
    simp [hhome, huser, hlogname]
  rw [htexts]
  simp only [isAbsolute, Bool.not_true, Bool.or_false, Bool.false_or, Bool.not_false,
    Bool.true_and, Bool.false_and, Option.any_some, decide_true, Bool.and_true, ne_eq,
    not_true_eq_false, decide_false, ite_error_ok_iff, and_true]
  constructor
  · intro hno
    simp only [Bool.or_eq_true, Bool.not_eq_true', Bool.and_eq_false_iff, not_or,
      Bool.not_eq_false] at hno
    exact ⟨hno.1.1.1.2, hno.1.1.1.1, hno.1.2⟩
  · intro htaken
    have hnul : hasChar prepared.identity.user nul = false := by
      have huser := htaken.user
      simp only [loginValueValid, Bool.and_eq_true, Bool.not_eq_true'] at huser
      exact huser.1.2
    have habsolute : startsWith prepared.identity.home "/" = true := htaken.absolute
    simp [htaken.home, htaken.user, habsolute, hnul]

/-! ## What the server prepares -/

theorem liftCoreError_ok_iff {α : Type} {result : Except CoreError α} {value : α} :
    liftCoreError result = .ok value ↔ result = .ok value := by
  cases result <;> simp [liftCoreError]

theorem isRootService_request (config : BootstrapConfig) (command : List String) (uid : UInt32) :
    isRootService config command uid false = false := by
  simp [isRootService]

/-- The context in which a request resolves its identity. -/
def requestContext (options : PrepareExecOptions) (cwd : ResolvedCwd) : RuntimeContext where
  cwd := cwd.canonical_path
  env := options.environment
  cli_inputs := options.inputs

theorem checkPrepare_ok {runtime : BackendRuntime} {host : RequestHost} {peer : PeerCredentials}
    {options : PrepareExecOptions} {draft : PrepareDraft}
    (h : checkPrepare runtime host peer options = .ok draft) :
    host.resolve_cwd_object options.cwd = .ok draft.cwd ∧
      resolvePrevalidated host.host.posix runtime.request_config
        (requestContext options draft.cwd) = .ok draft.identity ∧
      checkPeer host peer draft.identity false = .ok draft.supplemental_groups ∧
      checkCommand runtime options.argv = .ok draft.command ∧
      draft.login_environment = [("HOME", draft.identity.home), ("LOGNAME", draft.identity.user),
        ("USER", draft.identity.user)] ∧
      draft.root_service = false := by
  simp only [checkPrepare, isRootService_request, bind_ok_iff, pure_ok_iff, answer_ok_iff,
    liftCoreError_ok_iff, Bool.false_eq_true, if_false] at h
  obtain ⟨_, _, cwd, hcwd, _, _, identity, hidentity, groups, hgroups, command, hcommand, rfl⟩ := h
  exact ⟨hcwd, hidentity, hgroups, hcommand, rfl, rfl⟩

theorem prepareExec_ok {runtime : BackendRuntime} {host : RequestHost} {peer : PeerCredentials}
    {options : PrepareExecOptions} {start now : Nat} {prepared : PreparedHandoff}
    (h : (prepareExec runtime host peer options start now).2 = .ok prepared) :
    ∃ draft prepare_id, checkPrepare runtime host peer options = .ok draft ∧
      host.new_prepare_id = .ok prepare_id ∧
      prepared = {
        prepare_id
        snapshot_id := runtime.snapshot_id
        command := draft.command
        cwd := draft.cwd.canonical_path
        cwd_object := draft.cwd.object
        login_environment := draft.login_environment
        identity := draft.identity
        supplemental_groups := draft.supplemental_groups
        root_service := draft.root_service } := by
  unfold prepareExec at h
  rcases hcheck : checkPrepare runtime host peer options with error | draft
  · rw [hcheck] at h
    cases h
  rcases hid : host.new_prepare_id with error | prepare_id
  · rw [hcheck, hid] at h
    cases h
  rw [hcheck, hid] at h
  dsimp only at h
  split_ifs at h
  cases h
  exact ⟨draft, prepare_id, rfl, rfl, rfl⟩

/-- What the server relies on of the system. -/
structure SystemAnswers (host : RequestHost) (group_limit : Nat) : Prop where
  prepare_id : ∀ id, host.new_prepare_id = .ok id →
    byteLen id = 48 ∧ id.toList.all isAsciiHexdigit = true
  cwd : ∀ path cwd, host.resolve_cwd_object path = .ok cwd →
    isAbsolute cwd.canonical_path = true ∧ holdsParentDir cwd.canonical_path = false ∧
      cwd.object.inode ≠ 0
  groups : ∀ identity groups, host.supplementary_groups identity = .ok groups →
    groups.Pairwise (· < ·) ∧ identity.gid ∈ groups ∧ groups.length ≤ group_limit

/-- The caller is the peer as the server observed it. -/
structure Observed (host : RequestHost) (peer : PeerCredentials) (caller : CallerCredentials) :
    Prop where
  uid : caller.uid = peer.uid
  gid : caller.gid = peer.gid
  groups : peer.uid ≠ 0 → ∀ groups, host.peer_groups peer.pid peer.gid = .ok groups →
    caller.groups = some groups

theorem checkPeer_ok {host : RequestHost} {peer : PeerCredentials} {identity : ResolvedIdentity}
    {groups : List UInt32} (h : checkPeer host peer identity false = .ok groups) :
    host.supplementary_groups identity = .ok groups ∧
      (peer.uid ≠ 0 → identity.uid = peer.uid ∧ identity.gid = peer.gid ∧
        identity.run_as_root = false ∧ host.peer_groups peer.pid peer.gid = .ok groups) := by
  unfold checkPeer at h
  by_cases hpeer : peer.uid = 0
  · simp only [hpeer, Bool.false_eq_true, ne_eq, not_true_eq_false, and_false, false_and, if_false,
      bind_ok_iff, answer_ok_iff, pure_ok_iff] at h
    obtain ⟨answered, hgroups, rfl⟩ := h
    exact ⟨hgroups, fun hne => absurd hpeer hne⟩
  · simp only [hpeer, throw_eq, error_bind, Bool.false_eq_true, false_and, ne_eq, not_false_eq_true,
      true_and, if_false, if_true, ite_error_ok_iff, bind_ok_iff, answer_ok_iff, pure_ok_iff] at h
    obtain ⟨hsame, answered, hgroups, observed, hobserved, hequal, rfl⟩ := h
    obtain rfl := not_not.mp hequal
    simp only [not_or, not_not, Bool.not_eq_true] at hsame
    exact ⟨hgroups, fun _ => ⟨hsame.1, hsame.2.1, hsame.2.2, hobserved⟩⟩

theorem checkCommand_ok {runtime : BackendRuntime} {argv : List String} {command : HandoffCommand}
    (h : checkCommand runtime argv = .ok command) :
    isAbsolute command.program = true ∧ command.args.any (hasChar · nul) = false := by
  unfold checkCommand at h
  obtain ⟨built, hbuilt, h⟩ := bind_ok_iff.mp h
  rcases hargv : validateArgv (built.program :: built.args) with error | _
  · rw [hargv] at h
    cases h
  · rw [hargv] at h
    simp only [throw_eq, error_bind, ite_error_ok_iff, pure_ok_iff] at h
    obtain ⟨hchecks, rfl⟩ := h
    simpa using hchecks

/-- Everything but the texts of the identity is as the client asks for. -/
theorem prepareExec_restTaken {runtime : BackendRuntime} {host : RequestHost}
    {peer : PeerCredentials} {options : PrepareExecOptions} {start now : Nat}
    {prepared : PreparedHandoff} {group_limit : Nat} {caller : CallerCredentials}
    (h : (prepareExec runtime host peer options start now).2 = .ok prepared)
    (hsystem : SystemAnswers host group_limit) (hcaller : Observed host peer caller)
    (hsnapshot : 1 ≤ byteLen runtime.snapshot_id ∧ byteLen runtime.snapshot_id ≤ 128) :
    RestTaken group_limit caller prepared := by
  obtain ⟨draft, prepare_id, hdraft, hid, rfl⟩ := prepareExec_ok h
  obtain ⟨hcwd, -, hpeer, hcommand, hlogin, hroot⟩ := checkPrepare_ok hdraft
  obtain ⟨hgroups, hsame⟩ := checkPeer_ok hpeer
  obtain ⟨hprogram, hargs⟩ := checkCommand_ok hcommand
  obtain ⟨habsolute, hparent, hinode⟩ := hsystem.cwd _ _ hcwd
  obtain ⟨hsorted, hmember, hroom⟩ := hsystem.groups _ _ hgroups
  obtain ⟨hlength, hdigits⟩ := hsystem.prepare_id _ hid
  have hcredentials : handoffCredentialsMatch caller draft.identity draft.supplemental_groups
      false = true := by
    unfold handoffCredentialsMatch
    by_cases hpeer : peer.uid = 0
    · simp [hcaller.uid, hpeer]
    · obtain ⟨huid, hgid, hnoroot, hobserved⟩ := hsame hpeer
      simp [hcaller.uid, hcaller.gid, huid, hgid, hnoroot, hcaller.groups hpeer _ hobserved]
  exact ⟨hprogram, hargs, habsolute, hparent, hlogin, hroot, hroom, hmember, hsorted,
    hcredentials, hlength, hdigits, Nat.ne_of_gt hsnapshot.1, hsnapshot.2, hinode⟩

/-! ## The texts of the resolver -/

/-- A text that a login value may be: it is not empty and has no NUL and no newline. -/
theorem loginValueValid_iff {value : String} : loginValueValid value = true ↔
    value ≠ "" ∧ hasChar value nul = false ∧ hasChar value '\n' = false := by
  simp [loginValueValid, and_assoc]

theorem loginValueValid_of_template {location value : String}
    (h : validateTemplate location value = .ok ()) : loginValueValid value = true := by
  unfold validateTemplate at h
  simp only [throw_eq, error_bind, ite_error_ok_iff, bind_ok_iff] at h
  obtain ⟨hempty, hnul, -, hnewline, -⟩ := h
  simp only [holdsNewline, Bool.or_eq_true, not_or, Bool.not_eq_true] at hnewline
  exact loginValueValid_iff.mpr ⟨hempty, Bool.not_eq_true _ ▸ hnul, hnewline.1⟩

/-- A text without control characters is a login value. -/
theorem loginValueValid_of_all {value : String} {P : Char → Bool} (hempty : value ≠ "")
    (hall : ∀ c ∈ value.toList, P c = true) (hnul : P nul = false) (hnewline : P '\n' = false) :
    loginValueValid value = true := by
  refine loginValueValid_iff.mpr ⟨hempty, ?_, ?_⟩
  · rw [hasChar, ← Bool.not_eq_true, List.contains_iff_mem]
    intro hmem
    rw [hall _ hmem] at hnul
    cases hnul
  · rw [hasChar, ← Bool.not_eq_true, List.contains_iff_mem]
    intro hmem
    rw [hall _ hmem] at hnewline
    cases hnewline

theorem loginValueValid_of_userName {location value : String}
    (h : Action.validateUserName location value = .ok ()) : loginValueValid value = true := by
  unfold Action.validateUserName at h
  split_ifs at h with hbad
  simp only [Bool.or_eq_true, decide_eq_true_eq, not_or, Bool.not_eq_true', Bool.not_eq_false]
    at hbad
  exact loginValueValid_of_all hbad.1.1 (List.all_eq_true.mp hbad.2) (by decide) (by decide)

theorem loginValueValid_uid (uid : UInt32) : loginValueValid ("uid-" ++ toString uid) = true := by
  have hdigits : ∀ c ∈ (toString uid).toList, c.isDigit = true := by
    intro c hc
    have hc : c ∈ Nat.toDigits 10 uid.toNat := by
      rw [← Nat.toList_repr]
      exact hc
    exact Nat.isDigit_of_mem_toDigits (by decide) (by decide) hc
  refine loginValueValid_of_all (P := fun c => c.isAlphanum || c = '-') ?_ ?_ (by decide)
    (by decide)
  · intro hempty
    simp [← String.toList_inj] at hempty
  · intro c hc
    rw [String.toList_append, List.mem_append] at hc
    rcases hc with hc | hc
    · have huid : "uid-".toList = ['u', 'i', 'd', '-'] := rfl
      rw [huid] at hc
      simp only [List.mem_cons, List.not_mem_nil, or_false] at hc
      rcases hc with rfl | rfl | rfl | rfl <;> decide
    · simp [Char.isAlphanum, hdigits c hc]

theorem inputHome_absolute {config : BootstrapConfig} {context : RuntimeContext}
    {inputs : ResolvedInputs} (h : resolveInputs config context = .ok inputs)
    {name : Option String} {home : String}
    (hhome : inputHome config inputs name = .ok (some home)) :
    loginValueValid home = true ∧ isAbsolute home = true :=
  have hconcrete := inputHome_concrete h hhome
  ⟨loginValueValid_of_template hconcrete.template, hconcrete.absolute⟩

/-- The UID of a request that is not for root. -/
def targetUid (posix : PosixSystem) (config : BootstrapConfig) (context : RuntimeContext)
    (inputs : ResolvedInputs) : Except CoreError UInt32 := do
  let pair ← inputUidPair config inputs config.identity.uid_input
  let named ← namedUser posix config.identity
  let mounted :=
    mountedOwner (context.workspace_observation.getD (posix.observe_workspace context.cwd))
  return (chooseUid posix config.identity (← mapPair posix config inputs pair) mounted named).1

/-- Where the target branch has its texts from. -/
structure TargetTexts (posix : PosixSystem) (config : BootstrapConfig) (context : RuntimeContext)
    (inputs : ResolvedInputs) (identity : ResolvedIdentity) (uid : UInt32)
    (named uidUser : Option PosixUser) : Prop where
  target : targetUid posix config context inputs = .ok uid
  account : namedUser posix config.identity = .ok named
  owner : posix.lookup_user_by_uid uid = .ok uidUser
  user : chooseUser config.identity uid uidUser = .ok identity.user
  home : chooseHome config inputs (fallbackHome uid identity.user named uidUser) =
    .ok identity.home
  absolute : isAbsolute identity.home = true

theorem resolveTarget_texts {posix : PosixSystem} {config : BootstrapConfig}
    {context : RuntimeContext} {inputs : ResolvedInputs} {identity : ResolvedIdentity}
    (h : resolveTarget posix config context inputs = .ok identity) :
    ∃ uid named uidUser, TargetTexts posix config context inputs identity uid named uidUser := by
  simp only [resolveTarget, throw_eq, error_bind, ite_error_ok_iff, bind_ok_iff, pure_ok_iff,
    liftIo_ok_iff] at h
  obtain ⟨pair, hpair, explicit, hexplicit, _, _, named, hnamed, mapped, hmapped, ⟨gid, source⟩,
    hgid, uidUser, howner, user, huser, home, hhome, habsolute, rfl⟩ := h
  refine ⟨_, named, uidUser, ?_, hnamed, howner, huser, hhome, by simpa using habsolute⟩
  simp only [targetUid, bind_ok_iff, pure_ok_iff]
  exact ⟨pair, hpair, named, hnamed, mapped, hmapped, rfl⟩

/-- The account texts that a user name or a home is taken from are login values, and a configured
home that is taken for root is concrete. -/
structure SourcesFit (posix : PosixSystem) (config : BootstrapConfig) (context : RuntimeContext)
    (inputs : ResolvedInputs) : Prop where
  root : inputBool config inputs config.identity.run_as_root_input = .ok (some true) →
    inputHome config inputs config.identity.home_input = .ok none →
    ∀ home, config.identity.default_home = some home → isAbsolute home = true
  user : inputBool config inputs config.identity.run_as_root_input ≠ .ok (some true) →
    ∀ uid account, targetUid posix config context inputs = .ok uid → uid ≠ 0 →
    config.identity.default_user = none → posix.lookup_user_by_uid uid = .ok (some account) →
    loginValueValid account.name = true
  home : inputBool config inputs config.identity.run_as_root_input ≠ .ok (some true) →
    inputHome config inputs config.identity.home_input = .ok none →
    config.identity.default_home = none →
    ∀ uid named uidUser account, targetUid posix config context inputs = .ok uid → uid ≠ 0 →
    namedUser posix config.identity = .ok named → posix.lookup_user_by_uid uid = .ok uidUser →
    (named <|> uidUser) = some account → loginValueValid account.home = true

/-- The texts of a valid configuration. -/
structure ConfiguredTexts (identity : IdentityConfig) : Prop where
  user : ∀ user, identity.default_user = some user → loginValueValid user = true
  home : ∀ home, identity.default_home = some home → loginValueValid home = true

theorem configuredTexts_of_validate {identity : IdentityConfig}
    (h : identity.validate = .ok ()) : ConfiguredTexts identity := by
  simp only [IdentityConfig.validate, bind_ok_iff] at h
  obtain ⟨_, huser, _, hhome, -⟩ := h
  constructor
  · intro user hsome
    rw [hsome] at huser
    exact loginValueValid_of_userName huser
  · intro home hsome
    rw [hsome] at hhome
    exact loginValueValid_of_template hhome

section texts

variable {posix : PosixSystem} {config : BootstrapConfig} {context : RuntimeContext}
  {inputs : ResolvedInputs} {identity : ResolvedIdentity}

/-- The home of a request is a login value when the one that is fallen back on is. -/
theorem chooseHome_valid (hconfig : ConfiguredTexts config.identity)
    (hinputs : resolveInputs config context = .ok inputs) {fallback home : String}
    (h : chooseHome config inputs fallback = .ok home)
    (hfallback : inputHome config inputs config.identity.home_input = .ok none →
      config.identity.default_home = none → loginValueValid fallback = true) :
    loginValueValid home = true := by
  obtain ⟨given, hgiven, rfl⟩ := chooseHome_ok h
  cases given with
  | some path => exact (inputHome_absolute hinputs hgiven).1
  | none =>
    cases hdefault : config.identity.default_home with
    | some path => exact hconfig.home path hdefault
    | none => exact hfallback hgiven hdefault

theorem rootTexts_iff (hconfig : ConfiguredTexts config.identity)
    (hinputs : resolveInputs config context = .ok inputs)
    (hasked : inputBool config inputs config.identity.run_as_root_input = .ok (some true))
    (h : resolveRoot config inputs = .ok identity) :
    TextsTaken identity ↔ SourcesFit posix config context inputs := by
  simp only [resolveRoot, bind_ok_iff, pure_ok_iff] at h
  obtain ⟨home, hhome, rfl⟩ := h
  obtain ⟨given, hgiven, hvalue⟩ := chooseHome_ok hhome
  constructor
  · intro htaken
    refine ⟨fun _ hnone path hdefault => ?_, fun hnot => absurd hasked hnot,
      fun hnot => absurd hasked hnot⟩
    rw [hgiven] at hnone
    cases hnone
    rw [hdefault] at hvalue
    have habsolute := htaken.absolute
    rw [hvalue] at habsolute
    exact habsolute
  · intro hfit
    have huser : loginValueValid "root" = true := by decide
    refine ⟨huser, chooseHome_valid hconfig hinputs hhome (fun _ _ => by decide), ?_⟩
    show isAbsolute home = true
    rw [hvalue]
    cases given with
    | some path => exact (inputHome_absolute hinputs hgiven).2
    | none =>
      cases hdefault : config.identity.default_home with
      | some path => exact hfit.root hasked hgiven path hdefault
      | none => decide

theorem loginValueValid_home {user : String} (h : loginValueValid user = true) :
    loginValueValid ("/home/" ++ user) = true := by
  obtain ⟨-, hnul, hnewline⟩ := loginValueValid_iff.mp h
  rw [hasChar, ← Bool.not_eq_true, List.contains_iff_mem] at hnul hnewline
  have hstart : "/home/".toList = ['/', 'h', 'o', 'm', 'e', '/'] := rfl
  have habsent : ∀ c, c ∉ "/home/".toList → c ∉ user.toList →
      hasChar ("/home/" ++ user) c = false := by
    intro c hstart huser
    rw [hasChar, ← Bool.not_eq_true, List.contains_iff_mem, String.toList_append, List.mem_append]
    exact fun hmem => hmem.elim hstart huser
  refine loginValueValid_iff.mpr ⟨?_, habsent _ (by decide) hnul, habsent _ (by decide) hnewline⟩
  intro hempty
  simp [← String.toList_inj] at hempty

/-- The home that is fallen back on is fit when its account is. -/
theorem fallbackHome_valid {uid : UInt32} {user : String} {named uidUser : Option PosixUser}
    (huser : loginValueValid user = true)
    (haccount : uid ≠ 0 → ∀ account, (named <|> uidUser) = some account →
      loginValueValid account.home = true) :
    loginValueValid (fallbackHome uid user named uidUser) = true := by
  unfold fallbackHome
  by_cases huid : uid = 0
  · rw [if_pos huid]
    decide
  · rw [if_neg huid]
    cases named with
    | some account => exact haccount huid account rfl
    | none =>
      cases uidUser with
      | some account => exact haccount huid account rfl
      | none => exact loginValueValid_home huser

theorem fallbackHome_account {uid : UInt32} {user : String} {named uidUser : Option PosixUser}
    {account : PosixUser} (huid : uid ≠ 0) (haccount : (named <|> uidUser) = some account) :
    fallbackHome uid user named uidUser = account.home := by
  unfold fallbackHome
  rw [if_neg huid]
  cases named with
  | some found =>
    cases haccount
    rfl
  | none =>
    cases uidUser with
    | some found =>
      cases haccount
      rfl
    | none => cases haccount

theorem targetTexts_iff (hconfig : ConfiguredTexts config.identity)
    (hinputs : resolveInputs config context = .ok inputs)
    (hasked : inputBool config inputs config.identity.run_as_root_input ≠ .ok (some true))
    (h : resolveTarget posix config context inputs = .ok identity) :
    TextsTaken identity ↔ SourcesFit posix config context inputs := by
  obtain ⟨uid, named, uidUser, htexts⟩ := resolveTarget_texts h
  constructor
  · intro htaken
    refine ⟨fun hroot => absurd hroot hasked, ?_, ?_⟩
    · intro _ other account hother hne hdefault haccount
      rw [htexts.target] at hother
      cases hother
      rw [htexts.owner] at haccount
      cases haccount
      rcases chooseUser_ok htexts.user with ⟨hzero, -⟩ | ⟨-, hsome | ⟨-, ⟨found, hfound, hname⟩ | ⟨hnone, -⟩⟩⟩
      · exact absurd hzero hne
      · rw [hdefault] at hsome
        cases hsome
      · cases hfound
        rw [hname]
        exact htaken.user
      · cases hnone
    · intro _ hnone hdefault other named' uidUser' account hother hne hnamed howner haccount
      rw [htexts.target] at hother
      cases hother
      rw [htexts.account] at hnamed
      cases hnamed
      rw [htexts.owner] at howner
      cases howner
      obtain ⟨given, hgiven, hvalue⟩ := chooseHome_ok htexts.home
      rw [hnone] at hgiven
      cases hgiven
      rw [hdefault] at hvalue
      have hhome := htaken.home
      rw [hvalue] at hhome
      rw [← fallbackHome_account hne haccount]
      exact hhome
  · intro hfit
    have huser : loginValueValid identity.user = true := by
      rcases chooseUser_ok htexts.user with ⟨-, hroot⟩ | ⟨hne, hsome | ⟨hdefault, ⟨found, hfound, hname⟩ | ⟨-, huid⟩⟩⟩
      · rw [hroot]
        decide
      · exact hconfig.user _ hsome
      · rw [← hname]
        exact hfit.user hasked uid found htexts.target hne hdefault (hfound ▸ htexts.owner)
      · rw [huid]
        exact loginValueValid_uid uid
    refine ⟨huser, chooseHome_valid hconfig hinputs htexts.home ?_, htexts.absolute⟩
    intro hnone hdefault
    refine fallbackHome_valid huser fun hne account haccount => ?_
    exact hfit.home hasked hnone hdefault uid named uidUser account htexts.target hne
      htexts.account htexts.owner haccount

theorem textsTaken_iff (hconfig : ConfiguredTexts config.identity)
    (hinputs : resolveInputs config context = .ok inputs)
    (h : resolvePrevalidated posix config context = .ok identity) :
    TextsTaken identity ↔ SourcesFit posix config context inputs := by
  obtain ⟨resolved, asked, hresolved, hasked, ⟨rfl, hroot⟩ | ⟨hnot, htarget⟩⟩ :=
    resolvePrevalidated_ok h
  · rw [hinputs] at hresolved
    cases hresolved
    exact rootTexts_iff hconfig hinputs hasked hroot
  · rw [hinputs] at hresolved
    cases hresolved
    refine targetTexts_iff hconfig hinputs ?_ htarget
    rw [hasked]
    exact fun heq => hnot (Except.ok.inj heq)

end texts

/-! ## The handoff between server and client -/

/-- The sources of the texts fit for the directory and the inputs of the request. -/
def RequestFits (runtime : BackendRuntime) (host : RequestHost) (options : PrepareExecOptions) :
    Prop :=
  ∀ cwd inputs, host.resolve_cwd_object options.cwd = .ok cwd →
    resolveInputs runtime.request_config (requestContext options cwd) = .ok inputs →
    SourcesFit host.host.posix runtime.request_config (requestContext options cwd) inputs

/-- The client takes a handoff that the server prepares exactly when the sources of its user name
and its home fit. -/
theorem prepared_handoff_accepted_iff {runtime : BackendRuntime} {host : RequestHost}
    {peer : PeerCredentials} {options : PrepareExecOptions} {start now : Nat}
    {prepared : PreparedHandoff} {group_limit : Nat} {caller : CallerCredentials}
    (hplan : Plan.fromConfig runtime.request_config = .ok runtime.request_plan)
    (hsystem : SystemAnswers host group_limit) (hcaller : Observed host peer caller)
    (hsnapshot : 1 ≤ byteLen runtime.snapshot_id ∧ byteLen runtime.snapshot_id ≤ 128)
    (h : (prepareExec runtime host peer options start now).2 = .ok prepared) :
    validatePrepared group_limit caller prepared = .ok prepared ↔
      RequestFits runtime host options := by
  have hrest := prepareExec_restTaken h hsystem hcaller hsnapshot
  obtain ⟨draft, prepare_id, hdraft, -, rfl⟩ := prepareExec_ok h
  obtain ⟨hcwd, hidentity, -⟩ := checkPrepare_ok hdraft
  obtain ⟨inputs, asked, hinputs, -⟩ := resolvePrevalidated_ok hidentity
  have hvalid := (fromConfig_ok hplan).1.valid
  simp only [BootstrapConfig.validate, throw_eq, error_bind, ite_error_ok_iff, bind_ok_iff] at hvalid
  obtain ⟨-, -, _, -, -, _, hconfig, -⟩ := hvalid
  rw [hrest.accepted_iff, textsTaken_iff (configuredTexts_of_validate hconfig) hinputs hidentity]
  constructor
  · intro hfit cwd other hother hresolved
    rw [hcwd] at hother
    cases hother
    rw [hinputs] at hresolved
    cases hresolved
    exact hfit
  · intro hfit
    exact hfit draft.cwd inputs hcwd hinputs

/-! ## A home for root -/

/-- A target that may be root, with a home for both. -/
def rootHomeConfig (home : String) : BootstrapConfig where
  workspace_root := "/w"
  identity := { run_as_root_input := some "RUN_AS_ROOT", default_home := some home,
                default_uid := some 1000, default_gid := some 1000 }
  handoff := { runtime := "/bin/sh" }
  inputs := (∅ : Std.ExtTreeMap String BootstrapInput).insert "RUN_AS_ROOT"
    { target := "identity.run_as_root", input_type := .Bool, runtime := true }

def rootHomeRuntime (home : String) : BackendRuntime :=
  { aliasRuntime with
    config := rootHomeConfig home
    request_config := rootHomeConfig home
    request_plan := planOf (rootHomeConfig home)
    allowed_runtime_inputs := (∅ : Std.ExtTreeSet String).insert "RUN_AS_ROOT" }

def prepareHost : RequestHost :=
  { quietRequestHost with
    resolve_cwd_object := fun path =>
      if path = "/w" then .ok { canonical_path := "/w", object := ⟨1, 1⟩ } else .error "not found"
    new_prepare_id := .ok "000000000000000000000000000000000000000000000000" }

def asRoot : PrepareExecOptions :=
  { longOptions with inputs := (∅ : Std.ExtTreeMap String String).insert "RUN_AS_ROOT" "true" }

def rootCaller : CallerCredentials := { uid := 0, gid := 0, groups := none }

theorem prepareHost_answers : SystemAnswers prepareHost 65536 where
  prepare_id id hid := by
    obtain rfl := Except.ok.inj hid
    decide
  cwd path cwd hcwd := by
    unfold prepareHost at hcwd
    dsimp only at hcwd
    split_ifs at hcwd
    cases hcwd
    exact ⟨by decide, by decide, by decide⟩
  groups identity groups hgroups := by
    obtain rfl := Except.ok.inj hgroups
    exact ⟨List.pairwise_singleton _ _, List.mem_singleton_self _, by simp⟩

theorem rootCaller_observed : Observed prepareHost rootPeer rootCaller :=
  ⟨rfl, rfl, fun hne => absurd rfl hne⟩

theorem rootHome_planned : Plan.fromConfig (rootHomeConfig "/srv/root") =
    .ok (rootHomeRuntime "/srv/root").request_plan := by
  decide

theorem prepared_handoff_accepted_for_root : ∃ prepared,
    (prepareExec (rootHomeRuntime "/srv/root") prepareHost rootPeer asRoot 0 0).2 = .ok prepared ∧
      (validatePrepared 65536 rootCaller prepared = .ok prepared ↔
        RequestFits (rootHomeRuntime "/srv/root") prepareHost asRoot) := by
  obtain ⟨prepared, hprepared⟩ := exists_of_isOk
    (x := (prepareExec (rootHomeRuntime "/srv/root") prepareHost rootPeer asRoot 0 0).2)
    (by decide)
  exact ⟨prepared, hprepared, prepared_handoff_accepted_iff rootHome_planned prepareHost_answers
    rootCaller_observed (by decide) hprepared⟩

/-- A configured home that starts with a reference is prepared for root as it stands, and the
client refuses it. -/
theorem template_home_is_refused :
    Plan.fromConfig (rootHomeConfig "${context.cwd}/root") =
        .ok (rootHomeRuntime "${context.cwd}/root").request_plan ∧
      SystemAnswers prepareHost 65536 ∧ Observed prepareHost rootPeer rootCaller ∧
      ∃ prepared, (prepareExec (rootHomeRuntime "${context.cwd}/root") prepareHost rootPeer asRoot
          0 0).2 = .ok prepared ∧
        validatePrepared 65536 rootCaller prepared = .error .UnexpectedResponse := by
  refine ⟨by decide, prepareHost_answers, rootCaller_observed, ?_⟩
  obtain ⟨prepared, hprepared⟩ := exists_of_isOk
    (x := (prepareExec (rootHomeRuntime "${context.cwd}/root") prepareHost rootPeer asRoot 0 0).2)
    (by decide)
  have hrefused : (prepareExec (rootHomeRuntime "${context.cwd}/root") prepareHost rootPeer asRoot 0
      0).2.toOption.map (validatePrepared 65536 rootCaller) = some (.error .UnexpectedResponse) := by
    decide
  rw [hprepared] at hrefused
  exact ⟨prepared, hprepared, Option.some.inj hrefused⟩

end init_backend
