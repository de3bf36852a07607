-- `prepare_identity` (`server/identity.rs`), and when the identity it prepares
-- is the one that was requested.
import NixosDockers.Backend.Runtime
import NixosDockers.Core.ExecutorRun

open bootstrap_model init_core rust_text results

namespace init_backend

structure IdentityRequestOptions where
  requested : IdentityRequest
  cwd : String
  inputs : Std.ExtTreeMap String String := ∅
  environment : Std.ExtTreeMap String String := ∅

/-- A request ends with an error for the client, or with a panic of the code. -/
inductive RequestFailure where
  | Error (error : BackendError)
  | Panic (message : String)
  deriving DecidableEq, Repr

def liftBackend {α : Type} : Except BackendError α → Except RequestFailure α
  | .ok value => .ok value
  | .error error => .error (.Error error)

def liftRun {α : Type} : Except RunFailure α → Except RequestFailure α
  | .ok value => .ok value
  | .error (.Core error) => .error (.Error (coreError error))
  | .error (.Panic message) => .error (.Panic message)

def allowedPeerIdentity (runtime : BackendRuntime) (uid gid : UInt32) : Bool :=
  (uid = runtime.startup_identity.uid && gid = runtime.startup_identity.gid) ||
    (runtime.request_config.identity.default_uid = some uid &&
      runtime.request_config.identity.default_gid = some gid)

/-- The checks of the peer against the request. -/
def checkRequest (runtime : BackendRuntime) (peer : PeerCredentials) (requested : IdentityRequest) :
    Except BackendError Unit := do
  if runtime.state ≠ .Ready then
    throw (backendError "backend_not_ready" true
      "container-init is not ready to prepare an identity")
  let (uid, gid) := match requested with
    | .Peer uid gid => (uid, gid)
    | .Root => (0, 0)
    | .User _ => (peer.uid, peer.gid)
  if peer.uid ≠ 0 ∧ (uid ≠ peer.uid ∨ gid ≠ peer.gid) then
    throw (backendError "permission" false
      "non-root broker peers may only request their observed identity")
  match requested with
  | .Peer uid gid =>
    if peer.uid = 0 ∧ !allowedPeerIdentity runtime uid gid then
      throw (backendError "permission" false
        "root broker peer identity is not allowed by the profile")
  | .Root =>
    if peer.uid ≠ 0 then
      throw (backendError "permission" false
        "only the root backend may request a named or root identity")
  | .User name =>
    if peer.uid ≠ 0 then
      throw (backendError "permission" false
        "only the root backend may request a named or root identity")
    if name ≠ "root" ∧ runtime.request_config.identity.default_user ≠ some name then
      throw (backendError "permission" false "named identity is not allowed by the profile")

/-- The names that the profile gives to the four inputs of the identity. -/
def identityInputs (identity : IdentityConfig) : List String :=
  [identity.run_as_root_input, identity.uid_input, identity.gid_input, identity.home_input].filterMap id

/-- `retain`: the values under other names. -/
def withoutIdentityInputs (identity : IdentityConfig) (values : Std.ExtTreeMap String String) :
    Std.ExtTreeMap String String :=
  values.filter fun name _ => !(identityInputs identity).contains name

/-- The identity that the executor starts from. -/
def requestedIdentity (identity : IdentityConfig) : IdentityRequest → IdentityConfig
  | .Peer uid gid => { identity with
      default_user := none
      default_uid := some uid
      default_gid := some gid
      auto_mapping := false }
  | .Root =>
    if identity.run_as_root_input.isSome then identity
    else { identity with
      default_user := some "root"
      default_uid := some 0
      default_gid := some 0
      auto_mapping := false }
  | .User name => { identity with
      default_user := some name
      default_uid := none
      default_gid := none
      auto_mapping := false }

/-- A root request sets the run-as-root input, which the filter has removed. -/
def requestedInputs (identity : IdentityConfig) (requested : IdentityRequest)
    (inputs : Std.ExtTreeMap String String) : Std.ExtTreeMap String String :=
  let kept := withoutIdentityInputs identity inputs
  match requested, identity.run_as_root_input with
  | .Root, some name => kept.insertIfNew name "1"
  | _, _ => kept

def requestedConfig (config : BootstrapConfig) (requested : IdentityRequest) : BootstrapConfig :=
  { config with identity := requestedIdentity config.identity requested }

def requestedContext (config : BootstrapConfig) (cwd : String) (options : IdentityRequestOptions) :
    RuntimeContext where
  cwd
  env := withoutIdentityInputs config.identity options.environment
  cli_inputs := requestedInputs config.identity options.requested options.inputs

def prepareIdentity (runtime : BackendRuntime) (host : RequestHost) (peer : PeerCredentials)
    (options : IdentityRequestOptions) : Except RequestFailure PreparedIdentity := do
  liftBackend (checkRequest runtime peer options.requested)
  let cwd ← liftBackend (answer (host.resolve_cwd_object options.cwd) "permission"
    "identity request working directory is unavailable")
  let config := requestedConfig runtime.request_config options.requested
  let context := requestedContext runtime.request_config cwd.canonical_path options
  liftBackend (validateInputs config context.cli_inputs)
  let executor : PlanExecutor := { config, context, options := runtime.options }
  let report ← liftRun (executor.executeInternal host.host runtime.request_plan [] none).result
  let groups ← liftBackend (answer (host.supplementary_groups report.identity) "identity"
    "supplementary groups unavailable")
  return {
    uid := report.identity.uid
    gid := report.identity.gid
    user := report.identity.user
    home := report.identity.home
    supplemental_groups := groups
    run_as_root := report.identity.run_as_root }

/-! ## What is left for the identity inputs -/

/-- The GID that the inputs ask for: the GID input, or else the second part of the pair. -/
def leftGid (posix : PosixSystem) (config : BootstrapConfig) (inputs : ResolvedInputs) :
    Except CoreError (Option UInt32) := do
  match ← inputGid config inputs config.identity.gid_input with
  | some gid =>
    let found ← inputNamespace config inputs config.identity.gid_input
    return some (← mapGid posix gid found)
  | none =>
    match ← inputUidPair config inputs config.identity.uid_input with
    | some { uid := _, gid := some gid } =>
      let found ← inputNamespace config inputs config.identity.uid_input
      return some (← mapGid posix gid found)
    | _ => return none

/-- The UID that the inputs ask for. -/
def leftUid (posix : PosixSystem) (config : BootstrapConfig) (inputs : ResolvedInputs) :
    Except CoreError (Option UInt32) := do
  match ← inputUidPair config inputs config.identity.uid_input with
  | some pair =>
    let found ← inputNamespace config inputs config.identity.uid_input
    return some (← mapUid posix pair.uid found)
  | none => return none

/-- The values that are left for the identity inputs ask for no other identity. -/
structure AsksForNoOther (posix : PosixSystem) (config : BootstrapConfig) (inputs : ResolvedInputs)
    (uid gid : UInt32) : Prop where
  root : inputBool config inputs config.identity.run_as_root_input ≠ .ok (some true)
  uid : ∀ left, leftUid posix config inputs = .ok (some left) → left = uid
  gid : ∀ left, leftGid posix config inputs = .ok (some left) → left = gid

section

variable {posix : PosixSystem} {config : BootstrapConfig} {inputs : ResolvedInputs}

theorem mapPair_some {pair : UidPair} {mapped : Option (UidPair × InputNamespace)}
    (h : mapPair posix config inputs (some pair) = .ok mapped) :
    ∃ found uid gid, inputNamespace config inputs config.identity.uid_input = .ok found ∧
      mapUid posix pair.uid found = .ok uid ∧
      pair.gid.mapM (fun gid => mapGid posix gid found) = .ok gid ∧
      mapped = some ({ uid, gid }, found) := by
  simp only [mapPair, bind_ok_iff, pure_ok_iff] at h
  obtain ⟨found, hfound, uid, huid, gid, hgid, rfl⟩ := h
  exact ⟨found, uid, gid, hfound, huid, hgid, rfl⟩

/-- With the defaults of a peer request, the UID is the one that is left or the requested one. -/
theorem chooseUid_requested {uid : UInt32} (hauto : config.identity.auto_mapping = false)
    (hdefault : config.identity.default_uid = some uid) {pair : Option UidPair}
    {mapped : Option (UidPair × InputNamespace)}
    (hpair : inputUidPair config inputs config.identity.uid_input = .ok pair)
    (hmapped : mapPair posix config inputs pair = .ok mapped)
    (mounted : Option (UInt32 × UInt32)) (named : Option PosixUser) :
    ∃ left, leftUid posix config inputs = .ok left ∧
      (chooseUid posix config.identity mapped mounted named).1 = left.getD uid := by
  unfold leftUid
  rw [hpair, ok_bind]
  cases pair with
  | none =>
    obtain rfl := Except.ok.inj hmapped
    exact ⟨none, rfl, by simp [chooseUid, fallbackUid, hauto, hdefault]⟩
  | some pair =>
    obtain ⟨found, mappedUid, _, hfound, huid, _, rfl⟩ := mapPair_some hmapped
    refine ⟨some mappedUid, ?_, rfl⟩
    simp only [hfound, huid, ok_bind]
    rfl

/-- With the defaults of a peer request, the GID is the one that is left or the requested one. -/
theorem chooseGid_requested {gid : UInt32} (hauto : config.identity.auto_mapping = false)
    (hdefault : config.identity.default_gid = some gid) {pair : Option UidPair}
    {explicit : Option UInt32} {mapped : Option (UidPair × InputNamespace)}
    (hpair : inputUidPair config inputs config.identity.uid_input = .ok pair)
    (hexplicit : inputGid config inputs config.identity.gid_input = .ok explicit)
    (hmapped : mapPair posix config inputs pair = .ok mapped) {uid chosen : UInt32}
    {mounted : Option (UInt32 × UInt32)} {named : Option PosixUser} {source : IdentitySource}
    (h : chooseGid posix config inputs explicit mapped uid mounted named = .ok (chosen, source)) :
    ∃ left, leftGid posix config inputs = .ok left ∧ chosen = left.getD gid := by
  unfold leftGid
  rw [hexplicit, ok_bind]
  cases explicit with
  | some explicit =>
    simp only [chooseGid, bind_ok_iff, pure_ok_iff] at h
    obtain ⟨found, hfound, mappedGid, hgid, he⟩ := h
    obtain ⟨rfl, -⟩ := Prod.mk.inj he
    refine ⟨some mappedGid, ?_, rfl⟩
    simp only [hfound, hgid, ok_bind]
    rfl
  | none =>
    have hfallback : (fallbackGid posix config.identity uid mounted named).1 = gid := by
      simp [fallbackGid, hauto, hdefault]
    dsimp only
    rw [hpair, ok_bind]
    cases pair with
    | none =>
      obtain rfl := Except.ok.inj hmapped
      obtain he := Except.ok.inj h
      exact ⟨none, rfl, by rw [← hfallback, he]; rfl⟩
    | some pair =>
      obtain ⟨found, _, mappedGid, hfound, _, hgid, rfl⟩ := mapPair_some hmapped
      obtain ⟨pairUid, pairGid⟩ := pair
      cases pairGid with
      | none =>
        obtain rfl := Except.ok.inj hgid
        obtain he := Except.ok.inj h
        exact ⟨none, rfl, by rw [← hfallback, he]; rfl⟩
      | some pairGid =>
        rcases hmap : mapGid posix pairGid found with error | mappedPair
        · simp [Option.mapM, hmap] at hgid
        · obtain rfl : mappedGid = some mappedPair := by
            simpa [Option.mapM, hmap, eq_comm] using hgid
          obtain ⟨rfl, -⟩ := Prod.mk.inj (Except.ok.inj h)
          refine ⟨some mappedPair, ?_, rfl⟩
          simp only [hfound, hmap, ok_bind]
          rfl

/-- The identity of a peer request is the requested pair exactly when the inputs that are
left ask for no other. -/
theorem resolve_requested_iff {context : RuntimeContext} {identity : ResolvedIdentity}
    {uid gid : UInt32} (hauto : config.identity.auto_mapping = false)
    (huid : config.identity.default_uid = some uid) (hgid : config.identity.default_gid = some gid)
    (hinputs : resolveInputs config context = .ok inputs)
    (h : resolvePrevalidated posix config context = .ok identity) :
    (identity.uid = uid ∧ identity.gid = gid ∧ identity.run_as_root = false) ↔
      AsksForNoOther posix config inputs uid gid := by
  obtain ⟨inputs', asked, hinputs', hasked, hcase⟩ := resolvePrevalidated_ok h
  obtain rfl := Except.ok.inj (hinputs.symm.trans hinputs')
  rcases hcase with ⟨rfl, hroot⟩ | ⟨hne, htarget⟩
  · refine iff_of_false ?_ fun hno => hno.root hasked
    rw [(resolveRoot_ok hroot).2.2]
    simp
  · obtain ⟨pair, explicit, named, mapped, mounted, hpair, hexplicit, _, hmapped, hu, hg, hr⟩ :=
      resolveTarget_ok htarget
    obtain ⟨leftU, hleftU, hchosenU⟩ := chooseUid_requested hauto huid hpair hmapped mounted named
    obtain ⟨leftG, hleftG, hchosenG⟩ := chooseGid_requested hauto hgid hpair hexplicit hmapped hg
    rw [hchosenU] at hu
    rw [hu, hchosenG, hr]
    constructor
    · rintro ⟨hsameU, hsameG, -⟩
      refine ⟨?_, fun left hl => ?_, fun left hl => ?_⟩
      · rw [hasked]
        exact fun he => hne (Except.ok.inj he)
      · obtain rfl := Except.ok.inj (hleftU.symm.trans hl)
        exact hsameU
      · obtain rfl := Except.ok.inj (hleftG.symm.trans hl)
        exact hsameG
    · intro hno
      refine ⟨?_, ?_, rfl⟩
      · cases leftU with
        | none => rfl
        | some left => exact hno.uid left hleftU
      · cases leftG with
        | none => rfl
        | some left => exact hno.gid left hleftG

end

/-! ## The prepared identity -/

theorem liftBackend_ok_iff {α : Type} {result : Except BackendError α} {value : α} :
    liftBackend result = .ok value ↔ result = .ok value := by
  cases result <;> simp [liftBackend]

theorem liftRun_ok_iff {α : Type} {result : Except RunFailure α} {value : α} :
    liftRun result = .ok value ↔ result = .ok value := by
  rcases result with (_ | _) | _ <;> simp [liftRun]

theorem answer_ok_iff {α : Type} {result : Except String α} {error_class message : String}
    {value : α} : answer result error_class message = .ok value ↔ result = .ok value := by
  cases result <;> simp [answer]

/-- A prepared identity is the one that the executor resolved. -/
theorem prepareIdentity_ok {runtime : BackendRuntime} {host : RequestHost} {peer : PeerCredentials}
    {options : IdentityRequestOptions} {prepared : PreparedIdentity}
    (h : prepareIdentity runtime host peer options = .ok prepared) :
    ∃ cwd identity, host.resolve_cwd_object options.cwd = .ok cwd ∧
      resolvePrevalidated host.host.posix
        (requestedConfig runtime.request_config options.requested)
        (requestedContext runtime.request_config cwd.canonical_path options) = .ok identity ∧
      prepared.uid = identity.uid ∧ prepared.gid = identity.gid ∧
      prepared.run_as_root = identity.run_as_root := by
  simp only [prepareIdentity, bind_ok_iff, pure_ok_iff, liftBackend_ok_iff, liftRun_ok_iff,
    answer_ok_iff] at h
  obtain ⟨_, _, cwd, hcwd, _, _, report, hreport, _, _, rfl⟩ := h
  have hidentity := executeInternal_identity hreport
  exact ⟨cwd, report.identity, hcwd, hidentity, rfl, rfl, rfl⟩

/-- A peer gets the pair it asked for exactly when the values that are left for the identity
inputs, after the configured names are taken out of the request, ask for no other. -/
theorem prepared_identity_is_requested_iff (runtime : BackendRuntime) (host : RequestHost)
    (peer : PeerCredentials) (options : IdentityRequestOptions) (uid gid : UInt32)
    (cwd : ResolvedCwd) (inputs : ResolvedInputs) (prepared : PreparedIdentity)
    (hrequested : options.requested = .Peer uid gid)
    (hcwd : host.resolve_cwd_object options.cwd = .ok cwd)
    (hinputs : resolveInputs (requestedConfig runtime.request_config (.Peer uid gid))
      (requestedContext runtime.request_config cwd.canonical_path options) = .ok inputs)
    (hprepared : prepareIdentity runtime host peer options = .ok prepared) :
    (prepared.uid = uid ∧ prepared.gid = gid ∧ prepared.run_as_root = false) ↔
      AsksForNoOther host.host.posix (requestedConfig runtime.request_config (.Peer uid gid)) inputs
        uid gid := by
  obtain ⟨cwd', identity, hcwd', hresolve, hu, hg, hr⟩ := prepareIdentity_ok hprepared
  obtain rfl := Except.ok.inj (hcwd.symm.trans hcwd')
  rw [hrequested] at hresolve
  rw [hu, hg, hr]
  exact resolve_requested_iff rfl rfl rfl hinputs hresolve

def uidInput : BootstrapInput where
  target := "identity.uid"
  input_type := .UidPair
  aliases := ["USER_UID"]
  runtime := true
  namespace_ := some .Container

/-- A profile whose UID input has a second name. -/
def aliasConfig : BootstrapConfig where
  workspace_root := "/w"
  identity := { default_uid := some 1000, default_gid := some 1000, uid_input := some "TARGET_UID" }
  handoff := { runtime := "/bin/sh" }
  inputs := Std.ExtTreeMap.ofList [("TARGET_UID", uidInput)]
  actions := [
    { id := "resolve", kind := .IdentityResolve, run_as := .Root, origin := imageOrigin }]

def aliasRuntime : BackendRuntime where
  snapshot_id := "snapshot"
  state := .Ready
  config := aliasConfig
  request_config := aliasConfig
  request_plan := planOf aliasConfig
  startup_identity := {
    uid := 1000
    gid := 1000
    user := "uid-1000"
    home := "/home/uid-1000"
    run_as_root := false
    uid_source := .ProfileDefault
    gid_source := .ProfileDefault
    workspace := .NotMounted }

def quietRequestHost : RequestHost where
  host := quietHost fun _ => false
  resolve_cwd_object := fun path => .ok { canonical_path := path, object := ⟨1, 1⟩ }
  supplementary_groups := fun identity => .ok [identity.gid]
  peer_groups := fun _ gid => .ok [gid]
  geteuid := 0
  new_prepare_id := .ok "0000"

def ordinaryPeer : PeerCredentials := { pid := 7, uid := 1000, gid := 1000 }

def peerRequest (inputs : List (String × String)) : IdentityRequestOptions where
  requested := .Peer 1000 1000
  cwd := "/w"
  inputs := Std.ExtTreeMap.ofList inputs

/-- The configured name of the input is taken out of the request, so it asks for nothing. -/
theorem configured_name_asks_for_nothing :
    ∃ prepared inputs, prepareIdentity aliasRuntime quietRequestHost ordinaryPeer
        (peerRequest [("TARGET_UID", "0")]) = .ok prepared ∧
      prepared.uid = 1000 ∧ prepared.gid = 1000 ∧
      AsksForNoOther quietRequestHost.host.posix (requestedConfig aliasConfig (.Peer 1000 1000))
        inputs 1000 1000 := by
  obtain ⟨prepared, hprepared⟩ : ∃ prepared, prepareIdentity aliasRuntime quietRequestHost
      ordinaryPeer (peerRequest [("TARGET_UID", "0")]) = .ok prepared :=
    exists_of_isOk (by decide +kernel)
  obtain ⟨inputs, hinputs⟩ : ∃ inputs, resolveInputs (requestedConfig aliasConfig (.Peer 1000 1000))
      (requestedContext aliasConfig "/w" (peerRequest [("TARGET_UID", "0")])) = .ok inputs :=
    exists_of_isOk (by decide +kernel)
  have hfacts : prepared.uid = 1000 ∧ prepared.gid = 1000 ∧ prepared.run_as_root = false := by
    have hsome : ((prepareIdentity aliasRuntime quietRequestHost ordinaryPeer
        (peerRequest [("TARGET_UID", "0")])).toOption.map fun prepared =>
          (prepared.uid, prepared.gid, prepared.run_as_root)) = some (1000, 1000, false) := by
      decide +kernel
    rw [hprepared] at hsome
    simpa [Except.toOption] using hsome
  refine ⟨prepared, inputs, hprepared, hfacts.1, hfacts.2.1, ?_⟩
  exact (prepared_identity_is_requested_iff aliasRuntime quietRequestHost ordinaryPeer
    (peerRequest [("TARGET_UID", "0")]) 1000 1000 ⟨"/w", ⟨1, 1⟩⟩ inputs prepared rfl rfl hinputs
    hprepared).mp hfacts

/-- Under the other name of the input, a peer that is not root gets the UID of root. -/
theorem alias_gives_root_uid :
    aliasConfig.validate = .ok () ∧
      ∃ prepared, prepareIdentity aliasRuntime quietRequestHost ordinaryPeer
          (peerRequest [("USER_UID", "0")]) = .ok prepared ∧ prepared.uid = 0 := by
  refine ⟨by decide +kernel, ?_⟩
  obtain ⟨prepared, hprepared⟩ : ∃ prepared, prepareIdentity aliasRuntime quietRequestHost
      ordinaryPeer (peerRequest [("USER_UID", "0")]) = .ok prepared :=
    exists_of_isOk (by decide +kernel)
  have hsome : ((prepareIdentity aliasRuntime quietRequestHost ordinaryPeer
      (peerRequest [("USER_UID", "0")])).toOption.map (·.uid)) = some 0 := by decide +kernel
  rw [hprepared] at hsome
  exact ⟨prepared, hprepared, by simpa [Except.toOption] using hsome⟩

end init_backend
