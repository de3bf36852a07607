-- The precedence of the target ids (dsl.md): which source a UID and a GID come
-- from, and in which cases the resolver takes the one that is documented.
import NixosDockers.Core.Identity

open bootstrap_model rust_text results

namespace init_core

/-! ## The documented precedence -/

/-- What the precedence chooses from, in the ids of this container. -/
structure IdSources where
  auto_mapping : Bool
  uid_input : Option (UInt32 × InputNamespace)
  gid_input : Option (UInt32 × InputNamespace)
  pair_gid : Option (UInt32 × InputNamespace)
  mounted : Option (UInt32 × UInt32)
  default_uid : Option UInt32
  default_gid : Option UInt32
  named : Option PosixUser
  current : UInt32 × UInt32
  deriving DecidableEq

namespace IdSources

/-- A value of an input with the source that it names. -/
def fromInput (value : UInt32 × InputNamespace) : UInt32 × IdentitySource :=
  (value.1, sourceForNamespace value.2)

/-- The owner of the workspace counts with auto mapping only. -/
def owner (sources : IdSources) : Option (UInt32 × UInt32) :=
  if sources.auto_mapping then sources.mounted else none

/-- The sources that name a UID, from the input to the account of the default user. -/
def namedUid (sources : IdSources) : Option (UInt32 × IdentitySource) :=
  sources.uid_input.map fromInput <|> sources.owner.map (fun owner => (owner.1, .WorkspaceMount)) <|>
    sources.default_uid.map (fun uid => (uid, .ProfileDefault)) <|>
    sources.named.map (fun user => (user.uid, .ProfileDefault))

/-- The sources that name a GID, from the input to the account of the default user. -/
def namedGid (sources : IdSources) : Option (UInt32 × IdentitySource) :=
  sources.gid_input.map fromInput <|> sources.pair_gid.map fromInput <|>
    sources.owner.map (fun owner => (owner.2, .WorkspaceMount)) <|>
    sources.default_gid.map (fun gid => (gid, .ProfileDefault)) <|>
    sources.named.map (fun user => (user.gid, .ProfileDefault))

/-- The last resort is the current UID. -/
def documentedUid (sources : IdSources) : UInt32 × IdentitySource :=
  sources.namedUid.getD (sources.current.1, .Current)

/-- The last resort is the UID, wherever that came from. -/
def documentedGid (sources : IdSources) : UInt32 × IdentitySource :=
  sources.namedGid.getD sources.documentedUid

/-- A GID has a named source, or the UID is that of the process. Under auto mapping the process
must have this UID as its GID too. -/
def LastResortAgrees (sources : IdSources) : Prop :=
  sources.namedGid.isSome ∨
    sources.namedUid = none ∧ (sources.auto_mapping = true → sources.current.2 = sources.current.1)

end IdSources

/-- The GID input in the ids of this container. -/
def gidInput (posix : PosixSystem) (config : BootstrapConfig) (inputs : ResolvedInputs) :
    Option UInt32 → Except CoreError (Option (UInt32 × InputNamespace))
  | none => .ok none
  | some gid => do
    let found ← inputNamespace config inputs config.identity.gid_input
    return some (← mapGid posix gid found, found)

/-- The sources with these values of the inputs. -/
def offered (posix : PosixSystem) (identity : IdentityConfig)
    (pair : Option (UidPair × InputNamespace)) (gid_input : Option (UInt32 × InputNamespace))
    (mounted : Option (UInt32 × UInt32)) (named : Option PosixUser) : IdSources where
  auto_mapping := identity.auto_mapping
  uid_input := pair.map fun (pair, found) => (pair.uid, found)
  gid_input
  pair_gid := pair.bind fun (pair, found) => pair.gid.map fun gid => (gid, found)
  mounted
  default_uid := identity.default_uid
  default_gid := identity.default_gid
  named
  current := posix.current_ids

/-- The sources that a configuration and the values of its inputs offer. -/
def idSources (posix : PosixSystem) (config : BootstrapConfig) (context : RuntimeContext)
    (inputs : ResolvedInputs) : Except CoreError IdSources := do
  let pair ← inputUidPair config inputs config.identity.uid_input
  let explicit ← inputGid config inputs config.identity.gid_input
  let named ← namedUser posix config.identity
  let mapped ← mapPair posix config inputs pair
  let gid_input ← gidInput posix config inputs explicit
  let observation := context.workspace_observation.getD (posix.observe_workspace context.cwd)
  return offered posix config.identity mapped gid_input (mountedOwner observation) named

/-- The sources of a request, or nothing when it asks for root. -/
def requestedSources (posix : PosixSystem) (config : BootstrapConfig) (context : RuntimeContext) :
    Except CoreError (Option IdSources) := do
  let inputs ← resolveInputs config context
  let asked ← inputBool config inputs config.identity.run_as_root_input
  if asked.getD false then return none
  else return some (← idSources posix config context inputs)

/-- The ids are those of the documented precedence. -/
def HasDocumentedIds (identity : ResolvedIdentity) : Option IdSources → Prop
  | none => identity.uid = 0 ∧ identity.gid = 0
  | some sources =>
    identity.uid = sources.documentedUid.1 ∧ identity.gid = sources.documentedGid.1

/-- And so are the sources that are named for them. -/
def FollowsPrecedence (identity : ResolvedIdentity) : Option IdSources → Prop
  | none => identity.uid = 0 ∧ identity.gid = 0 ∧
      identity.uid_source = .RunAsRoot ∧ identity.gid_source = .RunAsRoot
  | some sources =>
    (identity.uid, identity.uid_source) = sources.documentedUid ∧
      (identity.gid, identity.gid_source) = sources.documentedGid

/-! ## The two cascades -/

/-- The GID that the cascade of the code comes to. -/
def IdSources.cascadeGid (sources : IdSources) : UInt32 × IdentitySource :=
  sources.namedGid.getD
    (if sources.auto_mapping then sources.current.2 else sources.documentedUid.1, .Current)

theorem chooseUid_eq (posix : PosixSystem) (identity : IdentityConfig)
    (pair : Option (UidPair × InputNamespace)) (gid_input : Option (UInt32 × InputNamespace))
    (mounted : Option (UInt32 × UInt32)) (named : Option PosixUser) :
    chooseUid posix identity pair mounted named =
      (offered posix identity pair gid_input mounted named).documentedUid := by
  obtain _ | ⟨pair, found⟩ := pair
  · simp only [chooseUid, fallbackUid, IdSources.documentedUid, IdSources.namedUid,
      IdSources.owner, offered]
    cases (if identity.auto_mapping = true then mounted else none) with
    | some owner => rfl
    | none => cases identity.default_uid <;> cases named <;> rfl
  · rfl

theorem fallbackGid_eq (posix : PosixSystem) (identity : IdentityConfig)
    {pair : Option (UidPair × InputNamespace)} (hpair : pair.bind (·.1.gid) = none)
    (mounted : Option (UInt32 × UInt32)) (named : Option PosixUser) :
    fallbackGid posix identity (offered posix identity pair none mounted named).documentedUid.1
        mounted named =
      (offered posix identity pair none mounted named).cascadeGid := by
  have hgid : (offered posix identity pair none mounted named).pair_gid = none := by
    obtain _ | ⟨pair, found⟩ := pair
    · rfl
    · have hnone : pair.gid = none := hpair
      simp [offered, hnone]
  rw [IdSources.cascadeGid, IdSources.namedGid, hgid]
  simp only [fallbackGid, IdSources.owner, offered]
  cases (if identity.auto_mapping = true then mounted else none) with
  | some owner => rfl
  | none => cases identity.default_gid <;> cases named <;> rfl

theorem chooseGid_eq {posix : PosixSystem} {config : BootstrapConfig} {inputs : ResolvedInputs}
    {explicit : Option UInt32} {pair : Option (UidPair × InputNamespace)} {uid : UInt32}
    {mounted : Option (UInt32 × UInt32)} {named : Option PosixUser}
    {gid : UInt32 × IdentitySource}
    (huid : uid = (chooseUid posix config.identity pair mounted named).1)
    (h : chooseGid posix config inputs explicit pair uid mounted named = .ok gid) :
    ∃ gid_input, gidInput posix config inputs explicit = .ok gid_input ∧
      gid = (offered posix config.identity pair gid_input mounted named).cascadeGid := by
  cases explicit with
  | some wanted =>
    simp only [chooseGid, bind_ok_iff, pure_ok_iff] at h
    obtain ⟨found, hfound, mapped, hmapped, rfl⟩ := h
    refine ⟨some (mapped, found), ?_, rfl⟩
    rw [gidInput, hfound, ok_bind, hmapped]
    rfl
  | none =>
    refine ⟨none, rfl, ?_⟩
    rw [chooseUid_eq _ _ _ none] at huid
    subst huid
    obtain _ | ⟨⟨pairUid, _ | pairGid⟩, found⟩ := pair
    · exact (Except.ok.inj h).symm.trans (fallbackGid_eq posix config.identity rfl mounted named)
    · exact (Except.ok.inj h).symm.trans (fallbackGid_eq posix config.identity rfl mounted named)
    · exact (Except.ok.inj h).symm

theorem resolveTarget_ids {posix : PosixSystem} {config : BootstrapConfig}
    {context : RuntimeContext} {inputs : ResolvedInputs} {identity : ResolvedIdentity}
    (h : resolveTarget posix config context inputs = .ok identity) :
    ∃ sources, idSources posix config context inputs = .ok sources ∧
      (identity.uid, identity.uid_source) = sources.documentedUid ∧
      (identity.gid, identity.gid_source) = sources.cascadeGid := by
  simp only [resolveTarget, throw_eq, error_bind, ite_error_ok_iff, bind_ok_iff, pure_ok_iff] at h
  obtain ⟨pair, hpair, explicit, hexplicit, _, _, named, hnamed, mapped, hmapped, ⟨gid, source⟩,
    hgid, _, _, _, _, _, _, _, rfl⟩ := h
  obtain ⟨gid_input, hinput, hchosen⟩ := chooseGid_eq rfl hgid
  refine ⟨offered posix config.identity mapped gid_input _ named, ?_,
    chooseUid_eq posix config.identity mapped gid_input _ named, hchosen⟩
  rw [idSources, hpair, ok_bind, hexplicit, ok_bind, hnamed, ok_bind, hmapped, ok_bind, hinput]
  rfl

/-! ## Where they agree -/

namespace IdSources

theorem namedUid_ne_current {sources : IdSources} {found : UInt32 × IdentitySource}
    (h : sources.namedUid = some found) : found.2 ≠ .Current := by
  intro hcurrent
  simp only [namedUid, Option.orElse_eq_orElse, Option.orElse_eq_or, Option.or_eq_some_iff,
    Option.map_eq_some_iff, Option.map_eq_none_iff] at h
  rcases h with ⟨⟨uid, declared⟩, _, rfl⟩ | ⟨_, ⟨owner, _, rfl⟩ | ⟨_, ⟨uid, _, rfl⟩ |
    ⟨_, user, _, rfl⟩⟩⟩
  · cases declared <;> cases hcurrent
  · cases hcurrent
  · cases hcurrent
  · cases hcurrent

/-- Only the last resort names the process as the source of the UID. -/
theorem documentedUid_current_iff {sources : IdSources} :
    sources.documentedUid.2 = .Current ↔ sources.namedUid = none := by
  unfold documentedUid
  cases huid : sources.namedUid with
  | none => simp
  | some found => simpa using namedUid_ne_current huid

theorem cascadeGid_eq_iff {sources : IdSources} :
    sources.cascadeGid = sources.documentedGid ↔ sources.LastResortAgrees := by
  unfold cascadeGid documentedGid LastResortAgrees
  cases hgid : sources.namedGid with
  | some found => simp
  | none =>
    -- both resorts name a value, so the source decides first
    rw [Option.getD_none, Option.getD_none]
    constructor
    · intro heq
      have hsource : sources.documentedUid.2 = .Current := (congrArg Prod.snd heq).symm
      have hnone := documentedUid_current_iff.mp hsource
      refine Or.inr ⟨hnone, fun hauto => ?_⟩
      have hvalue := congrArg Prod.fst heq
      rwa [if_pos hauto, documentedUid, hnone] at hvalue
    · rintro (hsome | ⟨hnone, hcurrent⟩)
      · cases hsome
      · have huid : sources.documentedUid = (sources.current.1, .Current) := by
          rw [documentedUid, hnone]
          rfl
        rw [huid]
        split_ifs with hauto
        · rw [hcurrent hauto]
        · rfl

/-- Without the names of the sources the plain branch is right. -/
theorem cascadeGid_id_iff {sources : IdSources} :
    sources.cascadeGid.1 = sources.documentedGid.1 ↔
      (sources.namedGid = none → sources.auto_mapping = true →
        sources.current.2 = sources.documentedUid.1) := by
  unfold cascadeGid documentedGid
  cases hgid : sources.namedGid with
  | some found => simp
  | none =>
    rw [Option.getD_none, Option.getD_none]
    by_cases hauto : sources.auto_mapping = true
    · simp [hauto]
    · simp [hauto]

end IdSources

section requests

variable {posix : PosixSystem} {config : BootstrapConfig} {context : RuntimeContext}
  {inputs : ResolvedInputs} {asked : Option Bool}

theorem requestedSources_root (hinputs : resolveInputs config context = .ok inputs)
    (hasked : inputBool config inputs config.identity.run_as_root_input = .ok (some true)) :
    requestedSources posix config context = .ok none := by
  rw [requestedSources, hinputs, ok_bind, hasked]
  rfl

theorem requestedSources_target (hinputs : resolveInputs config context = .ok inputs)
    (hasked : inputBool config inputs config.identity.run_as_root_input = .ok asked)
    (hother : asked ≠ some true) {sources : IdSources}
    (hsources : idSources posix config context inputs = .ok sources) :
    requestedSources posix config context = .ok (some sources) := by
  have hfalse : asked.getD false = false := by
    rcases asked with _ | _ | _
    · rfl
    · rfl
    · exact absurd rfl hother
  rw [requestedSources, hinputs, ok_bind, hasked, ok_bind, hfalse, hsources]
  rfl

end requests

theorem requestedSources_ok {posix : PosixSystem} {config : BootstrapConfig}
    {context : RuntimeContext} {identity : ResolvedIdentity}
    (h : resolvePrevalidated posix config context = .ok identity) :
    ∃ requested, requestedSources posix config context = .ok requested ∧
      match requested with
      | none => identity.uid = 0 ∧ identity.gid = 0 ∧
          identity.uid_source = .RunAsRoot ∧ identity.gid_source = .RunAsRoot
      | some sources =>
        (identity.uid, identity.uid_source) = sources.documentedUid ∧
          (identity.gid, identity.gid_source) = sources.cascadeGid := by
  obtain ⟨inputs, asked, hinputs, hasked, ⟨rfl, h⟩ | ⟨hother, h⟩⟩ := resolvePrevalidated_ok h
  · simp only [resolveRoot, bind_ok_iff, pure_ok_iff] at h
    obtain ⟨_, _, rfl⟩ := h
    exact ⟨none, requestedSources_root hinputs hasked, rfl, rfl, rfl, rfl⟩
  · obtain ⟨sources, hsources, hids⟩ := resolveTarget_ids h
    exact ⟨some sources, requestedSources_target hinputs hasked hother hsources, hids⟩

theorem resolvePrevalidated_of_resolve {posix : PosixSystem} {config : BootstrapConfig}
    {context : RuntimeContext} {identity : ResolvedIdentity}
    (h : resolve posix config context = .ok identity) :
    resolvePrevalidated posix config context = .ok identity := by
  obtain ⟨_, _, h⟩ := bind_ok_iff.mp h
  exact h

/-- The condition for a request: none for root, the last resort of the GID for a target. -/
def GidResortAgrees : Option IdSources → Prop
  | none => True
  | some sources => sources.LastResortAgrees

/-- The same without the names of the sources. -/
def GidValueAgrees : Option IdSources → Prop
  | none => True
  | some sources => sources.namedGid = none → sources.auto_mapping = true →
      sources.current.2 = sources.documentedUid.1

/-- A resolved identity has the documented UID, and the documented GID unless no source names a
GID: then auto mapping takes the GID of the process, and the plain branch takes the UID under
the name of the process. -/
theorem identity_follows_precedence_iff {posix : PosixSystem} {config : BootstrapConfig}
    {context : RuntimeContext} {identity : ResolvedIdentity}
    (h : resolvePrevalidated posix config context = .ok identity) :
    ∃ requested, requestedSources posix config context = .ok requested ∧
      (FollowsPrecedence identity requested ↔ GidResortAgrees requested) ∧
      (HasDocumentedIds identity requested ↔ GidValueAgrees requested) := by
  obtain ⟨requested, hrequested, hids⟩ := requestedSources_ok h
  refine ⟨requested, hrequested, ?_⟩
  cases requested with
  | none => exact ⟨iff_of_true hids trivial, iff_of_true ⟨hids.1, hids.2.1⟩ trivial⟩
  | some sources =>
    obtain ⟨huid, hgid⟩ := hids
    constructor
    · rw [FollowsPrecedence, GidResortAgrees, ← IdSources.cascadeGid_eq_iff, hgid]
      exact and_iff_right huid
    · have hvalue : identity.gid = sources.cascadeGid.1 := congrArg Prod.fst hgid
      rw [HasDocumentedIds, GidValueAgrees, ← IdSources.cascadeGid_id_iff, hvalue]
      exact and_iff_right (congrArg Prod.fst huid)

/-! ## A target that gets the GID of the process -/

/-- A UID input without a GID, with auto mapping. -/
def mappedTarget : BootstrapConfig where
  workspace_root := "/w"
  identity := { auto_mapping := true, uid_input := some "TARGET_UID" }
  handoff := { runtime := "/bin/sh" }
  inputs := (∅ : Std.ExtTreeMap String BootstrapInput).insert "TARGET_UID"
    { target := "identity.uid", input_type := .UidPair, runtime := true
      namespace_ := some .Container }

/-- No accounts, no mounted workspace, and a process of root. -/
def bareSystem : PosixSystem where
  current_ids := (0, 0)
  lookup_user_by_name _ := .ok none
  lookup_user_by_uid _ := .ok none
  observe_workspace _ := .NotMounted "rootfs directory"
  map_uid_from_parent uid := .ok uid
  map_gid_from_parent gid := .ok gid

def targetContext : RuntimeContext where
  cwd := "/w"
  cli_inputs := (∅ : Std.ExtTreeMap String String).insert "TARGET_UID" "1000"

def mappedSources : IdSources where
  auto_mapping := true
  uid_input := some (1000, .Container)
  gid_input := none
  pair_gid := none
  mounted := none
  default_uid := none
  default_gid := none
  named := none
  current := (0, 0)

def mappedIdentity : ResolvedIdentity where
  uid := 1000
  gid := 0
  user := "uid-1000"
  home := "/home/uid-1000"
  run_as_root := false
  uid_source := .ExplicitContainer
  gid_source := .Current
  workspace := .NotMounted

theorem mappedTarget_sources :
    requestedSources bareSystem mappedTarget targetContext = .ok (some mappedSources) :=
  ok_of_toOption (by decide +kernel)

theorem mappedTarget_resolved :
    resolve bareSystem mappedTarget targetContext = .ok mappedIdentity :=
  ok_of_toOption (by decide +kernel)

/-- The target asks for UID 1000 and gets the GID 0 of the process. -/
theorem auto_mapping_takes_the_process_gid :
    resolve bareSystem mappedTarget targetContext = .ok mappedIdentity ∧
      requestedSources bareSystem mappedTarget targetContext = .ok (some mappedSources) ∧
      mappedSources.documentedGid.1 = 1000 ∧ mappedIdentity.gid = 0 ∧
      ¬ HasDocumentedIds mappedIdentity (some mappedSources) ∧
      ¬ FollowsPrecedence mappedIdentity (some mappedSources) := by
  have hids : ¬ HasDocumentedIds mappedIdentity (some mappedSources) :=
    fun h => absurd h.2 (by decide)
  have hfollows : ¬ FollowsPrecedence mappedIdentity (some mappedSources) :=
    fun h => absurd h.2 (by decide)
  exact ⟨mappedTarget_resolved, mappedTarget_sources, rfl, rfl, hids, hfollows⟩

theorem identity_follows_precedence_iff_mapped :
    ∃ requested, requestedSources bareSystem mappedTarget targetContext = .ok requested ∧
      (FollowsPrecedence mappedIdentity requested ↔ GidResortAgrees requested) ∧
      (HasDocumentedIds mappedIdentity requested ↔ GidValueAgrees requested) :=
  identity_follows_precedence_iff (resolvePrevalidated_of_resolve mappedTarget_resolved)

end init_core
