-- The identity resolver (`identity.rs`): the values of the declared inputs, and
-- the identity that follows from them.
import NixosDockers.Core.Types
import NixosDockers.Lib.Results

open bootstrap_model rust_text results

namespace init_core

def DEFAULT_ROOT_HOME : String := "/root"

/-! ## The declared inputs -/

/-- The value of a declared input: a CLI input under any of its names, then the
environment, then the default. -/
def declaredValue (name : String) (declaration : BootstrapInput) (context : RuntimeContext) :
    Option String :=
  let default := declaration.default.map inputValueString
  if !declaration.runtime then default
  else
    let names := name :: declaration.aliases
    names.findSome? (context.cli_inputs[·]?) <|> names.findSome? (context.env[·]?) <|> default

/-- The entries that one declaration adds: under its name, then under its aliases. -/
def inputEntries (name : String) (declaration : BootstrapInput) (context : RuntimeContext) :
    Except CoreError (List (String × RuntimeInput)) :=
  match declaredValue name declaration context with
  | none => .ok []
  | some raw => do
    let parsed ← liftModel (declaration.parseValue raw)
    let input : RuntimeInput := { name, raw, parsed }
    return (name :: declaration.aliases).map fun key => (key, input)

def resolveInputs (config : BootstrapConfig) (context : RuntimeContext) :
    Except CoreError ResolvedInputs := do
  let entries ← config.inputs.toList.mapM fun (name, declaration) =>
    inputEntries name declaration context
  return entries.flatten.foldl (fun values entry => values.insert entry.1 entry.2) ∅

def findInput (config : BootstrapConfig) (inputs : ResolvedInputs) (name : Option String) :
    Option RuntimeInput := do
  let name ← name
  inputs[name]? <|> do
    let (canonical, _) ← config.inputs.toList.find? fun entry => entry.2.aliases.contains name
    inputs[canonical]?

def inputNamespace (config : BootstrapConfig) (inputs : ResolvedInputs) (name : Option String) :
    Except CoreError InputNamespace :=
  match findInput config inputs name with
  | none => .error (.Identity "configured UID/GID input is not set")
  | some input =>
    match (inputDeclaration config.inputs input.name).bind (·.namespace_) with
    | some found => .ok found
    | none => .error (.Identity ("input " ++ input.name ++ " has no declared namespace"))

/-! ## The four inputs of the identity -/

/-- An input of the identity that must have one of the parsed forms. -/
def inputAs {α : Type} (config : BootstrapConfig) (inputs : ResolvedInputs)
    (name : Option String) (what : String) (form : ParsedInput → Option α) :
    Except CoreError (Option α) :=
  match findInput config inputs name with
  | none => .ok none
  | some input =>
    match form input.parsed with
    | some value => .ok (some value)
    | none => .error (.Identity ("input " ++ input.name ++ " is not a " ++ what))

def inputUidPair (config : BootstrapConfig) (inputs : ResolvedInputs) (name : Option String) :
    Except CoreError (Option UidPair) :=
  inputAs config inputs name "uid_pair" fun
    | .UidPair uid gid => some { uid, gid }
    | _ => none

def inputGid (config : BootstrapConfig) (inputs : ResolvedInputs) (name : Option String) :
    Except CoreError (Option UInt32) :=
  inputAs config inputs name "gid" fun
    | .Gid gid => some gid
    | _ => none

def inputBool (config : BootstrapConfig) (inputs : ResolvedInputs) (name : Option String) :
    Except CoreError (Option Bool) :=
  inputAs config inputs name "bool" fun
    | .Bool value => some value
    | _ => none

/-- `input_home` also checks that the path is in the workspace. -/
def inputHome (config : BootstrapConfig) (inputs : ResolvedInputs) (name : Option String) :
    Except CoreError (Option String) :=
  match findInput config inputs name with
  | none => .ok none
  | some input =>
    match input.parsed with
    | .Path path =>
      if (inputDeclaration config.inputs input.name).any (fun found => !found.allow_outside_workspace)
          && !pathStartsWith path config.workspace_root then
        .error (.Identity ("input " ++ input.name ++ " resolves outside the configured workspace"))
      else .ok (some path)
    | _ => .error (.Identity ("input " ++ input.name ++ " is not a path"))

/-! ## The identity -/

def mapUid (posix : PosixSystem) (uid : UInt32) : InputNamespace → Except CoreError UInt32
  | .Host =>
    match posix.map_uid_from_parent uid with
    | .ok mapped => .ok mapped
    | .error error => .error (.Identity ("cannot map host UID " ++ toString uid ++ ": " ++ error))
  | .Container => .ok uid

def mapGid (posix : PosixSystem) (gid : UInt32) : InputNamespace → Except CoreError UInt32
  | .Host =>
    match posix.map_gid_from_parent gid with
    | .ok mapped => .ok mapped
    | .error error => .error (.Identity ("cannot map host GID " ++ toString gid ++ ": " ++ error))
  | .Container => .ok gid

def sourceForNamespace : InputNamespace → IdentitySource
  | .Host => .ExplicitHost
  | .Container => .ExplicitContainer

/-- A lookup whose failure is an error of the input and output. -/
def liftIo {α : Type} : Except String α → Except CoreError α
  | .ok value => .ok value
  | .error source => .error (.Io none none source)

/-- The account of the configured user. -/
def namedUser (posix : PosixSystem) (identity : IdentityConfig) :
    Except CoreError (Option PosixUser) :=
  match identity.default_user with
  | some name => liftIo (posix.lookup_user_by_name name)
  | none => .ok none

/-- The pair in the ids of this container, with the namespace it came from. -/
def mapPair (posix : PosixSystem) (config : BootstrapConfig) (inputs : ResolvedInputs)
    (pair : Option UidPair) : Except CoreError (Option (UidPair × InputNamespace)) :=
  match pair with
  | none => .ok none
  | some pair => do
    let found ← inputNamespace config inputs config.identity.uid_input
    let uid ← mapUid posix pair.uid found
    let gid ← pair.gid.mapM fun gid => mapGid posix gid found
    return some ({ uid, gid }, found)

def mountedOwner : WorkspaceObservation → Option (UInt32 × UInt32)
  | .Mounted uid gid _ _ => some (uid, gid)
  | _ => none

/-- The UID when no pair is given. -/
def fallbackUid (posix : PosixSystem) (identity : IdentityConfig)
    (mounted : Option (UInt32 × UInt32)) (named : Option PosixUser) : UInt32 × IdentitySource :=
  match (if identity.auto_mapping then mounted else none), identity.default_uid, named with
  | some (uid, _), _, _ => (uid, .WorkspaceMount)
  | none, some uid, _ => (uid, .ProfileDefault)
  | none, none, some user => (user.uid, .ProfileDefault)
  | none, none, none => (posix.current_ids.1, .Current)

/-- The GID when neither a GID nor a pair with a GID is given. Without auto mapping the last
resort is the UID. -/
def fallbackGid (posix : PosixSystem) (identity : IdentityConfig) (uid : UInt32)
    (mounted : Option (UInt32 × UInt32)) (named : Option PosixUser) : UInt32 × IdentitySource :=
  match (if identity.auto_mapping then mounted else none), identity.default_gid, named with
  | some (_, gid), _, _ => (gid, .WorkspaceMount)
  | none, some gid, _ => (gid, .ProfileDefault)
  | none, none, some user => (user.gid, .ProfileDefault)
  | none, none, none => (if identity.auto_mapping then posix.current_ids.2 else uid, .Current)

def chooseUid (posix : PosixSystem) (identity : IdentityConfig)
    (pair : Option (UidPair × InputNamespace)) (mounted : Option (UInt32 × UInt32))
    (named : Option PosixUser) : UInt32 × IdentitySource :=
  match pair with
  | some (pair, found) => (pair.uid, sourceForNamespace found)
  | none => fallbackUid posix identity mounted named

def chooseGid (posix : PosixSystem) (config : BootstrapConfig) (inputs : ResolvedInputs)
    (explicit : Option UInt32) (pair : Option (UidPair × InputNamespace)) (uid : UInt32)
    (mounted : Option (UInt32 × UInt32)) (named : Option PosixUser) :
    Except CoreError (UInt32 × IdentitySource) :=
  match explicit with
  | some gid => do
    let found ← inputNamespace config inputs config.identity.gid_input
    return (← mapGid posix gid found, sourceForNamespace found)
  | none =>
    match pair with
    | some ({ uid := _, gid := some gid }, found) => .ok (gid, sourceForNamespace found)
    | _ => .ok (fallbackGid posix config.identity uid mounted named)

/-- The account name of the UID, after the checks against the owner of the UID. -/
def chooseUser (identity : IdentityConfig) (uid : UInt32) (uidUser : Option PosixUser) :
    Except CoreError String := do
  let user ←
    if uid = 0 then
      match uidUser with
      | some candidate =>
        if candidate.name ≠ "root" then
          throw (.Identity ("UID 0 is already occupied by passwd user " ++
            debugText candidate.name ++ ", not root"))
        else pure "root"
      | none => pure "root"
    else
      match identity.default_user, uidUser with
      | some user, _ =>
        if user = "root" then
          throw (.Identity "non-zero UID cannot use the root account name")
        else pure user
      | none, some found => pure found.name
      | none, none => pure ("uid-" ++ toString uid)
  if uid ≠ 0 then
    if let some owner := uidUser then
      if owner.name ≠ user then
        throw (.Identity ("target UID " ++ toString uid ++ " is already occupied by passwd user " ++
          debugText owner.name))
  return user

def chooseHome (config : BootstrapConfig) (inputs : ResolvedInputs) (fallback : String) :
    Except CoreError String := do
  let home ← inputHome config inputs config.identity.home_input
  return (home <|> config.identity.default_home).getD fallback

/-- The home of an account when nothing is configured. -/
def fallbackHome (uid : UInt32) (user : String) (named uidUser : Option PosixUser) : String :=
  if uid = 0 then DEFAULT_ROOT_HOME
  else (named.map (·.home) <|> uidUser.map (·.home)).getD ("/home/" ++ user)

/-- The branch of `resolve_prevalidated` for the root request. -/
def resolveRoot (config : BootstrapConfig) (inputs : ResolvedInputs) :
    Except CoreError ResolvedIdentity := do
  let home ← chooseHome config inputs DEFAULT_ROOT_HOME
  return {
    uid := 0
    gid := 0
    user := "root"
    home
    run_as_root := true
    uid_source := .RunAsRoot
    gid_source := .RunAsRoot
    workspace := .NotMounted }

/-- A configured root account is not mapped to another UID. -/
def checkRootName (identity : IdentityConfig) (pair : Option UidPair) : Except CoreError Unit :=
  if identity.default_user = some "root" &&
      (pair.map (·.uid) <|> identity.default_uid).any (· ≠ 0) then
    .error (.Identity ("default_user=\"root\" cannot be mapped to a non-zero UID"))
  else .ok ()

def resolveTarget (posix : PosixSystem) (config : BootstrapConfig) (context : RuntimeContext)
    (inputs : ResolvedInputs) : Except CoreError ResolvedIdentity := do
  let pair ← inputUidPair config inputs config.identity.uid_input
  let explicit ← inputGid config inputs config.identity.gid_input
  checkRootName config.identity pair
  let named ← namedUser posix config.identity
  let observation := context.workspace_observation.getD (posix.observe_workspace context.cwd)
  let mounted := mountedOwner observation
  let pair ← mapPair posix config inputs pair
  let (uid, uid_source) := chooseUid posix config.identity pair mounted named
  let (gid, gid_source) ← chooseGid posix config inputs explicit pair uid mounted named
  let uidUser ← liftIo (posix.lookup_user_by_uid uid)
  let user ← chooseUser config.identity uid uidUser
  let home ← chooseHome config inputs (fallbackHome uid user named uidUser)
  if !isAbsolute home then
    throw (.Identity ("resolved HOME " ++ home ++ " is not absolute"))
  return {
    uid
    gid
    user
    home
    run_as_root := false
    uid_source
    gid_source
    workspace := .fromObservation observation }

def resolvePrevalidated (posix : PosixSystem) (config : BootstrapConfig)
    (context : RuntimeContext) : Except CoreError ResolvedIdentity := do
  let inputs ← resolveInputs config context
  let runAsRoot ← inputBool config inputs config.identity.run_as_root_input
  if runAsRoot.getD false then resolveRoot config inputs
  else resolveTarget posix config context inputs

def resolve (posix : PosixSystem) (config : BootstrapConfig) (context : RuntimeContext) :
    Except CoreError ResolvedIdentity := do
  liftModel config.validate
  resolvePrevalidated posix config context

/-! ## What a resolved identity is made of -/

theorem resolveRoot_ok {config : BootstrapConfig} {inputs : ResolvedInputs}
    {identity : ResolvedIdentity} (h : resolveRoot config inputs = .ok identity) :
    identity.uid = 0 ∧ identity.gid = 0 ∧ identity.run_as_root = true := by
  simp only [resolveRoot, bind_ok_iff, pure_ok_iff] at h
  obtain ⟨_, _, rfl⟩ := h
  exact ⟨rfl, rfl, rfl⟩

theorem resolveTarget_ok {posix : PosixSystem} {config : BootstrapConfig}
    {context : RuntimeContext} {inputs : ResolvedInputs} {identity : ResolvedIdentity}
    (h : resolveTarget posix config context inputs = .ok identity) :
    ∃ pair explicit named mapped mounted,
      inputUidPair config inputs config.identity.uid_input = .ok pair ∧
      inputGid config inputs config.identity.gid_input = .ok explicit ∧
      namedUser posix config.identity = .ok named ∧
      mapPair posix config inputs pair = .ok mapped ∧
      identity.uid = (chooseUid posix config.identity mapped mounted named).1 ∧
      chooseGid posix config inputs explicit mapped identity.uid mounted named =
        .ok (identity.gid, identity.gid_source) ∧
      identity.run_as_root = false := by
  simp only [resolveTarget, throw_eq, error_bind, ite_error_ok_iff, bind_ok_iff, pure_ok_iff] at h
  obtain ⟨pair, hpair, explicit, hexplicit, _, _, named, hnamed, mapped, hmapped, ⟨gid, source⟩,
    hgid, _, _, _, _, _, _, _, rfl⟩ := h
  exact ⟨pair, explicit, named, mapped, _, hpair, hexplicit, hnamed, hmapped, rfl, hgid, rfl⟩

/-- The identity comes from the root branch or from the target branch. -/
theorem resolvePrevalidated_ok {posix : PosixSystem} {config : BootstrapConfig}
    {context : RuntimeContext} {identity : ResolvedIdentity}
    (h : resolvePrevalidated posix config context = .ok identity) :
    ∃ inputs asked, resolveInputs config context = .ok inputs ∧
      inputBool config inputs config.identity.run_as_root_input = .ok asked ∧
      ((asked = some true ∧ resolveRoot config inputs = .ok identity) ∨
        (asked ≠ some true ∧ resolveTarget posix config context inputs = .ok identity)) := by
  simp only [resolvePrevalidated, bind_ok_iff] at h
  obtain ⟨inputs, hinputs, asked, hasked, h⟩ := h
  refine ⟨inputs, asked, hinputs, hasked, ?_⟩
  rcases asked with _ | _ | _
  · exact Or.inr ⟨by simp, h⟩
  · exact Or.inr ⟨by simp, h⟩
  · exact Or.inl ⟨rfl, h⟩

end init_core
