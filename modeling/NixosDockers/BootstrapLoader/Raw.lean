-- The documents of the loader (crate `container-init-bootstrap-loader`,
-- `raw.rs`): a profile as it is written, and the catalog of its overrides.
import NixosDockers.BootstrapModel.Config

open bootstrap_model rust_text

namespace bootstrap_loader

/-! ## Errors -/

/-- The errors of the merge. -/
inductive LoaderError where
  | Invalid (location message : String)
  | Model (error : ModelError)
  | DuplicateActionId (profile action : String)
  | Conflict (path : String) (previous incoming : Origin) (remedy : String)
  | TrustViolation (profile : String) (source : SourceKind) (path message : String)
  deriving DecidableEq, Repr

/-- A load ends with an error, or the code panics. -/
inductive LoadFailure where
  | Loader (error : LoaderError)
  | Panic (message : String)
  deriving DecidableEq, Repr

/-! ## Profiles -/

structure RawIdentity where
  default_user : Option String := none
  default_uid : Option UInt32 := none
  default_gid : Option UInt32 := none
  default_home : Option String := none
  auto_mapping : Option Bool := none
  run_as_root_input : Option String := none
  uid_input : Option String := none
  gid_input : Option String := none
  home_input : Option String := none

structure RawHandoff where
  runtime : Option String := none
  exec_prefix : Option (List String) := none
  initial_exec_prefix : Option (List String) := none
  shell_prefix : Option (List String) := none
  root_service : Option Bool := none
  ssh_daemon : Option String := none
  login_shell : Option String := none

structure RawPolicy where
  workspace_safe_action_kinds : Finset ActionKind := ∅
  admin_only_action_kinds : Finset ActionKind := ∅

/-- What the loader looks at of a TOML value under `override`: whether it is a table, and which
of its entries are texts. -/
inductive OverrideValue where
  | Table (entries : Std.ExtTreeMap String (Option String))
  | Other

structure RawBootstrap where
  schema : Option UInt32 := none
  mode : Option BootstrapMode := none
  workspace_root : Option String := none
  allow_workspace_overlay : Option Bool := none
  non_interactive : Option NonInteractivePolicy := none
  identity : Option RawIdentity := none
  handoff : Option RawHandoff := none
  policy : Option RawPolicy := none
  inputs : Std.ExtTreeMap String BootstrapInput := ∅
  actions : List Action := []
  overrides : Std.ExtTreeMap String OverrideValue := ∅

structure RawProfile where
  schema : Option UInt32 := none
  id : String
  bootstrap : Option RawBootstrap := none
  overrides : Std.ExtTreeMap String OverrideValue := ∅

structure ProfileSource where
  id : String
  source : SourceKind
  location : Option String := none

structure LoadedProfile where
  id : String
  source : SourceKind
  location : Option String := none

/-! ## The scalars of a bootstrap namespace -/

/-- The scalars that a profile can set, in the order in which they are merged. -/
inductive ScalarKey where
  | Schema
  | Mode
  | WorkspaceRoot
  | AllowWorkspaceOverlay
  | NonInteractive
  | DefaultUser
  | DefaultUid
  | DefaultGid
  | DefaultHome
  | AutoMapping
  | RunAsRootInput
  | UidInput
  | GidInput
  | HomeInput
  | Runtime
  | ExecPrefix
  | InitialExecPrefix
  | ShellPrefix
  | RootService
  | SshDaemon
  | LoginShell
  deriving DecidableEq, Repr

namespace ScalarKey

def all : List ScalarKey :=
  [.Schema, .Mode, .WorkspaceRoot, .AllowWorkspaceOverlay, .NonInteractive, .DefaultUser,
    .DefaultUid, .DefaultGid, .DefaultHome, .AutoMapping, .RunAsRootInput, .UidInput, .GidInput,
    .HomeInput, .Runtime, .ExecPrefix, .InitialExecPrefix, .ShellPrefix, .RootService, .SshDaemon,
    .LoginShell]

/-- The type of a scalar. -/
def Value : ScalarKey → Type
  | .Schema | .DefaultUid | .DefaultGid => UInt32
  | .Mode => BootstrapMode
  | .NonInteractive => NonInteractivePolicy
  | .AllowWorkspaceOverlay | .AutoMapping | .RootService => Bool
  | .ExecPrefix | .InitialExecPrefix | .ShellPrefix => List String
  | .WorkspaceRoot | .DefaultUser | .DefaultHome | .RunAsRootInput | .UidInput | .GidInput
  | .HomeInput | .Runtime | .SshDaemon | .LoginShell => String

instance decidableEqValue : (key : ScalarKey) → DecidableEq key.Value
  | .Schema | .DefaultUid | .DefaultGid => inferInstanceAs (DecidableEq UInt32)
  | .Mode => inferInstanceAs (DecidableEq BootstrapMode)
  | .NonInteractive => inferInstanceAs (DecidableEq NonInteractivePolicy)
  | .AllowWorkspaceOverlay | .AutoMapping | .RootService => inferInstanceAs (DecidableEq Bool)
  | .ExecPrefix | .InitialExecPrefix | .ShellPrefix => inferInstanceAs (DecidableEq (List String))
  | .WorkspaceRoot | .DefaultUser | .DefaultHome | .RunAsRootInput | .UidInput | .GidInput
  | .HomeInput | .Runtime | .SshDaemon | .LoginShell => inferInstanceAs (DecidableEq String)

/-- The path of a scalar in errors and in overrides. -/
def path : ScalarKey → String
  | .Schema => "bootstrap.schema"
  | .Mode => "bootstrap.mode"
  | .WorkspaceRoot => "bootstrap.workspace_root"
  | .AllowWorkspaceOverlay => "bootstrap.allow_workspace_overlay"
  | .NonInteractive => "bootstrap.non_interactive"
  | .DefaultUser => "bootstrap.identity.default_user"
  | .DefaultUid => "bootstrap.identity.default_uid"
  | .DefaultGid => "bootstrap.identity.default_gid"
  | .DefaultHome => "bootstrap.identity.default_home"
  | .AutoMapping => "bootstrap.identity.auto_mapping"
  | .RunAsRootInput => "bootstrap.identity.run_as_root_input"
  | .UidInput => "bootstrap.identity.uid_input"
  | .GidInput => "bootstrap.identity.gid_input"
  | .HomeInput => "bootstrap.identity.home_input"
  | .Runtime => "bootstrap.handoff.runtime"
  | .ExecPrefix => "bootstrap.handoff.exec_prefix"
  | .InitialExecPrefix => "bootstrap.handoff.initial_exec_prefix"
  | .ShellPrefix => "bootstrap.handoff.shell_prefix"
  | .RootService => "bootstrap.handoff.root_service"
  | .SshDaemon => "bootstrap.handoff.ssh_daemon"
  | .LoginShell => "bootstrap.handoff.login_shell"

/-- The value that a profile gives for a scalar. The schema may stand beside the namespace. -/
def incoming (profile : RawProfile) (bootstrap : RawBootstrap) : (key : ScalarKey) → Option key.Value
  | .Schema => bootstrap.schema <|> profile.schema
  | .Mode => bootstrap.mode
  | .WorkspaceRoot => bootstrap.workspace_root
  | .AllowWorkspaceOverlay => bootstrap.allow_workspace_overlay
  | .NonInteractive => bootstrap.non_interactive
  | .DefaultUser => bootstrap.identity.bind (·.default_user)
  | .DefaultUid => bootstrap.identity.bind (·.default_uid)
  | .DefaultGid => bootstrap.identity.bind (·.default_gid)
  | .DefaultHome => bootstrap.identity.bind (·.default_home)
  | .AutoMapping => bootstrap.identity.bind (·.auto_mapping)
  | .RunAsRootInput => bootstrap.identity.bind (·.run_as_root_input)
  | .UidInput => bootstrap.identity.bind (·.uid_input)
  | .GidInput => bootstrap.identity.bind (·.gid_input)
  | .HomeInput => bootstrap.identity.bind (·.home_input)
  | .Runtime => bootstrap.handoff.bind (·.runtime)
  | .ExecPrefix => bootstrap.handoff.bind fun handoff => handoff.exec_prefix
  | .InitialExecPrefix => bootstrap.handoff.bind fun handoff => handoff.initial_exec_prefix
  | .ShellPrefix => bootstrap.handoff.bind fun handoff => handoff.shell_prefix
  | .RootService => bootstrap.handoff.bind (·.root_service)
  | .SshDaemon => bootstrap.handoff.bind (·.ssh_daemon)
  | .LoginShell => bootstrap.handoff.bind (·.login_shell)

end ScalarKey

def inputPath (name : String) : String := "bootstrap.inputs." ++ name

def actionPath (id : String) : String := "bootstrap.actions." ++ id

/-! ## Overrides -/

/-- The reasons of the bootstrap overrides by path. -/
structure OverrideCatalog where
  entries : Std.ExtTreeMap String String := ∅

/-- Overrides inside the namespace may leave out its name. -/
def fullOverridePath (path : String) : String :=
  if startsWith path "bootstrap." then path else "bootstrap." ++ path

def validateBootstrapOverridePath (path profile : String) : Except LoadFailure Unit :=
  let action := stripStart path "bootstrap.actions."
  let input := stripStart path "bootstrap.inputs."
  if path ∈ ScalarKey.all.map ScalarKey.path ||
      action.any (fun id => id ≠ "" && id.toList.all fun c =>
        c.isAlphanum || c = '.' || c = '_' || c = '-') ||
      input.any (fun name => name ≠ "" && name.toList.all fun c =>
        c.isUpper || c.isDigit || c = '_') then .ok ()
  else .error (.Loader (.Invalid ("profile " ++ profile ++ ".override")
    ("unsupported bootstrap override path " ++ debugText path)))

/-- The overrides of the namespace are added to those of the profile. -/
def collectOverrides (profile : RawProfile) :
    Except LoadFailure (Std.ExtTreeMap String OverrideValue) :=
  match profile.bootstrap with
  | none => .ok profile.overrides
  | some bootstrap =>
    bootstrap.overrides.toList.foldlM (fun entries entry => do
      let path := fullOverridePath entry.1
      if entries.contains path then
        throw (.Loader (.Invalid ("profile " ++ profile.id ++ ".override")
          ("duplicate override declaration " ++ debugText path)))
      return entries.insert path entry.2) profile.overrides

def isBlank (text : String) : Bool := (trim text.toList).isEmpty

/-- The reason of one override. -/
def overrideReason (profile : RawProfile) (source : SourceKind) (path : String)
    (value : OverrideValue) : Except LoadFailure String := do
  let location := "profile " ++ profile.id ++ ".override"
  validateBootstrapOverridePath path profile.id
  if !source.isTrusted then
    throw (.Loader (.TrustViolation profile.id source path
      "only image and admin profiles may declare bootstrap overrides"))
  match value with
  | .Other => throw (.Loader (.Invalid location "bootstrap override must be a table"))
  | .Table entries =>
    if let some op := entries["op"]?.join then
      if op ≠ "set" then
        throw (.Loader (.Invalid (location ++ "." ++ path)
          ("unsupported bootstrap override operation " ++ debugText op)))
    match entries["reason"]?.join with
    | some reason =>
      if isBlank reason then
        throw (.Loader (.Invalid (location ++ "." ++ path)
          "bootstrap override requires a non-empty reason"))
      return reason
    | none =>
      throw (.Loader (.Invalid (location ++ "." ++ path)
        "bootstrap override requires a non-empty reason"))

/-- `OverrideCatalog::new`. -/
def OverrideCatalog.new (profile : RawProfile) (source : SourceKind) :
    Except LoadFailure OverrideCatalog := do
  let raw ← collectOverrides profile
  let entries ← raw.toList.foldlM (fun entries entry => do
    if !startsWith entry.1 "bootstrap." then return entries
    let reason ← overrideReason profile source entry.1 entry.2
    return entries.insert entry.1 reason) ∅
  return { entries }

def OverrideCatalog.hasBootstrapEntries (catalog : OverrideCatalog) : Bool :=
  !catalog.entries.isEmpty

def OverrideCatalog.contains (catalog : OverrideCatalog) (path : String) : Bool :=
  catalog.entries.contains path

def OverrideCatalog.reason (catalog : OverrideCatalog) (path : String) : Option String :=
  catalog.entries[path]?

end bootstrap_loader
