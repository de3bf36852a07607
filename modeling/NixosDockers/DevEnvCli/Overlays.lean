-- How the command line finds the overlays of a workspace (`config.rs`): the files of the
-- administrator and the user, the files of the workspace, and the explicit one.
import NixosDockers.DevEnv.Paths
import NixosDockers.DevEnvLoader.Load

open rust_text dev_env_loader

namespace dev_env_cli

/-! ## Files -/

/-- A path by its components, by which paths are compared. -/
abbrev PathBuf := List String

/-- What the metadata of a path says. -/
inductive Metadata where
  | File
  | Other
  | NotFound (error : String)
  | Failed (error : String)
  deriving DecidableEq, Repr

/-- The files as a process sees them. A document that is read as an overlay gets the schema, and the
id unless it has one. -/
structure Files where
  metadata : PathBuf → Metadata
  read : PathBuf → String → Except Failure RawProfile

inductive CliError where
  | ReadOverlay (path : PathBuf) (error : String)
  | Loader (failure : Failure)
  | CwdOutsideWorkspace (cwd workspace : PathBuf)
  | AmbiguousWorkspaceConfig (directory conventional directory_config : PathBuf)

/-- An overlay and the path it was read from. -/
structure Overlay where
  path : PathBuf
  parsed : ParsedSource

/-- `ProfileSource::from_overlay_file`. -/
def fromOverlayFile (files : Files) (path : PathBuf) (source : SourceKind) (id : String) :
    Except CliError Overlay :=
  match files.read path id with
  | .error failure => .error (.Loader failure)
  | .ok profile => .ok
    { path
      parsed :=
        { source := { id := profile.id, source, location := some (dev_env.joinComponents path) }
          profile } }

def optionalSource (files : Files) (path : PathBuf) (source : SourceKind) (id : String) :
    Except CliError (Option Overlay) :=
  match files.metadata path with
  | .File => (fromOverlayFile files path source id).map some
  | .Other => .error (.ReadOverlay path "overlay path is not a file")
  | .NotFound _ => .ok none
  | .Failed error => .error (.ReadOverlay path error)

def requiredSource (files : Files) (path : PathBuf) (source : SourceKind) (id : String) :
    Except CliError Overlay :=
  match files.metadata path with
  | .File => fromOverlayFile files path source id
  | .Other => .error (.ReadOverlay path "overlay path is not a file")
  | .NotFound error | .Failed error => .error (.ReadOverlay path error)

def isFile (files : Files) (path : PathBuf) : Except CliError Bool :=
  match files.metadata path with
  | .File => .ok true
  | .Other | .NotFound _ => .ok false
  | .Failed error => .error (.ReadOverlay path error)

/-- The source of a path that may have been given, under an id. -/
def givenSource (files : Files) (id : String) : Option PathBuf → Except CliError (List Overlay)
  | none => .ok []
  | some path => do
    let source ← requiredSource files path .WorkspaceOverlay id
    .ok [source]

/-! ## Paths -/

def normalizePath (path : PathBuf) : PathBuf := path.foldl dev_env.normalizeStep []

/-- `resolve_path`. -/
def resolvePath (path : Option PathBuf) (base : PathBuf) : PathBuf :=
  let path := path.getD base
  normalizePath (if path.head? = some "/" then path else base ++ path)

/-- `Path::ancestors`: the path and its parents. The root has no parent, and a relative path ends
in the empty one. -/
def ancestors (path : PathBuf) : List PathBuf :=
  if path.head? = some "/" then path.inits.tail.reverse else path.inits.reverse

/-! ## The workspace -/

inductive WorkspaceSearch where
  | Fixed
  | Upward
  deriving DecidableEq, Repr

def conventional (directory : PathBuf) : PathBuf := directory ++ [".dev-env.toml"]

def directoryConfig (directory : PathBuf) : PathBuf := directory ++ [".dev-env", "config.toml"]

/-- The local file of a directory. -/
def localConfig (directory : PathBuf) : PathBuf := directory ++ [".dev-env.local.toml"]

/-- The directories that are searched. -/
def searchedDirectories (workspace cwd : PathBuf) (search : WorkspaceSearch) : List PathBuf :=
  match search with
  | .Fixed => [workspace]
  | .Upward => workspace :: ((ancestors cwd).takeWhile (· ≠ workspace)).reverse

/-- The config of a directory, by which of the two files exist. -/
def chosenConfig (directory : PathBuf) (explicit_config : Option PathBuf)
    (conventional_exists directory_config_exists : Bool) : Option PathBuf :=
  match conventional_exists, directory_config_exists with
  | true, true => explicit_config.bind fun path =>
    if path = conventional directory then some (conventional directory)
    else if path = directoryConfig directory then some (directoryConfig directory)
    else none
  | true, false => some (conventional directory)
  | false, true => some (directoryConfig directory)
  | false, false => none

/-- One turn of the loop of `collect_workspace_overlays`. -/
def collectDirectory (files : Files) (explicit_config : Option PathBuf) (directory : PathBuf) :
    Except CliError (List Overlay) := do
  let conventional_exists ← isFile files (conventional directory)
  let directory_config_exists ← isFile files (directoryConfig directory)
  if conventional_exists && directory_config_exists && explicit_config.isNone then
    .error (.AmbiguousWorkspaceConfig directory (conventional directory)
      (directoryConfig directory))
  else do
    let config ← givenSource files "workspace-config"
      (chosenConfig directory explicit_config conventional_exists directory_config_exists)
    let local_exists ← isFile files (localConfig directory)
    if local_exists then do
      let source ← requiredSource files (localConfig directory) .WorkspaceOverlay "workspace-local"
      .ok (config ++ [source])
    else .ok config

/-- The loop of `collect_workspace_overlays`. -/
def collectDirectories (files : Files) (explicit_config : Option PathBuf) :
    List PathBuf → Except CliError (List Overlay)
  | [] => .ok []
  | directory :: directories => do
    let found ← collectDirectory files explicit_config directory
    let rest ← collectDirectories files explicit_config directories
    .ok (found ++ rest)

/-- `collect_workspace_overlays`: some file is present when an overlay was found. -/
def collectWorkspaceOverlays (files : Files) (workspace cwd : PathBuf) (search : WorkspaceSearch)
    (explicit_config : Option PathBuf) : Except CliError (List Overlay × Bool) := do
  let overlays ← collectDirectories files explicit_config (searchedDirectories workspace cwd search)
  .ok (overlays, !overlays.isEmpty)

/-! ## All overlays -/

/-- The overlay of the user, when there is a place for one. -/
def userSource (files : Files) : Option PathBuf → Except CliError (Option Overlay)
  | none => .ok none
  | some path => optionalSource files path .UserOverlay "user-config"

/-- What the options, the environment and the selected profile say about overlays. -/
structure OverlayOptions where
  cwd_source : Option String := none
  workspace_source : String
  search : WorkspaceSearch
  admin_config : String
  user_config : Option String := none
  explicit_config : Option String := none
  deriving DecidableEq, Repr

/-- The overlays that `load_inner` hands to the loader, and whether the workspace has any. -/
def collectOverlays (files : Files) (original_cwd : String) (options : OverlayOptions) :
    Except CliError (List Overlay × Bool) := do
  let cwd := resolvePath (options.cwd_source.map components) (components original_cwd)
  let workspace :=
    resolvePath (some (components options.workspace_source)) (components original_cwd)
  if !workspace.isPrefixOf cwd then .error (.CwdOutsideWorkspace cwd workspace)
  else do
    let admin ← optionalSource files (components options.admin_config) .AdminProfile "admin-config"
    let user ← userSource files (options.user_config.map components)
    let explicit_config := options.explicit_config.map components
    let (workspace_overlays, workspace_config_present) ←
      collectWorkspaceOverlays files workspace cwd options.search explicit_config
    let explicit ← givenSource files "explicit-config" explicit_config
    .ok (admin.toList ++ user.toList ++ workspace_overlays ++ explicit,
      workspace_config_present || explicit_config.isSome)

end dev_env_cli
