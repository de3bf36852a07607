-- The merge of profiles into one configuration tree (`dev-env-loader`:
-- `source.rs`, `raw.rs`, `merge.rs`): strict merging by dotted paths, the trust
-- checks on the way, and the explicit overrides of a profile.
import NixosDockers.DevEnvModel.Policy
import NixosDockers.Lib.Results

open rust_text documents dev_env_model

namespace dev_env_loader

/-! ## Sources -/

inductive SourceKind where
  | ImageProfile
  | AdminProfile
  | UserOverlay
  | WorkspaceOverlay
  | Runtime
  | Cli
  | Unknown
  deriving DecidableEq, Repr

def SourceKind.isTrusted : SourceKind → Bool
  | .ImageProfile | .AdminProfile => true
  | _ => false

def SourceKind.layer : SourceKind → Layer
  | .ImageProfile => .Profile
  | .AdminProfile => .Admin
  | .UserOverlay => .User
  | .WorkspaceOverlay => .Workspace
  | .Runtime => .Runtime
  | .Cli => .Cli
  | .Unknown => .Profile

structure ProfileSource where
  id : String
  source : SourceKind
  location : Option String
  deriving DecidableEq, Repr

/-- `ProfileSource::origin`. -/
def ProfileSource.origin (source : ProfileSource) (profile : String) (reason : Option String) :
    Origin :=
  let id : SourceId :=
    match source.source with
    | .ImageProfile => .Profile profile
    | .AdminProfile | .UserOverlay | .WorkspaceOverlay => .File (source.location.getD profile)
    | .Runtime => .Environment (source.location.getD profile)
    | .Cli => .Cli
    | .Unknown => .Unknown
  (Origin.new id source.source.layer).withReason reason

/-! ## Errors -/

inductive TrustViolationReason where
  | OnlyTrustedSourcesMayChangePolicy
  | OnlyTrustedSourcesMayDeclareInputs
  | WorkspaceOverrideNotAllowed
  | CliOverrideNotAllowed
  | ProviderNotDeclared
  | UntrustedSourceMayNotOverride
  deriving DecidableEq, Repr

inductive ValueKind where
  | Missing
  | Scalar
  | Array
  | Table
  deriving DecidableEq, Repr

/-- `LoaderError`, without the errors of the parser and of the file system. -/
inductive LoaderError where
  | Parse (location : String)
  | Serialize (location : String)
  | Model (location : Option String) (source : ModelError)
  | InvalidSourceId (id : String)
  | ProfileIdMismatch (source_id document_id : String)
  | MissingProfile (id : String)
  | InheritanceCycle (profiles : List String)
  | Conflict (path : String) (previous incoming : Origin) (remedy : String)
  | TrustViolation (profile : String) (source : SourceKind) (path : String)
    (reason : TrustViolationReason)
  | MissingRequired (path : String)
  | OverrideTypeMismatch (path : String) (operation : OverrideOperation) (actual : ValueKind)
  | UnrepresentableOverride (path : String)
  | DuplicateInputName (name first second : String)
  | InputTargetMissing (name target : String)
  | RuntimeInputConflict (input first_name second_name : String)
  deriving DecidableEq, Repr

/-- An error that is returned, or a panic. -/
inductive Failure where
  | Error (error : LoaderError)
  | Panic (message : String)
  deriving DecidableEq, Repr

/-! ## Profiles -/

/-- What `[config]` may declare. -/
def configFields : List String :=
  ["workspace", "shell", "shells", "environment", "features", "providers"]

/-- A parsed document with its tree. A document that was parsed and validated has a policy that can
be read, a configuration of known sections, and overrides that were checked. -/
structure RawProfile where
  id : String
  parents : List String
  overrides : Std.ExtTreeMap String OverrideSpec
  root : Table
  policy_read : ∀ value, root.get "policy" = some value → (PolicyConfig.ofValue value).isSome
  config_known : ∀ value, root.get "config" = some value →
    ∃ table, value = .Table table ∧ ∀ key ∈ Entries.keys table, key ∈ configFields
  inputs_named : ∀ value, root.get "inputs" = some value →
    ∃ table, value = .Table table ∧ ∀ key ∈ Entries.keys table, isEnvName key
  overrides_checked : ∀ path (spec : OverrideSpec), overrides[path]? = some spec →
    spec.validate path = .ok ()

/-- `RawProfile::table`. -/
def RawProfile.table (profile : RawProfile) (key : String) : Option Table :=
  match profile.root.get key with
  | some (.Table table) => some table
  | _ => none

def RawProfile.hasSection (profile : RawProfile) (key : String) : Bool :=
  (profile.root.get key).isSome

def isProtectedPath (path : String) : Bool :=
  path = "policy" || startsWith path "policy." || path = "inputs" || startsWith path "inputs."

def RawProfile.protectedOverridePath (profile : RawProfile) : Option String :=
  profile.overrides.keys.find? isProtectedPath

/-! ## The tree -/

/-- `get_path`. -/
def getPath (root : Table) (path : String) : Option Value := Doc.lookup (splitChar '.' path) root

/-- `set_path`: it panics when something else than a table is in the way. -/
def setPath (root : Table) (path : String) (value : Value) : Except Failure Table :=
  match Doc.put value (splitChar '.' path) root with
  | some root => .ok root
  | none => .error (.Panic "config paths cannot address through scalar values")

/-- `remove_path`. -/
def removePath (root : Table) (path : String) : Table := Doc.drop (splitChar '.' path) root

def valueKind : Value → ValueKind
  | .Array _ => .Array
  | .Table _ => .Table
  | _ => .Scalar

mutual

/-- `value_tree_to_toml`. -/
def valueTreeToToml (path : String) : ValueTree → Except Failure Value
  | .Scalar .Null => .error (.Error (.UnrepresentableOverride path))
  | .Scalar (.Bool value) => .ok (.Scalar (.Boolean value))
  | .Scalar (.Integer value) => .ok (.Scalar (.Integer value))
  | .Scalar (.Float value) => .ok (.Scalar (.Float value))
  | .Scalar (.String value) => .ok (.Scalar (.String value))
  | .Array items => (itemsToToml path items).map .Array
  | .Table entries => (entriesToToml path entries).map .Table

def itemsToToml (path : String) : List ValueTree → Except Failure (List Value)
  | [] => .ok []
  | item :: rest =>
    match valueTreeToToml path item, itemsToToml path rest with
    | .error error, _ => .error error
    | .ok _, .error error => .error error
    | .ok item, .ok rest => .ok (item :: rest)

def entriesToToml (path : String) : List (String × ValueTree) → Except Failure (List (String × Value))
  | [] => .ok []
  | (key, value) :: rest =>
    match valueTreeToToml path value, entriesToToml path rest with
    | .error error, _ => .error error
    | .ok _, .error error => .error error
    | .ok value, .ok rest => .ok ((key, value) :: rest)

end

/-! ## The state of a merge -/

structure MergedConfig where
  root : Table
  origins : Std.ExtTreeMap String Origin
  provenance : ProvenanceIndex

/-- `MergedConfig::default`. -/
def MergedConfig.default : MergedConfig := ⟨[], ∅, ∅⟩

structure MergeContext where
  source : ProfileSource
  overrides : Std.ExtTreeMap String OverrideSpec
  policy : PolicyConfig

mutual

/-- `MergedConfig::record_value`: the origin of a value and of everything in it. -/
def recordValue (origin : Origin) (sensitivity : Sensitivity) :
    Value → String → ProvenanceIndex → ProvenanceIndex
  | .Scalar _, path, provenance => provenance.insert path origin sensitivity
  | .Array items, path, provenance =>
    recordItems origin sensitivity items path 0 (provenance.insert path origin sensitivity)
  | .Table entries, path, provenance =>
    recordEntries origin sensitivity entries path (provenance.insert path origin sensitivity)

def recordItems (origin : Origin) (sensitivity : Sensitivity) :
    List Value → String → ℕ → ProvenanceIndex → ProvenanceIndex
  | [], _, _, provenance => provenance
  | item :: rest, path, index, provenance =>
    recordItems origin sensitivity rest path (index + 1)
      (recordValue origin sensitivity item s!"{path}[{index}]" provenance)

def recordEntries (origin : Origin) (sensitivity : Sensitivity) :
    List (String × Value) → String → ProvenanceIndex → ProvenanceIndex
  | [], _, provenance => provenance
  | (key, value) :: rest, path, provenance =>
    recordEntries origin sensitivity rest path
      (recordValue origin sensitivity value s!"{path}.{key}" provenance)

end

namespace MergedConfig

/-- `MergedConfig::policy`. -/
def policy (merged : MergedConfig) : Except Failure PolicyConfig :=
  match merged.root.get "policy" with
  | none => .ok PolicyConfig.default
  | some value =>
    match PolicyConfig.ofValue value with
    | some policy => .ok policy
    | none => .error (.Error (.Parse "merged policy"))

/-- A value is put at the path, and its origin is recorded. -/
def write (merged : MergedConfig) (path : String) (value : Value) (origin : Origin)
    (sensitivity : Sensitivity) : Except Failure MergedConfig :=
  match setPath merged.root path value with
  | .error failure => .error failure
  | .ok root => .ok
    { root
      origins := merged.origins.insert path origin
      provenance := recordValue origin sensitivity value path merged.provenance }

/-- Only the origin of a value is recorded. -/
def record (merged : MergedConfig) (path : String) (value : Value) (origin : Origin)
    (sensitivity : Sensitivity) : MergedConfig :=
  { merged with provenance := recordValue origin sensitivity value path merged.provenance }

def conflict (merged : MergedConfig) (path : String) (incoming : Origin) : LoaderError :=
  .Conflict path (merged.origins[path]?.getD Origin.default) incoming
    s!"add [override.\"{path}\"] with an explicit operation and a non-empty reason"

/-- The provider that a declaration at the path speaks of: the first one of a whole table. -/
def providerOf (path : String) (incoming : Value) : Option String :=
  match stripStart path "providers." with
  | some rest => (splitChar '.' rest).head?
  | none =>
    if path = "providers" then
      match incoming with
      | .Table table => (Entries.keys table).head?
      | _ => none
    else none

/-- `MergedConfig::reject_untrusted_provider_addition`. -/
def rejectUntrustedProviderAddition (merged : MergedConfig) (path : String) (incoming : Value)
    (source : ProfileSource) : Except Failure Unit :=
  if source.source.isTrusted || !startsWith path "providers" then .ok ()
  else
    match providerOf path incoming with
    | none => .ok ()
    | some provider =>
      if (getPath merged.root s!"providers.{provider}").isNone then
        .error (.Error (.TrustViolation source.id source.source s!"providers.{provider}"
          .ProviderNotDeclared))
      else .ok ()

/-- The end of `merge_path`: what becomes of a declaration that is not the value already there. -/
def mergeDifferent (merged : MergedConfig) (context : MergeContext) (path : String)
    (incoming : Value) : Except Failure MergedConfig :=
  let origin := context.source.origin context.source.id none
  if context.policy.merge = .PreferChild ∧ context.source.source.isTrusted then
    merged.write path incoming origin .Public
  else if context.source.source = .WorkspaceOverlay ∧ !context.policy.allowsWorkspaceOverride path then
    .error (.Error (.Model (some path) (.WorkspaceOverrideNotAllowed path)))
  else if context.source.source = .Cli ∧ !context.policy.allowsCliOverride path then
    .error (.Error (.Model (some path) (.CliOverrideNotAllowed path)))
  else .error (.Error (merged.conflict path origin))

mutual

/-- `MergedConfig::merge_path`. An explicit override owns its whole path. -/
def mergePath (context : MergeContext) :
    Value → String → MergedConfig → Except Failure MergedConfig
  | incoming, path, merged =>
    if context.overrides.contains path then .ok merged
    else
      match merged.rejectUntrustedProviderAddition path incoming context.source with
      | .error failure => .error failure
      | .ok () =>
        let origin := context.source.origin context.source.id none
        match getPath merged.root path, incoming with
        | none, incoming => merged.write path incoming origin .Public
        | some (.Table _), .Table table => mergeEntries context table path merged
        | some existing, incoming =>
          if Value.same existing incoming then .ok (merged.record path incoming origin .Public)
          else merged.mergeDifferent context path incoming

/-- The loop over the entries of a table below a path. -/
def mergeEntries (context : MergeContext) :
    List (String × Value) → String → MergedConfig → Except Failure MergedConfig
  | [], _, merged => .ok merged
  | (key, value) :: rest, path, merged =>
    match mergePath context value s!"{path}.{key}" merged with
    | .error failure => .error failure
    | .ok merged => mergeEntries context rest path merged

end

/-- `MergedConfig::merge_table`; a table without a prefix is the configuration itself. -/
def mergeTable (context : MergeContext) : List (String × Value) → String → MergedConfig →
    Except Failure MergedConfig
  | [], _, merged => .ok merged
  | (key, value) :: rest, start, merged =>
    match mergePath context value (if start = "" then key else s!"{start}.{key}") merged with
    | .error failure => .error failure
    | .ok merged => mergeTable context rest start merged

/-- A section of a profile, when it has it. -/
def mergeSection (context : MergeContext) (section_table : Option Table) (start : String)
    (merged : MergedConfig) : Except Failure MergedConfig :=
  match section_table with
  | none => .ok merged
  | some table => mergeTable context table start merged

/-- `MergedConfig::validate_source_permissions`. -/
def validateSourcePermissions (profile : RawProfile) (source : ProfileSource) :
    Except Failure Unit :=
  let refused (path : String) (reason : TrustViolationReason) : Except Failure Unit :=
    .error (.Error (.TrustViolation profile.id source.source path reason))
  if source.source.isTrusted then .ok ()
  else if profile.hasSection "policy" then refused "policy" .OnlyTrustedSourcesMayChangePolicy
  else if profile.hasSection "inputs" then refused "inputs" .OnlyTrustedSourcesMayDeclareInputs
  else
    match profile.protectedOverridePath with
    | some path => refused path .OnlyTrustedSourcesMayChangePolicy
    | none => .ok ()

/-! ### Overrides -/

/-- `MergedConfig::validate_override_permission`. -/
def validateOverridePermission (path : String) (source : ProfileSource) (policy : PolicyConfig)
    (profile : String) : Except Failure Unit :=
  if source.source.isTrusted then .ok ()
  else
    let (allowed, reason) : Bool × TrustViolationReason :=
      match source.source with
      | .WorkspaceOverlay => (policy.allowsWorkspaceOverride path, .WorkspaceOverrideNotAllowed)
      | .Cli => (policy.allowsCliOverride path, .CliOverrideNotAllowed)
      | _ => (false, .UntrustedSourceMayNotOverride)
    if allowed then .ok () else .error (.Error (.TrustViolation profile source.source path reason))

/-- What an operation on an array makes of the array that is there. -/
def nextArray (op : OverrideOperation) (current values : List Value) : List Value :=
  match op with
  | .Append => current ++ values
  | .Remove => current.filter fun value => !values.any fun item => Value.same item value
  | _ => values

/-- The operations on an array, of which a missing one is made unless there is nothing to remove. -/
def applyArray (merged : MergedConfig) (path : String) (op : OverrideOperation)
    (values : List Value) (origin : Origin) : Except Failure MergedConfig :=
  match getPath merged.root path with
  | none =>
    if op = .Remove then
      .ok { merged with provenance := merged.provenance.insert path origin .Public }
    else merged.write path (.Array values) origin .Public
  | some (.Array current) => merged.write path (.Array (nextArray op current values)) origin .Public
  | some value => .error (.Error (.OverrideTypeMismatch path op (valueKind value)))

/-- `MergedConfig::apply_override`. -/
def applyOverride (merged : MergedConfig) (path : String) (spec : OverrideSpec)
    (source : ProfileSource) : Except Failure MergedConfig :=
  let origin := source.origin source.id (some spec.reason)
  match spec.op, spec.value with
  | .Set, none => .error (.Panic "validated set override has a value")
  | .Set, some value => do
    let value ← valueTreeToToml path value
    merged.write path value origin .Public
  | .Unset, _ => .ok
    { root := removePath merged.root path
      provenance := merged.provenance.insert path origin .Public
      origins := merged.origins.erase path }
  | op, _ => do
    let values ← itemsToToml path spec.values
    merged.applyArray path op values origin

/-- The loop over the overrides of a profile. -/
def applyOverrides (source : ProfileSource) (policy : PolicyConfig) (profile : String) :
    List (String × OverrideSpec) → MergedConfig → Except Failure MergedConfig
  | [], merged => .ok merged
  | (path, spec) :: rest, merged => do
    validateOverridePermission path source policy profile
    let merged ← merged.applyOverride path spec source
    applyOverrides source policy profile rest merged

/-- The policy of a profile is merged first, under the policy that is there. -/
def mergePolicy (merged : MergedConfig) (profile : RawProfile) (source : ProfileSource) :
    Except Failure MergedConfig :=
  match profile.table "policy" with
  | none => .ok merged
  | some table => do
    let policy ← merged.policy
    mergeTable ⟨source, profile.overrides, policy⟩ table "policy" merged

/-- `MergedConfig::merge_profile`. -/
def mergeProfile (merged : MergedConfig) (profile : RawProfile) (source : ProfileSource) :
    Except Failure MergedConfig := do
  validateSourcePermissions profile source
  let merged ← merged.mergePolicy profile source
  let policy ← merged.policy
  let context : MergeContext := ⟨source, profile.overrides, policy⟩
  let merged ← mergeSection context (profile.table "config") "" merged
  let merged ← mergeSection context (profile.table "inputs") "inputs" merged
  applyOverrides source policy profile.id profile.overrides.toList merged

/-- `MergedConfig::apply_cli_patch`. -/
def applyCliPatch (merged : MergedConfig) (path : String) (spec : OverrideSpec) :
    Except Failure MergedConfig := do
  (spec.validate path).mapError fun source =>
    .Error (.Model (some s!"override.{path}") source)
  let policy ← merged.policy
  if !policy.allowsCliOverride path then
    throw (.Error (.TrustViolation "<cli>" .Cli path .CliOverrideNotAllowed))
  merged.applyOverride path spec ⟨"<cli>", .Cli, none⟩

/-- `MergedConfig::set_runtime_value`. -/
def setRuntimeValue (merged : MergedConfig) (path : String) (value : ValueTree) (origin : Origin)
    (sensitivity : Sensitivity) : Except Failure MergedConfig := do
  let value ← valueTreeToToml path value
  merged.write path value origin sensitivity

end MergedConfig

end dev_env_loader
