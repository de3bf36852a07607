-- A whole load (`loader.rs`): the profile graph, the overlays, the runtime
-- values and the patches of the command line, merged into one configuration.
import NixosDockers.DevEnvLoader.Runtime
import NixosDockers.ProfileGraph.Graph

open rust_text documents dev_env_model profile_graph

namespace dev_env_loader

/-! ## Finishing a merge -/

/-- A profile of a chain that was merged. -/
structure LoadedProfile where
  id : String
  source : SourceKind
  location : Option String
  deriving DecidableEq, Repr

structure LoadedConfig where
  config : ResolvedConfig
  profile_chain : List LoadedProfile

structure CliPatch where
  path : String
  spec : OverrideSpec

/-- `register_input_name`: a name that has an owner may only be given to it again. -/
def registerInputName (names : Std.ExtTreeMap String String) (name owner : String) :
    Except Failure (Std.ExtTreeMap String String) :=
  match names[name]? with
  | some previous =>
    if previous ≠ owner then .error (.Error (.DuplicateInputName name previous owner))
    else .ok (names.insert name owner)
  | none => .ok (names.insert name owner)

/-- `validate_input_names`. -/
def validateInputNames (config : ResolvedConfig) : Except Failure Unit := do
  let names ← config.inputs.keys.foldlM (fun names name => registerInputName names name name) ∅
  let exported := config.inputs.toList.filterMap fun (name, input) =>
    input.export_as.map fun export_as => (export_as, name)
  let _ ← exported.foldlM (fun names (export_as, name) => registerInputName names export_as name) names

/-- `validate_input_targets`. -/
def validateInputTargets (config : ResolvedConfig) (root : Table) : Except Failure Unit :=
  match config.inputs.toList.find? fun (_, input) => (getPath root input.target).isNone with
  | some (name, input) => .error (.Error (.InputTargetMissing name input.target))
  | none => .ok ()

namespace MergedConfig

/-- `MergedConfig::finish`. -/
def finish (schema : ConfigSchema) (merged : MergedConfig) (profile_chain : List LoadedProfile) :
    Except Failure LoadedConfig := do
  match ["workspace", "shell", "shells"].find? fun required => (merged.root.get required).isNone with
  | some required => throw (.Error (.MissingRequired required))
  | none =>
    let config ← merged.decode schema "merged environment configuration"
    validateInputNames config
    validateInputTargets config (withEnvironment merged.root)
    pure ⟨config, profile_chain⟩

/-- `MergedConfig::from_config`: the configuration is the baseline, and the last origin of each path
is remembered. -/
def fromConfig (schema : ConfigSchema) (config : ResolvedConfig) : Except Failure MergedConfig :=
  match schema.serialize config with
  | none => .error (.Error (.Serialize "resolved config"))
  | some root => .ok
    { root
      origins := config.provenance.filterMap fun _ entry => entry.origins.getLast?
      provenance := config.provenance }

end MergedConfig

/-! ## The loader -/

/-- A source that was parsed. -/
structure ParsedSource where
  source : ProfileSource
  profile : RawProfile

/-- `ProfileLoader`: the indexed profiles, each under the id of its source, and the overlays. A
profile is only added when its document has the same id. -/
structure ProfileLoader where
  profiles : Std.ExtTreeMap String ParsedSource
  overlays : List ParsedSource
  profiles_named : ∀ (id : String) (profile : ParsedSource), profiles[id]? = some profile →
    profile.profile.id = profile.source.id

/-- `map_graph_error`. -/
def mapGraphError : TraverseError Failure → Failure
  | .Source failure => failure
  | .Graph (.MissingProfile id) => .Error (.MissingProfile id)
  | .Graph (.MissingParent _ parent) => .Error (.MissingProfile parent)
  | .Graph (.Cycle profiles) => .Error (.InheritanceCycle profiles)
  | .Graph (.InvalidId id) => .Error (.InvalidSourceId id)
  | .Graph (.DuplicateParent profile _) =>
    .Error (.Model (some s!"profile {profile}.extends")
      (.InvalidValue s!"profile {profile}.extends" .Duplicate))
  | .Graph (.InheritanceDepthExceeded limit) =>
    .Error (.InvalidSourceId s!"inheritance exceeds maximum depth {limit}")

/-- What a load has merged so far, and from which profiles. -/
structure Progress where
  merged : MergedConfig
  chain : List LoadedProfile

/-- A parsed source is merged, unless it has another id than it says. -/
def mergeSource (source : ParsedSource) (progress : Progress) : Except Failure Progress := do
  let merged ← progress.merged.mergeProfile source.profile source.source
  pure
    { merged
      chain := progress.chain ++ [⟨source.source.id, source.source.source, source.source.location⟩] }

/-- `ProfileLoader::apply_source`. -/
def applySource (source : ParsedSource) (progress : Progress) : Except Failure Progress :=
  if source.profile.id ≠ source.source.id then
    .error (.Error (.ProfileIdMismatch source.source.id source.profile.id))
  else mergeSource source progress

def applySources : List ParsedSource → Progress → Except Failure Progress
  | [], progress => .ok progress
  | source :: rest, progress => do
    let progress ← applySource source progress
    applySources rest progress

/-- The loop over the patches of the command line. -/
def applyPatches : List CliPatch → MergedConfig → Except Failure MergedConfig
  | [], merged => .ok merged
  | patch :: rest, merged => do
    let merged ← merged.applyCliPatch patch.path patch.spec
    applyPatches rest merged

namespace ProfileLoader

/-- What the traversal loads of a profile. -/
def loadProfile (loader : ProfileLoader) (id : String) :
    Except Failure (Option (ParsedSource × List String)) :=
  match loader.profiles[id]? with
  | none => .ok none
  | some source =>
    if source.profile.id ≠ source.source.id then
      .error (.Error (.ProfileIdMismatch source.source.id source.profile.id))
    else .ok (some (source, source.profile.parents))

/-- What the traversal applies of a profile that was loaded. -/
def applyProfile (_ : String) (source : ParsedSource) (progress : Progress) :
    Except Failure Progress :=
  mergeSource source progress

/-- `ProfileLoader::load_internal`, with the depth of the traversal. -/
def loadInternal (loader : ProfileLoader) (schema : ConfigSchema) (depth : ℕ) (profile_id : String)
    (environment : RuntimeInputApplier.RuntimeEnvironment) (extra_overlays : List ParsedSource) :
    Option (Except Failure LoadedConfig) :=
  (traverse depth loader.loadProfile applyProfile profile_id ⟨MergedConfig.default, []⟩).map
    fun traversed => do
      let progress ← traversed.mapError mapGraphError
      let progress ← applySources loader.overlays progress
      let progress ← applySources extra_overlays progress
      let merged ← RuntimeInputApplier.apply schema environment progress.merged
      merged.finish schema progress.chain

/-- `ProfileLoader::apply_cli_patches`. -/
def applyCliPatches (schema : ConfigSchema) (patches : List CliPatch) (loaded : LoadedConfig) :
    Except Failure LoadedConfig := do
  let merged ← MergedConfig.fromConfig schema loaded.config
  let merged ← applyPatches patches merged
  merged.finish schema loaded.profile_chain

/-- `ProfileLoader::load_with_overlays_runtime_and_cli`, with the depth of the traversal. -/
def loadWithOverlaysRuntimeAndCli (loader : ProfileLoader) (schema : ConfigSchema) (depth : ℕ)
    (profile_id : String) (overlays : List ParsedSource)
    (environment : RuntimeInputApplier.RuntimeEnvironment) (patches : List CliPatch) :
    Option (Except Failure LoadedConfig) :=
  (loader.loadInternal schema depth profile_id environment overlays).map fun loaded =>
    loaded.bind (applyCliPatches schema patches)

end ProfileLoader

end dev_env_loader
