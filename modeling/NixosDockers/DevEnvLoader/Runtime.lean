-- Runtime values of a configuration (`loader/runtime.rs`): declared inputs that
-- the environment supplies, and the paths that it names to be overridden.
import NixosDockers.DevEnvModel.Resolved
import NixosDockers.DevEnvLoader.Merge

open rust_text documents dev_env_model

namespace dev_env_loader

/-- How a tree is read as a configuration, checked, and written as a tree again: what is derived
for `ResolvedConfig`, and its `validate`. -/
structure ConfigSchema where
  deserialize : Table → Option ResolvedConfig
  validate : ResolvedConfig → Except ModelError Unit
  serialize : ResolvedConfig → Option Table

namespace MergedConfig

def valueAt (merged : MergedConfig) (path : String) : Option Value := getPath merged.root path

/-- The tree with an environment section, which a configuration always has. -/
def withEnvironment (root : Table) : Table :=
  match root.get "environment" with
  | some _ => root
  | none => root.insert "environment" (.Table [])

/-- A tree is read as a configuration and checked. -/
def decode (schema : ConfigSchema) (merged : MergedConfig) (location : String) :
    Except Failure ResolvedConfig :=
  match schema.deserialize (withEnvironment merged.root) with
  | none => .error (.Error (.Parse location))
  | some config =>
    let config := { config with provenance := merged.provenance }
    match schema.validate config with
    | .ok () => .ok config
    | .error source => .error (.Error (.Model (some location) source))

/-- `MergedConfig::config_snapshot`. -/
def configSnapshot (schema : ConfigSchema) (merged : MergedConfig) : Except Failure ResolvedConfig :=
  merged.decode schema "runtime input configuration"

end MergedConfig

namespace RuntimeInputApplier

/-- The variable names of an environment, in their order, with their values. -/
abbrev RuntimeEnvironment := Std.ExtTreeMap String String

def parsedInputValue : ParsedInput → ValueTree
  | .Bool value => .Scalar (.Bool value)
  | .Enum value | .Path value | .String value => .Scalar (.String value)
  | .Integer value => .Scalar (.Integer value)

/-- `str::split` by two underscores. -/
def splitDouble (current : List Char) : List Char → List (List Char)
  | '_' :: '_' :: rest => current.reverse :: splitDouble [] rest
  | c :: rest => splitDouble (c :: current) rest
  | [] => [current.reverse]

/-- `RuntimeInputApplier::namespace_path`. -/
def namespacePath (raw : String) : Except Failure String :=
  let parts := splitDouble [] raw.toList
  if parts.any fun part => part.isEmpty || !part.all fun c => c.isAlphanum || c = '_' then
    .error (.Error (.Model (some s!"DEVENV_OVERRIDE__{raw}")
      (.InvalidValue "runtime override" .InvalidIdentifier)))
  else .ok (String.intercalate "." (parts.map fun part => toAsciiLowercase (String.ofList part)))

/-- The value that the environment has for an input under its names, which must agree. -/
def suppliedBy (environment : RuntimeEnvironment) (name : String) :
    List String → Option (String × String) → Except Failure (Option (String × String))
  | [], supplied => .ok supplied
  | candidate :: rest, supplied =>
    match environment[candidate]?, supplied with
    | none, supplied => suppliedBy environment name rest supplied
    | some value, none => suppliedBy environment name rest (some (candidate, value))
    | some value, some (previous_name, previous_value) =>
      if previous_value ≠ value then
        .error (.Error (.RuntimeInputConflict name previous_name candidate))
      else suppliedBy environment name rest (some (previous_name, previous_value))

/-- An error of the model that the loader passes on. -/
def modelFailure (source : ModelError) : Failure := .Error (.Model none source)

/-- One declared input: its value is put at its target when the environment has one. -/
def applyInput (environment : RuntimeEnvironment) (name : String) (input : InputSpec)
    (merged : MergedConfig) : Except Failure MergedConfig := do
  if !input.runtime then pure merged
  else
    match ← suppliedBy environment name (name :: input.export_as.toList) none with
    | none => pure merged
    | some (environment_name, raw_value) =>
      let parsed ← (input.parseRuntimeValueNamed environment_name raw_value).mapError modelFailure
      merged.setRuntimeValue input.target (parsedInputValue parsed)
        (Origin.environment environment_name) input.sensitivity

def applyInputs (environment : RuntimeEnvironment) :
    List (String × InputSpec) → MergedConfig → Except Failure MergedConfig
  | [], merged => .ok merged
  | (name, input) :: rest, merged => do
    let merged ← applyInput environment name input merged
    applyInputs environment rest merged

/-- The input that has the path as its target, the first by name. -/
def inputAt (config : ResolvedConfig) (path : String) : Option InputSpec :=
  (config.inputs.toList.find? fun entry => entry.2.target = path).map Prod.snd

/-- The value that a variable gives to a path, if it does not have to be ignored. -/
def overrideValue (config : ResolvedConfig) (name path raw_value : String) (merged : MergedConfig) :
    Except Failure (Option ValueTree) :=
  match inputAt config path with
  | some input =>
    ((input.parseRuntimeValueNamed name raw_value).mapError modelFailure).map fun parsed =>
      some (parsedInputValue parsed)
  | none =>
    if (merged.valueAt path).isNone then
      if config.policy.unknown_input = .Ignore then .ok none
      else .error (modelFailure (.UnknownInput name))
    else .ok (some (.Scalar (.String raw_value)))

/-- One variable that names a path to be overridden. -/
def applyOverride (config : ResolvedConfig) (name raw_value : String) (merged : MergedConfig) :
    Except Failure MergedConfig := do
  match stripStart name "DEVENV_OVERRIDE__" with
  | none => pure merged
  | some raw =>
    let path ← namespacePath raw
    if !config.policy.allowsWorkspaceOverride path then
      if config.policy.unknown_input = .Ignore then pure merged
      else throw (.Error (.TrustViolation "<runtime>" .Runtime path .WorkspaceOverrideNotAllowed))
    else
      match ← overrideValue config name path raw_value merged with
      | none => pure merged
      | some value => merged.setRuntimeValue path value (Origin.environment name) .Public

def applyOverrides (config : ResolvedConfig) :
    List (String × String) → MergedConfig → Except Failure MergedConfig
  | [], merged => .ok merged
  | (name, raw_value) :: rest, merged => do
    let merged ← applyOverride config name raw_value merged
    applyOverrides config rest merged

/-- `RuntimeInputApplier::apply`. -/
def apply (schema : ConfigSchema) (environment : RuntimeEnvironment) (merged : MergedConfig) :
    Except Failure MergedConfig := do
  let config ← merged.configSnapshot schema
  let merged ← applyInputs environment config.inputs.toList merged
  applyOverrides config environment.toList merged

end RuntimeInputApplier

/-! ## A small configuration -/

/-- The tree of an image profile with one shell and the policy. -/
def imageConfig (policy : Table) : MergedConfig where
  root :=
    [("policy", .Table policy),
      ("shell", .Table [("default", Value.text "bash")]),
      ("shells", .Table
        [("bash", .Table [("command", Value.text "/bin/bash.real"), ("kind", Value.text "posix")])]),
      ("workspace", .Table [("root", Value.text "/workspace")])]
  origins := ∅
  provenance := ∅

/-- How such a tree is read when only its policy and its default shell may be others. -/
def imageSchema : ConfigSchema where
  deserialize := fun table =>
    match Doc.lookup ["shell", "default"] table, table.get "policy" with
    | some (.Scalar (.String shell)), some policy =>
      (PolicyConfig.ofValue policy).map fun policy =>
        { shell_default := shell
          shells := ["bash"]
          environment := ⟨true, .Locked, ∅, ∅, ⟨[], [], []⟩⟩
          features := .Table []
          providers := ∅
          inputs := ∅
          policy
          provenance := ∅ }
    | _, _ => none
  validate := fun config =>
    if config.shell_default ∈ config.shells then .ok () else .error (.InvalidConfig "shell.default")
  serialize := fun config => some
    [("environment", .Table []), ("features", .Table []), ("inputs", .Table []),
      ("policy", .Table [("workspace_can_override",
        .Array (config.policy.workspace_can_override.map Value.text))]),
      ("providers", .Table []), ("shell", .Table [("default", Value.text config.shell_default)]),
      ("shells", .Table
        [("bash", .Table [("command", Value.text "/bin/bash.real"), ("kind", Value.text "posix")])]),
      ("workspace", .Table [("root", Value.text "/workspace")])]

end dev_env_loader
