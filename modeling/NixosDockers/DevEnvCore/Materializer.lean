-- The materializer (`materializer.rs`): the first environment, the conditional variables, and the
-- providers in their order.
import NixosDockers.DevEnvCore.Environment
import NixosDockers.DevEnvCore.Service
import NixosDockers.DevEnvModel.ProviderOrder
import NixosDockers.DevEnvProvider.StepPolicies

open rust_text results dev_env_model layers
open dev_env (EffectiveIdentity Fingerprint RuntimeContext MaterializationMetadata)
open dev_env_provider (EnvironmentDelta ProviderRunner ProviderRunResult ProviderDiagnostic
  RunContext World evaluate)

namespace dev_env_core

/-! ## The materializer -/

/-- A configuration with its providers in full. -/
structure FullConfig extends ResolvedConfig where
  provider_configs : Std.ExtTreeMap String dev_env_provider.ProviderConfig
  summaries : ∀ id : String, providers[id]? =
    provider_configs[id]?.map dev_env_provider.ProviderConfig.summary

inductive MaterializationDiagnostic where
  | Provider (provider : String) (diagnostic : ProviderDiagnostic)
  | ProviderDisabled (provider : String)
  deriving DecidableEq

/-- A materializer in a system with states `σ`. `ResolvedConfig::validate` also checks data that
is not in the configurations of this model. -/
structure Materializer (σ ε : Type) where
  config : FullConfig
  provider_supervisor : ProviderRunner σ ε
  validate : FullConfig → Except ModelError Unit
  to_value_tree : FullConfig → Except Unit ValueTree
  config_fingerprint : FullConfig → Except Unit Fingerprint
  directory_is_writable : σ → String → Bool

inductive MaterializeFailure where
  | Core (error : CoreError)
  | Panic
  deriving DecidableEq, Repr

/-! ## The context -/

def validateAbsolutePath (path : String) : Except ContextError Unit :=
  if path = "" || hasChar path nul || !isAbsolute path then .error .Invalid else .ok ()

/-- `RuntimeContext::validate`. -/
def validateContext (context : RuntimeContext) : Except ContextError Unit := do
  validateAbsolutePath context.workspace
  validateAbsolutePath context.cwd
  if !pathStartsWith context.cwd context.workspace then .error .Invalid
  else if context.process_environment.toList.any fun (name, value) =>
      !((⟨value, none, .Public, none⟩ : EnvValue).validate name).isOk then .error .Invalid
  else if context.shell = some "" then .error .Invalid
  else .ok ()

def selectShell (config : ResolvedConfig) (context : RuntimeContext) :
    Except CoreError String :=
  let shell := context.shell.getD config.shell_default
  if shell ∈ config.shells then .ok shell else .error (.Context (.UnknownShell shell))

/-- What all conditions and providers of one materialization are told. -/
structure Session where
  context : RuntimeContext
  shell : String
  config : ValueTree
  fingerprint : Fingerprint
  identity : EffectiveIdentity

def environmentMap (environment : MaterializedEnv) : Std.ExtTreeMap String String :=
  environment.values.map fun _ value => value.value

/-- `provider_is_enabled`: a provider is enabled unless its feature says that it is not. -/
def providerIsEnabled (features : ValueTree) (provider : String) : Bool :=
  match features with
  | .Table features =>
    match documents.Entries.get provider features with
    | some (.Table provider_features) =>
      match documents.Entries.get "enabled" provider_features with
      | some (.Scalar (.Bool enabled)) => enabled
      | _ => true
    | _ => true
  | _ => true

namespace Materializer

variable {σ ε : Type}

/-- `provider_context`. -/
def providerContext (materializer : Materializer σ ε) (session : Session)
    (environment : MaterializedEnv) (provider_enabled : Bool) (state : σ) : RunContext where
  workspace := session.context.workspace
  cwd := session.context.cwd
  shell := session.shell
  environment := environmentMap environment
  config := session.config
  workspace_writable := session.context.workspace_writable.getD
    (materializer.directory_is_writable state session.context.workspace)
  workspace_config_present := session.context.workspace_config_present
  provider_enabled
  user_id := session.context.user_id
  config_fingerprint := session.fingerprint

/-- One turn of the loop of `apply_conditional_variables`. -/
def conditionalVariable (materializer : Materializer σ ε) (session : Session) (state : σ)
    (environment : MaterializedEnv) (entry : String × ConditionalEnvironmentVariable) :
    Except CoreError MaterializedEnv :=
  match Condition.parse entry.2.when.toList with
  | .error _ =>
    .error (.Model (.InvalidCondition
      ("environment.conditional_variables." ++ entry.1 ++ ".when")))
  | .ok condition =>
    let context := materializer.providerContext session environment true state
    if evaluate materializer.provider_supervisor.platform context.toProviderContext condition then
      let source := provenance materializer.config.toResolvedConfig
        ("environment.conditional_variables." ++ entry.1)
      .ok ⟨environment.values.insert entry.1 ⟨entry.2.value, source.1, source.2, none⟩⟩
    else .ok ⟨environment.values.erase entry.1⟩

/-- What a materialization does before it asks the providers. -/
def start (materializer : Materializer σ ε) (context : RuntimeContext)
    (metadata : MaterializationMetadata) (state : σ) :
    Except CoreError (Session × MaterializedEnv) := do
  (materializer.validate materializer.config).mapError .Model
  (validateContext context).mapError .Context
  let shell ← selectShell materializer.config.toResolvedConfig context
  let config ← (materializer.to_value_tree materializer.config).mapError fun _ => .ConfigTree
  let fingerprint ←
    (materializer.config_fingerprint materializer.config).mapError fun _ => .Fingerprint
  let environment ← initial materializer.config.toResolvedConfig context.process_environment
  let session : Session := { context, shell, config, fingerprint, identity := metadata.identity }
  let environment ← materializer.config.environment.conditional_variables.toList.foldlM
    (materializer.conditionalVariable session state) environment
  return (session, environment)

/-- `apply_result`. -/
def applyResult (environment : MaterializedEnv) (diagnostics : List MaterializationDiagnostic)
    (provider_id : String) (config : dev_env_provider.ProviderConfig)
    (result : ProviderRunResult) :
    Except MaterializeFailure (MaterializedEnv × List MaterializationDiagnostic) := do
  let path_mode := (config.shellenv.map fun shellenv => shellenv.path_mode).getD .Merge
  let environment ← (applyProviderDelta environment result.environment provider_id
    result.sensitivity path_mode).mapError .Core
  return (environment, diagnostics ++ result.diagnostics.map (.Provider provider_id))

/-- The loop over the providers. -/
def runProviders (materializer : Materializer σ ε) (session : Session) :
    List String → MaterializedEnv → List MaterializationDiagnostic → World σ →
      Except MaterializeFailure (MaterializedEnv × List MaterializationDiagnostic) × World σ
  | [], environment, diagnostics, world => (.ok (environment, diagnostics), world)
  | provider_id :: ids, environment, diagnostics, world =>
    match materializer.config.provider_configs[provider_id]? with
    | none => (.error .Panic, world)
    | some provider_config =>
      if providerIsEnabled materializer.config.features provider_id then
        let context := materializer.providerContext session environment true world.state
        let (answer, world) := materializer.provider_supervisor.runWithIdentity provider_id
          provider_config context (some session.identity) world
        match answer with
        | .error _ => (.error (.Core (.Provider provider_id)), world)
        | .ok result =>
          match applyResult environment diagnostics provider_id provider_config result with
          | .error failure => (.error failure, world)
          | .ok (environment, diagnostics) =>
            materializer.runProviders session ids environment diagnostics world
      else
        materializer.runProviders session ids environment
          (diagnostics ++ [.ProviderDisabled provider_id]) world

theorem providerOrder_isSome (config : ResolvedConfig) : config.providerOrder.isSome := by
  obtain ⟨left, horder, -⟩ | ⟨error, herror, -⟩ := providerOrder_cases config
  · rw [horder]
    rfl
  · rw [herror]
    rfl

/-- `materialize_with_metadata`. -/
def materializeWithMetadata (materializer : Materializer σ ε) (context : RuntimeContext)
    (metadata : MaterializationMetadata) (world : World σ) :
    Except MaterializeFailure (Materialization × List MaterializationDiagnostic) × World σ :=
  match materializer.start context metadata world.state with
  | .error error => (.error (.Core error), world)
  | .ok (session, environment) =>
    match materializer.config.providerOrder.get (providerOrder_isSome _) with
    | .error error => (.error (.Core (.Model error)), world)
    | .ok order =>
      match materializer.runProviders session order environment [] world with
      | (.error failure, world) => (.error failure, world)
      | (.ok (environment, diagnostics), world) =>
        match environment.validate with
        | .error error => (.error (.Core (.Model error)), world)
        | .ok () => (.ok (⟨environment⟩, diagnostics), world)

end Materializer

end dev_env_core
