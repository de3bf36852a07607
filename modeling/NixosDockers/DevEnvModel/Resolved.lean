-- The configuration that a merged tree is decoded to (`config.rs`,
-- `environment.rs`, `provider.rs`), as far as the loader and the materializer
-- read it.
import NixosDockers.DevEnvModel.Inputs

namespace dev_env_model

inductive ConfiguredValuePrecedence where
  | Locked
  | Ambient
  deriving DecidableEq, Repr

inductive PathMode where
  | Merge
  | Replace
  deriving DecidableEq, Repr

structure EnvironmentPath where
  prepend : List String
  append : List String
  remove : List String
  deriving DecidableEq, Repr

structure ConditionalEnvironmentVariable where
  value : String
  when : String
  deriving DecidableEq, Repr

structure EnvironmentConfig where
  inherit_process : Bool
  configured_value_precedence : ConfiguredValuePrecedence
  «variables» : Std.ExtTreeMap String String
  conditional_variables : Std.ExtTreeMap String ConditionalEnvironmentVariable
  path : EnvironmentPath

/-- `ProviderConfig`; `shellenv` is known by its path mode. -/
structure ProviderConfig where
  executable : String
  depends_on : List String
  shellenv : Option PathMode
  sensitivity : Sensitivity
  deriving DecidableEq, Repr

structure ResolvedConfig where
  shell_default : String
  shells : List String
  environment : EnvironmentConfig
  features : ValueTree
  providers : Std.ExtTreeMap String ProviderConfig
  inputs : Std.ExtTreeMap String InputSpec
  policy : PolicyConfig
  provenance : ProvenanceIndex

end dev_env_model
