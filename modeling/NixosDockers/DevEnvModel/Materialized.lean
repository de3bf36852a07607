-- Materialized environments (`materialized.rs`): the variables of a process,
-- each with where it came from and how sensitive it is.
import NixosDockers.DevEnvModel.ShellEnv

open rust_text

namespace dev_env_model

structure EnvValue where
  value : String
  origin : Option Origin
  sensitivity : Sensitivity
  provider : Option String
  deriving DecidableEq, Repr

/-- `EnvValue::validate`. -/
def EnvValue.validate (value : EnvValue) (name : String) : Except ModelError Unit :=
  if !isPosixEnvName name then
    .error (.InvalidEnvironmentName s!"environment.variables.{name}" name)
  else if hasChar value.value nul then
    .error (.InvalidEnvironmentValue s!"environment.variables.{name}" .Nul)
  else .ok ()

/-- `MaterializedEnv`, without its fingerprint and the receipts of the providers. -/
structure MaterializedEnv where
  values : Std.ExtTreeMap String EnvValue

/-- `MaterializedEnv::validate`. -/
def MaterializedEnv.validate (environment : MaterializedEnv) : Except ModelError Unit :=
  environment.values.toList.forM fun (name, value) => value.validate name

end dev_env_model
