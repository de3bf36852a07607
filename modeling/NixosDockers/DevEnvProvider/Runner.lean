-- The run of a provider (`runner.rs`): detection, the prepare steps, the environment of its
-- shell, and the receipt, with the failure policy of every step.
import NixosDockers.DevEnvProvider.Config

open rust_text dev_env_model
open dev_env (EffectiveIdentity Fingerprint ProviderReceipt)

namespace dev_env_provider

/-! ## Results and errors -/

structure DetectionResult where
  executable : Option String := none
  matched_files : List (List String) := []
  deriving DecidableEq, Repr

/-- A provider is applicable when its executable was found. -/
def DetectionResult.applicable (detection : DetectionResult) : Bool := detection.executable.isSome

inductive FingerprintError where
  | Serialize
  | Canonicalize (path : String)
  | Read (path : String)
  deriving DecidableEq, Repr

/-- The errors of a run. A command fails to run with an error of the executor. -/
inductive ProviderRuntimeError (ε : Type) where
  | Model (provider : String) (reason : ProviderError)
  | Condition (source : ConditionError)
  | Detection (provider : String) (source : DetectionError)
  | MissingExecutable (provider executable : String) (policy : MissingProviderPolicy)
  | Template (provider operation : String) (source : TemplateError)
  | Command (provider operation : String) (source : ε)
  | CommandFailed (provider operation : String) (output : CommandOutput)
  | OutputUtf8 (provider operation : String)
  | OutputRejected (provider operation : String) (source : EnvironmentParseError)
  | Fingerprint (provider : String) (source : FingerprintError)

inductive ProviderDiagnostic where
  | MissingExecutable (provider executable : String) (policy : MissingProviderPolicy)
  | NotApplicable (provider : String)
  | PrepareFailed (provider : String) (step : ℕ) (policy : FailurePolicy) (status : Option Int32)
      (timed_out : Bool) (stderr : List UInt8)
  | ShellenvFailed (provider : String) (policy : FailurePolicy) (status : Option Int32)
      (timed_out : Bool) (stderr : List UInt8)
  | ShellenvRejected (provider : String) (policy : FailurePolicy)
  deriving DecidableEq

structure ProviderRunResult where
  provider : String
  sensitivity : Sensitivity
  detection : DetectionResult
  prepared_steps : ℕ
  environment : EnvironmentDelta
  diagnostics : List ProviderDiagnostic
  receipt : Option ProviderReceipt

/-! ## The runner -/

/-- What a run changes: the state of the system, and the commands that were executed. -/
structure World (σ : Type) where
  state : σ
  executed : List CommandRequest := []

/-- A runner in a system with states `σ`: how commands are executed, executables located and files
fingerprinted. -/
structure ProviderRunner (σ ε : Type) where
  execute_with_identity : σ → CommandRequest → Option EffectiveIdentity →
    Except ε CommandOutput × σ
  files : σ → FileSystem
  locate : σ → String → Std.ExtTreeMap String String → Except Unit (Option String)
  provider_config : ProviderConfig → Except FingerprintError Fingerprint
  workspace : σ → String → List (List String) → Except FingerprintError Fingerprint
  codec : JsonCodec
  platform : Platform
  command_timeout : ℕ := 300 * 10 ^ 9
  max_stdout_bytes : ℕ := 1024 * 1024
  max_stderr_bytes : ℕ := 64 * 1024

/-- `CommandOutput::succeeded`. -/
def CommandOutput.succeeded (output : CommandOutput) : Bool :=
  !output.timed_out && output.status = some 0

/-- `condition_matches`. -/
def conditionMatches {ε : Type} (platform : Platform) (step : PrepareStep) (context : RunContext) :
    Except (ProviderRuntimeError ε) Bool :=
  match step.when with
  | none => .ok true
  | some condition =>
    match Condition.parse condition.toList with
    | .ok condition => .ok (evaluate platform context.toProviderContext condition)
    | .error source => .error (.Condition source)

/-- The loop that chooses the steps to run, with their places. -/
def runnableSteps {ε : Type} (platform : Platform) (context : RunContext) :
    List (PrepareStep × ℕ) → Except (ProviderRuntimeError ε) (List (PrepareStep × ℕ))
  | [] => .ok []
  | (step, index) :: steps => do
    let wanted ← conditionMatches platform step context
    let rest ← runnableSteps platform context steps
    .ok (if wanted then (step, index) :: rest else rest)

/-- What `command_failure_parts` reads of an error. -/
def failedOutput {ε : Type} : ProviderRuntimeError ε → Option CommandOutput
  | .CommandFailed _ _ output => some output
  | _ => none

def prepareDiagnostic {ε : Type} (provider : String) (step : ℕ) (policy : FailurePolicy)
    (error : ProviderRuntimeError ε) : ProviderDiagnostic :=
  match failedOutput error with
  | some output => .PrepareFailed provider step policy output.status output.timed_out output.stderr
  | none => .PrepareFailed provider step policy none false []

def shellenvDiagnostic {ε : Type} (provider : String) (policy : FailurePolicy)
    (error : ProviderRuntimeError ε) : ProviderDiagnostic :=
  match failedOutput error with
  | some output => .ShellenvFailed provider policy output.status output.timed_out output.stderr
  | none => .ShellenvFailed provider policy none false []

/-- What the prepare steps have come to so far. -/
structure Prepared where
  prepared_steps : ℕ := 0
  diagnostics : List ProviderDiagnostic := []
  deriving DecidableEq

/-- What all commands of one run share. -/
structure CommandExecution where
  provider : String
  executable : String
  context : RunContext
  identity : Option EffectiveIdentity

namespace ProviderRunner

variable {σ ε : Type}

/-- `ProviderDetection::detect`. -/
def detect (runner : ProviderRunner σ ε) (config : ProviderConfig) (context : RunContext)
    (state : σ) : Except DetectionError DetectionResult := do
  let matched_files ← detectFiles (runner.files state) context.workspace config.detect_files
  if config.detect_files ≠ [] ∧ matched_files = [] then .ok { matched_files }
  else
    match runner.locate state config.executable context.environment with
    | .error () => .error (.LocateExecutable config.executable)
    | .ok executable => .ok { executable, matched_files }

def expandArgs (execution : CommandExecution) (operation : String) (args : List String) :
    Except (ProviderRuntimeError ε) (List String) :=
  (expandArgv args execution.provider execution.context).mapError
    (.Template execution.provider operation)

/-- The environment of a command: that of the context, with the account of an identity. -/
def commandEnvironment (execution : CommandExecution) : Std.ExtTreeMap String String :=
  match execution.identity with
  | none => execution.context.environment
  | some identity =>
    ((execution.context.environment.insert "HOME" identity.home).insert "USER" identity.user).insert
      "LOGNAME" identity.user

/-- The request of a command. -/
def request (runner : ProviderRunner σ ε) (execution : CommandExecution) (args : List String)
    (timeout_ms : Option UInt64) : CommandRequest where
  program := execution.executable
  args
  cwd := execution.context.cwd.toByteArray.data.toList
  environment := commandEnvironment execution
  timeout := some ((timeout_ms.map fun ms => ms.toNat * 10 ^ 6).getD runner.command_timeout)
  max_stdout_bytes := runner.max_stdout_bytes
  max_stderr_bytes := runner.max_stderr_bytes

def execute (runner : ProviderRunner σ ε) (execution : CommandExecution) (operation : String)
    (args : List String) (timeout_ms : Option UInt64) (world : World σ) :
    Except (ProviderRuntimeError ε) CommandOutput × World σ :=
  let request := runner.request execution args timeout_ms
  let (result, state) := runner.execute_with_identity world.state request execution.identity
  (result.mapError (.Command execution.provider operation),
    { state, executed := world.executed ++ [request] })

/-- The operation of a prepare step. -/
def prepareOperation (index : ℕ) : String := "prepare[" ++ toString index ++ "]"

/-- One turn of the loop over the prepare steps. -/
def prepareStep (runner : ProviderRunner σ ε) (execution : CommandExecution) (step : PrepareStep)
    (index : ℕ) (prepared : Prepared) (world : World σ) :
    Except (ProviderRuntimeError ε) Prepared × World σ :=
  let operation := prepareOperation index
  match expandArgs execution operation step.argv with
  | .error error => (.error error, world)
  | .ok args =>
    match runner.execute execution operation args step.timeout_ms world with
    | (.ok output, world) =>
      if output.succeeded then
        (.ok { prepared with prepared_steps := prepared.prepared_steps + 1 }, world)
      else
        let error := .CommandFailed execution.provider operation output
        if step.failure = .Error then (.error error, world)
        else
          (.ok { prepared with diagnostics := prepared.diagnostics ++
            [prepareDiagnostic execution.provider index step.failure error] }, world)
    | (.error error, world) =>
      if step.failure = .Error then (.error error, world)
      else
        (.ok { prepared with diagnostics := prepared.diagnostics ++
          [prepareDiagnostic execution.provider index step.failure error] }, world)

/-- The loop over the prepare steps. -/
def prepareSteps (runner : ProviderRunner σ ε) (execution : CommandExecution) :
    List (PrepareStep × ℕ) → Prepared → World σ →
      Except (ProviderRuntimeError ε) Prepared × World σ
  | [], prepared, world => (.ok prepared, world)
  | (step, index) :: steps, prepared, world =>
    match runner.prepareStep execution step index prepared world with
    | (.error error, world) => (.error error, world)
    | (.ok prepared, world) => runner.prepareSteps execution steps prepared world

/-- What the output of the shell environment says. -/
def readShellenv (runner : ProviderRunner σ ε) (execution : CommandExecution)
    (shellenv : ShellEnvConfig) (output : CommandOutput) :
    Except (ProviderRuntimeError ε) (List ShellEnvEntry) :=
  match String.fromUTF8? ⟨output.stdout.toArray⟩ with
  | none => .error (.OutputUtf8 execution.provider "shellenv")
  | some text => (EnvironmentDelta.parseOutput runner.codec shellenv.format text).mapError
      (.OutputRejected execution.provider "shellenv")

/-- The part of a run that asks for the shell environment. -/
def runShellenv (runner : ProviderRunner σ ε) (execution : CommandExecution)
    (shellenv : ShellEnvConfig) (world : World σ) :
    Except (ProviderRuntimeError ε) (EnvironmentDelta × List ProviderDiagnostic) × World σ :=
  let noEnvironment : EnvironmentDelta := ⟨∅, ∅⟩
  match expandArgs execution "shellenv" shellenv.argv with
  | .error error => (.error error, world)
  | .ok args =>
    match runner.execute execution "shellenv" args shellenv.timeout_ms world with
    | (.ok output, world) =>
      if output.succeeded then
        match runner.readShellenv execution shellenv output with
        | .ok entries => (.ok (EnvironmentDelta.fromEntries entries, []), world)
        | .error error =>
          if shellenv.failure = .Error then (.error error, world)
          else
            (.ok (noEnvironment, [.ShellenvRejected execution.provider shellenv.failure]), world)
      else
        let error := .CommandFailed execution.provider "shellenv" output
        if shellenv.failure = .Error then (.error error, world)
        else
          (.ok (noEnvironment, [shellenvDiagnostic execution.provider shellenv.failure error]), world)
    | (.error error, world) =>
      if shellenv.failure = .Error then (.error error, world)
      else
        (.ok (noEnvironment, [shellenvDiagnostic execution.provider shellenv.failure error]), world)

/-- The environment of a provider: none without a `shellenv` section. -/
def runEnvironment (runner : ProviderRunner σ ε) (execution : CommandExecution) :
    Option ShellEnvConfig → World σ →
      Except (ProviderRuntimeError ε) (EnvironmentDelta × List ProviderDiagnostic) × World σ
  | none, world => (.ok (⟨∅, ∅⟩, []), world)
  | some shellenv, world => runner.runShellenv execution shellenv world

/-- The receipt of a run with prepared steps. -/
def receiptOf (runner : ProviderRunner σ ε) (provider_id : String) (config : ProviderConfig)
    (context : RunContext) (detection : DetectionResult) (prepared_steps : ℕ) (state : σ) :
    Except (ProviderRuntimeError ε) (Option ProviderReceipt) :=
  if prepared_steps = 0 then .ok none
  else do
    let config_fingerprint ←
      (if context.config_fingerprint = Vector.replicate 32 0 then runner.provider_config config
        else .ok context.config_fingerprint).mapError (.Fingerprint provider_id)
    let workspace_fingerprint ←
      (runner.workspace state context.workspace detection.matched_files).mapError
        (.Fingerprint provider_id)
    .ok (some { provider := provider_id, config_fingerprint, workspace_fingerprint })

/-- The part of a run in which the provider does not apply. -/
def runMissing (provider_id : String) (config : ProviderConfig) (detection : DetectionResult) :
    Except (ProviderRuntimeError ε) ProviderRunResult :=
  let result (diagnostic : ProviderDiagnostic) : ProviderRunResult :=
    { provider := provider_id, sensitivity := config.sensitivity, detection, prepared_steps := 0
      environment := ⟨∅, ∅⟩, diagnostics := [diagnostic], receipt := none }
  if config.detect_files ≠ [] ∧ detection.matched_files = [] then
    .ok (result (.NotApplicable provider_id))
  else if config.missing = .Error then
    .error (.MissingExecutable provider_id config.executable config.missing)
  else .ok (result (.MissingExecutable provider_id config.executable config.missing))

/-- The context of the commands: matched files are a config of the workspace. -/
def commandContext (context : RunContext) (detection : DetectionResult) : RunContext :=
  { context with
    workspace_config_present :=
      context.workspace_config_present || !detection.matched_files.isEmpty }

/-- What the commands of a run share. -/
def executionOf (provider_id : String) (context : RunContext) (identity : Option EffectiveIdentity)
    (detection : DetectionResult) (executable : String) : CommandExecution :=
  { provider := provider_id, executable, context := commandContext context detection, identity }

/-- The part of a run in which an executable was found. -/
def runFound (runner : ProviderRunner σ ε) (provider_id : String) (config : ProviderConfig)
    (context : RunContext) (identity : Option EffectiveIdentity) (detection : DetectionResult)
    (executable : String) (world : World σ) :
    Except (ProviderRuntimeError ε) ProviderRunResult × World σ :=
  let execution := executionOf provider_id context identity detection executable
  match runnableSteps runner.platform execution.context config.prepare.zipIdx with
  | .error error => (.error error, world)
  | .ok steps =>
    match runner.prepareSteps execution steps {} world with
    | (.error error, world) => (.error error, world)
    | (.ok prepared, world) =>
      match runner.runEnvironment execution config.shellenv world with
      | (.error error, world) => (.error error, world)
      | (.ok (environment, diagnostics), world) =>
        (do
          let receipt ← runner.receiptOf provider_id config context detection
            prepared.prepared_steps world.state
          .ok
            { provider := provider_id, sensitivity := config.sensitivity, detection
              prepared_steps := prepared.prepared_steps, environment
              diagnostics := prepared.diagnostics ++ diagnostics, receipt },
        world)

/-- `run_with_identity`. -/
def runWithIdentity (runner : ProviderRunner σ ε) (provider_id : String) (config : ProviderConfig)
    (context : RunContext) (identity : Option EffectiveIdentity) (world : World σ) :
    Except (ProviderRuntimeError ε) ProviderRunResult × World σ :=
  match config.validate provider_id with
  | .error reason => (.error (.Model provider_id reason), world)
  | .ok () =>
    match runner.detect config context world.state with
    | .error source => (.error (.Detection provider_id source), world)
    | .ok detection =>
      match detection.executable with
      | none => (runMissing provider_id config detection, world)
      | some executable =>
        runner.runFound provider_id config context identity detection executable world

end ProviderRunner

end dev_env_provider
