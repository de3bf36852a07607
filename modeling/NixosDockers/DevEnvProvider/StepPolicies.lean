-- Which failures end the run of a provider: a step that fails goes through its policy, unless
-- it is its arguments that do not expand.
import NixosDockers.DevEnvProvider.Runner
import NixosDockers.Lib.FailureRuns

open rust_text dev_env_model
open dev_env (EffectiveIdentity ProviderReceipt)
open failure_runs (run outcomes stop)

namespace dev_env_provider

/-! ## Steps -/

/-- What a run does with its executable: a prepare step, or the shell environment. -/
inductive ProviderStep where
  | Prepare (step : PrepareStep) (index : ℕ)
  | Shellenv (shellenv : ShellEnvConfig)
  deriving DecidableEq, Repr

namespace ProviderStep

def operation : ProviderStep → String
  | .Prepare _ index => ProviderRunner.prepareOperation index
  | .Shellenv _ => "shellenv"

def argv : ProviderStep → List String
  | .Prepare step _ => step.argv
  | .Shellenv shellenv => shellenv.argv

def failure : ProviderStep → FailurePolicy
  | .Prepare step _ => step.failure
  | .Shellenv shellenv => shellenv.failure

def timeout_ms : ProviderStep → Option UInt64
  | .Prepare step _ => step.timeout_ms
  | .Shellenv shellenv => shellenv.timeout_ms

/-- The arguments of a step have values for all their placeholders. -/
def Expands (step : ProviderStep) (execution : CommandExecution) : Prop :=
  (expandArgv step.argv execution.provider execution.context).isOk

end ProviderStep

/-- A condition that does not parse does not hold. -/
def wanted (platform : Platform) (context : RunContext) (step : PrepareStep) : Bool :=
  match step.when with
  | none => true
  | some condition =>
    match Condition.parse condition.toList with
    | .ok condition => evaluate platform context.toProviderContext condition
    | .error _ => false

/-- A prepare step with its place. -/
def prepareOf (step : PrepareStep × ℕ) : ProviderStep := .Prepare step.1 step.2

/-- The steps of a run: the prepare steps whose condition holds, then the shell environment. -/
def providerSteps (platform : Platform) (context : RunContext) (config : ProviderConfig) :
    List ProviderStep :=
  (config.prepare.zipIdx.filter fun step => wanted platform context step.1).map prepareOf ++
    config.shellenv.toList.map .Shellenv

variable {σ ε : Type}

namespace ProviderRuntimeError

def isTemplate : ProviderRuntimeError ε → Bool
  | .Template _ _ _ => true
  | _ => false

/-- The errors of the output of a command that succeeded. -/
def isRejection : ProviderRuntimeError ε → Bool
  | .OutputUtf8 _ _ => true
  | .OutputRejected _ _ _ => true
  | _ => false

end ProviderRuntimeError

/-- The failures that end a run. -/
def fatal (step : ProviderStep) (error : ProviderRuntimeError ε) : Bool :=
  step.failure = .Error || error.isTemplate

/-! ## What a run reports of its steps -/

/-- A step and what it came to: the entries of a shell environment, none of a prepare step. -/
abbrev Outcome (ε : Type) := ProviderStep × Except (ProviderRuntimeError ε) (List ShellEnvEntry)

namespace Outcome

def failed (outcome : Outcome ε) : Bool := !outcome.2.isOk

def prepared : Outcome ε → Bool
  | (.Prepare _ _, .ok _) => true
  | _ => false

def entries : Outcome ε → List ShellEnvEntry
  | (.Shellenv _, .ok entries) => entries
  | _ => []

def diagnostic (provider : String) : Outcome ε → Option ProviderDiagnostic
  | (_, .ok _) => none
  | (.Prepare step index, .error error) =>
    some (prepareDiagnostic provider index step.failure error)
  | (.Shellenv shellenv, .error error) =>
    some (if error.isRejection then .ShellenvRejected provider shellenv.failure
      else shellenvDiagnostic provider shellenv.failure error)

end Outcome

/-- What the loop over the prepare steps makes of their outcomes. -/
def Prepared.after (prepared : Prepared) (provider : String) (made : List (Outcome ε)) :
    Prepared where
  prepared_steps := prepared.prepared_steps + made.countP Outcome.prepared
  diagnostics := prepared.diagnostics ++ made.filterMap (Outcome.diagnostic provider)

/-- The result of a run whose steps came to these outcomes. -/
def resultOf (provider_id : String) (config : ProviderConfig) (detection : DetectionResult)
    (made : List (Outcome ε)) (receipt : Option ProviderReceipt) : ProviderRunResult where
  provider := provider_id
  sensitivity := config.sensitivity
  detection
  prepared_steps := made.countP Outcome.prepared
  environment := EnvironmentDelta.fromEntries (made.flatMap Outcome.entries)
  diagnostics := made.filterMap (Outcome.diagnostic provider_id)
  receipt

/-- What a result says of the outcomes of its steps. -/
structure ProviderRunResult.Reports (result : ProviderRunResult) (provider_id : String)
    (made : List (Outcome ε)) : Prop where
  prepared_steps : result.prepared_steps = made.countP Outcome.prepared
  diagnostics : result.diagnostics = made.filterMap (Outcome.diagnostic provider_id)
  one_each : result.diagnostics.length = made.countP Outcome.failed
  environment :
    result.environment = EnvironmentDelta.fromEntries (made.flatMap Outcome.entries)
  no_environment : (∀ outcome ∈ made, (∃ shellenv, outcome.1 = .Shellenv shellenv) →
    outcome.failed = true) → result.environment = ⟨∅, ∅⟩

namespace ProviderRunner

/-- The entries in the output of a step. -/
def readOutput (runner : ProviderRunner σ ε) (execution : CommandExecution)
    (output : CommandOutput) :
    ProviderStep → Except (ProviderRuntimeError ε) (List ShellEnvEntry)
  | .Prepare _ _ => .ok []
  | .Shellenv shellenv => runner.readShellenv execution shellenv output

/-- One step, whatever its policy. -/
def attempt (runner : ProviderRunner σ ε) (execution : CommandExecution) (step : ProviderStep)
    (world : World σ) : Except (ProviderRuntimeError ε) (List ShellEnvEntry) × World σ :=
  match expandArgs execution step.operation step.argv with
  | .error error => (.error error, world)
  | .ok args =>
    match runner.execute execution step.operation args step.timeout_ms world with
    | (.error error, world) => (.error error, world)
    | (.ok output, world) =>
      if output.succeeded then (runner.readOutput execution output step, world)
      else (.error (.CommandFailed execution.provider step.operation output), world)

/-- The commands of a step: one, if its arguments expand. -/
def requests (runner : ProviderRunner σ ε) (execution : CommandExecution) (step : ProviderStep) :
    List CommandRequest :=
  match expandArgv step.argv execution.provider execution.context with
  | .error _ => []
  | .ok args => [runner.request execution args step.timeout_ms]

/-- Both fingerprints of a receipt can be made. -/
def Fingerprints (runner : ProviderRunner σ ε) (config : ProviderConfig) (context : RunContext)
    (detection : DetectionResult) (state : σ) : Prop :=
  (context.config_fingerprint = Vector.replicate 32 0 → (runner.provider_config config).isOk) ∧
    (runner.workspace state context.workspace detection.matched_files).isOk

variable {runner : ProviderRunner σ ε} {execution : CommandExecution} {step : ProviderStep}
  {steps : List ProviderStep} {world : World σ} {error : ProviderRuntimeError ε}

/-! ## One step -/

theorem attempt_of_error {source : TemplateError}
    (h : expandArgv step.argv execution.provider execution.context = .error source) :
    runner.attempt execution step world =
      (.error (.Template execution.provider step.operation source), world) := by
  rw [attempt, expandArgs, h]
  rfl

/-- What a step with expanded arguments comes to, by the answer of the executor. -/
theorem attempt_of_ok {args : List String}
    (h : expandArgv step.argv execution.provider execution.context = .ok args) :
    runner.attempt execution step world =
      let answer := runner.execute_with_identity world.state
        (runner.request execution args step.timeout_ms) execution.identity
      (match answer.1 with
        | .error source => .error (.Command execution.provider step.operation source)
        | .ok output =>
          if output.succeeded then runner.readOutput execution output step
          else .error (.CommandFailed execution.provider step.operation output),
        { state := answer.2
          executed := world.executed ++ [runner.request execution args step.timeout_ms] }) := by
  rw [attempt, expandArgs, h]
  dsimp only [Except.mapError, execute]
  rcases (runner.execute_with_identity world.state (runner.request execution args step.timeout_ms)
    execution.identity).1 with source | output
  · rfl
  · dsimp only
    split <;> rfl

theorem executed_attempt : (runner.attempt execution step world).2.executed =
    world.executed ++ runner.requests execution step := by
  rw [requests]
  cases hargs : expandArgv step.argv execution.provider execution.context with
  | error source => rw [attempt_of_error hargs, List.append_nil]
  | ok args => rw [attempt_of_ok hargs]

theorem isRejection_of_readShellenv {shellenv : ShellEnvConfig} {output : CommandOutput}
    (h : runner.readShellenv execution shellenv output = .error error) :
    error.isRejection = true := by
  unfold readShellenv at h
  split at h
  · obtain rfl := Except.error.inj h
    rfl
  · obtain ⟨source, -, rfl⟩ := results.mapError_error_iff.mp h
    rfl

theorem isTemplate_of_isRejection (h : error.isRejection = true) : error.isTemplate = false := by
  cases error <;> simp_all [ProviderRuntimeError.isRejection, ProviderRuntimeError.isTemplate]

theorem fatal_of_not_template (h : error.isTemplate = false) :
    fatal step error = decide (step.failure = .Error) := by
  rw [fatal, h, Bool.or_false]

/-- Only arguments that do not expand fail with an error of the templates. -/
theorem isTemplate_attempt (h : step.Expands execution)
    (hmade : (runner.attempt execution step world).1 = .error error) :
    error.isTemplate = false := by
  obtain ⟨args, hargs⟩ := results.exists_of_isOk h
  rw [attempt_of_ok hargs] at hmade
  dsimp only at hmade
  split at hmade
  · obtain rfl := Except.error.inj hmade
    rfl
  · split at hmade
    · cases step with
      | Prepare step index => exact absurd hmade nofun
      | Shellenv shellenv => exact isTemplate_of_isRejection (isRejection_of_readShellenv hmade)
    · obtain rfl := Except.error.inj hmade
      rfl

/-- A step without the policy `error` does not stop a run, if its arguments expand. -/
theorem stop_attempt (hpolicy : step.failure ≠ .Error) (h : step.Expands execution) :
    stop fatal (step, (runner.attempt execution step world).1) = none :=
  failure_runs.stop_eq_none fun error herror => by
    simp [fatal, hpolicy, isTemplate_attempt h herror]

/-- A step fails fatally with the policy `error`, and where its arguments do not expand. -/
theorem fatal_attempt (hmade : (runner.attempt execution step world).1 = .error error)
    (h : step.failure = .Error ∨ ¬ step.Expands execution) : fatal step error = true := by
  rcases h with hpolicy | hexpands
  · rw [fatal, hpolicy]
    rfl
  · unfold ProviderStep.Expands at hexpands
    cases hargs : expandArgv step.argv execution.provider execution.context with
    | error source =>
      rw [attempt_of_error hargs] at hmade
      obtain rfl := Except.error.inj hmade
      exact Bool.or_true _
    | ok args => exact absurd (by rw [hargs]; rfl) hexpands

theorem executed_outcomes : (outcomes (runner.attempt execution) steps world).2.executed =
    world.executed ++ steps.flatMap (runner.requests execution) := by
  induction steps generalizing world with
  | nil => simp [outcomes]
  | cons step steps ih =>
    rw [outcomes, ih, executed_attempt, List.append_assoc, List.flatMap_cons]

/-! ## The loops -/

/-- One turn of the loop over the prepare steps is a step, whose failure goes through its policy
unless it is fatal. -/
theorem prepareStep_eq (prepare : PrepareStep) (index : ℕ) (prepared : Prepared) :
    runner.prepareStep execution prepare index prepared world =
      let made := runner.attempt execution (.Prepare prepare index) world
      match made.1 with
      | .error error =>
        if fatal (.Prepare prepare index) error then (.error error, made.2)
        else
          (.ok { prepared with diagnostics := prepared.diagnostics ++
            [prepareDiagnostic execution.provider index prepare.failure error] }, made.2)
      | .ok _ => (.ok { prepared with prepared_steps := prepared.prepared_steps + 1 }, made.2) := by
  unfold prepareStep expandArgs
  cases hargs : expandArgv prepare.argv execution.provider execution.context with
  | error source =>
    have hexpand : expandArgv (ProviderStep.Prepare prepare index).argv execution.provider
      execution.context = .error source := hargs
    rw [attempt_of_error hexpand]
    simp [Except.mapError, fatal, ProviderRuntimeError.isTemplate, ProviderStep.operation]
  | ok args =>
    have hexpand : expandArgv (ProviderStep.Prepare prepare index).argv execution.provider
      execution.context = .ok args := hargs
    rw [attempt_of_ok hexpand]
    dsimp only [Except.mapError, execute, ProviderStep.operation, ProviderStep.timeout_ms]
    rcases (runner.execute_with_identity world.state
      (runner.request execution args prepare.timeout_ms) execution.identity).1 with source | output
    · dsimp only
      rw [fatal_of_not_template rfl]
      by_cases hpolicy : prepare.failure = .Error <;> simp [hpolicy, ProviderStep.failure]
    · by_cases hsucceeded : output.succeeded
      · simp [hsucceeded, readOutput]
      · simp only [if_neg hsucceeded]
        rw [fatal_of_not_template rfl]
        by_cases hpolicy : prepare.failure = .Error <;> simp [hpolicy, ProviderStep.failure]

theorem prepareSteps_eq (prepares : List (PrepareStep × ℕ)) (prepared : Prepared) :
    runner.prepareSteps execution prepares prepared world =
      let made := run (runner.attempt execution) fatal (prepares.map prepareOf) world
      (made.1.map (prepared.after execution.provider), made.2) := by
  induction prepares generalizing prepared world with
  | nil => simp [prepareSteps, run, Except.map, Prepared.after]
  | cons prepare prepares ih =>
    obtain ⟨prepare, index⟩ := prepare
    rw [prepareSteps, prepareStep_eq, List.map_cons, prepareOf]
    dsimp only
    cases hmade : (runner.attempt execution (.Prepare prepare index) world).1 with
    | error error =>
      by_cases hfatal : fatal (.Prepare prepare index) error = true
      · rw [failure_runs.run_cons_of_some (by rw [hmade]; exact failure_runs.stop_eq_some hfatal)]
        simp only [if_pos hfatal]
        rfl
      · rw [failure_runs.run_cons_of_none (by rw [hmade]; exact if_neg hfatal), hmade]
        simp only [if_neg hfatal]
        rw [ih]
        dsimp only
        rcases (run (runner.attempt execution) fatal (prepares.map prepareOf)
          (runner.attempt execution (.Prepare prepare index) world).2).1 with _ | rest
        · rfl
        · simp [Except.map, Prepared.after, Outcome.diagnostic, Outcome.prepared]
    | ok entries =>
      rw [failure_runs.run_cons_of_none (by rw [hmade]; rfl), hmade]
      dsimp only
      rw [ih]
      dsimp only
      rcases (run (runner.attempt execution) fatal (prepares.map prepareOf)
        (runner.attempt execution (.Prepare prepare index) world).2).1 with _ | rest
      · rfl
      · have hcount : rest.countP Outcome.prepared + 1 = _ :=
          (List.countP_cons_of_pos (l := rest) (a := (.Prepare prepare index, .ok entries)) rfl).symm
        simp only [Except.map, Prepared.after]
        rw [← hcount, List.filterMap_cons_none rfl, Nat.add_assoc, Nat.add_comm 1]

/-- The shell environment is one step more. -/
theorem runEnvironment_eq (shellenv : Option ShellEnvConfig) :
    runner.runEnvironment execution shellenv world =
      let made := run (runner.attempt execution) fatal (shellenv.toList.map .Shellenv) world
      (made.1.map fun made => (EnvironmentDelta.fromEntries (made.flatMap Outcome.entries),
        made.filterMap (Outcome.diagnostic execution.provider)), made.2) := by
  cases shellenv with
  | none => rfl
  | some shellenv =>
    rw [Option.toList_some, List.map_cons, List.map_nil, runEnvironment, runShellenv, expandArgs]
    cases hargs : expandArgv shellenv.argv execution.provider execution.context with
    | error source =>
      have hexpand : expandArgv (ProviderStep.Shellenv shellenv).argv execution.provider
        execution.context = .error source := hargs
      have hstop : stop fatal (.Shellenv shellenv,
          (runner.attempt execution (.Shellenv shellenv) world).1) =
          some (.Template execution.provider "shellenv" source) := by
        rw [attempt_of_error hexpand]
        simp [stop, fatal, ProviderRuntimeError.isTemplate, ProviderStep.operation]
      rw [failure_runs.run_cons_of_some hstop, attempt_of_error hexpand]
      rfl
    | ok args =>
      have hexpand : expandArgv (ProviderStep.Shellenv shellenv).argv execution.provider
        execution.context = .ok args := hargs
      rw [run, attempt_of_ok hexpand]
      dsimp only [Except.mapError, execute, ProviderStep.operation, ProviderStep.timeout_ms]
      rcases (runner.execute_with_identity world.state
        (runner.request execution args shellenv.timeout_ms) execution.identity).1 with source | output
      · simp only [stop]
        rw [fatal_of_not_template rfl]
        by_cases hpolicy : shellenv.failure = .Error
        · simp [hpolicy, ProviderStep.failure, Except.map]
        · simp [hpolicy, ProviderStep.failure, Except.map, run, Outcome.diagnostic, Outcome.entries,
            ProviderRuntimeError.isRejection, EnvironmentDelta.fromEntries]
      · by_cases hsucceeded : output.succeeded
        · simp only [if_pos hsucceeded, readOutput]
          cases hread : runner.readShellenv execution shellenv output with
          | error error =>
            have hrejected := isRejection_of_readShellenv hread
            simp only [stop]
            rw [fatal_of_not_template (isTemplate_of_isRejection hrejected)]
            by_cases hpolicy : shellenv.failure = .Error
            · simp [hpolicy, ProviderStep.failure, Except.map]
            · simp [hpolicy, ProviderStep.failure, Except.map, run, Outcome.diagnostic,
                Outcome.entries, hrejected, EnvironmentDelta.fromEntries]
          | ok entries => simp [stop, run, Except.map, Outcome.entries, Outcome.diagnostic]
        · simp only [if_neg hsucceeded, stop]
          rw [fatal_of_not_template rfl]
          by_cases hpolicy : shellenv.failure = .Error
          · simp [hpolicy, ProviderStep.failure, Except.map]
          · simp [hpolicy, ProviderStep.failure, Except.map, run, Outcome.diagnostic,
              Outcome.entries, ProviderRuntimeError.isRejection, EnvironmentDelta.fromEntries]


/-! ## The whole run -/

theorem validateSteps_ok {steps : List PrepareStep} (h : validateSteps steps = .ok ()) :
    ∀ step ∈ steps, step.validate = .ok () := by
  induction steps with
  | nil => exact fun _ hstep => absurd hstep List.not_mem_nil
  | cons step steps ih =>
    obtain ⟨⟨⟩, hstep, hsteps⟩ := results.bind_ok_iff.mp h
    intro other hother
    rcases List.mem_cons.mp hother with rfl | hother
    · exact hstep
    · exact ih hsteps other hother

/-- The conditions of a validated configuration parse. -/
theorem conditions_parse {config : ProviderConfig} {id : String} (h : config.validate id = .ok ()) :
    ∀ step ∈ config.prepare, ∀ condition, step.when = some condition →
      (Condition.parse condition.toList).isOk := by
  intro step hstep condition hwhen
  have hsteps : validateSteps config.prepare = .ok () := by
    unfold ProviderConfig.validate at h
    simp only [results.ite_error_ok_iff] at h
    obtain ⟨-, -, -, -, -, h⟩ := h
    obtain ⟨⟨⟩, -, h⟩ := results.bind_ok_iff.mp h
    obtain ⟨⟨⟩, hsteps, -⟩ := results.bind_ok_iff.mp h
    exact hsteps
  have hvalid := validateSteps_ok hsteps step hstep
  unfold PrepareStep.validate at hvalid
  rw [results.ite_error_ok_iff] at hvalid
  obtain ⟨⟨⟩, -, hvalid⟩ := results.bind_ok_iff.mp hvalid.2
  rw [results.ite_error_ok_iff, hwhen] at hvalid
  simpa using hvalid.1

theorem conditionMatches_eq {platform : Platform} {context : RunContext} {step : PrepareStep}
    (h : ∀ condition, step.when = some condition → (Condition.parse condition.toList).isOk) :
    conditionMatches (ε := ε) platform step context = .ok (wanted platform context step) := by
  unfold conditionMatches wanted
  cases hwhen : step.when with
  | none => rfl
  | some condition =>
    obtain ⟨parsed, hparsed⟩ := results.exists_of_isOk (h condition hwhen)
    simp only [hparsed]

theorem runnableSteps_eq {platform : Platform} {context : RunContext}
    {prepares : List (PrepareStep × ℕ)}
    (h : ∀ step ∈ prepares, ∀ condition, step.1.when = some condition →
      (Condition.parse condition.toList).isOk) :
    runnableSteps (ε := ε) platform context prepares =
      .ok (prepares.filter fun step => wanted platform context step.1) := by
  induction prepares with
  | nil => rfl
  | cons prepare prepares ih =>
    obtain ⟨step, index⟩ := prepare
    rw [runnableSteps, conditionMatches_eq (h _ List.mem_cons_self), results.ok_bind,
      ih fun step hstep => h step (List.mem_cons_of_mem _ hstep), results.ok_bind,
      List.filter_cons]

theorem entries_of_prepares {made : List (Outcome ε)} {prepares : List (PrepareStep × ℕ)}
    (h : made.map Prod.fst = prepares.map prepareOf) : made.flatMap Outcome.entries = [] := by
  rw [List.flatMap_eq_nil_iff]
  rintro ⟨step, result⟩ hmem
  have hstep : step ∈ prepares.map prepareOf := h ▸ List.mem_map_of_mem hmem
  obtain ⟨prepare, -, rfl⟩ := List.mem_map.mp hstep
  rfl

theorem prepared_of_shellenv {made : List (Outcome ε)} {shellenv : List ShellEnvConfig}
    (h : made.map Prod.fst = shellenv.map .Shellenv) : made.countP Outcome.prepared = 0 := by
  rw [List.countP_eq_zero]
  rintro ⟨step, result⟩ hmem
  have hstep : step ∈ shellenv.map ProviderStep.Shellenv := h ▸ List.mem_map_of_mem hmem
  obtain ⟨shellenv, -, rfl⟩ := List.mem_map.mp hstep
  exact Bool.false_ne_true

/-- A run with an executable is the run over its steps, and the receipt after them. -/
theorem runFound_eq {provider_id : String} {config : ProviderConfig} {context : RunContext}
    {identity : Option EffectiveIdentity} {detection : DetectionResult} {executable : String}
    (hconfig : config.validate provider_id = .ok ()) :
    runner.runFound provider_id config context identity detection executable world =
      let execution := executionOf provider_id context identity detection executable
      let made := run (runner.attempt execution) fatal
        (providerSteps runner.platform execution.context config) world
      (made.1.bind fun outcomes =>
        (runner.receiptOf provider_id config context detection
          (outcomes.countP Outcome.prepared) made.2.state).map
            (resultOf provider_id config detection outcomes), made.2) := by
  have hparse : ∀ step ∈ config.prepare.zipIdx, ∀ condition, step.1.when = some condition →
      (Condition.parse condition.toList).isOk := fun step hstep =>
    conditions_parse hconfig step.1 (List.fst_mem_of_mem_zipIdx hstep)
  obtain ⟨execution, hexecution⟩ :
      ∃ execution, execution = executionOf provider_id context identity detection executable :=
    ⟨_, rfl⟩
  have hprovider : execution.provider = provider_id := by rw [hexecution]; rfl
  unfold runFound providerSteps
  rw [← hexecution]
  dsimp only
  rw [runnableSteps_eq hparse]
  generalize config.prepare.zipIdx.filter _ = prepares
  dsimp only
  rw [prepareSteps_eq, failure_runs.run_append]
  dsimp only
  rcases hprepares : run (runner.attempt execution) fatal (prepares.map prepareOf) world with
    ⟨error | prepared, next⟩
  · rfl
  · have hentries := entries_of_prepares (failure_runs.map_fst_of_run hprepares)
    dsimp only [Except.map]
    rw [runEnvironment_eq]
    dsimp only
    rcases hshellenv : run (runner.attempt execution) fatal (config.shellenv.toList.map .Shellenv)
      next with ⟨error | made, last⟩
    · rfl
    · have hcount := prepared_of_shellenv (failure_runs.map_fst_of_run hshellenv)
      have hsteps : (prepared ++ made).countP Outcome.prepared = prepared.countP Outcome.prepared := by
        rw [List.countP_append, hcount, Nat.add_zero]
      have hresult (receipt : Option ProviderReceipt) :
          resultOf provider_id config detection (prepared ++ made) receipt =
            { provider := provider_id, sensitivity := config.sensitivity, detection
              prepared_steps := prepared.countP Outcome.prepared
              environment := EnvironmentDelta.fromEntries (made.flatMap Outcome.entries)
              diagnostics := prepared.filterMap (Outcome.diagnostic provider_id) ++
                made.filterMap (Outcome.diagnostic provider_id), receipt } := by
        rw [resultOf, hsteps, List.flatMap_append, hentries, List.nil_append,
          List.filterMap_append]
      have hafter : ({} : Prepared).after execution.provider prepared =
          ⟨prepared.countP Outcome.prepared, prepared.filterMap (Outcome.diagnostic provider_id)⟩ := by
        rw [Prepared.after, hprovider, Nat.zero_add, List.nil_append]
      dsimp only [Except.map, Except.bind]
      rw [hafter, hsteps, hprovider]
      dsimp only
      cases runner.receiptOf provider_id config context detection
        (prepared.countP Outcome.prepared) last.state with
      | error error => rfl
      | ok receipt =>
        rw [results.ok_bind, ← hresult]

/-- The entries that the shell environment of a run was parsed to: none without a shell
environment, or where it failed. -/
def parsedEntries (runner : ProviderRunner σ ε) (provider_id : String) (config : ProviderConfig)
    (context : RunContext) (identity : Option EffectiveIdentity) (world : World σ) :
    List ShellEnvEntry :=
  match runner.detect config context world.state with
  | .error _ => []
  | .ok detection =>
    match detection.executable with
    | none => []
    | some executable =>
      let execution := executionOf provider_id context identity detection executable
      (outcomes (runner.attempt execution)
        (providerSteps runner.platform execution.context config) world).1.flatMap Outcome.entries

/-- The environment of a result is collected from the entries of the run. -/
theorem environment_of_run {provider_id : String} {config : ProviderConfig}
    {context : RunContext} {identity : Option EffectiveIdentity} {result : ProviderRunResult}
    (h : (runner.runWithIdentity provider_id config context identity world).1 = .ok result) :
    result.environment = EnvironmentDelta.fromEntries
      (runner.parsedEntries provider_id config context identity world) := by
  unfold parsedEntries
  unfold runWithIdentity at h
  cases hconfig : config.validate provider_id with
  | error reason =>
    rw [hconfig] at h
    exact absurd h nofun
  | ok valid =>
    rw [hconfig] at h
    dsimp only at h
    cases hdetect : runner.detect config context world.state with
    | error source =>
      rw [hdetect] at h
      exact absurd h nofun
    | ok detection =>
      rw [hdetect] at h
      dsimp only at h ⊢
      cases hexecutable : detection.executable with
      | none =>
        rw [hexecutable] at h
        unfold runMissing at h
        dsimp only at h ⊢
        split at h
        · rw [← Except.ok.inj h]
          rfl
        · split at h
          · exact absurd h nofun
          · rw [← Except.ok.inj h]
            rfl
      | some executable =>
        rw [hexecutable] at h
        dsimp only at h ⊢
        rw [runFound_eq hconfig] at h
        obtain ⟨made, hmade, hreceipt⟩ := results.bind_ok_iff.mp h
        obtain ⟨receipt, -, rfl⟩ := results.map_ok_iff.mp hreceipt
        rw [failure_runs.outcomes_of_run (Prod.ext hmade rfl)]
        rfl

/-- A receipt is missing only where a fingerprint is. -/
theorem receiptOf_isOk_iff {provider_id : String} {config : ProviderConfig} {context : RunContext}
    {detection : DetectionResult} {prepared_steps : ℕ} {state : σ} :
    (runner.receiptOf provider_id config context detection prepared_steps state).isOk ↔
      prepared_steps = 0 ∨ runner.Fingerprints config context detection state := by
  unfold receiptOf Fingerprints
  by_cases hsteps : prepared_steps = 0
  · simp [hsteps, Except.isOk, Except.toBool]
  · rw [if_neg hsteps]
    by_cases hzero : context.config_fingerprint = Vector.replicate 32 0
    · cases runner.provider_config config <;>
        cases runner.workspace state context.workspace detection.matched_files <;>
          simp [hsteps, hzero, Except.isOk, Except.toBool, Except.mapError, Except.bind, bind]
    · cases runner.workspace state context.workspace detection.matched_files <;>
        simp [hsteps, hzero, Except.isOk, Except.toBool, Except.mapError, Except.bind, bind]

/-- A run fails after its steps with the error of a fingerprint only. -/
theorem receiptOf_error {provider_id : String} {config : ProviderConfig} {context : RunContext}
    {detection : DetectionResult} {prepared_steps : ℕ} {state : σ}
    (h : runner.receiptOf provider_id config context detection prepared_steps state = .error error) :
    ∃ source, error = .Fingerprint provider_id source := by
  unfold receiptOf at h
  split at h
  · exact absurd h nofun
  · rcases results.bind_error_iff.mp h with h | ⟨config_fingerprint, -, h⟩
    · obtain ⟨source, -, rfl⟩ := results.mapError_error_iff.mp h
      exact ⟨source, rfl⟩
    · rcases results.bind_error_iff.mp h with h | ⟨workspace_fingerprint, -, h⟩
      · obtain ⟨source, -, rfl⟩ := results.mapError_error_iff.mp h
        exact ⟨source, rfl⟩
      · exact absurd h nofun

theorem length_diagnostics (provider_id : String) (made : List (Outcome ε)) :
    (made.filterMap (Outcome.diagnostic provider_id)).length = made.countP Outcome.failed := by
  induction made with
  | nil => rfl
  | cons outcome made ih =>
    obtain ⟨step, error | entries⟩ := outcome
    · have hsome : ∃ diagnostic, Outcome.diagnostic provider_id ((step, .error error) : Outcome ε) =
          some diagnostic := by cases step <;> exact ⟨_, rfl⟩
      obtain ⟨diagnostic, hsome⟩ := hsome
      rw [List.filterMap_cons_some hsome, List.length_cons, ih, List.countP_cons_of_pos rfl]
    · have hnone : Outcome.diagnostic provider_id ((step, .ok entries) : Outcome ε) = none := by
        cases step <;> rfl
      rw [List.filterMap_cons_none hnone, ih, List.countP_cons_of_neg Bool.false_ne_true]

theorem resultOf_reports {provider_id : String} {config : ProviderConfig}
    {detection : DetectionResult} {made : List (Outcome ε)} {receipt : Option ProviderReceipt} :
    (resultOf provider_id config detection made receipt).Reports provider_id made where
  prepared_steps := rfl
  diagnostics := rfl
  one_each := length_diagnostics provider_id made
  environment := rfl
  no_environment h := by
    have hentries : made.flatMap Outcome.entries = [] := by
      rw [List.flatMap_eq_nil_iff]
      rintro ⟨_ | shellenv, _ | entries⟩ hmem
      · rfl
      · rfl
      · rfl
      · exact absurd (h _ hmem ⟨shellenv, rfl⟩) Bool.false_ne_true
    rw [resultOf, hentries]
    rfl

/-- No failure of a step without the policy `error` stops a run, but for arguments that do not
expand. A run that no failure stops makes every step in order, reports them, and fails only where
its receipt does. The first failure that stops a run is its error, and no later command is
executed. -/
theorem failures_go_through_their_policy {provider_id : String} {config : ProviderConfig}
    {context : RunContext} {identity : Option EffectiveIdentity} {detection : DetectionResult}
    {executable : String} (hconfig : config.validate provider_id = .ok ())
    (hdetect : runner.detect config context world.state = .ok detection)
    (hexecutable : detection.executable = some executable) :
    let execution := executionOf provider_id context identity detection executable
    let steps := providerSteps runner.platform execution.context config
    let made := outcomes (runner.attempt execution) steps world
    let ended := runner.runWithIdentity provider_id config context identity world
    made.1.map Prod.fst = steps ∧
    ((∀ step ∈ steps, step.failure ≠ .Error ∧ step.Expands execution) →
      ∀ outcome ∈ made.1, stop fatal outcome = none) ∧
    ((∀ outcome ∈ made.1, stop fatal outcome = none) →
      ended.2.executed = world.executed ++ steps.flatMap (runner.requests execution) ∧
      (ended.1.isOk ↔ made.1.countP Outcome.prepared = 0 ∨
        runner.Fingerprints config context detection made.2.state) ∧
      (∀ error, ended.1 = .error error → ∃ source, error = .Fingerprint provider_id source) ∧
      ∀ result, ended.1 = .ok result → result.Reports provider_id made.1) ∧
    ∀ before step after error, steps = before ++ step :: after →
      (∀ outcome ∈ (outcomes (runner.attempt execution) before world).1,
        stop fatal outcome = none) →
      (runner.attempt execution step
        (outcomes (runner.attempt execution) before world).2).1 = .error error →
      step.failure = .Error ∨ ¬ step.Expands execution →
      ended.1 = .error error ∧
        ended.2.executed = world.executed ++
          (before ++ [step]).flatMap (runner.requests execution) := by
  intro execution steps made ended
  have hended : ended = (let made := run (runner.attempt execution) fatal steps world
      (made.1.bind fun outcomes =>
        (runner.receiptOf provider_id config context detection
          (outcomes.countP Outcome.prepared) made.2.state).map
            (resultOf provider_id config detection outcomes), made.2)) := by
    have hfound : ended =
        runner.runFound provider_id config context identity detection executable world := by
      simp only [ended, runWithIdentity, hconfig, hdetect, hexecutable]
    rw [hfound, runFound_eq hconfig]
  refine ⟨failure_runs.map_fst_outcomes _ _ _, ?_, ?_, ?_⟩
  · intro h
    exact failure_runs.forall_outcomes fun step hstep world =>
      stop_attempt (h step hstep).1 (h step hstep).2
  · intro h
    rw [hended, failure_runs.run_of_none h]
    dsimp only [Except.bind]
    refine ⟨executed_outcomes, ?_, ?_, ?_⟩
    · rw [← receiptOf_isOk_iff]
      cases runner.receiptOf provider_id config context detection
        (made.1.countP Outcome.prepared) made.2.state <;> rfl
    · intro error herror
      cases hreceipt : runner.receiptOf provider_id config context detection
        (made.1.countP Outcome.prepared) made.2.state with
      | error source =>
        rw [hreceipt] at herror
        obtain rfl := Except.error.inj herror
        exact receiptOf_error hreceipt
      | ok receipt =>
        rw [hreceipt] at herror
        exact absurd herror nofun
    · intro result hresult
      obtain ⟨receipt, -, rfl⟩ := results.map_ok_iff.mp hresult
      exact resultOf_reports
  · intro before step after error hsteps hbefore hmade hfatal
    have hstop : stop fatal (step, (runner.attempt execution step
        (outcomes (runner.attempt execution) before world).2).1) = some error := by
      rw [hmade]
      exact failure_runs.stop_eq_some (fatal_attempt hmade hfatal)
    rw [hended, hsteps, failure_runs.run_of_some hbefore hstop]
    refine ⟨rfl, ?_⟩
    dsimp only
    rw [executed_attempt, executed_outcomes, List.append_assoc, List.flatMap_append,
      List.flatMap_singleton]

end ProviderRunner

/-- A system in which every command is found, and fails with status 1. -/
def failingRunner : ProviderRunner Unit Unit where
  execute_with_identity _ _ _ := (.ok ⟨some 1, false, [], []⟩, ())
  files _ := linkedSystem
  locate _ executable _ := .ok (some executable)
  provider_config _ := .ok (Vector.replicate 32 1)
  workspace _ _ _ := .ok (Vector.replicate 32 2)
  codec := { toString := fun _ => "", fromStr := fun _ => none }
  platform := linux

def rootContext : RunContext := { fourJobs with
  user_id := 0
  config_fingerprint := Vector.replicate 32 3 }

/-- A provider with one step and a shell environment, whose failures are only warned of. -/
def warnedTool (argument : String) : ProviderConfig where
  executable := "tool"
  prepare := [{ argv := [argument], failure := .Warn }]
  shellenv := some { argv := ["env"], format := .Shell, failure := .Ignore }

theorem failed_steps_are_only_reported :
    let ended := failingRunner.runWithIdentity "tool" (warnedTool "install") rootContext none
      { state := () }
    ended.1.isOk ∧ ended.2.executed.length = 2 ∧
      ∀ result, ended.1 = .ok result → result.prepared_steps = 0 ∧
        result.diagnostics.length = 2 ∧ result.environment = ⟨∅, ∅⟩ := by
  obtain ⟨-, hmild, hreport, -⟩ :=
    @ProviderRunner.failures_go_through_their_policy Unit Unit failingRunner { state := () } "tool"
      (warnedTool "install") rootContext none { executable := some "tool" } "tool"
      (by decide) rfl rfl
  obtain ⟨hexecuted, hok, -, hresult⟩ := hreport (hmild fun step hstep => by
    rcases List.mem_pair.mp hstep with rfl | rfl
    · exact ⟨by decide, rfl⟩
    · exact ⟨by decide, rfl⟩)
  refine ⟨hok.mpr (.inl rfl), congrArg List.length hexecuted, ?_⟩
  intro result h
  have hreports := hresult result h
  refine ⟨hreports.prepared_steps, hreports.one_each, hreports.no_environment ?_⟩
  rintro outcome houtcome -
  rcases List.mem_pair.mp houtcome with rfl | rfl <;> rfl

/-- An argument with an unknown placeholder ends the run, even of a step with the policy `warn`. -/
theorem unknown_placeholder_is_not_only_warned_of :
    (warnedTool "\x7bnope\x7d").validate "tool" = .ok () ∧
      failingRunner.detect (warnedTool "\x7bnope\x7d") rootContext () =
        .ok { executable := some "tool" } ∧
      (∀ step ∈ providerSteps linux rootContext (warnedTool "\x7bnope\x7d"),
        step.failure ≠ .Error) ∧
      (failingRunner.runWithIdentity "tool" (warnedTool "\x7bnope\x7d") rootContext none
        { state := () }).1 =
          .error (.Template "tool" "prepare[0]" (.UnknownPlaceholder "\x7bnope\x7d" "nope")) := by
  refine ⟨by decide, rfl, by decide, rfl⟩

end dev_env_provider
