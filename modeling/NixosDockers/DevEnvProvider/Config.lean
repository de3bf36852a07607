-- The configuration of a provider (`dev-env-model`: `provider.rs`), its validation, and the
-- templates of its arguments (`template.rs`).
import NixosDockers.DevEnvModel.Resolved
import NixosDockers.DevEnvProvider.Condition
import NixosDockers.DevEnvProvider.Detect
import NixosDockers.DevEnvProvider.WorkerProtocol

open rust_text dev_env_model

namespace dev_env_provider

/-! ## The configuration -/

inductive FailurePolicy where
  | Error
  | Warn
  | Ignore
  deriving DecidableEq, Repr

inductive MissingProviderPolicy where
  | Error
  | Warn
  | Ignore
  deriving DecidableEq, Repr

inductive ProviderError where
  | InvalidId
  | EmptyExecutable
  | InvalidExecutable
  | EmptyArg
  | InvalidArg
  | InvalidGlob
  | EmptyPrepareArgv
  | InvalidCondition
  | InvalidShellenv
  | InvalidTimeout
  | DuplicateDependency
  deriving DecidableEq, Repr

structure PrepareStep where
  argv : List String
  «when» : Option String := none
  failure : FailurePolicy := .Error
  timeout_ms : Option UInt64 := none
  sensitivity : Sensitivity := .Public
  deriving DecidableEq, Repr

structure ShellEnvConfig where
  argv : List String
  format : ShellEnvFormat
  failure : FailurePolicy := .Error
  path_mode : PathMode := .Merge
  timeout_ms : Option UInt64 := none
  deriving DecidableEq, Repr

structure ProviderConfig where
  executable : String
  detect_files : List String := []
  missing : MissingProviderPolicy := .Error
  depends_on : List String := []
  prepare : List PrepareStep := []
  shellenv : Option ShellEnvConfig := none
  sensitivity : Sensitivity := .Public
  deriving DecidableEq, Repr

/-- What `dev_env_model` keeps of a provider. -/
def ProviderConfig.summary (config : ProviderConfig) : dev_env_model.ProviderConfig where
  executable := config.executable
  depends_on := config.depends_on
  shellenv := config.shellenv.map ShellEnvConfig.path_mode
  sensitivity := config.sensitivity

/-! ## Validation -/

/-- `str::is_identifier`. -/
def isIdentifier (text : String) : Bool :=
  text ≠ "" && text.toList.all fun c => c.isAlphanum || c = '_' || c = '-' || c = '.'

/-- The arguments of a step. The place of an argument is not part of the error. -/
def validateArgv : List String → Except ProviderError Unit
  | [] => .ok ()
  | argument :: arguments =>
    if argument = "" then .error .EmptyArg
    else if !(validateNonemptyText argument "argv" false).isOk then .error .InvalidArg
    else validateArgv arguments

def PrepareStep.validate (step : PrepareStep) : Except ProviderError Unit :=
  if step.argv = [] then .error .EmptyPrepareArgv
  else do
    validateArgv step.argv
    if step.when.any fun condition => !(Condition.parse condition.toList).isOk then
      .error .InvalidCondition
    else if step.timeout_ms = some 0 then .error .InvalidTimeout
    else .ok ()

def ShellEnvConfig.validate (shellenv : ShellEnvConfig) : Except ProviderError Unit :=
  if shellenv.argv = [] then .error .InvalidShellenv
  else do
    validateArgv shellenv.argv
    if shellenv.timeout_ms = some 0 then .error .InvalidTimeout else .ok ()

/-- The loop over the dependencies, with those that were seen. -/
def validateDependencies : List String → List String → Except ProviderError Unit
  | _, [] => .ok ()
  | seen, dependency :: dependencies =>
    if !isIdentifier dependency then .error .InvalidId
    else if dependency ∈ seen then .error .DuplicateDependency
    else validateDependencies (dependency :: seen) dependencies

/-- The loop over the prepare steps. -/
def validateSteps : List PrepareStep → Except ProviderError Unit
  | [] => .ok ()
  | step :: steps => do
    step.validate
    validateSteps steps

/-- An executable that a shell would not take as one word. -/
def isShellWord (executable : String) : Bool :=
  !executable.toList.any isWhitespace && !hasText executable "$(" &&
    [backtick, ';', '|', '&', '>', '<'].all fun c => !hasChar executable c

/-- `ProviderConfig::validate`. -/
def ProviderConfig.validate (config : ProviderConfig) (id : String) : Except ProviderError Unit :=
  if !isIdentifier id then .error .InvalidId
  else if config.executable = "" then .error .EmptyExecutable
  else if !(validateNonemptyText config.executable "executable" false).isOk then
    .error .InvalidExecutable
  else if !isShellWord config.executable then .error .InvalidExecutable
  else if config.detect_files.any fun pattern => !(validateGlob pattern "detect_files").isOk then
    .error .InvalidGlob
  else do
    validateDependencies [] config.depends_on
    validateSteps config.prepare
    match config.shellenv with
    | none => .ok ()
    | some shellenv => shellenv.validate

/-! ## Templates -/

/-- The context of a run: what templates and receipts read, beside the facts of the conditions. -/
structure RunContext extends ProviderContext where
  user_id : UInt32
  config_fingerprint : dev_env.Fingerprint

inductive TemplateError where
  | EmptyPlaceholder
  | UnterminatedPlaceholder (argument : String)
  | UnknownPlaceholder (argument name : String)
  | Nul
  deriving DecidableEq, Repr

/-- `ProviderContext::template_value`. -/
def RunContext.templateValue (context : RunContext) (name : String) : Option String :=
  if name = "workspace" then some context.workspace
  else if name = "cwd" then some context.cwd
  else if name = "shell" then some context.shell
  else if name = "user-id" then some (toString context.user_id.toNat)
  else if name = "workspace-config-present" then some (toString context.workspace_config_present)
  else if name = "workspace-writable" then some (toString context.workspace_writable)
  else none

/-- The loop of `expand_argument`, character by character: outside of a placeholder, or after the
part of its name that was read. -/
def expandChars (argument : String) (value : String → Option String) :
    Option (List Char) → List Char → Except TemplateError (List Char)
  | none, [] => .ok []
  | some _, [] => .error (.UnterminatedPlaceholder argument)
  | none, c :: rest =>
    if c = '\x7b' then expandChars argument value (some []) rest
    else (expandChars argument value none rest).map (c :: ·)
  | some name, c :: rest =>
    if c = '\x7d' then
      if name = [] then .error .EmptyPlaceholder
      else
        match value (String.ofList name) with
        | none => .error (.UnknownPlaceholder argument (String.ofList name))
        | some text => (expandChars argument value none rest).map (text.toList ++ ·)
    else expandChars argument value (some (name ++ [c])) rest

def expandArgument (argument provider : String) (context : RunContext) :
    Except TemplateError String :=
  if hasChar argument nul then .error .Nul
  else
    (expandChars argument (fun name => if name = "provider" then some provider
      else context.templateValue name) none argument.toList).map String.ofList

/-- `ProviderTemplate::expand_argv`. -/
def expandArgv (arguments : List String) (provider : String) (context : RunContext) :
    Except TemplateError (List String) :=
  arguments.mapM fun argument => expandArgument argument provider context

end dev_env_provider
