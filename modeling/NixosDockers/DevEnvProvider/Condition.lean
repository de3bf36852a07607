-- The conditions of providers at run time (`condition.rs`, `context.rs`): what a reference and an
-- operand stand for in a context, and what a condition comes to.
import NixosDockers.DevEnvModel.Condition
import NixosDockers.DevEnvProvider.Delta

open rust_text results documents dev_env_model

namespace dev_env_provider

/-! ## The context -/

/-- The facts that conditions read. -/
structure ProviderContext where
  workspace : String
  cwd : String
  shell : String
  environment : Std.ExtTreeMap String String
  config : ValueTree
  workspace_writable : Bool
  workspace_config_present : Bool
  provider_enabled : Bool

/-- The constants of the platform: `OS` and `ARCH`. -/
structure Platform where
  os : String
  arch : String

namespace ProviderContext

/-- `config_value`. -/
def configValue (context : ProviderContext) (path : String) : Option ValueTree :=
  Doc.reach (splitChar '.' path) (some context.config)

/-- `namespace_value`. -/
def namespaceValue (context : ProviderContext) (space path : String) : Option ValueTree :=
  match context.configValue (space ++ "." ++ path) with
  | some value => some value
  | none => if space = "features" then context.configValue path else none

end ProviderContext

/-! ## Evaluation -/

inductive ConditionRuntimeValue where
  | String (value : String)
  | Boolean (value : Bool)
  | Integer (value : Int64)
  | Other
  deriving DecidableEq

def valueFromTree : ValueTree → ConditionRuntimeValue
  | .Scalar (.Bool value) => .Boolean value
  | .Scalar (.Integer value) => .Integer value
  | .Scalar (.String value) => .String value
  | .Scalar .Null | .Scalar (.Float _) | .Array _ | .Table _ => .Other

def isTruthy : ConditionRuntimeValue → Bool
  | .Boolean value => value
  | .String value => value ≠ ""
  | .Integer value => value ≠ 0
  | .Other => false

def resolveReference (platform : Platform) (context : ProviderContext) (reference : String) :
    Option ConditionRuntimeValue :=
  match splitDot reference with
  | none => none
  | some (space, path) =>
    if space = "provider" ∧ path = "enabled" then some (.Boolean context.provider_enabled)
    else if space = "workspace" then
      if path = "config-present" then some (.Boolean context.workspace_config_present)
      else if path = "writable" then some (.Boolean context.workspace_writable)
      else if path = "root" then some (.String context.workspace)
      else none
    else if space = "context" then
      if path = "cwd" then some (.String context.cwd)
      else if path = "os" then some (.String platform.os)
      else if path = "arch" then some (.String platform.arch)
      else none
    else if space = "input" ∨ space = "env" then context.environment[path]?.map .String
    else if space = "config" ∨ space = "features" then
      (context.namespaceValue space path).map valueFromTree
    else none

def resolveValue (platform : Platform) (context : ProviderContext) :
    ConditionValue → Option ConditionRuntimeValue
  | .Boolean value => some (.Boolean value)
  | .Literal value => some (.String value)
  | .Reference reference => resolveReference platform context reference

mutual

/-- `ConditionEvaluator::evaluate`. -/
def evaluate (platform : Platform) (context : ProviderContext) : Condition → Bool
  | .Always => true
  | .Boolean value => value
  | .Reference reference => ((resolveReference platform context reference).map isTruthy).getD false
  | .Equal left right =>
    match resolveValue platform context left, resolveValue platform context right with
    | some left, some right => left = right
    | _, _ => false
  | .NotEqual left right =>
    match resolveValue platform context left, resolveValue platform context right with
    | some left, some right => left ≠ right
    | _, _ => false
  | .And values => evaluateAll platform context values
  | .Or values => evaluateAny platform context values
  | .Not value => !evaluate platform context value

def evaluateAll (platform : Platform) (context : ProviderContext) : List Condition → Bool
  | [] => true
  | value :: values => evaluate platform context value && evaluateAll platform context values

def evaluateAny (platform : Platform) (context : ProviderContext) : List Condition → Bool
  | [] => false
  | value :: values => evaluate platform context value || evaluateAny platform context values

end

/-! ## The documented semantics

Every operand denotes a configuration value or a number, and a comparison is about the two values
that its operands denote. -/

/-- `==` of two scalars of a configuration. -/
def TreeScalar.same : TreeScalar → TreeScalar → Bool
  | .Float a, .Float b => floatEq a b
  | a, b => a = b

/-- `==` of two configuration values. -/
def ValueTree.same (a b : ValueTree) : Bool := Doc.alike TreeScalar.same a b

inductive Meaning where
  | Number (value : ℕ)
  | Value (value : ValueTree)

def Meaning.same : Meaning → Meaning → Bool
  | .Number a, .Number b => a = b
  | .Number a, .Value (.Scalar (.Integer b)) => (a : ℤ) = b.toInt
  | .Value (.Scalar (.Integer a)), .Number b => a.toInt = (b : ℤ)
  | .Value a, .Value b => ValueTree.same a b
  | _, _ => false

/-- What a reference to something else than the configuration stands for. -/
def fact (platform : Platform) (context : ProviderContext) (space path : String) :
    Option ValueTree :=
  match space, path with
  | "provider", "enabled" => some (.Scalar (.Bool context.provider_enabled))
  | "workspace", "config-present" => some (.Scalar (.Bool context.workspace_config_present))
  | "workspace", "writable" => some (.Scalar (.Bool context.workspace_writable))
  | "workspace", "root" => some (.Scalar (.String context.workspace))
  | "context", "cwd" => some (.Scalar (.String context.cwd))
  | "context", "os" => some (.Scalar (.String platform.os))
  | "context", "arch" => some (.Scalar (.String platform.arch))
  | "input", name | "env", name =>
    context.environment[name]?.map fun value => .Scalar (.String value)
  | _, _ => none

/-- What a reference denotes. -/
def documentedReference (platform : Platform) (context : ProviderContext) (reference : String) :
    Option ValueTree :=
  match splitDot reference with
  | none => none
  | some (space, path) =>
    if space = "config" then context.configValue path
    else if space = "features" then context.configValue ("features." ++ path)
    else fact platform context space path

/-- What an operand denotes. -/
def documentedOperand (platform : Platform) (context : ProviderContext) (text : List Char) :
    Option Meaning :=
  let input := trim text
  if input = "true".toList then some (.Value (.Scalar (.Bool true)))
  else if input = "false".toList then some (.Value (.Scalar (.Bool false)))
  else if isQuoted input then
    some (.Value (.Scalar (.String (String.ofList (input.drop 1).dropLast))))
  else if isDigits input then some (.Number (digitsValue input))
  else (documentedReference platform context (String.ofList input)).map .Value

/-- The value of a comparison that expects its operands to be the same, or not to be; there is
none of a comparison with an undefined operand, and it counts as false. -/
def comparison {α : Type} (expected : Bool) (same : α → α → Bool) : Option α → Option α → Bool
  | some a, some b => same a b == expected
  | _, _ => false

/-- A reference alone is true when it is defined and not false, zero or empty. -/
def holds (value : Option ValueTree) : Bool :=
  (value.map fun tree => isTruthy (valueFromTree tree)).getD false

mutual

/-- The value that a condition has by its documentation. -/
def documented (platform : Platform) (context : ProviderContext) : condition_expr.Expr → Bool
  | .Atom text =>
    if text = "always".toList then true
    else if text = "true".toList then true
    else if text = "false".toList then false
    else holds (documentedReference platform context (String.ofList text))
  | .Equal left right => comparison true Meaning.same
      (documentedOperand platform context left) (documentedOperand platform context right)
  | .NotEqual left right => comparison false Meaning.same
      (documentedOperand platform context left) (documentedOperand platform context right)
  | .And children => documentedAll platform context children
  | .Or children => documentedAny platform context children
  | .Not child => !documented platform context child

def documentedAll (platform : Platform) (context : ProviderContext) :
    List condition_expr.Expr → Bool
  | [] => true
  | child :: children =>
    documented platform context child && documentedAll platform context children

def documentedAny (platform : Platform) (context : ProviderContext) :
    List condition_expr.Expr → Bool
  | [] => false
  | child :: children =>
    documented platform context child || documentedAny platform context children

end

/-- A container whose features have four jobs. -/
def fourJobs : ProviderContext where
  workspace := "/workspace"
  cwd := "/workspace"
  shell := "bash"
  environment := ∅
  config := .Table [("features", .Table [("jobs", .Scalar (.Integer 4))])]
  workspace_writable := true
  workspace_config_present := true
  provider_enabled := true

def linux : Platform := { os := "linux", arch := "x86_64" }

end dev_env_provider
