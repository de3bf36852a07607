-- The values of a request (`interpolation_values` of `executor.rs`) and the
-- evaluation of conditions (`condition.rs`).
import NixosDockers.Core.Types

open bootstrap_model rust_text

namespace init_core

/-- What the file system answers at one moment. -/
structure FileView where
  pathExists : String → Bool
  isWritable : String → Bool

/-- Everything a condition can read. -/
structure ConditionContext where
  platform : Platform
  identity : ResolvedIdentity
  inputs : ResolvedInputs
  runtime : RuntimeContext
  workspace_root : String

/-- The values that a path template can name. The condition context and the executor build
the same map. -/
def interpolationValues (context : ConditionContext) : Std.ExtTreeMap String String :=
  let fixed : List (String × String) := [
    ("bootstrap.workspace_root", context.workspace_root),
    ("identity.uid", toString context.identity.uid),
    ("identity.gid", toString context.identity.gid),
    ("identity.user", context.identity.user),
    ("identity.home", context.identity.home),
    ("identity.target", context.identity.user),
    ("context.cwd", context.runtime.cwd),
    ("context.os", context.platform.os),
    ("context.arch", context.platform.arch)]
  let inputs := context.inputs.toList.map fun entry => ("input." ++ entry.1, entry.2.raw)
  let env := context.runtime.env.toList.map fun entry => ("env." ++ entry.1, entry.2)
  (fixed ++ inputs ++ env).foldl (fun values entry => values.insert entry.1 entry.2) ∅

inductive ComparableValue where
  | String (text : String)
  | Bool (value : Bool)
  deriving DecidableEq, Repr

namespace ConditionContext

def invalid (message : String) : CoreError := .Invalid "bootstrap condition" message

def render (context : ConditionContext) (template : PathTemplate) : Except CoreError String :=
  match template.render (interpolationValues context) with
  | .ok path => .ok path
  | .error message => .error (invalid message)

/-- The value of a reference. -/
def reference (context : ConditionContext) (reference : String) : Except CoreError String :=
  match reference with
  | "identity.uid" => .ok (toString context.identity.uid)
  | "identity.gid" => .ok (toString context.identity.gid)
  | "identity.user" => .ok context.identity.user
  | "identity.home" => .ok context.identity.home
  | "identity.target" => .ok context.identity.user
  | "context.cwd" => .ok context.runtime.cwd
  | "context.os" => .ok context.platform.os
  | "context.arch" => .ok context.platform.arch
  | reference =>
    match stripStart reference "input.", stripStart reference "env." with
    | some name, _ =>
      match context.inputs[name]? with
      | some input => .ok input.raw
      | none => .error (invalid ("runtime input " ++ debugText reference ++ " is not set"))
    | none, some name =>
      match context.runtime.env[name]? with
      | some value => .ok value
      | none =>
        .error (invalid ("ambient environment value " ++ debugText reference ++ " is not set"))
    | none, none =>
      .error (invalid ("reference " ++ debugText reference ++
        " cannot be evaluated by container-init"))

def value (context : ConditionContext) : ConditionValue → Except CoreError ComparableValue
  | .Literal text => .ok (.String text)
  | .Boolean value => .ok (.Bool value)
  | .Reference reference => do return .String (← context.reference reference)

def evaluate (context : ConditionContext) (files : FileView) : Condition → Except CoreError Bool
  | .Always | .ContextPathExistsOrCreate => .ok true
  | .Boolean value => .ok value
  | .Exists path => do return files.pathExists (← context.render path)
  | .Writable path => do return files.isWritable (← context.render path)
  | .InputSet name => .ok (context.inputs.contains name)
  | .Feature feature => .ok (context.runtime.features.contains feature)
  | .Equal left right => do return (← context.value left) = (← context.value right)
  | .NotEqual left right => do return (← context.value left) ≠ (← context.value right)
  | .And parts => evaluateAll parts
  | .Or parts => evaluateAny parts
  | .Not part => do return !(← evaluate context files part)
where
  evaluateAll : List Condition → Except CoreError Bool
    | [] => .ok true
    | part :: parts => do
      if !(← evaluate context files part) then return false
      evaluateAll parts
  evaluateAny : List Condition → Except CoreError Bool
    | [] => .ok false
    | part :: parts => do
      if ← evaluate context files part then return true
      evaluateAny parts

end ConditionContext

end init_core
