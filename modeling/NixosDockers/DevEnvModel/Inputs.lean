-- Inputs of the environment DSL (`input.rs`): what a text that is given for an
-- input stands for.
import NixosDockers.DevEnvModel.Policy

open rust_text documents

namespace dev_env_model

inductive InputType where
  | Bool
  | Enum
  | Integer
  | Path
  | String
  deriving DecidableEq, Repr

inductive ParsedInput where
  | Bool (value : Bool)
  | Enum (value : String)
  | Integer (value : Int64)
  | Path (value : String)
  | String (value : String)
  deriving DecidableEq, Repr

/-- `InputSpec`, as far as a supplied text is read by it. -/
structure InputSpec where
  target : String
  input_type : InputType
  values : List String
  aliases : Std.ExtTreeMap String String
  runtime : Bool
  export_as : Option String
  sensitivity : Sensitivity

/-- `str::parse::<i64>`. -/
def parseI64 (text : String) : Option Int64 :=
  let (negative, digits) :=
    match text.toList with
    | '-' :: rest => (true, rest)
    | '+' :: rest => (false, rest)
    | all => (false, all)
  let value : Int := if negative then -(digitsValue digits) else digitsValue digits
  if digits ≠ [] ∧ digits.all Char.isDigit ∧ -2 ^ 63 ≤ value ∧ value < 2 ^ 63 then
    some (Int64.ofInt value)
  else none

/-- What the text stands for by the type of the input. -/
def InputSpec.parseTyped (input : InputSpec) (raw : String) : Except InputError ParsedInput :=
  match input.input_type with
  | .Bool =>
    if raw ∈ ["1", "true", "TRUE", "True"] then .ok (.Bool true)
    else if raw ∈ ["0", "false", "FALSE", "False"] then .ok (.Bool false)
    else .error (.InvalidBoolean raw)
  | .Enum =>
    let value := input.aliases[raw]?.getD raw
    if value ∈ input.values then .ok (.Enum value) else .error (.InvalidEnumValue raw)
  | .Integer =>
    match parseI64 raw with
    | some value => .ok (.Integer value)
    | none => .error (.InvalidInteger raw)
  | .Path =>
    match validateConcretePath raw "input" with
    | .ok () => .ok (.Path raw)
    | .error _ => .error .InvalidPath
  | .String => if hasChar raw nul then .error .InvalidString else .ok (.String raw)

/-- `InputSpec::parse_value_named`. -/
def InputSpec.parseValueNamed (input : InputSpec) (name raw : String) :
    Except ModelError ParsedInput :=
  (input.parseTyped raw).mapError (.InvalidInput name ·)

/-- `InputSpec::parse_runtime_value_named`. -/
def InputSpec.parseRuntimeValueNamed (input : InputSpec) (name raw : String) :
    Except ModelError ParsedInput :=
  if !input.runtime then .error (.InvalidInput name .NotRuntime)
  else input.parseValueNamed name raw

end dev_env_model
