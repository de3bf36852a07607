-- What a provider changes in an environment (`dev-env-provider`:
-- `environment.rs`), and how its output is read in each format.
import NixosDockers.DevEnvModel.Materialized

open rust_text dev_env_model

namespace dev_env_provider

/-! ## JSON -/

/-- A JSON value, as far as an environment looks into it. -/
inductive JsonValue where
  | Null
  | String (value : String)
  | Object (entries : List (String × JsonValue))
  | Other

/-- How JSON is written and read: `serde_json`. -/
structure JsonCodec where
  toString : Std.ExtTreeMap String String → String
  fromStr : String → Option JsonValue

/-- An object of texts is read as it was written, its entries in the order of their names. -/
def JsonCodec.ReadsBack (codec : JsonCodec) (values : Std.ExtTreeMap String String) : Prop :=
  codec.fromStr (codec.toString values) =
    some (.Object (values.toList.map fun entry => (entry.1, .String entry.2)))

/-! ## Errors -/

inductive DotenvParseError where
  | InvalidLine (line : ℕ)
  | Shell (line : ℕ) (source : ShellEnvParseError)
  deriving DecidableEq, Repr

inductive JsonEnvironmentError where
  | Parse
  | RootNotObject
  | NonString (name : String)
  | InvalidName (name : String)
  deriving DecidableEq, Repr

inductive EnvironmentParseError where
  | Shell (source : ShellEnvParseError)
  | Dotenv (source : DotenvParseError)
  | Json (source : JsonEnvironmentError)
  deriving DecidableEq, Repr

inductive ShellEnvFormat where
  | Shell
  | Dotenv
  | Json
  deriving DecidableEq, Repr

/-! ## Reading -/

/-- A line without the carriage return at its end. -/
def stripReturn (line : List Char) : List Char :=
  if line.getLast? = some '\r' then line.dropLast else line

/-- `str::lines`, of the parts between the newlines. What follows the last newline is a line only
when it is not empty. -/
def linesOf : List (List Char) → List (List Char)
  | [] => []
  | [last] => if last = [] then [] else [last]
  | line :: next :: rest => stripReturn line :: linesOf (next :: rest)

/-- A line that `parse_dotenv` passes over. -/
def isBlankLine (line : List Char) : Bool :=
  let trimmed := trim line
  trimmed.isEmpty || trimmed.head? = some '#'

def parseDotenvLine (line : ℕ) (contents : List Char) : Except DotenvParseError ShellEnvEntry :=
  match ShellEnvEntry.parseLine contents with
  | .error source => .error (.Shell line source)
  | .ok none => .error (.InvalidLine line)
  | .ok (some entry) => .ok entry

/-- The loop of `parse_dotenv` over the numbered lines. -/
def parseDotenvLines : List (List Char × ℕ) → Except DotenvParseError (List ShellEnvEntry)
  | [] => .ok []
  | (contents, index) :: rest =>
    if isBlankLine contents then parseDotenvLines rest
    else
      match parseDotenvLine (index + 1) contents with
      | .error error => .error error
      | .ok entry => (parseDotenvLines rest).map (entry :: ·)

/-- `parse_dotenv`. -/
def parseDotenv (output : String) : Except DotenvParseError (List ShellEnvEntry) :=
  parseDotenvLines (linesOf (output.toList.splitOn '\n')).zipIdx

/-- One entry of `parse_json`; its names are those of `is_environment_name`. -/
def parseJsonEntry (name : String) (value : JsonValue) :
    Except JsonEnvironmentError ShellEnvEntry :=
  if !isEnvName name then .error (.InvalidName name)
  else
    match value with
    | .String value => .ok (.Set name value)
    | .Null => .ok (.Unset name)
    | _ => .error (.NonString name)

/-- `parse_json`. -/
def parseJson (codec : JsonCodec) (output : String) :
    Except JsonEnvironmentError (List ShellEnvEntry) :=
  match codec.fromStr output with
  | none => .error .Parse
  | some (.Object entries) => entries.mapM fun (name, value) => parseJsonEntry name value
  | some _ => .error .RootNotObject

/-! ## Deltas -/

structure EnvironmentDelta where
  set : Std.ExtTreeMap String String
  unset : Std.ExtTreeSet String

namespace EnvironmentDelta

/-- `EnvironmentDelta::parse_output`. -/
def parseOutput (codec : JsonCodec) (format : ShellEnvFormat) (output : String) :
    Except EnvironmentParseError (List ShellEnvEntry) :=
  match format with
  | .Shell => (ShellEnvEntry.parse output).mapError .Shell
  | .Dotenv => (parseDotenv output).mapError .Dotenv
  | .Json => (parseJson codec output).mapError .Json

def applyEntry (delta : EnvironmentDelta) : ShellEnvEntry → EnvironmentDelta
  | .Set name value => { unset := delta.unset.erase name, set := delta.set.insert name value }
  | .Unset name => { set := delta.set.erase name, unset := delta.unset.insert name }

/-- `EnvironmentDelta::from_entries`. -/
def fromEntries (entries : List ShellEnvEntry) : EnvironmentDelta :=
  entries.foldl applyEntry ⟨∅, ∅⟩

/-- `EnvironmentDelta::apply_to`. -/
def applyTo (delta : EnvironmentDelta) (environment : Std.ExtTreeMap String String) :
    Std.ExtTreeMap String String :=
  delta.set.toList.foldl (fun environment entry => environment.insert entry.1 entry.2)
    (delta.unset.toList.foldl (fun environment name => environment.erase name) environment)

end EnvironmentDelta

end dev_env_provider
