-- The values of the environment DSL: the TOML tree of a profile, the small
-- dynamic tree of features and overrides (`value.rs`), and the checks that the
-- model makes of texts (`validation.rs`).
import NixosDockers.Lib.RustText
import NixosDockers.Lib.Documents
import Mathlib.Data.Int.Init
import Mathlib.Data.Nat.Notation

open rust_text documents

namespace dev_env_model

/-! ## TOML values -/

/-- What a TOML value is when it is no array and no table. A float is known by its bits. -/
inductive TomlScalar where
  | String (value : String)
  | Integer (value : Int64)
  | Float (bits : UInt64)
  | Boolean (value : Bool)
  | Datetime (text : String)
  deriving DecidableEq, Repr

/-- `toml::Value`. -/
abbrev Value := Doc String TomlScalar

/-- `toml::value::Table`, its entries in the order of their keys. -/
abbrev Table := Entries String Value

def Value.text (value : String) : Value := .Scalar (.String value)

def isNan (bits : UInt64) : Bool := 0x7ff0000000000000 < bits.toNat % 2 ^ 63

/-- `==` of two floats: no NaN is equal to anything, and both zeros are equal. -/
def floatEq (a b : UInt64) : Bool :=
  !isNan a && !isNan b && (a = b || a.toNat % 2 ^ 63 = 0 && b.toNat % 2 ^ 63 = 0)

def TomlScalar.same : TomlScalar → TomlScalar → Bool
  | .Float a, .Float b => floatEq a b
  | a, b => a = b

/-- `==` of two TOML values. -/
def Value.same (a b : Value) : Bool := Doc.alike TomlScalar.same a b

/-! ## Dynamic values -/

inductive TreeScalar where
  | Null
  | Bool (value : Bool)
  | Integer (value : Int64)
  | Float (bits : UInt64)
  | String (value : String)
  deriving DecidableEq, Repr

/-- `ValueTree`; its arrays and maps are those of a document. -/
abbrev ValueTree := Doc String TreeScalar

def ValueTree.asStr : ValueTree → Option String
  | .Scalar (.String value) => some value
  | _ => none

/-! ## Errors of the model -/

inductive ModelErrorReason where
  | Empty
  | Nul
  | Newline
  | InvalidMapKey
  | InvalidIdentifier
  | InvalidPath
  | AbsolutePathRequired
  | PathTraversal
  | ShellMetacharacter
  | Duplicate
  | Missing
  | Unsupported
  | MustBeScalar
  | MustBeNonEmpty
  | MustBeExplicit
  deriving DecidableEq, Repr

inductive InputError where
  | InvalidName
  | InvalidTarget
  | InvalidEnumValue (value : String)
  | InvalidAlias («alias» : String)
  | AliasTargetMissing («alias» target : String)
  | WrongDefaultType
  | InvalidBoolean (value : String)
  | InvalidInteger (value : String)
  | InvalidPath
  | InvalidString
  | NotRuntime
  deriving DecidableEq, Repr

/-- `ModelError`, as far as the loader and the materializer meet it. -/
inductive ModelError where
  | InvalidValue (location : String) (reason : ModelErrorReason)
  | InvalidEnvironmentName (location name : String)
  | InvalidEnvironmentValue (location : String) (reason : ModelErrorReason)
  | InvalidPath (location : String) (reason : ModelErrorReason)
  | InvalidInput (name : String) (reason : InputError)
  | UnknownInput (name : String)
  | InvalidCondition (location : String)
  | InvalidOverride (path : String) (reason : ModelErrorReason)
  | WorkspaceOverrideNotAllowed (path : String)
  | CliOverrideNotAllowed (path : String)
  | InvalidConfig (location : String)
  | MissingProviderDependency (provider dependency : String)
  | ProviderDependencyCycle (providers : List String)
  deriving DecidableEq, Repr

/-! ## Texts -/

/-- `str::is_env_name`. -/
def isEnvName (name : String) : Bool :=
  match name.toList with
  | [] => false
  | c :: rest => (c.isUpper || c = '_') && rest.all fun c => c.isUpper || c.isDigit || c = '_'

/-- `str::is_config_path`: parts between dots, the last of which may be a star. -/
def isConfigPath (path : String) : Bool :=
  let parts := splitChar '.' path
  path ≠ "" && !parts.any (fun part => part = "" || part = "..") &&
    parts.zipIdx.all fun (part, index) =>
      part = "*" && index + 1 = parts.length ||
        part.toList.all fun c => c.isAlphanum || c = '_' || c = '-'

def validateConfigPath (path location : String) : Except ModelError Unit :=
  if isConfigPath path then .ok () else .error (.InvalidValue location .InvalidIdentifier)

def validateEnvName (name location : String) : Except ModelError Unit :=
  if !isEnvName name || hasChar name '=' || hasChar name nul then
    .error (.InvalidEnvironmentName location name)
  else .ok ()

def validateNonemptyText (text location : String) (allow_newlines : Bool) : Except ModelError Unit :=
  if text = "" then .error (.InvalidValue location .Empty)
  else if hasChar text nul then .error (.InvalidValue location .Nul)
  else if !allow_newlines && (hasChar text '\n' || hasChar text '\r') then
    .error (.InvalidValue location .Newline)
  else .ok ()

def validatePath (path location : String) : Except ModelError Unit := do
  validateNonemptyText path location false
  if !startsWith path "/" && !startsWith path "$\x7b" then
    throw (.InvalidPath location .AbsolutePathRequired)
  if (splitChar '/' path).any (· = "..") then throw (.InvalidPath location .PathTraversal)
  if hasText path "$(" || [backtick, ';', '|', '&', '>', '<'].any (hasChar path) then
    throw (.InvalidPath location .ShellMetacharacter)
  if hasChar path '$' && !hasText path "$\x7b" then
    throw (.InvalidPath location .ShellMetacharacter)

def validateConcretePath (path location : String) : Except ModelError Unit := do
  validatePath path location
  if hasText path "$\x7b" then throw (.InvalidPath location .InvalidPath)

/-! ## Checked trees -/

mutual

/-- `ValueTree::validate`. -/
def validateTree (location : String) : ValueTree → Except ModelError Unit
  | .Scalar (.String value) =>
    if hasChar value nul then .error (.InvalidValue location .Nul) else .ok ()
  | .Scalar _ => .ok ()
  | .Array items => validateItems location 0 items
  | .Table entries => validateEntries location entries

def validateItems (location : String) (index : ℕ) : List ValueTree → Except ModelError Unit
  | [] => .ok ()
  | item :: rest =>
    match validateTree s!"{location}[{index}]" item with
    | .ok () => validateItems location (index + 1) rest
    | .error error => .error error

def validateEntries (location : String) : List (String × ValueTree) → Except ModelError Unit
  | [] => .ok ()
  | (key, value) :: rest =>
    if key = "" || hasChar key nul then .error (.InvalidValue location .InvalidMapKey)
    else
      match validateTree s!"{location}.{key}" value with
      | .ok () => validateEntries location rest
      | .error error => .error error

end

end dev_env_model
