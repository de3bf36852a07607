-- Policies, overrides and provenance of the environment DSL (`config.rs`,
-- `provenance.rs`): which paths may be overridden, what an override says, and
-- what is remembered of where each value came from.
import Mathlib
import NixosDockers.DevEnvModel.Values

open rust_text documents

namespace dev_env_model

/-! ## Policies -/

inductive MergePolicy where
  | Strict
  | PreferChild
  deriving DecidableEq, Repr

inductive UnknownInputPolicy where
  | Error
  | Ignore
  deriving DecidableEq, Repr

inductive UntrustedWorkspacePolicy where
  | Prompt
  | Deny
  | Allow
  deriving DecidableEq, Repr

structure PolicyConfig where
  merge : MergePolicy
  workspace_can_override : List String
  cli_can_override : List String
  unknown_input : UnknownInputPolicy
  untrusted_workspace : UntrustedWorkspacePolicy
  deriving DecidableEq, Repr

/-- `PolicyConfig::default`. -/
def PolicyConfig.default : PolicyConfig where
  merge := .Strict
  workspace_can_override := []
  cli_can_override := []
  unknown_input := .Error
  untrusted_workspace := .Prompt

/-- A pattern is its own path, or what is below it when it ends in `.*`. -/
def pathMatches (pattern path : String) : Bool :=
  pattern = path ||
    endsWith pattern ".*" &&
      (pattern.toList.dropLast.dropLast ++ ['.']).isPrefixOf path.toList

def PolicyConfig.allowsWorkspaceOverride (policy : PolicyConfig) (path : String) : Bool :=
  policy.workspace_can_override.any fun pattern => pathMatches pattern path

def PolicyConfig.allowsCliOverride (policy : PolicyConfig) (path : String) : Bool :=
  policy.cli_can_override.any fun pattern => pathMatches pattern path

/-! ### Policies in a document -/

def MergePolicy.ofValue : Value → Option MergePolicy
  | .Scalar (.String "strict") => some .Strict
  | .Scalar (.String "prefer-child") => some .PreferChild
  | _ => none

def UnknownInputPolicy.ofValue : Value → Option UnknownInputPolicy
  | .Scalar (.String "error") => some .Error
  | .Scalar (.String "ignore") => some .Ignore
  | _ => none

def UntrustedWorkspacePolicy.ofValue : Value → Option UntrustedWorkspacePolicy
  | .Scalar (.String "prompt") => some .Prompt
  | .Scalar (.String "deny") => some .Deny
  | .Scalar (.String "allow") => some .Allow
  | _ => none

def textOfValue : Value → Option String
  | .Scalar (.String text) => some text
  | _ => none

def textsOfValue : Value → Option (List String)
  | .Array items => items.mapM textOfValue
  | _ => none

/-- A field with a default: it is read when it is there. -/
def fieldOr {α : Type} (table : Table) (name : String) (read : Value → Option α) (default : α) :
    Option α :=
  match table.get name with
  | some value => read value
  | none => some default

def policyFields : List String :=
  ["merge", "workspace_can_override", "cli_can_override", "unknown_input", "untrusted_workspace"]

/-- The derived `Deserialize` of `PolicyConfig`: no unknown fields, and a default for each. -/
def PolicyConfig.ofTable (table : Table) : Option PolicyConfig := do
  guard (table.keys.all (· ∈ policyFields))
  let merge ← fieldOr table "merge" MergePolicy.ofValue .Strict
  let workspace ← fieldOr table "workspace_can_override" textsOfValue []
  let cli ← fieldOr table "cli_can_override" textsOfValue []
  let unknown ← fieldOr table "unknown_input" UnknownInputPolicy.ofValue .Error
  let untrusted ← fieldOr table "untrusted_workspace" UntrustedWorkspacePolicy.ofValue .Prompt
  pure ⟨merge, workspace, cli, unknown, untrusted⟩

def PolicyConfig.ofValue : Value → Option PolicyConfig
  | .Table table => PolicyConfig.ofTable table
  | _ => none

/-! ## Overrides -/

inductive OverrideOperation where
  | Set
  | Unset
  | Replace
  | Append
  | Remove
  deriving DecidableEq, Repr

structure OverrideSpec where
  op : OverrideOperation
  value : Option ValueTree
  values : List ValueTree
  reason : String

/-- What the operation of an override asks of its values. -/
def OverrideSpec.validateOperation (spec : OverrideSpec) (path : String) : Except ModelError Unit :=
  match spec.op with
  | .Set =>
    if spec.value.isNone || !spec.values.isEmpty then
      .error (.InvalidOverride path .MustBeExplicit)
    else .ok ()
  | .Unset =>
    if spec.value.isSome || !spec.values.isEmpty then
      .error (.InvalidOverride path .MustBeExplicit)
    else .ok ()
  | .Replace | .Append | .Remove =>
    if spec.values.isEmpty || spec.value.isSome then
      .error (.InvalidOverride path .MustBeNonEmpty)
    else .ok ()

def OverrideSpec.validatePathValue (path : String) (value : ValueTree) : Except ModelError Unit :=
  match ValueTree.asStr value with
  | none => .error (.InvalidOverride path .MustBeScalar)
  | some text => validateConcretePath text s!"override.{path}.values"

/-- `OverrideSpec::validate`. -/
def OverrideSpec.validate (spec : OverrideSpec) (path : String) : Except ModelError Unit := do
  validateConfigPath path s!"override.{path}"
  if spec.reason = "" || hasChar spec.reason nul then throw (.InvalidOverride path .Empty)
  spec.validateOperation path
  spec.value.toList.forM (validateTree s!"override.{path}.value")
  spec.values.zipIdx.forM fun (value, index) =>
    validateTree s!"override.{path}.values[{index}]" value
  if path ∈ ["environment.path.prepend", "environment.path.append", "environment.path.remove"] then
    spec.values.forM (OverrideSpec.validatePathValue path)

/-! ## Provenance -/

inductive Sensitivity where
  | Public
  | Sensitive
  | Secret
  deriving DecidableEq, Repr

/-- The order of the variants. -/
def Sensitivity.rank : Sensitivity → ℕ
  | .Public => 0
  | .Sensitive => 1
  | .Secret => 2

instance : LE Sensitivity := ⟨fun a b => a.rank ≤ b.rank⟩

instance (a b : Sensitivity) : Decidable (a ≤ b) := inferInstanceAs (Decidable (a.rank ≤ b.rank))

def Sensitivity.max (a b : Sensitivity) : Sensitivity := if a ≤ b then b else a

inductive SourceId where
  | Profile (id : String)
  | File (path : String)
  | Environment (name : String)
  | Cli
  | Unknown
  deriving DecidableEq, Repr

inductive Layer where
  | Profile
  | Admin
  | User
  | Workspace
  | Runtime
  | Cli
  deriving DecidableEq, Repr

structure Origin where
  source : SourceId
  line : Option UInt32
  column : Option UInt32
  layer : Layer
  reason : Option String
  deriving DecidableEq, Repr

def Origin.new (source : SourceId) (layer : Layer) : Origin := ⟨source, none, none, layer, none⟩

def Origin.withReason (origin : Origin) (reason : Option String) : Origin :=
  { origin with reason }

def Origin.environment (name : String) : Origin := Origin.new (.Environment name) .Runtime

/-- `Origin::default`. -/
def Origin.default : Origin := Origin.new .Unknown .Profile

structure ProvenanceEntry where
  path : String
  origins : List Origin
  sensitivity : Sensitivity
  deriving DecidableEq, Repr

/-- `ProvenanceIndex`: its entries by their paths. -/
abbrev ProvenanceIndex := Std.ExtTreeMap String ProvenanceEntry

/-- `ProvenanceIndex::insert`: one more origin, and a sensitivity that only grows. -/
def ProvenanceIndex.insert (index : ProvenanceIndex) (path : String) (origin : Origin)
    (sensitivity : Sensitivity) : ProvenanceIndex :=
  let entry := index[path]?.getD ⟨path, [], sensitivity⟩
  Std.ExtTreeMap.insert index path
    { entry with
      sensitivity := entry.sensitivity.max sensitivity
      origins := entry.origins ++ [origin] }

/-- The sensitivity that is remembered of a path, public when nothing is. -/
def ProvenanceIndex.sensitivity (index : ProvenanceIndex) (path : String) : Sensitivity :=
  match index[path]? with
  | some entry => entry.sensitivity
  | none => .Public

end dev_env_model
