-- The report of `explain` (`explain.rs`): a value of the configuration is shown
-- or redacted by the sensitivity of the path that was asked for.
import NixosDockers.DevEnvModel.Policy
import NixosDockers.Lib.HiddenPlaces
import NixosDockers.Lib.Results

open dev_env_model documents results rust_text

namespace dev_env_cli

/-! ## The report -/

/-- What a `serde_json::Value` is when it is no array and no object. -/
inductive JsonScalar where
  | Null
  | Bool (value : Bool)
  | Number (text : String)
  | String (value : String)
  deriving DecidableEq, Repr

/-- `serde_json::Value`. -/
abbrev Json := Doc String JsonScalar

/-- What the report reads of a loaded configuration: `config` is the configuration written out as
JSON. -/
structure LoadedConfig where
  profile : String
  profile_chain : List String
  workspace : String
  cwd : String
  merge_policy : MergePolicy
  config : Json
  provenance : ProvenanceIndex

structure ExplainProvenance where
  sensitivity : Sensitivity
  origins : List Origin

structure ExplainReport where
  profile : String
  profile_chain : List String
  workspace : String
  cwd : String
  merge_policy : MergePolicy
  config_fingerprint : String
  path : Option String
  value : Option Json
  provenance : Std.ExtTreeMap String ExplainProvenance

inductive ConfigurationError where
  | MissingConfigPath (path : String)

/-- `Value::as_object`. -/
def asObject : Json → Option (Entries String Json)
  | .Table entries => some entries
  | _ => none

def valueAt (root : Json) (path : String) : Option Json :=
  (splitChar '.' path).foldlM (fun value component => do (← asObject value).get component) root

def redacted : Json := .Scalar (.String "<redacted>")

/-- The value of a path as it is shown. -/
def shownValue (loaded : LoadedConfig) (path : String) : Except ConfigurationError Json :=
  match valueAt loaded.config path with
  | none => .error (.MissingConfigPath path)
  | some value =>
    let sensitivity := loaded.provenance.sensitivity path
    .ok (if sensitivity = .Public then value else redacted)

/-- `build_report_inner`; `fingerprint` is the digest of the configuration that is written out. -/
def buildReport (fingerprint : Json → String) (loaded : LoadedConfig) (path : Option String) :
    Except ConfigurationError ExplainReport := do
  let value ← path.mapM (shownValue loaded)
  return {
    profile := loaded.profile
    profile_chain := loaded.profile_chain
    workspace := loaded.workspace
    cwd := loaded.cwd
    merge_policy := loaded.merge_policy
    config_fingerprint := fingerprint loaded.config
    path
    value
    provenance := loaded.provenance.map fun _ entry =>
      { sensitivity := entry.sensitivity, origins := entry.origins } }

/-! ## The places of the provenance -/

/-- The places as `record_value` names them; the root has no name. -/
def provenancePlaces (provenance : ProvenanceIndex) : Doc.Places String (Option String) where
  entry
    | none, key => some key
    | some path, key => some s!"{path}.{key}"
  item
    | none, index => some s!"[{index}]"
    | some path, index => some s!"{path}[{index}]"
  hidden
    | none => False
    | some path => provenance.sensitivity path ≠ .Public

/-- The second configuration is the first one but for values at paths that are not public. -/
def DiffersInHidden (loaded other : LoadedConfig) : Prop :=
  other = { loaded with config := other.config } ∧
    Doc.SameBut (provenancePlaces loaded.provenance) loaded.config none other.config

/-- The value of a path is redacted itself, or it is public with everything above and within. -/
def ShownSafely (loaded : LoadedConfig) (path : String) : Prop :=
  ∀ value, valueAt loaded.config path = some value →
    loaded.provenance.sensitivity path ≠ .Public ∨
      ¬ Doc.HiddenAbove (provenancePlaces loaded.provenance) none (splitChar '.' path) ∧
        Doc.Clear (provenancePlaces loaded.provenance) value (some path)

theorem valueAt_eq (root : Json) (path : String) :
    valueAt root path = Doc.reach (splitChar '.' path) (some root) := by
  unfold valueAt
  generalize splitChar '.' path = keys
  induction keys generalizing root with
  | nil => rfl
  | cons key rest ih =>
    rw [List.foldlM_cons]
    cases root with
    | Scalar value => rfl
    | Array items => rfl
    | Table entries =>
      rw [Doc.reach_cons_table]
      show (Entries.get key entries).bind _ = _
      cases Entries.get key entries with
      | none => rw [Doc.reach_none]; rfl
      | some inner => exact ih inner

theorem intercalate_joined (path key : String) (rest : List String) :
    String.intercalate "." (s!"{path}.{key}" :: rest) =
      String.intercalate "." (path :: key :: rest) := by
  cases rest with
  | nil => rw [String.intercalate_cons_cons]; rfl
  | cons next rest =>
    rw [String.intercalate_cons_cons, String.intercalate_cons_cons, String.intercalate_cons_cons]
    simp only [toString, String.append_assoc]

theorem along_some (provenance : ProvenanceIndex) (path : String) (keys : List String) :
    (provenancePlaces provenance).along (some path) keys =
      some (String.intercalate "." (path :: keys)) := by
  induction keys generalizing path with
  | nil => rfl
  | cons key rest ih =>
    rw [← intercalate_joined]
    exact ih s!"{path}.{key}"

theorem along_splitChar (provenance : ProvenanceIndex) (path : String) :
    (provenancePlaces provenance).along none (splitChar '.' path) = some path := by
  have hjoin := intercalate_splitChar '.' path
  cases hparts : splitChar '.' path with
  | nil => exact absurd hparts (splitChar_ne_nil '.' path)
  | cons key rest =>
    rw [hparts] at hjoin
    rw [← hjoin]
    exact along_some provenance key rest

/-! ## What a report may show -/

variable {fingerprint : Json → String} {loaded other : LoadedConfig} {path : String}
  {report report' : ExplainReport}

theorem buildReport_eq (fingerprint : Json → String) (loaded : LoadedConfig) (path : String) :
    (buildReport fingerprint loaded (some path)).map (·.value) =
      (shownValue loaded path).map some := by
  unfold buildReport
  rw [Option.mapM_some]
  cases shownValue loaded path <;> rfl

theorem shownValue_ok_iff {shown : Json} : shownValue loaded path = .ok shown ↔
    ∃ value, valueAt loaded.config path = some value ∧
      shown = if loaded.provenance.sensitivity path = .Public then value else redacted := by
  unfold shownValue
  cases valueAt loaded.config path with
  | none => exact ⟨nofun, fun ⟨_, h, _⟩ => nomatch h⟩
  | some value =>
    constructor
    · intro h
      exact ⟨value, rfl, (Except.ok.inj h).symm⟩
    · rintro ⟨_, h, rfl⟩
      obtain rfl := Option.some.inj h
      rfl

theorem buildReport_value (h : buildReport fingerprint loaded (some path) = .ok report) :
    ∃ value, valueAt loaded.config path = some value ∧
      report.value = some (if loaded.provenance.sensitivity path = .Public then value else redacted) := by
  have heq := buildReport_eq fingerprint loaded path
  rw [h] at heq
  cases hshown : shownValue loaded path with
  | error error => rw [hshown] at heq; cases heq
  | ok shown =>
    rw [hshown] at heq
    obtain ⟨value, hvalue, rfl⟩ := shownValue_ok_iff.mp hshown
    exact ⟨value, hvalue, Except.ok.inj heq⟩

theorem exists_buildReport (fingerprint : Json → String) {value : Json}
    (h : valueAt loaded.config path = some value) :
    ∃ report, buildReport fingerprint loaded (some path) = .ok report ∧
      report.value = some (if loaded.provenance.sensitivity path = .Public then value else redacted) := by
  have heq := buildReport_eq fingerprint loaded path
  rw [shownValue_ok_iff.mpr ⟨value, h, rfl⟩] at heq
  cases hreport : buildReport fingerprint loaded (some path) with
  | error error => rw [hreport] at heq; cases heq
  | ok report =>
    rw [hreport] at heq
    exact ⟨report, rfl, Except.ok.inj heq⟩

/-- Reports on the same path show the same value for all configurations that differ only in values
that are not public, exactly when the path is not public, or nothing above it and nothing in it
is hidden. -/
theorem explain_shows_same_iff (fingerprint : Json → String) (loaded : LoadedConfig)
    (path : String) :
    (∀ other report report', DiffersInHidden loaded other →
      buildReport fingerprint loaded (some path) = .ok report →
      buildReport fingerprint other (some path) = .ok report' → report'.value = report.value) ↔
    ShownSafely loaded path := by
  have hiff : ∀ value, valueAt loaded.config path = some value →
      ((∀ config found, Doc.SameBut (provenancePlaces loaded.provenance) loaded.config none config →
          valueAt config path = some found → found = value) ↔
        ¬ Doc.HiddenAbove (provenancePlaces loaded.provenance) none (splitChar '.' path) ∧
          Doc.Clear (provenancePlaces loaded.provenance) value (some path)) := by
    intro value hvalue
    rw [valueAt_eq] at hvalue
    rw [← along_splitChar loaded.provenance path, ← Doc.found_same_iff hvalue]
    simp only [valueAt_eq]
  constructor
  · intro hsame value hvalue
    by_cases hpublic : loaded.provenance.sensitivity path = .Public
    · refine Or.inr ((hiff value hvalue).mp fun config found hconfig hfound => ?_)
      obtain ⟨report, hreport, hshown⟩ := exists_buildReport fingerprint hvalue
      have hother : valueAt { loaded with config }.config path = some found := hfound
      obtain ⟨report', hreport', hshown'⟩ := exists_buildReport fingerprint hother
      have heq := hsame { loaded with config } report report' ⟨rfl, hconfig⟩ hreport hreport'
      rw [hshown, hshown', if_pos hpublic, if_pos hpublic] at heq
      exact Option.some.inj heq
    · exact Or.inl hpublic
  · intro hsafe other report report' ⟨hother, hconfig⟩ hreport hreport'
    obtain ⟨value, hvalue, hshown⟩ := buildReport_value hreport
    obtain ⟨found, hfound, hshown'⟩ := buildReport_value hreport'
    have hprovenance : other.provenance = loaded.provenance := by rw [hother]
    rw [hshown, hshown', hprovenance]
    by_cases hpublic : loaded.provenance.sensitivity path = .Public
    · have hopen := (hsafe value hvalue).resolve_left (not_not.mpr hpublic)
      rw [(hiff value hvalue).mpr hopen other.config found hconfig hfound]
    · rw [if_neg hpublic, if_neg hpublic]

/-! ## A secret in a table that is asked for -/

/-- The profile declares the variables, an input with a secret value sets one. -/
def tokenProvenance : ProvenanceIndex :=
  ((((∅ : ProvenanceIndex).insert "environment"
    (Origin.new (.Profile "base") .Profile) .Public).insert "environment.variables"
    (Origin.new (.Profile "base") .Profile) .Public).insert "environment.variables.TOKEN"
    (Origin.environment "API_TOKEN") .Secret)

def tokenTable (token : String) : Json := .Table [("TOKEN", .Scalar (.String token))]

def tokenConfig (token : String) : LoadedConfig where
  profile := "base"
  profile_chain := ["base"]
  workspace := "/w"
  cwd := "/w"
  merge_policy := .Strict
  config := .Table [("environment", .Table [("variables", tokenTable token)])]
  provenance := tokenProvenance

theorem token_hidden : tokenProvenance.sensitivity "environment.variables.TOKEN" = .Secret := by
  decide +kernel

theorem tokenConfig_differs (first second : String) :
    DiffersInHidden (tokenConfig first) (tokenConfig second) := by
  have hhidden : (provenancePlaces tokenProvenance).hidden
      (some "environment.variables.TOKEN") := by
    change tokenProvenance.sensitivity "environment.variables.TOKEN" ≠ .Public
    rw [token_hidden]
    decide
  exact ⟨rfl, Or.inr ⟨_, rfl, _, _, rfl, Or.inr ⟨_, rfl, _, _, rfl, Or.inr ⟨_, rfl, _, _, rfl,
    Or.inl hhidden, rfl⟩, rfl⟩, rfl⟩⟩

theorem valueAt_variables (token : String) :
    valueAt (tokenConfig token).config "environment.variables" = some (tokenTable token) := by
  have hparts : splitChar '.' "environment.variables" = ["environment", "variables"] := by
    decide +kernel
  rw [valueAt, hparts]
  rfl

/-- Asked for the table of the variables, the report shows the secret in it. -/
theorem explain_shows_a_secret :
    tokenProvenance.sensitivity "environment.variables.TOKEN" = .Secret ∧
      (∀ token, shownValue (tokenConfig token) "environment.variables" = .ok (tokenTable token)) ∧
      ¬ ∀ (fingerprint : Json → String) (loaded other : LoadedConfig) (path : String)
        (report report' : ExplainReport), DiffersInHidden loaded other →
        buildReport fingerprint loaded (some path) = .ok report →
        buildReport fingerprint other (some path) = .ok report' →
        report'.value = report.value := by
  have hpublic : tokenProvenance.sensitivity "environment.variables" = .Public := by
    decide +kernel
  refine ⟨token_hidden, fun token => ?_, fun h => ?_⟩
  · exact shownValue_ok_iff.mpr ⟨_, valueAt_variables token, (if_pos hpublic).symm⟩
  · obtain ⟨report, hreport, hshown⟩ :=
      exists_buildReport (fun _ => "") (valueAt_variables "first")
    obtain ⟨report', hreport', hshown'⟩ :=
      exists_buildReport (fun _ => "") (valueAt_variables "second")
    have heq := h _ _ _ "environment.variables" report report' (tokenConfig_differs "first" "second")
      hreport hreport'
    have hpublic' : ∀ token, (tokenConfig token).provenance.sensitivity "environment.variables" =
      .Public := fun _ => hpublic
    rw [hshown, hshown', if_pos (hpublic' _), if_pos (hpublic' _)] at heq
    simp [tokenTable] at heq

end dev_env_cli
