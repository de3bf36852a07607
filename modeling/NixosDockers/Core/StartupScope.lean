-- Startup actions do not depend on the request: the check of
-- `validate_runtime_invariance` covers everything that conditions and path
-- templates can read.
import NixosDockers.Core.Reads
import NixosDockers.Core.ExecutorRun

open bootstrap_model rust_text queries tree_maps results

namespace init_core

/-! ## What does not come from a request -/

/-- A reference that no request has a say in. -/
structure RequestFree (runtimeInputs : List String) (reference : String) : Prop where
  not_identity : startsWith reference "identity." = false
  not_env : startsWith reference "env." = false
  not_input : ∀ name, stripStart reference "input." = some name → name ∉ runtimeInputs

def Ask.RequestFree (runtimeInputs : List String) : Ask → Prop
  | .Reference reference | .Interpolation reference =>
    init_core.RequestFree runtimeInputs reference
  | .InputSet name => name ∉ runtimeInputs

/-- Two contexts that differ only in what a request brings. -/
structure SameButRequest (runtimeInputs : List String) (first second : ConditionContext) :
    Prop where
  platform : second.platform = first.platform
  workspace_root : second.workspace_root = first.workspace_root
  cwd : second.runtime.cwd = first.runtime.cwd
  features : second.runtime.features = first.runtime.features
  inputs : ∀ name, name ∉ runtimeInputs → second.inputs[name]? = first.inputs[name]?

section same

variable {runtimeInputs : List String} {first second : ConditionContext}

theorem fixedValues_same (hsame : SameButRequest runtimeInputs first second) {reference : String}
    (hidentity : startsWith reference "identity." = false) :
    (fixedValues second)[reference]? = (fixedValues first)[reference]? := by
  have hne : ∀ rest, "identity." ++ rest ≠ reference := by
    rintro rest rfl
    simp [startsWith] at hidentity
  have huid : "identity.uid" ≠ reference := hne "uid"
  have hgid : "identity.gid" ≠ reference := hne "gid"
  have huser : "identity.user" ≠ reference := hne "user"
  have hhome : "identity.home" ≠ reference := hne "home"
  have htarget : "identity.target" ≠ reference := hne "target"
  simp only [fixedValues, insertAll, List.foldl_cons, List.foldl_nil,
    Std.ExtTreeMap.getElem?_insert, Std.compare_eq_iff_eq, huid, hgid, huser, hhome, htarget,
    if_false, hsame.platform, hsame.workspace_root, hsame.cwd]

theorem interpolation_same (hsame : SameButRequest runtimeInputs first second)
    {reference : String} (hfree : RequestFree runtimeInputs reference) :
    (interpolationValues second)[reference]? = (interpolationValues first)[reference]? := by
  cases hinput : stripStart reference "input." with
  | some name =>
    obtain rfl := stripStart_eq_some_iff.mp hinput
    rw [interpolationValues_input, interpolationValues_input,
      hsame.inputs name (hfree.not_input name hinput)]
  | none =>
    rw [stripStart_eq_none_iff] at hinput
    rw [interpolationValues_fixed hinput hfree.not_env,
      interpolationValues_fixed hinput hfree.not_env, fixedValues_same hsame hfree.not_identity]

theorem reference_same (hsame : SameButRequest runtimeInputs first second)
    {reference : String} (hfree : RequestFree runtimeInputs reference) :
    second.reference reference = first.reference reference := by
  have henv := stripStart_eq_none_iff.mpr hfree.not_env
  have hidentity := hfree.not_identity
  unfold ConditionContext.reference
  split
  case h_6 => rw [hsame.cwd]
  case h_7 => rw [hsame.platform]
  case h_8 => rw [hsame.platform]
  case h_9 =>
    rw [henv]
    cases hinput : stripStart reference "input." with
    | none => rfl
    | some name =>
      dsimp only
      rw [hsame.inputs name (hfree.not_input name hinput)]
  all_goals simp [startsWith, List.isPrefixOf] at hidentity

theorem answers_same (hsame : SameButRequest runtimeInputs first second) {ask : Ask}
    (hfree : ask.RequestFree runtimeInputs) : second.answers ask = first.answers ask := by
  cases ask with
  | Reference reference => exact congrArg Except.toOption (reference_same hsame hfree)
  | Interpolation reference => exact interpolation_same hsame hfree
  | InputSet name =>
    simp only [ConditionContext.answers, hsame.inputs name hfree]

end same

/-! ## What the check of the configuration covers -/

theorem valueQuery_requestFree {runtimeInputs : List String} {value : ConditionValue}
    (h : valueRuntimeReference runtimeInputs value = none) :
    (valueQuery value).AsksIn (Ask.RequestFree runtimeInputs) := by
  cases value with
  | Literal text => trivial
  | Boolean value => trivial
  | Reference reference =>
    have hfree : RequestFree runtimeInputs reference := by
      dsimp only [valueRuntimeReference] at h
      split_ifs at h with hidentity henv
      · split at h
        · split_ifs at h
        · cases h
      · refine ⟨by simpa using hidentity, by simpa using henv, ?_⟩
        intro name hname hcontains
        rw [hname] at h
        simp [hcontains] at h
    refine ⟨hfree, ?_⟩
    rintro (_ | value) <;> trivial

theorem expandQuery_requestFree {ε : Type} {fail : String → ε} {runtimeInputs : List String}
    {fuel : Nat} {rest : List Char} (h : runtimeReferenceFuel runtimeInputs fuel rest = none) :
    (expandQuery fail fuel rest).AsksIn (Ask.RequestFree runtimeInputs) := by
  induction fuel generalizing rest with
  | zero => trivial
  | succ fuel ih =>
    unfold expandQuery
    unfold runtimeReferenceFuel at h
    rcases hstart : splitOnce ['$', '\x7b'] rest with _ | ⟨literal, afterStart⟩
    · trivial
    · rw [hstart] at h
      dsimp only at h ⊢
      rcases hend : splitOnce ['\x7d'] afterStart with _ | ⟨text, after⟩
      · trivial
      · rw [hend] at h
        dsimp only at h ⊢
        have hfree : RequestFree runtimeInputs (String.ofList text) ∧
            runtimeReferenceFuel runtimeInputs fuel after = none := by
          cases hinput : stripStart (String.ofList text) "input." with
          | some name =>
            rw [hinput] at h
            dsimp only at h
            split_ifs at h with hcontains
            obtain hname := stripStart_eq_some_iff.mp hinput
            refine ⟨⟨?_, ?_, ?_⟩, h⟩
            · rw [hname]
              simp [startsWith, List.isPrefixOf]
            · rw [hname]
              simp [startsWith, List.isPrefixOf]
            · intro other hother
              obtain rfl := Option.some.inj (hinput.symm.trans hother)
              simpa using hcontains
          | none =>
            rw [hinput] at h
            dsimp only at h
            split_ifs at h with henv hidentity
            exact ⟨⟨by simpa using hidentity, by simpa using henv, by simp [hinput]⟩, h⟩
        refine ⟨hfree.1, ?_⟩
        rintro (_ | value)
        · trivial
        · exact Query.asksIn_andThen (ih hfree.2) fun _ => trivial

theorem renderQuery_requestFree {ε : Type} {fail : String → ε} {runtimeInputs : List String}
    {text : String} (h : runtimeReference text runtimeInputs = none) :
    (renderQuery fail text).AsksIn (Ask.RequestFree runtimeInputs) := by
  unfold runtimeReference at h
  split_ifs at h
  exact Query.asksIn_andThen (expandQuery_requestFree h) fun _ => trivial

theorem conditionQuery_requestFree {features : Std.ExtTreeSet String} {files : FileView}
    {runtimeInputs : List String} {condition : Condition}
    (h : conditionRuntimeReference runtimeInputs condition = none) :
    (conditionQuery features files condition).AsksIn (Ask.RequestFree runtimeInputs) := by
  induction condition using condition_induction with
  | always => simp [conditionQuery, Query.AsksIn]
  | boolean value => simp [conditionQuery, Query.AsksIn]
  | pathExists => simp [conditionQuery, Query.AsksIn]
  | feature name => simp [conditionQuery, Query.AsksIn]
  | exist path =>
    rw [conditionRuntimeReference] at h
    rw [conditionQuery]
    exact Query.asksIn_andThen (renderQuery_requestFree h) fun _ => trivial
  | writable path =>
    rw [conditionRuntimeReference] at h
    rw [conditionQuery]
    exact Query.asksIn_andThen (renderQuery_requestFree h) fun _ => trivial
  | inputSet name =>
    rw [conditionRuntimeReference] at h
    rw [conditionQuery]
    split_ifs at h with hcontains
    exact ⟨by simpa [Ask.RequestFree] using hcontains, fun _ => trivial⟩
  | equal left right =>
    rw [conditionRuntimeReference, Option.orElse_eq_none] at h
    rw [conditionQuery]
    refine Query.asksIn_andThen (valueQuery_requestFree h.1) fun _ => ?_
    exact Query.asksIn_andThen (valueQuery_requestFree h.2) fun _ => trivial
  | notEqual left right =>
    rw [conditionRuntimeReference, Option.orElse_eq_none] at h
    rw [conditionQuery]
    refine Query.asksIn_andThen (valueQuery_requestFree h.1) fun _ => ?_
    exact Query.asksIn_andThen (valueQuery_requestFree h.2) fun _ => trivial
  | all parts ih =>
    rw [conditionRuntimeReference] at h
    rw [conditionQuery]
    induction parts with
    | nil => simp [conditionQuery.allQuery, Query.AsksIn]
    | cons part parts ihParts =>
      rw [conditionRuntimeReference.partsRuntimeReference, Option.orElse_eq_none] at h
      rw [conditionQuery.allQuery]
      refine Query.asksIn_andThen (ih part (by simp) h.1) fun value => ?_
      have hrest := ihParts (fun other hother => ih other (by simp [hother])) h.2
      split_ifs
      · trivial
      · exact hrest
  | any parts ih =>
    rw [conditionRuntimeReference] at h
    rw [conditionQuery]
    induction parts with
    | nil => simp [conditionQuery.anyQuery, Query.AsksIn]
    | cons part parts ihParts =>
      rw [conditionRuntimeReference.partsRuntimeReference, Option.orElse_eq_none] at h
      rw [conditionQuery.anyQuery]
      refine Query.asksIn_andThen (ih part (by simp) h.1) fun value => ?_
      have hrest := ihParts (fun other hother => ih other (by simp [hother])) h.2
      split_ifs
      · trivial
      · exact hrest
  | negation part ih =>
    rw [conditionRuntimeReference] at h
    rw [conditionQuery]
    exact Query.asksIn_andThen (ih h) fun _ => trivial

/-- A checked configuration has no startup action that reads request data. -/
theorem validate_invariance {config : BootstrapConfig} (h : config.validate = .ok ())
    {action : Action} (haction : action ∈ config.actions)
    (hstartup : BootstrapConfig.rerunsPerRequest action = false) :
    (∀ field value, (field, some value) ∈ BootstrapConfig.invarianceFields action →
      runtimeReference value config.runtimeInputNames = none) ∧
    ∀ condition, action.condition = .ok condition →
      conditionRuntimeReference config.runtimeInputNames condition = none := by
  unfold BootstrapConfig.validate at h
  simp only [throw_bind, ite_error_ok_iff, bind_ok_iff] at h
  obtain ⟨_, _, _, _, _, _, _, _, _, _, _, _, _, _, _, _, _, hinvariance⟩ := h
  unfold BootstrapConfig.validateRuntimeInvariance at hinvariance
  have hchecked := forM_ok_iff.mp hinvariance action haction
  simp only [BootstrapConfig.validateActionInvariance, hstartup, Bool.false_eq_true, if_false,
    bind_ok_iff] at hchecked
  obtain ⟨_, hfields, hwhen⟩ := hchecked
  constructor
  · intro field value hfield
    have hvalue := forM_ok_iff.mp hfields (field, some value) hfield
    dsimp only [Action.checkField] at hvalue
    split at hvalue
    · assumption
    · cases hvalue
  · intro condition hcondition
    unfold Action.condition at hcondition
    unfold Action.checkField at hwhen
    split at hcondition
    · rename_i text htext
      rw [htext] at hwhen
      simp only [hcondition, ok_bind] at hwhen
      split at hwhen
      · assumption
      · cases hwhen
    · cases hcondition
      rfl

/-! ## Runs -/

/-- Two runs of a configuration with the same files, working directory, features and inputs that
no request sets. Identities, runtime inputs and environments are left open. -/
structure SameStartup (config : BootstrapConfig) (first second : Run) : Prop where
  first_config : first.executor.config = config
  second_config : second.executor.config = config
  platform : second.host.platform = first.host.platform
  files : second.host.files = first.host.files
  cwd : second.executor.context.cwd = first.executor.context.cwd
  features : second.executor.context.features = first.executor.context.features
  inputs : ∀ name, name ∉ config.runtimeInputNames → second.inputs[name]? = first.inputs[name]?

theorem SameStartup.conditionContext {config : BootstrapConfig} {first second : Run}
    (h : SameStartup config first second) :
    SameButRequest config.runtimeInputNames first.conditionContext second.conditionContext where
  platform := h.platform
  workspace_root := by
    unfold Run.conditionContext
    rw [h.first_config, h.second_config]
  cwd := h.cwd
  features := h.features
  inputs := h.inputs

/-- The same answers to everything that is asked give the same result. -/
theorem run_same {ρ : Type} {runtimeInputs : List String} {first second : ConditionContext}
    (hsame : SameButRequest runtimeInputs first second) {query : Query Ask String ρ}
    (hquery : query.AsksIn (Ask.RequestFree runtimeInputs)) :
    query.run second.answers = query.run first.answers :=
  (Query.run_congr fun _ hask => answers_same hsame (Query.mem_of_asksIn hquery hask)).1

theorem holdsQuery_requestFree {features : Std.ExtTreeSet String} {files : FileView}
    {runtimeInputs : List String} {action : Action}
    (h : ∀ condition, action.condition = .ok condition →
      conditionRuntimeReference runtimeInputs condition = none) :
    (holdsQuery features files action).AsksIn (Ask.RequestFree runtimeInputs) := by
  unfold holdsQuery
  split
  · trivial
  · rename_i condition hcondition
    exact Query.asksIn_bind (conditionQuery_requestFree (h condition hcondition)) fun _ => trivial

theorem renderPathQuery_requestFree {runtimeInputs : List String} {action field value : String}
    (h : runtimeReference value runtimeInputs = none) :
    (renderPathQuery action field value).AsksIn (Ask.RequestFree runtimeInputs) := by
  unfold renderPathQuery
  split
  · trivial
  · rename_i template hnew
    rw [pathTemplate_new_text hnew]
    exact renderQuery_requestFree h

/-- A startup action of a checked configuration has the same condition and the same rendered
fields in every two runs that differ only in the request: its identity, its inputs and its
environment. -/
theorem startup_action_ignores_request {config : BootstrapConfig} {action : Action}
    {first second : Run} (hvalid : config.validate = .ok ()) (haction : action ∈ config.actions)
    (hstartup : BootstrapConfig.rerunsPerRequest action = false)
    (hsame : SameStartup config first second) :
    second.conditionHolds action = first.conditionHolds action ∧
      ∀ field value, (field, some value) ∈ BootstrapConfig.invarianceFields action →
        ∀ label, second.renderPath action.id label value =
          first.renderPath action.id label value := by
  obtain ⟨hfields, hcondition⟩ := validate_invariance hvalid haction hstartup
  constructor
  · rw [← run_holdsQuery, ← run_holdsQuery, hsame.features, hsame.files]
    exact run_same hsame.conditionContext (holdsQuery_requestFree hcondition)
  · intro field value hfield label
    rw [← run_renderPathQuery, ← run_renderPathQuery]
    exact run_same hsame.conditionContext
      (renderPathQuery_requestFree (hfields field value hfield))

/-- A startup action beside an input that requests may set. -/
def stateConfig : BootstrapConfig where
  workspace_root := "/work"
  identity := { home_input := some "DEV_HOME" }
  handoff := { runtime := "/bin/runtime" }
  inputs := Std.ExtTreeMap.insert ∅ "DEV_HOME"
    { target := "identity.home", input_type := .Path, runtime := true, aliases := ["HOME"] }
  actions := [
    { id := "state", kind := .FilesystemEnsureDir, path := some "$\x7bcontext.cwd\x7d/state",
      when := some "exists(/work) && context.os == 'linux'", origin := imageOrigin }]

/-- A run of the configuration for a user and an environment. -/
def stateRun (uid : UInt32) (user home : String) (env : Std.ExtTreeMap String String) : Run where
  executor := { config := stateConfig, context := { cwd := "/work", env } }
  host := quietHost fun _ => false
  command := []
  identity := {
    uid
    gid := uid
    user
    home
    run_as_root := false
    uid_source := .ProfileDefault
    gid_source := .ProfileDefault
    workspace := .NotMounted }
  inputs := Std.ExtTreeMap.insert ∅ "DEV_HOME" { name := "DEV_HOME", raw := home, parsed := .Path home }
  root_service_handoff := false

theorem state_action_ignores_user :
    ∃ action ∈ stateConfig.actions,
      (stateRun 1001 "ann" "/work/ann" ∅).conditionHolds action =
        (stateRun 1000 "bob" "/work/bob" (Std.ExtTreeMap.insert ∅ "LANG" "C")).conditionHolds
          action ∧
      ∀ field value, (field, some value) ∈ BootstrapConfig.invarianceFields action →
        ∀ label, (stateRun 1001 "ann" "/work/ann" ∅).renderPath action.id label value =
          (stateRun 1000 "bob" "/work/bob" (Std.ExtTreeMap.insert ∅ "LANG" "C")).renderPath
            action.id label value := by
  have hsame : SameStartup stateConfig
      (stateRun 1000 "bob" "/work/bob" (Std.ExtTreeMap.insert ∅ "LANG" "C"))
      (stateRun 1001 "ann" "/work/ann" ∅) := by
    refine ⟨rfl, rfl, rfl, rfl, rfl, rfl, ?_⟩
    intro name hname
    have hnames : stateConfig.runtimeInputNames = ["DEV_HOME", "HOME"] := by decide +kernel
    rw [hnames, List.mem_cons, not_or] at hname
    simp [stateRun, Ne.symm hname.1]
  exact ⟨_, List.mem_cons_self,
    startup_action_ignores_request (by decide +kernel) List.mem_cons_self rfl hsame⟩

end init_core
