-- When the environment names that the backend advertises are enough: the result
-- of a request depends on no other name exactly when no kept action reads one.
import NixosDockers.Backend.RequestPlan
import NixosDockers.Core.EnvironmentReads
import NixosDockers.Core.ExecutorRun

open bootstrap_model init_core rust_text queries tree_maps results

namespace init_backend

/-! ## What a request shows of an action -/

/-- The condition of an action and, when it holds, the fields that are rendered for it. -/
structure ActionView where
  condition : Except CoreError Bool
  effect : Option (Except RunFailure (Option Effect)) := none
  path : Option (Except CoreError (Option String)) := none

def viewOf (run : init_core.Run) (action : Action) : ActionView :=
  match run.conditionHolds action with
  | .ok true => {
      condition := .ok true
      effect := some (run.actionEffect action)
      path := some (run.actionPath action) }
  | condition => { condition }

/-- What is asked for to come to the view of an action. -/
def asksOf (run : init_core.Run) (action : Action) : List Ask :=
  let answers := run.conditionContext.answers
  (holdsQuery run.executor.context.features (run.host.files action.id) action).reads answers ++
    match run.conditionHolds action with
    | .ok true =>
      (effectQuery run.identity run.executor.options action).reads answers ++
        (actionPathQuery action).reads answers
    | _ => []

/-- The environment names that the condition of an action and its rendered fields come to. -/
def environmentReads (run : init_core.Run) (action : Action) : List String :=
  (asksOf run action).filterMap Ask.environmentName

/-- A request: everything besides the environment of the client. -/
structure RequestScene where
  host : Host
  options : ExecutionOptions
  cwd : String
  inputs : Std.ExtTreeMap String String

def RequestScene.context (scene : RequestScene) (env : Std.ExtTreeMap String String) :
    RuntimeContext where
  cwd := scene.cwd
  env
  cli_inputs := scene.inputs

def RequestScene.executor (scene : RequestScene) (config : BootstrapConfig)
    (env : Std.ExtTreeMap String String) : PlanExecutor where
  config := requestConfig config
  context := scene.context env
  options := scene.options

/-- The run of the request plan: the identity is the one that the prepare resolved. -/
def requestRun (config : BootstrapConfig) (scene : RequestScene)
    (env : Std.ExtTreeMap String String) : Except CoreError init_core.Run := do
  let identity ← resolvePrevalidated scene.host.posix (requestConfig config) (scene.context env)
  (scene.executor config env).startRun scene.host [] (some identity)

def requestOutcome (config : BootstrapConfig) (scene : RequestScene)
    (env : Std.ExtTreeMap String String) : Except CoreError (List ActionView) := do
  let run ← requestRun config scene env
  return (requestConfig config).actions.map (viewOf run)

/-- Two environments give the same values to some names. -/
def AgreeOn (names : List String) (first second : Std.ExtTreeMap String String) : Prop :=
  ∀ name ∈ names, second[name]? = first[name]?

/-! ## Inputs and identity -/

theorem findSome?_congr {α β : Type} {f g : α → Option β} {l : List α} (h : ∀ a ∈ l, f a = g a) :
    l.findSome? f = l.findSome? g := by
  induction l with
  | nil => rfl
  | cons a l ih =>
    rw [List.findSome?_cons, List.findSome?_cons, h a (by simp), ih fun b hb => h b (by simp [hb])]

section agree

variable {config : BootstrapConfig} {first second : RuntimeContext}

/-- Only the names of a runtime input are looked up in the environment. -/
theorem declaredValue_congr {name : String} {declaration : BootstrapInput}
    (hcli : second.cli_inputs = first.cli_inputs)
    (henv : declaration.runtime = true →
      ∀ key ∈ name :: declaration.aliases, second.env[key]? = first.env[key]?) :
    declaredValue name declaration second = declaredValue name declaration first := by
  unfold declaredValue
  cases hruntime : declaration.runtime with
  | false => rfl
  | true => simp only [hcli, findSome?_congr (henv hruntime)]

theorem resolveInputs_congr (hcli : second.cli_inputs = first.cli_inputs)
    (henv : AgreeOn config.runtimeInputNames first.env second.env) :
    resolveInputs config second = resolveInputs config first := by
  unfold resolveInputs
  rw [mapM_congr]
  rintro ⟨name, declaration⟩ hentry
  dsimp only [inputEntries]
  rw [declaredValue_congr hcli]
  intro hruntime key hkey
  apply henv
  unfold BootstrapConfig.runtimeInputNames
  rw [List.mem_flatMap]
  exact ⟨(name, declaration), hentry, by simpa [hruntime] using hkey⟩

theorem resolvePrevalidated_congr {posix : PosixSystem}
    (hcli : second.cli_inputs = first.cli_inputs) (hcwd : second.cwd = first.cwd)
    (hworkspace : second.workspace_observation = first.workspace_observation)
    (henv : AgreeOn config.runtimeInputNames first.env second.env) :
    resolvePrevalidated posix config second = resolvePrevalidated posix config first := by
  unfold resolvePrevalidated resolveTarget
  rw [resolveInputs_congr hcli henv, hcwd, hworkspace]

end agree

/-- The run for an environment, when the identity and the inputs are known. -/
def runOf (config : BootstrapConfig) (scene : RequestScene) (identity : ResolvedIdentity)
    (inputs : ResolvedInputs) (env : Std.ExtTreeMap String String) : init_core.Run where
  executor := scene.executor config env
  host := scene.host
  command := []
  identity
  inputs
  root_service_handoff := (scene.executor config env).isRootServiceHandoff scene.host []

theorem requestRun_eq (config : BootstrapConfig) (scene : RequestScene)
    (env : Std.ExtTreeMap String String) :
    requestRun config scene env = (do
      let identity ← resolvePrevalidated scene.host.posix (requestConfig config) (scene.context env)
      let inputs ← resolveInputs (requestConfig config) (scene.context env)
      return runOf config scene identity inputs env) := rfl

/-- Environments that agree on the runtime inputs give runs with the same identity and the same
inputs. -/
theorem requestRun_agree {config : BootstrapConfig} (scene : RequestScene)
    {first second : Std.ExtTreeMap String String}
    (henv : AgreeOn (requestConfig config).runtimeInputNames first second) :
    (∃ error, requestRun config scene first = .error error ∧
      requestRun config scene second = .error error) ∨
    ∃ identity inputs,
      requestRun config scene first = .ok (runOf config scene identity inputs first) ∧
      requestRun config scene second = .ok (runOf config scene identity inputs second) := by
  have hidentity : resolvePrevalidated scene.host.posix (requestConfig config)
      (scene.context second) = resolvePrevalidated scene.host.posix (requestConfig config)
      (scene.context first) := resolvePrevalidated_congr rfl rfl rfl henv
  have hinputs : resolveInputs (requestConfig config) (scene.context second) =
      resolveInputs (requestConfig config) (scene.context first) := resolveInputs_congr rfl henv
  rw [requestRun_eq, requestRun_eq, hidentity, hinputs]
  cases resolvePrevalidated scene.host.posix (requestConfig config) (scene.context first) with
  | error error => exact Or.inl ⟨error, rfl, rfl⟩
  | ok identity =>
    cases resolveInputs (requestConfig config) (scene.context first) with
    | error error => exact Or.inl ⟨error, rfl, rfl⟩
    | ok inputs => exact Or.inr ⟨identity, inputs, rfl, rfl⟩

/-! ## Answers from the environment -/

section answers

variable {config : BootstrapConfig} {scene : RequestScene} {identity : ResolvedIdentity}
  {inputs : ResolvedInputs}

/-- The answers of the run for an environment. -/
def answersOf (config : BootstrapConfig) (scene : RequestScene) (identity : ResolvedIdentity)
    (inputs : ResolvedInputs) (env : Std.ExtTreeMap String String) : Ask → Option String :=
  (runOf config scene identity inputs env).conditionContext.answers

theorem answersOf_env {ask : Ask} {name : String} (h : ask.environmentName = some name)
    (env : Std.ExtTreeMap String String) :
    answersOf config scene identity inputs env ask = env[name]? := by
  cases ask with
  | InputSet other => cases h
  | Interpolation reference =>
    obtain rfl := stripStart_eq_some_iff.mp h
    exact interpolationValues_env _ name
  | Reference reference =>
    have hinput : stripStart reference "input." = none := by
      rw [stripStart_eq_some_iff.mp h, stripStart_eq_none_iff]
      simp [startsWith, List.isPrefixOf]
    have henv : stripStart reference "env." = some name := h
    unfold answersOf ConditionContext.answers
    dsimp only
    unfold ConditionContext.reference
    split
    case h_9 =>
      rw [hinput, henv]
      dsimp only [runOf, init_core.Run.conditionContext, RequestScene.executor, RequestScene.context]
      cases env[name]? <;> rfl
    all_goals simp [stripStart, startsWith, List.isPrefixOf] at henv

theorem answersOf_other {ask : Ask} (h : ask.environmentName = none)
    (first second : Std.ExtTreeMap String String) :
    answersOf config scene identity inputs second ask =
      answersOf config scene identity inputs first ask := by
  cases ask with
  | InputSet other => rfl
  | Interpolation reference =>
    have henv := stripStart_eq_none_iff.mp h
    dsimp only [answersOf, ConditionContext.answers]
    rw [interpolationValues_other henv, interpolationValues_other henv]
    rfl
  | Reference reference =>
    have henv : stripStart reference "env." = none := h
    unfold answersOf ConditionContext.answers
    dsimp only
    unfold ConditionContext.reference
    split
    case h_9 =>
      rw [henv]
      cases stripStart reference "input." <;> rfl
    all_goals rfl

/-- What a computation reads is enough for its result. -/
theorem run_agree {ρ : Type} {query : Query Ask String ρ} {names : List String}
    {first second : Std.ExtTreeMap String String} (henv : AgreeOn names first second)
    (hreads : ∀ ask ∈ query.reads (answersOf config scene identity inputs first),
      ∀ name, ask.environmentName = some name → name ∈ names) :
    query.run (answersOf config scene identity inputs second) =
      query.run (answersOf config scene identity inputs first) := by
  refine (Query.run_congr fun ask hask => ?_).1
  cases hname : ask.environmentName with
  | none => exact answersOf_other hname first second
  | some name =>
    rw [answersOf_env hname, answersOf_env hname, henv name (hreads ask hask name hname)]

/-- The environment with one name taken away, or given an empty value. -/
def toggle (env : Std.ExtTreeMap String String) (name : String) : Std.ExtTreeMap String String :=
  match env[name]? with
  | some _ => env.erase name
  | none => env.insert name ""

theorem toggle_other {env : Std.ExtTreeMap String String} {name other : String}
    (h : other ≠ name) : (toggle env name)[other]? = env[other]? := by
  unfold toggle
  split
  · simp [Std.ExtTreeMap.getElem?_erase, h.symm]
  · simp [Std.ExtTreeMap.getElem?_insert, h.symm]

theorem answersOf_toggled (env : Std.ExtTreeMap String String) (name : String) :
    Query.Toggled Ask.environmentName name (answersOf config scene identity inputs env)
      (answersOf config scene identity inputs (toggle env name)) where
  same := by
    intro ask hne
    cases hname : ask.environmentName with
    | none => exact answersOf_other hname env (toggle env name)
    | some other =>
      rw [answersOf_env hname, answersOf_env hname]
      refine toggle_other ?_
      rintro rfl
      exact hne hname
  toggled := by
    cases hvalue : env[name]? with
    | some value =>
      right
      intro ask hname
      rw [answersOf_env hname, answersOf_env hname]
      simp [toggle, hvalue]
    | none =>
      left
      intro ask hname
      rw [answersOf_env hname, answersOf_env hname]
      simp [toggle, hvalue]

end answers

/-! ## Views of the actions -/

section views

variable {config : BootstrapConfig} {scene : RequestScene} {identity : ResolvedIdentity}
  {inputs : ResolvedInputs} {first second : Std.ExtTreeMap String String} {action : Action}

theorem mem_environmentReads {run : init_core.Run} {ask : Ask} {name : String} (hask : ask ∈ asksOf run action)
    (hname : ask.environmentName = some name) : name ∈ environmentReads run action :=
  List.mem_filterMap.mpr ⟨ask, hask, hname⟩

/-- Environments that agree on what an action reads give it the same view. -/
theorem viewOf_agree {names : List String} (henv : AgreeOn names first second)
    (hreads : ∀ name ∈ environmentReads (runOf config scene identity inputs first) action,
      name ∈ names) :
    viewOf (runOf config scene identity inputs second) action =
      viewOf (runOf config scene identity inputs first) action := by
  have hask : ∀ ask ∈ asksOf (runOf config scene identity inputs first) action,
      ∀ name, ask.environmentName = some name → name ∈ names :=
    fun ask hask name hname => hreads name (mem_environmentReads hask hname)
  unfold asksOf at hask
  have hcondition : (runOf config scene identity inputs second).conditionHolds action =
      (runOf config scene identity inputs first).conditionHolds action := by
    rw [← run_holdsQuery, ← run_holdsQuery]
    exact run_agree henv fun ask h => hask ask (List.mem_append_left _ h)
  unfold viewOf
  rw [hcondition]
  split
  · rename_i htrue
    rw [htrue] at hask
    have heffect : (runOf config scene identity inputs second).actionEffect action =
        (runOf config scene identity inputs first).actionEffect action := by
      rw [← run_effectQuery, ← run_effectQuery]
      exact run_agree henv fun ask h =>
        hask ask (List.mem_append_right _ (List.mem_append_left _ h))
    have hpath : (runOf config scene identity inputs second).actionPath action =
        (runOf config scene identity inputs first).actionPath action := by
      rw [← run_actionPathQuery, ← run_actionPathQuery]
      exact run_agree henv fun ask h =>
        hask ask (List.mem_append_right _ (List.mem_append_right _ h))
    rw [heffect, hpath]
  · rfl

theorem viewOf_condition (run : init_core.Run) (action : Action) :
    (viewOf run action).condition = run.conditionHolds action := by
  unfold viewOf
  split
  · rename_i htrue
    rw [htrue]
  · rfl

/-- A name that an action reads shows in its view. -/
theorem viewOf_toggle_ne {name : String}
    (hname : name ∈ environmentReads (runOf config scene identity inputs first) action) :
    viewOf (runOf config scene identity inputs (toggle first name)) action ≠
      viewOf (runOf config scene identity inputs first) action := by
  intro hview
  obtain ⟨ask, hask, henv⟩ := List.mem_filterMap.mp hname
  have htoggled : Query.Toggled Ask.environmentName name
      (answersOf config scene identity inputs first)
      (answersOf config scene identity inputs (toggle first name)) := answersOf_toggled first name
  have hcondition := congrArg ActionView.condition hview
  rw [viewOf_condition, viewOf_condition] at hcondition
  rcases List.mem_append.mp hask with hask | hask
  · rw [← run_holdsQuery, ← run_holdsQuery] at hcondition
    exact (holdsQuery_strict _ _ _).run_ne_of_toggled htoggled hask henv hcondition
  · split at hask
    · rename_i htrue
      unfold viewOf at hview
      rw [hcondition, htrue] at hview
      obtain ⟨heffect, hpath⟩ : (runOf config scene identity inputs (toggle first name)).actionEffect
          action = (runOf config scene identity inputs first).actionEffect action ∧
          (runOf config scene identity inputs (toggle first name)).actionPath action =
            (runOf config scene identity inputs first).actionPath action := by
        simpa using hview
      rcases List.mem_append.mp hask with hask | hask
      · rw [← run_effectQuery, ← run_effectQuery] at heffect
        exact (effectQuery_strict _ _ _).run_ne_of_toggled htoggled hask henv heffect
      · rw [← run_actionPathQuery, ← run_actionPathQuery] at hpath
        exact (actionPathQuery_strict _).run_ne_of_toggled htoggled hask henv hpath
    · cases hask

end views

/-! ## The execution of the request plan -/

/-- `execute_prevalidated_with_identity` for the request plan, as a commit calls it. -/
def executeRequest (config : BootstrapConfig) (scene : RequestScene) (plan : Plan)
    (env : Std.ExtTreeMap String String) : Except CoreError PlanExecutor.RunResult := do
  let run ← requestRun config scene env
  return PlanExecutor.finishRun run (run.loop plan.actions {})

section execution

variable {config : BootstrapConfig} {scene : RequestScene} {identity : ResolvedIdentity}
  {inputs : ResolvedInputs} {first second : Std.ExtTreeMap String String}

theorem finish_agree {action : Action}
    (hpath : (runOf config scene identity inputs second).actionPath action =
      (runOf config scene identity inputs first).actionPath action)
    (state : RunState) (planned : PlannedAction) (status : ActionStatus) (message : String)
    (error : Option CoreError) :
    (runOf config scene identity inputs second).finish state planned action status message error =
      (runOf config scene identity inputs first).finish state planned action status message
        error := by
  unfold init_core.Run.finish
  rw [hpath]

theorem attempt_agree {action : Action}
    (heffect : (runOf config scene identity inputs second).actionEffect action =
      (runOf config scene identity inputs first).actionEffect action)
    (hpath : (runOf config scene identity inputs second).actionPath action =
      (runOf config scene identity inputs first).actionPath action)
    (state : RunState) (planned : PlannedAction) :
    (runOf config scene identity inputs second).attempt state planned action =
      (runOf config scene identity inputs first).attempt state planned action := by
  have hexecute : (runOf config scene identity inputs second).executeAction action =
      (runOf config scene identity inputs first).executeAction action := by
    unfold init_core.Run.executeAction
    rw [heffect]
    rfl
  unfold init_core.Run.attempt
  rw [hexecute, heffect]
  dsimp only
  split
  · exact finish_agree hpath _ _ _ _ _
  · rfl
  · split
    · rfl
    · exact finish_agree hpath _ _ _ _ _

theorem step_agree (hids : ((requestConfig config).actions.map Action.id).Nodup)
    (hviews : ∀ action ∈ (requestConfig config).actions,
      viewOf (runOf config scene identity inputs second) action =
        viewOf (runOf config scene identity inputs first) action)
    (state : RunState) (planned : PlannedAction) :
    (runOf config scene identity inputs second).step state planned =
      (runOf config scene identity inputs first).step state planned := by
  have hactions : (runOf config scene identity inputs second).actions =
      (runOf config scene identity inputs first).actions := rfl
  unfold init_core.Run.step
  rw [hactions]
  cases hfound : (runOf config scene identity inputs first).actions[planned.id]? with
  | none => rfl
  | some action =>
    obtain ⟨hmem, -⟩ := (actions_getElem? hids).mp hfound
    have hview := hviews action hmem
    have hcondition := congrArg ActionView.condition hview
    rw [viewOf_condition, viewOf_condition] at hcondition
    dsimp only
    rw [hcondition]
    split
    · rfl
    · split
      · rfl
      · split
        · rfl
        · rfl
        · rename_i htrue
          unfold viewOf at hview
          rw [hcondition, htrue] at hview
          obtain ⟨heffect, hpath⟩ : (runOf config scene identity inputs second).actionEffect
              action = (runOf config scene identity inputs first).actionEffect action ∧
              (runOf config scene identity inputs second).actionPath action =
                (runOf config scene identity inputs first).actionPath action := by
            simpa using hview
          have hskip : (runOf config scene identity inputs second).privilegedSkip action =
              (runOf config scene identity inputs first).privilegedSkip action := rfl
          have hrunAs : (runOf config scene identity inputs second).checkRunAs action planned =
              (runOf config scene identity inputs first).checkRunAs action planned := rfl
          rw [hskip, hrunAs]
          split
          · exact finish_agree hpath _ _ _ _ _
          · split
            · rfl
            · exact attempt_agree heffect hpath state planned

theorem loop_agree (hids : ((requestConfig config).actions.map Action.id).Nodup)
    (hviews : ∀ action ∈ (requestConfig config).actions,
      viewOf (runOf config scene identity inputs second) action =
        viewOf (runOf config scene identity inputs first) action)
    (planned : List PlannedAction) (state : RunState) :
    (runOf config scene identity inputs second).loop planned state =
      (runOf config scene identity inputs first).loop planned state := by
  induction planned generalizing state with
  | nil => rfl
  | cons action planned ih =>
    unfold init_core.Run.loop
    rw [step_agree hids hviews]
    split
    · exact ih _
    · rfl

end execution

/-! ## Enough names -/

/-- The kept actions read only names that are advertised. -/
def ReadsOnly (config : BootstrapConfig) (scene : RequestScene) (names : List String) : Prop :=
  ∀ env run, requestRun config scene env = .ok run →
    ∀ action ∈ (requestConfig config).actions, ∀ name ∈ environmentReads run action, name ∈ names

theorem runtimeInputs_advertised {config : BootstrapConfig} {allowed : AllowedClientValues}
    (h : allowedClientValues config = .ok allowed) :
    ∀ name ∈ config.runtimeInputNames, name ∈ allowed.environment_names := by
  simp only [allowedClientValues, bind_ok_iff, pure_ok_iff] at h
  obtain ⟨conditions, -, rfl⟩ := h
  intro name hname
  exact List.mem_append_left _ hname

theorem toggle_agreeOn {names : List String} {name : String} (h : name ∉ names)
    (env : Std.ExtTreeMap String String) : AgreeOn names env (toggle env name) := by
  intro other hother
  refine toggle_other ?_
  rintro rfl
  exact h hother

section enough

variable {config : BootstrapConfig} {scene : RequestScene} {names : List String}
  (hnames : ∀ name ∈ (requestConfig config).runtimeInputNames, name ∈ names)
include hnames

/-- With names that are enough, runs for environments that agree on them show the same. -/
theorem views_agree (hreads : ReadsOnly config scene names)
    {first second : Std.ExtTreeMap String String} (henv : AgreeOn names first second) :
    (∃ error, requestRun config scene first = .error error ∧
      requestRun config scene second = .error error) ∨
    ∃ identity inputs,
      requestRun config scene first = .ok (runOf config scene identity inputs first) ∧
      requestRun config scene second = .ok (runOf config scene identity inputs second) ∧
      ∀ action ∈ (requestConfig config).actions,
        viewOf (runOf config scene identity inputs second) action =
          viewOf (runOf config scene identity inputs first) action := by
  rcases requestRun_agree scene fun name hname => henv name (hnames name hname) with
    herror | ⟨identity, inputs, hfirst, hsecond⟩
  · exact Or.inl herror
  · refine Or.inr ⟨identity, inputs, hfirst, hsecond, fun action haction => ?_⟩
    exact viewOf_agree henv (hreads first _ hfirst action haction)

theorem readsOnly_of_outcome (houtcome : ∀ first second, AgreeOn names first second →
      requestOutcome config scene second = requestOutcome config scene first) :
    ReadsOnly config scene names := by
  intro env run hrun action haction name hname
  by_contra hmissing
  have henv := toggle_agreeOn hmissing env
  have hsame := houtcome env (toggle env name) henv
  unfold requestOutcome at hsame
  rcases requestRun_agree scene fun name hname => henv name (hnames name hname) with
    ⟨error, hfirst, -⟩ | ⟨identity, inputs, hfirst, hsecond⟩
  · rw [hfirst] at hrun
    cases hrun
  · rw [hfirst] at hrun
    obtain rfl := Except.ok.inj hrun
    rw [hfirst, hsecond, ok_bind, ok_bind] at hsame
    have hviews := List.map_inj_left.mp (Except.ok.inj hsame) action haction
    exact viewOf_toggle_ne hname hviews

end enough

/-- A request plan that sets the shell of a user under a condition. -/
def shellConfig (condition : String) : BootstrapConfig where
  workspace_root := "/work"
  identity := { default_user := some "dev", default_uid := some 1000, default_gid := some 1000 }
  handoff := { runtime := "/bin/runtime" }
  actions := [
    { id := "resolve", kind := .IdentityResolve, run_as := .Root, origin := imageOrigin },
    { id := "shell", kind := .ProcessSetUserShell, user := some "dev", shell := some "/bin/sh",
      when := some condition, run_as := .Root, origin := imageOrigin }]

def shellScene : RequestScene where
  host := quietHost fun _ => false
  options := {}
  cwd := "/work"
  inputs := ∅

end init_backend
