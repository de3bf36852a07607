-- Which layer decides a variable of a materialization: the process, the configuration, the
-- conditional variables, and then every enabled provider in its order.
import NixosDockers.DevEnvCore.Materializer
import NixosDockers.Lib.Utf8

open rust_text results dev_env_model layers
open dev_env (RuntimeContext MaterializationMetadata)
open dev_env_provider (EnvironmentDelta World evaluate)

namespace dev_env_core

/-! ## The layers -/

/-- What the conditional variables write, by whether their conditions hold. -/
def conditionalWrite (config : EnvironmentConfig) (holds : String → Bool) (name : String) :
    Write String :=
  match config.conditional_variables[name]? with
  | some conditional => if holds name then .set conditional.value else .unset
  | none => .keep

/-- The entries of a provider that ran, and how its PATH is taken. -/
structure Answer where
  provider : String
  path_mode : PathMode
  entries : List ShellEnvEntry
  deriving DecidableEq, Repr

namespace Answer

def writes (answer : Answer) (name : String) : List (Write String) :=
  entryWrites answer.entries name

/-- PATH after the provider. -/
def path (answer : Answer) (current : Option String) : Option String :=
  providerPath answer.path_mode (last (answer.writes "PATH")) current

end Answer

namespace Materializer

variable {σ ε : Type}

/-- Whether the condition of a variable holds in an environment. -/
def holds (materializer : Materializer σ ε) (session : Session) (state : σ)
    (environment : MaterializedEnv) (conditional : ConditionalEnvironmentVariable) : Bool :=
  match Condition.parse conditional.when.toList with
  | .error _ => false
  | .ok condition =>
    evaluate materializer.provider_supervisor.platform
      (materializer.providerContext session environment true state).toProviderContext condition

/-- Whether the condition of a name holds, in the environment that the variables before it
left. -/
def verdict (materializer : Materializer σ ε) (session : Session) (state : σ) :
    List (String × ConditionalEnvironmentVariable) → MaterializedEnv → String → Bool
  | [], _, _ => false
  | (other, conditional) :: entries, environment, name =>
    if other = name then materializer.holds session state environment conditional
    else
      match materializer.conditionalVariable session state environment (other, conditional) with
      | .error _ => false
      | .ok next => materializer.verdict session state entries next name

/-- The answers of the enabled providers, each to the environment that those before it left. -/
inductive Answers (materializer : Materializer σ ε) (session : Session) :
    List String → MaterializedEnv → World σ → List Answer → Prop
  | nil {environment : MaterializedEnv} {world : World σ} :
    Answers materializer session [] environment world []
  | disabled {id : String} {ids : List String} {environment : MaterializedEnv} {world : World σ}
    {answers : List Answer} (hdisabled : providerIsEnabled materializer.config.features id = false)
    (hrest : Answers materializer session ids environment world answers) :
    Answers materializer session (id :: ids) environment world answers
  | ran {id : String} {ids : List String} {environment left : MaterializedEnv}
    {world next : World σ} {answers : List Answer} {config : dev_env_provider.ProviderConfig}
    {result : dev_env_provider.ProviderRunResult} {answer : Answer}
    (henabled : providerIsEnabled materializer.config.features id = true)
    (hconfig : materializer.config.provider_configs[id]? = some config)
    (hrun : materializer.provider_supervisor.runWithIdentity id config
      (materializer.providerContext session environment true world.state) (some session.identity)
      world = (.ok result, next))
    (hanswer : answer = {
      provider := id
      path_mode := (config.shellenv.map fun shellenv => shellenv.path_mode).getD .Merge
      entries := materializer.provider_supervisor.parsedEntries id config
        (materializer.providerContext session environment true world.state)
        (some session.identity) world })
    (hleft : applyProviderDelta environment (EnvironmentDelta.fromEntries answer.entries) id
      result.sensitivity answer.path_mode = .ok left)
    (hrest : Answers materializer session ids left next answers) :
    Answers materializer session (id :: ids) environment world (answer :: answers)

variable {materializer : Materializer σ ε} {session : Session} {state : σ}
  {environment final : MaterializedEnv} {world : World σ} {name : String}

/-! ## The conditional variables -/

theorem conditionalVariable_local :
    Local (materializer.conditionalVariable session state) Prod.fst
      fun environment name => valueAt environment.values name := by
  intro environment entry next h name hname
  unfold conditionalVariable at h
  split at h
  · exact absurd h nofun
  · dsimp only at h
    split at h
    · rw [← Except.ok.inj h]
      exact valueAt_insert_of_ne hname
    · rw [← Except.ok.inj h]
      simp [valueAt, Std.ExtTreeMap.getElem?_erase, Ne.symm hname]

theorem conditionalVariable_value {conditional : ConditionalEnvironmentVariable}
    (h : materializer.conditionalVariable session state environment (name, conditional) =
      .ok final) :
    valueAt final.values name =
      if materializer.holds session state environment conditional then some conditional.value
      else none := by
  unfold conditionalVariable at h
  unfold holds
  dsimp only at h
  rcases hcondition : Condition.parse conditional.«when».toList with _ | condition
  · simp only [hcondition] at h
    exact absurd h nofun
  · simp only [hcondition] at h ⊢
    split at h
    · rename_i hholds
      rw [if_pos hholds, ← Except.ok.inj h, valueAt_insert_self]
    · rename_i hfails
      rw [if_neg hfails, ← Except.ok.inj h]
      simp [valueAt]

theorem verdict_eq {before after : List (String × ConditionalEnvironmentVariable)}
    {conditional : ConditionalEnvironmentVariable} {middle : MaterializedEnv}
    (hname : name ∉ before.map Prod.fst)
    (h : before.foldlM (materializer.conditionalVariable session state) environment =
      .ok middle) :
    materializer.verdict session state (before ++ (name, conditional) :: after) environment name =
      materializer.holds session state middle conditional := by
  induction before generalizing environment with
  | nil =>
    obtain rfl := Except.ok.inj h
    rw [List.nil_append, verdict, if_pos rfl]
  | cons entry before ih =>
    obtain ⟨other, otherVariable⟩ := entry
    rw [List.map_cons, List.mem_cons, not_or] at hname
    rw [List.foldlM_cons] at h
    obtain ⟨next, hnext, hrest⟩ := bind_ok_iff.mp h
    rw [List.cons_append, verdict, if_neg (Ne.symm hname.1), hnext]
    exact ih hname.2 hrest

/-- The value of a name after the conditional variables. -/
theorem valueAt_conditional
    (h : materializer.config.environment.conditional_variables.toList.foldlM
      (materializer.conditionalVariable session state) environment = .ok final)
    (name : String) :
    valueAt final.values name =
      (conditionalWrite materializer.config.environment
        (materializer.verdict session state
          materializer.config.environment.conditional_variables.toList environment) name).on
        (valueAt environment.values name) := by
  unfold conditionalWrite
  cases hname : materializer.config.environment.conditional_variables[name]? with
  | none => exact conditionalVariable_local.of_notMem h (tree_maps.notMem_toList hname)
  | some conditional =>
    obtain ⟨before, after, hsplit, hbefore, hafter⟩ := tree_maps.toList_at hname
    rw [hsplit] at h ⊢
    obtain ⟨middle, next, hmiddle, hstep, -, hfinal⟩ :=
      conditionalVariable_local.of_mem h hbefore hafter
    dsimp only at hfinal ⊢
    rw [hfinal, verdict_eq hbefore hmiddle, conditionalVariable_value hstep]
    split <;> rfl

/-! ## The providers -/

/-- The value of a name after answers: PATH answer by answer, another name by the last write. -/
def answered (answers : List Answer) (name : String) (current : Option String) : Option String :=
  if name = "PATH" then answers.foldl (fun current answer => answer.path current) current
  else (last (answers.flatMap fun answer => answer.writes name)).on current

theorem answered_cons {answer : Answer} {answers : List Answer} {current : Option String} :
    answered (answer :: answers) name current =
      answered answers name
        (if name = "PATH" then answer.path current
        else (last (answer.writes name)).on current) := by
  unfold answered
  by_cases hname : name = "PATH"
  · rw [if_pos hname, if_pos hname, if_pos hname, List.foldl_cons]
  · rw [if_neg hname, if_neg hname, if_neg hname, List.flatMap_cons, on_append]

/-- The value of a name after one provider. -/
theorem valueAt_answer {answer : Answer} {sensitivity : Sensitivity}
    (h : applyProviderDelta environment (EnvironmentDelta.fromEntries answer.entries)
      answer.provider sensitivity answer.path_mode = .ok final) (name : String) :
    valueAt final.values name =
      if name = "PATH" then answer.path (valueAt environment.values "PATH")
      else (last (answer.writes name)).on (valueAt environment.values name) := by
  rw [valueAt_applyProviderDelta (proper_fromEntries answer.entries) h, deltaWrite_fromEntries,
    deltaWrite_fromEntries]
  rfl

/-- The loop over the providers asks the enabled ones in turn, and leaves at every name what their
answers write. -/
theorem answers_of_runProviders {ids : List String}
    {given diagnostics : List MaterializationDiagnostic}
    (h : (materializer.runProviders session ids environment given world).1 =
      .ok (final, diagnostics)) :
    ∃ answers, Answers materializer session ids environment world answers ∧
      answers.map Answer.provider =
        ids.filter (providerIsEnabled materializer.config.features) ∧
      ∀ name, valueAt final.values name =
        answered answers name (valueAt environment.values name) := by
  induction ids generalizing environment given world with
  | nil =>
    obtain ⟨rfl, -⟩ := Prod.mk.inj (Except.ok.inj h)
    refine ⟨[], .nil, rfl, fun name => ?_⟩
    unfold answered
    split <;> rfl
  | cons id ids ih =>
    unfold runProviders at h
    cases hconfig : materializer.config.provider_configs[id]? with
    | none =>
      rw [hconfig] at h
      exact absurd h nofun
    | some config =>
      rw [hconfig] at h
      dsimp only at h
      by_cases henabled : providerIsEnabled materializer.config.features id = true
      · rw [if_pos henabled] at h
        rcases hrun : materializer.provider_supervisor.runWithIdentity id config
          (materializer.providerContext session environment true world.state)
          (some session.identity) world with ⟨_ | result, next⟩
        · rw [hrun] at h
          exact absurd h nofun
        · rw [hrun] at h
          dsimp only at h
          cases happly : applyResult environment given id config result with
          | error failure =>
            rw [happly] at h
            exact absurd h nofun
          | ok left =>
            obtain ⟨left, collected⟩ := left
            rw [happly] at h
            obtain ⟨answers, hanswers, hnames, hvalues⟩ := ih h
            obtain ⟨applied, hleft, hcollected⟩ := bind_ok_iff.mp happly
            obtain ⟨rfl, -⟩ := Prod.mk.inj (Except.ok.inj hcollected)
            have henvironment := dev_env_provider.ProviderRunner.environment_of_run
              (congrArg Prod.fst hrun)
            rw [henvironment, mapError_ok_iff] at hleft
            obtain ⟨answer, hanswer⟩ : ∃ answer : Answer, answer = {
                provider := id
                path_mode := (config.shellenv.map fun shellenv => shellenv.path_mode).getD .Merge
                entries := materializer.provider_supervisor.parsedEntries id config
                  (materializer.providerContext session environment true world.state)
                  (some session.identity) world } := ⟨_, rfl⟩
            have happlied : applyProviderDelta environment
                (EnvironmentDelta.fromEntries answer.entries) answer.provider result.sensitivity
                answer.path_mode = .ok applied := by
              rw [hanswer]
              exact hleft
            have hname : answer.provider = id := by rw [hanswer]
            refine ⟨answer :: answers, .ran henabled hconfig hrun hanswer (hname ▸ happlied)
              hanswers, ?_, ?_⟩
            · rw [List.map_cons, hnames, List.filter_cons_of_pos henabled, hname]
            · intro name
              rw [hvalues, answered_cons, valueAt_answer happlied]
              split
              · rename_i hpath
                rw [hpath]
              · rfl
      · rw [if_neg henabled] at h
        obtain ⟨answers, hanswers, hnames, hvalues⟩ := ih h
        refine ⟨answers, .disabled (Bool.eq_false_of_not_eq_true henabled) hanswers, ?_, hvalues⟩
        rw [hnames, List.filter_cons_of_neg henabled]

/-! ## The whole materialization -/

theorem start_ok {context : RuntimeContext} {metadata : MaterializationMetadata}
    (h : materializer.start context metadata state = .ok (session, environment)) :
    session.context = context ∧ session.identity = metadata.identity ∧
      ∃ first, initial materializer.config.toResolvedConfig context.process_environment =
          .ok first ∧
        materializer.config.environment.conditional_variables.toList.foldlM
          (materializer.conditionalVariable session state) first = .ok environment := by
  obtain ⟨⟨⟩, -, h⟩ := bind_ok_iff.mp h
  obtain ⟨⟨⟩, -, h⟩ := bind_ok_iff.mp h
  obtain ⟨shell, -, h⟩ := bind_ok_iff.mp h
  obtain ⟨config, -, h⟩ := bind_ok_iff.mp h
  obtain ⟨fingerprint, -, h⟩ := bind_ok_iff.mp h
  obtain ⟨first, hfirst, h⟩ := bind_ok_iff.mp h
  obtain ⟨conditioned, hconditioned, h⟩ := bind_ok_iff.mp h
  obtain ⟨rfl, rfl⟩ := Prod.mk.inj (Except.ok.inj h)
  exact ⟨rfl, rfl, first, hfirst, hconditioned⟩

/-- Every variable of a materialization but PATH has the value of the last layer that writes it:
the process, the configuration, the conditional variables, and the entries of the enabled
providers in their order; it is there only if that layer sets it. PATH goes through the same
layers, with the edits of the configuration after its variables, and every provider puts its
entries in front, or its PATH in the place of the others. -/
theorem last_writer_decides {context : RuntimeContext} {metadata : MaterializationMetadata}
    {materialization : Materialization} {diagnostics : List MaterializationDiagnostic}
    (h : (materializer.materializeWithMetadata context metadata world).1 =
      .ok (materialization, diagnostics)) :
    ∃ session first conditioned order answers,
      initial materializer.config.toResolvedConfig context.process_environment = .ok first ∧
      materializer.start context metadata world.state = .ok (session, conditioned) ∧
      materializer.config.providerOrder = some (.ok order) ∧
      Answers materializer session order conditioned world answers ∧
      answers.map Answer.provider =
        order.filter (providerIsEnabled materializer.config.features) ∧
      let config := materializer.config.environment
      let holds := materializer.verdict session world.state config.conditional_variables.toList
        first
      (∀ name, name ≠ "PATH" → valueAt materialization.environment.values name =
        (last ([ambientWrite config context.process_environment name,
          configuredWrite config context.process_environment name,
          conditionalWrite config holds name] ++
            answers.flatMap fun answer => answer.writes name)).on none) ∧
      valueAt materialization.environment.values "PATH" =
        answers.foldl (fun current answer => answer.path current)
          ((conditionalWrite config holds "PATH").on (editedPath config.path
            ((last [ambientWrite config context.process_environment "PATH",
              configuredWrite config context.process_environment "PATH"]).on none))) := by
  unfold materializeWithMetadata at h
  cases hstart : materializer.start context metadata world.state with
  | error error =>
    rw [hstart] at h
    exact absurd h nofun
  | ok started =>
    obtain ⟨session, conditioned⟩ := started
    rw [hstart] at h
    dsimp only at h
    cases horder : materializer.config.providerOrder.get (providerOrder_isSome _) with
    | error error =>
      rw [horder] at h
      exact absurd h nofun
    | ok order =>
      rw [horder] at h
      dsimp only at h
      rcases hrun : materializer.runProviders session order conditioned [] world with
        ⟨_ | ⟨final, collected⟩, left⟩
      · rw [hrun] at h
        exact absurd h nofun
      · rw [hrun] at h
        dsimp only at h
        have hfinal : materialization.environment = final := by
          split at h
          · exact absurd h nofun
          · rw [← (Prod.mk.inj (Except.ok.inj h)).1]
        obtain ⟨-, -, first, hfirst, hconditional⟩ := start_ok hstart
        obtain ⟨answers, hanswers, hnames, hvalues⟩ :=
          answers_of_runProviders (congrArg Prod.fst hrun)
        refine ⟨session, first, conditioned, order, answers, hfirst, rfl,
          (Option.some_get _).symm.trans (congrArg some horder), hanswers, hnames, ?_, ?_⟩
        · intro name hname
          rw [hfinal, hvalues, answered, if_neg hname, valueAt_conditional hconditional,
            valueAt_initial hfirst]
          dsimp only
          rw [if_neg hname, on_append]
          simp only [← foldl_on, List.foldl_cons, List.foldl_nil]
        · rw [hfinal, hvalues, answered, if_pos rfl, valueAt_conditional hconditional,
            valueAt_initial hfirst]
          rfl

end Materializer

/-- A provider that sets a variable and PATH. -/
def toolProvider : dev_env_provider.ProviderConfig where
  executable := "tool"
  shellenv := some { argv := ["env"], format := .Shell }

/-- A configuration with one variable of each kind, and the provider. -/
def toolConfig : FullConfig :=
  { pathConfig ⟨["/opt/bin"], [], []⟩ with
    environment :=
      { inherit_process := true
        configured_value_precedence := .Ambient
        «variables» := (∅ : Std.ExtTreeMap String String).insert "EDITOR" "vi"
        conditional_variables := (∅ : Std.ExtTreeMap String ConditionalEnvironmentVariable).insert
          "DEBUG" ⟨"1", "workspace.writable"⟩
        path := ⟨["/opt/bin"], [], []⟩ }
    providers := (∅ : Std.ExtTreeMap String dev_env_model.ProviderConfig).insert "tool"
      toolProvider.summary
    provider_configs := (∅ : Std.ExtTreeMap String dev_env_provider.ProviderConfig).insert "tool"
      toolProvider
    summaries := fun id => by
      rw [Std.ExtTreeMap.getElem?_insert, Std.ExtTreeMap.getElem?_insert]
      split <;> simp }

/-- Every command succeeds, and prints the assignments. -/
def toolRunner : dev_env_provider.ProviderRunner Unit Unit :=
  { dev_env_provider.failingRunner with
    execute_with_identity := fun _ _ _ =>
      (.ok ⟨some 0, false, asBytes "export TOOL=on\nexport PATH=/tool/bin\n", []⟩, ()) }

def toolMaterializer : Materializer Unit Unit where
  config := toolConfig
  provider_supervisor := toolRunner
  validate _ := .ok ()
  to_value_tree _ := .ok (.Table [])
  config_fingerprint _ := .ok (Vector.replicate 32 1)
  directory_is_writable _ _ := true

/-- A shell in the workspace, with an editor and a PATH of its own. -/
def editorContext : RuntimeContext where
  workspace := "/workspace"
  cwd := "/workspace/app"
  shell := none
  process_environment := ((∅ : Std.ExtTreeMap String String).insert "EDITOR" "emacs").insert
    "PATH" "/bin"

/-- The editor of the process is kept, and the PATH of the provider comes first. -/
theorem tool_path_comes_first :
    ∃ result, (toolMaterializer.materializeWithMetadata editorContext
        ⟨"request", .INITIAL, dev_env_provider.workerUser⟩ { state := () }).1 = .ok result ∧
      valueAt result.1.environment.values "EDITOR" = some "emacs" ∧
      valueAt result.1.environment.values "TOOL" = some "on" ∧
      valueAt result.1.environment.values "PATH" = some "/tool/bin:/opt/bin:/bin" ∧
      valueAt result.1.environment.values "PAGER" = none := by
  have hok : (toolMaterializer.materializeWithMetadata editorContext
      ⟨"request", .INITIAL, dev_env_provider.workerUser⟩ { state := () }).1.isOk = true := by
    decide +kernel
  obtain ⟨⟨materialization, diagnostics⟩, h⟩ := exists_of_isOk hok
  obtain ⟨session, first, conditioned, order, answers, -, hstart, horder, hanswers, -, hname,
    hpath⟩ := Materializer.last_writer_decides h
  have htool : toolMaterializer.config.providerOrder = some (.ok ["tool"]) := by rfl
  obtain rfl : ["tool"] = order := Except.ok.inj (Option.some.inj (htool.symm.trans horder))
  have hentries : (toolMaterializer.start editorContext
      ⟨"request", .INITIAL, dev_env_provider.workerUser⟩ ()).toOption.map (fun started =>
        toolRunner.parsedEntries "tool" toolProvider
          (toolMaterializer.providerContext started.1 started.2 true ()) (some started.1.identity)
          { state := () }) = some [.Set "TOOL" "on", .Set "PATH" "/tool/bin"] := by
    decide +kernel
  rw [hstart] at hentries
  have hparsed : toolMaterializer.provider_supervisor.parsedEntries "tool" toolProvider
      (toolMaterializer.providerContext session conditioned true ()) (some session.identity)
      { state := () } = [.Set "TOOL" "on", .Set "PATH" "/tool/bin"] :=
    Option.some.inj hentries
  obtain ⟨answer, rfl, hanswer⟩ : ∃ answer, answers = [answer] ∧ answer = {
      provider := "tool"
      path_mode := .Merge
      entries := [.Set "TOOL" "on", .Set "PATH" "/tool/bin"] } := by
    cases hanswers with
    | disabled hdisabled => exact absurd hdisabled (by decide)
    | ran _ hconfig _ hanswer _ hrest =>
      cases hrest
      have hprovider : toolMaterializer.config.provider_configs["tool"]? = some toolProvider := rfl
      obtain rfl := Option.some.inj (hprovider.symm.trans hconfig)
      rw [hparsed] at hanswer
      exact ⟨_, rfl, hanswer⟩
  subst hanswer
  exact ⟨_, h, (hname "EDITOR" (by decide)).trans rfl, (hname "TOOL" (by decide)).trans rfl,
    hpath.trans rfl, (hname "PAGER" (by decide)).trans rfl⟩

end dev_env_core
