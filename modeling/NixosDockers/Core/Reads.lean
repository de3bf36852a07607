-- What conditions and path templates read: each evaluation as a computation
-- that asks for references, which are answered from the context.
import NixosDockers.Core.Executor
import NixosDockers.Lib.Queries
import NixosDockers.Lib.TreeMaps

open bootstrap_model rust_text queries tree_maps

namespace init_core

/-! ## Conditions by induction -/

/-- Induction over conditions, with the parts of a list all at once. -/
theorem condition_induction {P : Condition → Prop} (always : P .Always)
    (boolean : ∀ value, P (.Boolean value)) (pathExists : P .ContextPathExistsOrCreate)
    (exist : ∀ path, P (.Exists path)) (writable : ∀ path, P (.Writable path))
    (inputSet : ∀ name, P (.InputSet name)) (feature : ∀ name, P (.Feature name))
    (equal : ∀ left right, P (.Equal left right)) (notEqual : ∀ left right, P (.NotEqual left right))
    (all : ∀ parts, (∀ part ∈ parts, P part) → P (.And parts))
    (any : ∀ parts, (∀ part ∈ parts, P part) → P (.Or parts))
    (negation : ∀ part, P part → P (.Not part)) : ∀ condition, P condition
  | .Always => always
  | .Boolean value => boolean value
  | .ContextPathExistsOrCreate => pathExists
  | .Exists path => exist path
  | .Writable path => writable path
  | .InputSet name => inputSet name
  | .Feature name => feature name
  | .Equal left right => equal left right
  | .NotEqual left right => notEqual left right
  | .And parts => all parts fun part _ => condition_induction always boolean pathExists exist
      writable inputSet feature equal notEqual all any negation part
  | .Or parts => any parts fun part _ => condition_induction always boolean pathExists exist
      writable inputSet feature equal notEqual all any negation part
  | .Not part => negation part (condition_induction always boolean pathExists exist writable
      inputSet feature equal notEqual all any negation part)

/-! ## The values of references -/

theorem append_injective (start : String) : Function.Injective (start ++ ·) := by
  intro first second h
  have hlists := congrArg String.toList h
  simp only [String.toList_append, List.append_cancel_left_eq] at hlists
  exact String.toList_inj.mp hlists

/-- The values that do not come from inputs or from the environment. -/
def fixedValues (context : ConditionContext) : Std.ExtTreeMap String String :=
  insertAll ∅ [
    ("bootstrap.workspace_root", context.workspace_root),
    ("identity.uid", toString context.identity.uid),
    ("identity.gid", toString context.identity.gid),
    ("identity.user", context.identity.user),
    ("identity.home", context.identity.home),
    ("identity.target", context.identity.user),
    ("context.cwd", context.runtime.cwd),
    ("context.os", context.platform.os),
    ("context.arch", context.platform.arch)]

/-- The inputs are added to the fixed values, then the environment. -/
theorem interpolationValues_eq (context : ConditionContext) :
    interpolationValues context =
      insertAll (insertAll (fixedValues context)
        (context.inputs.toList.map fun entry => ("input." ++ entry.1, entry.2.raw)))
        (context.runtime.env.toList.map fun entry => ("env." ++ entry.1, entry.2)) := by
  unfold interpolationValues fixedValues insertAll
  rw [List.foldl_append, List.foldl_append]

theorem fixedValues_input (context : ConditionContext) (name : String) :
    (fixedValues context)["input." ++ name]? = none := by
  refine (getElem?_insertAll_of_notMem ?_ _).trans (by simp)
  simp [← String.toList_inj]

theorem fixedValues_env (context : ConditionContext) (name : String) :
    (fixedValues context)["env." ++ name]? = none := by
  refine (getElem?_insertAll_of_notMem ?_ _).trans (by simp)
  simp [← String.toList_inj]

theorem interpolationValues_env (context : ConditionContext) (name : String) :
    (interpolationValues context)["env." ++ name]? = context.runtime.env[name]? := by
  have hinputs : ("env." ++ name) ∉ (context.inputs.toList.map fun entry =>
      ("input." ++ entry.1, entry.2.raw)).map Prod.fst := by
    simp [← String.toList_inj]
  rw [interpolationValues_eq]
  refine (getElem?_insertAll_map _ (g := id) (append_injective "env.") _ name).trans ?_
  rw [getElem?_insertAll_of_notMem hinputs, fixedValues_env]
  simp

theorem interpolationValues_other {context : ConditionContext} {reference : String}
    (henv : startsWith reference "env." = false) :
    (interpolationValues context)[reference]? = (insertAll (fixedValues context)
        (context.inputs.toList.map fun entry => ("input." ++ entry.1, entry.2.raw)))[reference]? := by
  rw [interpolationValues_eq]
  refine getElem?_insertAll_of_notMem ?_ _
  intro hmem
  simp only [List.map_map, List.mem_map] at hmem
  obtain ⟨entry, -, rfl⟩ := hmem
  simp [startsWith] at henv

theorem interpolationValues_input (context : ConditionContext) (name : String) :
    (interpolationValues context)["input." ++ name]? = context.inputs[name]?.map (·.raw) := by
  have henv : startsWith ("input." ++ name) "env." = false := by
    simp [startsWith, List.isPrefixOf]
  rw [interpolationValues_other henv]
  refine (getElem?_insertAll_map _ (append_injective "input.") _ name).trans ?_
  rw [fixedValues_input]
  simp

theorem interpolationValues_fixed {context : ConditionContext} {reference : String}
    (hinput : startsWith reference "input." = false) (henv : startsWith reference "env." = false) :
    (interpolationValues context)[reference]? = (fixedValues context)[reference]? := by
  rw [interpolationValues_other henv]
  refine getElem?_insertAll_of_notMem ?_ _
  intro hmem
  simp only [List.map_map, List.mem_map] at hmem
  obtain ⟨entry, -, rfl⟩ := hmem
  simp [startsWith] at hinput

/-! ## Questions and answers -/

/-- What an evaluation asks the context for. -/
inductive Ask where
  | Reference (reference : String)
  | Interpolation (reference : String)
  | InputSet (name : String)

def ConditionContext.answers (context : ConditionContext) : Ask → Option String
  | .Reference reference => (context.reference reference).toOption
  | .Interpolation reference => (interpolationValues context)[reference]?
  | .InputSet name => context.inputs[name]?.map (·.raw)

/-- The error for a reference that has no value. -/
def referenceError (reference : String) : CoreError :=
  match stripStart reference "input.", stripStart reference "env." with
  | some _, _ =>
    ConditionContext.invalid ("runtime input " ++ debugText reference ++ " is not set")
  | none, some _ =>
    ConditionContext.invalid ("ambient environment value " ++ debugText reference ++ " is not set")
  | none, none =>
    ConditionContext.invalid ("reference " ++ debugText reference ++
      " cannot be evaluated by container-init")

theorem reference_error {context : ConditionContext} {reference : String} {error : CoreError}
    (h : context.reference reference = .error error) : error = referenceError reference := by
  unfold ConditionContext.reference at h
  split at h <;> try cases h
  cases hinput : stripStart reference "input." with
  | some name =>
    simp only [hinput, referenceError] at h ⊢
    split at h
    · cases h
    · exact (Except.error.inj h).symm
  | none =>
    cases henv : stripStart reference "env." with
    | some name =>
      simp only [hinput, henv, referenceError] at h ⊢
      split at h
      · cases h
      · exact (Except.error.inj h).symm
    | none =>
      simp only [hinput, henv, referenceError] at h ⊢
      exact (Except.error.inj h).symm

theorem reference_eq (context : ConditionContext) (reference : String) :
    context.reference reference = match context.answers (.Reference reference) with
      | some value => .ok value
      | none => .error (referenceError reference) := by
  cases hreference : context.reference reference with
  | ok value => simp [ConditionContext.answers, hreference, Except.toOption]
  | error error =>
    simp [ConditionContext.answers, hreference, Except.toOption, reference_error hreference]

/-! ## The evaluations as computations -/

def valueQuery : ConditionValue → Query Ask String (Except CoreError ComparableValue)
  | .Literal text => .Done (.ok (.String text))
  | .Boolean value => .Done (.ok (.Bool value))
  | .Reference reference => .Ask (.Reference reference) fun
    | some value => .Done (.ok (.String value))
    | none => .Done (.error (referenceError reference))

/-- The loop of `PathTemplate::render`, with what becomes of its messages. -/
def expandQuery {ε : Type} (fail : String → ε) :
    Nat → List Char → Query Ask String (Except ε (List Char))
  | 0, rest => .Done (.ok rest)
  | fuel + 1, rest =>
    match splitOnce ['$', '\x7b'] rest with
    | none => .Done (.ok rest)
    | some (literal, afterStart) =>
      match splitOnce ['\x7d'] afterStart with
      | none => .Done (.error (fail "unterminated path interpolation"))
      | some (reference, after) => .Ask (.Interpolation (String.ofList reference)) fun
        | none => .Done (.error (fail ("missing path interpolation value " ++
            debugText (String.ofList reference))))
        | some value => (expandQuery fail fuel after).andThen fun tail =>
            .Done (.ok (literal ++ value.toList ++ tail))

def failWith {ε α : Type} (fail : String → ε) : Except String α → Except ε α
  | .ok value => .ok value
  | .error message => .error (fail message)

def renderQuery {ε : Type} (fail : String → ε) (text : String) :
    Query Ask String (Except ε String) :=
  (expandQuery fail text.length text.toList).andThen fun output =>
    .Done (failWith fail ((validateRendered (String.ofList output)).map fun _ =>
      String.ofList output))

def conditionQuery (features : Std.ExtTreeSet String) (files : FileView) :
    Condition → Query Ask String (Except CoreError Bool)
  | .Always | .ContextPathExistsOrCreate => .Done (.ok true)
  | .Boolean value => .Done (.ok value)
  | .Exists path => (renderQuery ConditionContext.invalid path.text).andThen fun path =>
      .Done (.ok (files.pathExists path))
  | .Writable path => (renderQuery ConditionContext.invalid path.text).andThen fun path =>
      .Done (.ok (files.isWritable path))
  | .InputSet name => .Ask (.InputSet name) fun value => .Done (.ok value.isSome)
  | .Feature feature => .Done (.ok (features.contains feature))
  | .Equal left right => (valueQuery left).andThen fun left =>
      (valueQuery right).andThen fun right => .Done (.ok (decide (left = right)))
  | .NotEqual left right => (valueQuery left).andThen fun left =>
      (valueQuery right).andThen fun right => .Done (.ok (decide (left ≠ right)))
  | .And parts => allQuery parts
  | .Or parts => anyQuery parts
  | .Not part => (conditionQuery features files part).andThen fun value => .Done (.ok !value)
where
  allQuery : List Condition → Query Ask String (Except CoreError Bool)
    | [] => .Done (.ok true)
    | part :: parts => (conditionQuery features files part).andThen fun value =>
        if !value then .Done (.ok false) else allQuery parts
  anyQuery : List Condition → Query Ask String (Except CoreError Bool)
    | [] => .Done (.ok false)
    | part :: parts => (conditionQuery features files part).andThen fun value =>
        if value then .Done (.ok true) else anyQuery parts

/-! ## The computations are the evaluations -/

theorem run_valueQuery (context : ConditionContext) (value : ConditionValue) :
    (valueQuery value).run context.answers = context.value value := by
  cases value with
  | Literal text => rfl
  | Boolean value => rfl
  | Reference reference =>
    simp only [ConditionContext.value, valueQuery, Query.run, reference_eq]
    cases context.answers (.Reference reference) <;> rfl

theorem run_expandQuery {ε : Type} (fail : String → ε) (context : ConditionContext) (fuel : Nat)
    (rest : List Char) :
    (expandQuery fail fuel rest).run context.answers =
      failWith fail (expandFuel (interpolationValues context) fuel rest) := by
  induction fuel generalizing rest with
  | zero => rfl
  | succ fuel ih =>
    unfold expandQuery expandFuel
    rcases splitOnce ['$', '\x7b'] rest with _ | ⟨literal, afterStart⟩
    · rfl
    · dsimp only
      rcases splitOnce ['\x7d'] afterStart with _ | ⟨reference, after⟩
      · rfl
      · simp only [Query.run, ConditionContext.answers]
        cases (interpolationValues context)[String.ofList reference]? with
        | none => rfl
        | some value =>
          simp only [Query.run_andThen, ih, Query.run]
          cases expandFuel (interpolationValues context) fuel after <;> rfl

theorem run_renderQuery {ε : Type} (fail : String → ε) (context : ConditionContext)
    (text : String) :
    (renderQuery fail text).run context.answers =
      failWith fail (renderText text (interpolationValues context)) := by
  unfold renderQuery renderText
  rw [Query.run_andThen, run_expandQuery]
  cases expandFuel (interpolationValues context) text.length text.toList with
  | error message => rfl
  | ok output =>
    cases hrendered : validateRendered (String.ofList output) <;>
      simp [failWith, Query.run, hrendered, bind, Except.bind, Except.map, pure, Except.pure]

theorem run_render (context : ConditionContext) (template : PathTemplate) :
    (renderQuery ConditionContext.invalid template.text).run context.answers =
      context.render template := by
  rw [run_renderQuery]
  unfold ConditionContext.render PathTemplate.render
  cases renderText template.text (interpolationValues context) <;> rfl

theorem run_conditionQuery (context : ConditionContext) (files : FileView)
    (condition : Condition) :
    (conditionQuery context.runtime.features files condition).run context.answers =
      context.evaluate files condition := by
  induction condition using condition_induction with
  | always => simp [conditionQuery, ConditionContext.evaluate, Query.run]
  | boolean value => simp [conditionQuery, ConditionContext.evaluate, Query.run]
  | pathExists => simp [conditionQuery, ConditionContext.evaluate, Query.run]
  | exist path =>
    simp only [conditionQuery, ConditionContext.evaluate, Query.run_andThen, run_render, Query.run]
    rfl
  | writable path =>
    simp only [conditionQuery, ConditionContext.evaluate, Query.run_andThen, run_render, Query.run]
    rfl
  | inputSet name =>
    simp only [conditionQuery, ConditionContext.evaluate, Query.run, ConditionContext.answers,
      Option.isSome_map, Std.ExtTreeMap.isSome_getElem?_eq_contains]
  | feature name => simp [conditionQuery, ConditionContext.evaluate, Query.run]
  | equal left right =>
    simp only [conditionQuery, ConditionContext.evaluate, Query.run_andThen, run_valueQuery,
      Query.run]
    rfl
  | notEqual left right =>
    simp only [conditionQuery, ConditionContext.evaluate, Query.run_andThen, run_valueQuery,
      Query.run]
    rfl
  | all parts ih =>
    simp only [conditionQuery, ConditionContext.evaluate]
    induction parts with
    | nil => simp [conditionQuery.allQuery, ConditionContext.evaluate.evaluateAll, Query.run]
    | cons part parts ihParts =>
      simp only [conditionQuery.allQuery, ConditionContext.evaluate.evaluateAll, Query.run_andThen,
        ih part (by simp)]
      rw [← ihParts fun other hother => ih other (by simp [hother])]
      cases context.evaluate files part with
      | error error => rfl
      | ok value => cases value <;> rfl
  | any parts ih =>
    simp only [conditionQuery, ConditionContext.evaluate]
    induction parts with
    | nil => simp [conditionQuery.anyQuery, ConditionContext.evaluate.evaluateAny, Query.run]
    | cons part parts ihParts =>
      simp only [conditionQuery.anyQuery, ConditionContext.evaluate.evaluateAny, Query.run_andThen,
        ih part (by simp)]
      rw [← ihParts fun other hother => ih other (by simp [hother])]
      cases context.evaluate files part with
      | error error => rfl
      | ok value => cases value <;> rfl
  | negation part ih =>
    simp only [conditionQuery, ConditionContext.evaluate, Query.run_andThen, ih, Query.run]
    rfl

/-! ## The actions of a run -/

/-- The condition of an action. -/
def holdsQuery (features : Std.ExtTreeSet String) (files : FileView) (action : Action) :
    Query Ask String (Except CoreError Bool) :=
  match action.condition with
  | .error error => .Done (.error (.Model error))
  | .ok condition =>
    (conditionQuery features files condition).mapError (Run.annotateActionError · action)

theorem run_holdsQuery (run : Run) (action : Action) :
    (holdsQuery run.executor.context.features (run.host.files action.id) action).run
      run.conditionContext.answers = run.conditionHolds action := by
  unfold holdsQuery Run.conditionHolds
  cases action.condition with
  | error error => rfl
  | ok condition =>
    dsimp only [liftModel]
    rw [Query.run_mapError]
    have hevaluate := run_conditionQuery run.conditionContext (run.host.files action.id) condition
    unfold Run.conditionContext at hevaluate ⊢
    dsimp only at hevaluate ⊢
    rw [hevaluate]
    simp only [bind, Except.bind]
    split <;> simp_all [Except.mapError, pure, Except.pure, throw, throwThe,
      MonadExceptOf.throw]

/-- A field of an action that is rendered as a path. -/
def renderPathQuery (action field value : String) : Query Ask String (Except CoreError String) :=
  match PathTemplate.new value with
  | .error error => .Done (.error (.Model error))
  | .ok template =>
    renderQuery (CoreError.Invalid ("bootstrap.actions." ++ action ++ "." ++ field)) template.text

theorem run_renderPathQuery (run : Run) (action field value : String) :
    (renderPathQuery action field value).run run.conditionContext.answers =
      run.renderPath action field value := by
  unfold renderPathQuery Run.renderPath
  cases PathTemplate.new value with
  | error error => rfl
  | ok template =>
    dsimp only [liftModel]
    rw [run_renderQuery]
    unfold PathTemplate.render Run.values
    simp only [bind, Except.bind]
    cases renderText template.text (interpolationValues run.conditionContext) <;> rfl

def requiredPathQuery (action : Action) (field : String) (value : Option String) :
    Query Ask String (Except CoreError String) :=
  match value with
  | some value => renderPathQuery action.id field value
  | none => .Done (.error (.Invalid ("bootstrap.actions." ++ action.id ++ "." ++ field)
      "field is required"))

theorem run_requiredPathQuery (run : Run) (action : Action) (field : String)
    (value : Option String) :
    (requiredPathQuery action field value).run run.conditionContext.answers =
      run.requiredPath action field value := by
  cases value with
  | none => rfl
  | some value => exact run_renderPathQuery run action.id field value

/-- The call that an action makes. -/
def effectQuery (identity : ResolvedIdentity) (options : ExecutionOptions) (action : Action) :
    Query Ask String (Except RunFailure (Option Effect)) :=
  match action.kind with
  | .IdentityResolve | .HandoffExec => .Done (.ok none)
  | .IdentityMapUser => .Done (.ok (some .MapUser))
  | .IdentityEnsureHome =>
    (match action.path with
      | some path => (renderPathQuery action.id "path" path).mapError RunFailure.Core
      | none => .Done (.ok identity.home)).andThen fun home =>
        .Done (.ok (some (.EnsureDir home (action.mode <|> some "0755")
          (action.owner <|> some "identity.target"))))
  | .FilesystemEnsureDir =>
    ((requiredPathQuery action "path" action.path).mapError .Core).andThen fun path =>
      .Done (.ok (some (.EnsureDir path action.mode action.owner)))
  | .FilesystemEnsureFile =>
    ((requiredPathQuery action "path" action.path).mapError .Core).andThen fun path =>
      .Done (.ok (some (.EnsureFile path action.content action.mode action.owner)))
  | .FilesystemEnsureSymlink =>
    ((requiredPathQuery action "link" action.link).mapError .Core).andThen fun link =>
      ((requiredPathQuery action "target" action.target).mapError .Core).andThen fun target =>
        .Done (.ok (some (.EnsureSymlink link target action.parent_mode action.owner)))
  | .FilesystemChown =>
    ((requiredPathQuery action "path" action.path).mapError .Core).andThen fun path =>
      .Done ((expectField action.owner "validated owner").map fun owner =>
        some (.Chown path owner action.recursive))
  | .FilesystemChmod =>
    ((requiredPathQuery action "path" action.path).mapError .Core).andThen fun path =>
      .Done ((expectField action.mode "validated mode").map fun mode =>
        some (.Chmod path mode action.recursive))
  | .ProcessSetUserShell =>
    Query.andThen (.Done (do
      let user ← if action.user = some "identity.target" then .ok identity.user
        else expectField action.user "validated user"
      return (user, ← expectField action.shell "validated shell"))) fun named =>
        ((renderPathQuery action.id "shell" named.2).mapError .Core).andThen fun shell =>
          .Done (.ok (some (.SetUserShell named.1 shell)))
  | .ProcessDropPrivileges => .Done (.ok (some .DropPrivileges))
  | .ServiceSshPrepare =>
    if options.ssh then .Done (.ok (some .SshPrepare))
    else .Done (.error (.Core (.Action action.id none
      "SSH preparation requires an enabled service capability")))
  | .CgroupV2Init => .Done (.ok (some (.CgroupInit options.preserve_current_process_in_cgroup)))

theorem liftCore_eq_mapError {α : Type} (result : Except CoreError α) :
    liftCore result = result.mapError .Core := by
  cases result <;> rfl

theorem run_effectQuery (run : Run) (action : Action) :
    (effectQuery run.identity run.executor.options action).run run.conditionContext.answers =
      run.actionEffect action := by
  unfold effectQuery Run.actionEffect
  cases action.kind with
  | IdentityEnsureHome =>
    dsimp only
    rw [Query.run_andThen]
    cases action.path with
    | none => rfl
    | some path =>
      dsimp only
      rw [Query.run_mapError, run_renderPathQuery, liftCore_eq_mapError]
      rfl
  | FilesystemEnsureDir | FilesystemEnsureFile =>
    dsimp only
    rw [Query.run_andThen, Query.run_mapError, run_requiredPathQuery, liftCore_eq_mapError]
    rfl
  | FilesystemEnsureSymlink =>
    dsimp only
    simp only [Query.run_andThen, Query.run_mapError, run_requiredPathQuery, liftCore_eq_mapError]
    rfl
  | FilesystemChown =>
    dsimp only
    rw [Query.run_andThen, Query.run_mapError, run_requiredPathQuery, liftCore_eq_mapError]
    cases (run.requiredPath action "path" action.path) <;>
      cases expectField action.owner "validated owner" <;> rfl
  | FilesystemChmod =>
    dsimp only
    rw [Query.run_andThen, Query.run_mapError, run_requiredPathQuery, liftCore_eq_mapError]
    cases (run.requiredPath action "path" action.path) <;>
      cases expectField action.mode "validated mode" <;> rfl
  | ProcessSetUserShell =>
    dsimp only
    simp only [Query.run_andThen, Query.run_mapError, run_renderPathQuery, liftCore_eq_mapError]
    by_cases htarget : action.user = some "identity.target"
    · simp only [htarget, if_true]
      cases expectField action.shell "validated shell" <;> rfl
    · simp only [htarget, if_false]
      cases expectField action.user "validated user" with
      | error failure => rfl
      | ok user => cases expectField action.shell "validated shell" <;> rfl
  | ServiceSshPrepare =>
    dsimp only
    split <;> rfl
  | _ => rfl

/-- The path of an action in its outcome. -/
def actionPathQuery (action : Action) : Query Ask String (Except CoreError (Option String)) :=
  match if action.kind = .FilesystemEnsureSymlink then action.link else action.path with
  | none => .Done (.ok none)
  | some value => (renderPathQuery action.id "path" value).andThen fun path =>
      .Done (.ok (some path))

theorem run_actionPathQuery (run : Run) (action : Action) :
    (actionPathQuery action).run run.conditionContext.answers = run.actionPath action := by
  unfold actionPathQuery Run.actionPath
  cases (if action.kind = .FilesystemEnsureSymlink then action.link else action.path) with
  | none => rfl
  | some value =>
    simp only [Query.run_andThen, run_renderPathQuery, Option.mapM_some]
    cases run.renderPath action.id "path" value <;> rfl

theorem pathTemplate_new_text {text : String} {template : PathTemplate}
    (h : PathTemplate.new text = .ok template) : template.text = text := by
  unfold PathTemplate.new at h
  split at h
  · cases h
    rfl
  · cases h

end init_core
