-- `Plan::from_config` (`plan.rs`): the static plan of a configuration. The
-- places where the Rust code would panic end in `PlanFailure.Panic`.
import NixosDockers.BootstrapModel.Config

open rust_text

namespace bootstrap_model

/-! ## The data of a plan -/

inductive PlanEffect where
  | IdentityResolve
  | IdentityMapUser
  | IdentityEnsureHome (path mode owner : Option String)
  | FilesystemEnsureDir (path : String) (mode owner : Option String)
  | FilesystemEnsureFile (path : String) (mode owner : Option String)
  | FilesystemEnsureSymlink (link target : String) (owner : Option String)
  | FilesystemChown (path owner : String) (recursive : Bool)
  | FilesystemChmod (path mode : String) (recursive : Bool)
  | ProcessSetUserShell (user shell : String)
  | ProcessDropPrivileges
  | ServiceSshPrepare (host_key_dir authorized_keys_dir runtime_dir : String)
      (host_key_types : List String) (authorized_keys : Bool)
  | CgroupV2Init (path : Option String) (mount_mode : String) (shadow_path subgroup : Option String)
      (controllers optional_controllers : Option (List String)) (subgroup_type : Option String)
      (subgroup_controllers : Option (List String))
      (subgroup_controller_values : Option (Std.ExtTreeMap String String))
  | HandoffExec
  deriving DecidableEq

structure PlannedAction where
  id : String
  kind : ActionKind
  phase : PlanPhase
  run_as : RunAs
  depends_on : List String
  origin : Origin
  idempotency : Idempotency
  effect : PlanEffect
  deriving DecidableEq

structure Plan where
  actions : List PlannedAction
  deriving DecidableEq

inductive PlanFailure where
  | Model (error : ModelError)
  | Panic (message : String)
  deriving DecidableEq

/-- A result of the model with its error as the failure of the plan. -/
def liftModel {α : Type} : Except ModelError α → Except PlanFailure α
  | .ok value => .ok value
  | .error error => .error (.Model error)

/-- `Option::expect`. -/
def expect {α : Type} (value : Option α) (message : String) : Except PlanFailure α :=
  match value with
  | some value => .ok value
  | none => .error (.Panic message)

def PlanEffect.fromAction (action : Action) : Except PlanFailure PlanEffect :=
  match action.kind with
  | .IdentityResolve => .ok .IdentityResolve
  | .IdentityMapUser => .ok .IdentityMapUser
  | .IdentityEnsureHome => .ok (.IdentityEnsureHome action.path action.mode action.owner)
  | .FilesystemEnsureDir => do
    return .FilesystemEnsureDir (← expect action.path "validated action path") action.mode
      action.owner
  | .FilesystemEnsureFile => do
    return .FilesystemEnsureFile (← expect action.path "validated action path") action.mode
      action.owner
  | .FilesystemEnsureSymlink => do
    return .FilesystemEnsureSymlink (← expect action.link "validated action link")
      (← expect action.target "validated action target") action.owner
  | .FilesystemChown => do
    return .FilesystemChown (← expect action.path "validated action path")
      (← expect action.owner "validated action owner") action.recursive
  | .FilesystemChmod => do
    return .FilesystemChmod (← expect action.path "validated action path")
      (← expect action.mode "validated action mode") action.recursive
  | .ProcessSetUserShell => do
    return .ProcessSetUserShell (← expect action.user "validated action user")
      (← expect action.shell "validated action shell")
  | .ProcessDropPrivileges => .ok .ProcessDropPrivileges
  | .ServiceSshPrepare => do
    return .ServiceSshPrepare
      (← expect action.sshHostKeyDir "validated SSH host-key directory")
      (← expect action.sshAuthorizedKeysDir "validated SSH authorized-keys directory")
      (← expect action.sshRuntimeDir "validated SSH runtime directory")
      (if action.sshHostKeyTypes.isEmpty then ["rsa", "ed25519"] else action.sshHostKeyTypes)
      (action.content.isSome || action.authorized_keys_source.isSome)
  | .CgroupV2Init =>
    .ok (.CgroupV2Init action.path action.cgroupMountMode action.shadow_path action.subgroup
      action.controllers action.optional_controllers action.subgroup_type
      action.subgroup_controllers action.subgroup_controller_values)
  | .HandoffExec => .ok .HandoffExec

/-! ## The dependencies -/

/-- The content of a `BTreeSet<String>`, and of a vector after `sort` and `dedup`. -/
def sortedSet (names : List String) : List String := (Std.ExtTreeSet.ofList names).toList

/-- The index of each id. A later action with the same id takes the place of an earlier one. -/
def indexById (actions : List Action) : Std.ExtTreeMap String Nat :=
  Std.ExtTreeMap.ofList (actions.zipIdx.map fun entry => (entry.1.id, entry.2))

def ofKind (config : BootstrapConfig) (kind : ActionKind) : List Action :=
  config.actions.filter fun action => action.kind = kind

/-- The id of the first `identity.resolve`. -/
def identityResolveId (config : BootstrapConfig) : Option String :=
  (ofKind config .IdentityResolve).head?.map (·.id)

/-- The checks of one declared dependency. -/
def checkDependency (config : BootstrapConfig) (action : Action) (dependency : String) :
    Except ModelError Unit := do
  if dependency = action.id then throw (.DependencyCycle [action.id])
  if !(indexById config.actions).contains dependency then
    throw (.MissingDependency action.id dependency)

/-- The declared dependencies of an action, and the implicit one on `identity.resolve`. -/
def actionDependencies (config : BootstrapConfig) (action : Action) :
    Except ModelError (List String) := do
  action.depends_on.forM (checkDependency config action)
  if action.kind ≠ .IdentityResolve then
    if action.referencesIdentity && (identityResolveId config).isNone then
      throw (.MissingIdentityResolve action.id)
    return sortedSet (action.depends_on ++ (identityResolveId config).toList)
  return sortedSet action.depends_on

/-- The implicit dependency of the first `handoff.exec` on the first
`process.drop_privileges`. -/
def addDropDependency (config : BootstrapConfig) (dependencies : List (List String)) :
    List (List String) :=
  match config.actions.findIdx? (·.kind = .HandoffExec), (ofKind config .ProcessDropPrivileges).head? with
  | some handoff, some drop => dependencies.modify handoff fun names => sortedSet (names ++ [drop.id])
  | _, _ => dependencies

def checkPhase (config : BootstrapConfig) (action : Action) (dependency : String) :
    Except PlanFailure Unit := do
  let index ← expect (indexById config.actions)[dependency]? "no entry found for key"
  let other ← expect config.actions[index]? "index out of bounds"
  if other.phase.rank > action.phase.rank then
    throw (.Model (.PhaseViolation action.id dependency))

def tooMany (what : String) : ModelError :=
  .Invalid "bootstrap.actions" (what ++ " may appear at most once")

/-- The dependency lists of all actions, after every check before the sort. -/
def planDependencies (config : BootstrapConfig) : Except PlanFailure (List (List String)) := do
  liftModel config.validate
  if (ofKind config .IdentityResolve).length > 1 then throw (.Model (tooMany "identity.resolve"))
  let declared ← liftModel (config.actions.mapM (actionDependencies config))
  if (ofKind config .HandoffExec).length > 1 then throw (.Model (tooMany "handoff.exec"))
  if (ofKind config .ProcessDropPrivileges).length > 1 then
    throw (.Model (tooMany "process.drop_privileges"))
  let dependencies := addDropDependency config declared
  (config.actions.zip dependencies).forM fun (action, names) => names.forM (checkPhase config action)
  return dependencies

/-! ## The stable topological order -/

/-- The entry of an index in the ready set: phase first, then declaration order. -/
def readyKey (actions : List Action) (index : Nat) : ℕ ×ₗ ℕ :=
  toLex ((actions[index]?.map (·.phase.rank)).getD 0, index)

/-- The vector `dependents[index]`: every action that lists the id of `index`. -/
def dependentsOf (indexes : Std.ExtTreeMap String Nat) (dependencies : List (List String))
    (index : Nat) : List Nat :=
  dependencies.zipIdx.flatMap fun entry =>
    (entry.1.filter fun name => indexes[name]? = some index).map fun _ => entry.2

structure SortState where
  indegree : List Nat
  ready : Finset (ℕ ×ₗ ℕ)
  order : List Nat

/-- One turn of the inner loop: a dependent loses one open dependency. -/
def release (actions : List Action) (state : SortState) (dependent : Nat) :
    Except PlanFailure SortState :=
  match state.indegree[dependent]? with
  | none => .error (.Panic "index out of bounds")
  | some 0 => .error (.Panic "attempt to subtract with overflow")
  | some (degree + 1) =>
    .ok { state with
      indegree := state.indegree.set dependent degree
      ready := if degree = 0 then insert (readyKey actions dependent) state.ready else state.ready }

/-- The loop over the ready set. Each turn places one action, so the number of actions is
enough fuel. -/
def sortLoop (actions : List Action) (dependents : Nat → List Nat) :
    Nat → SortState → Except PlanFailure SortState
  | 0, state => .ok state
  | fuel + 1, state =>
    if h : state.ready.Nonempty then do
      let first := state.ready.min' h
      let index := (ofLex first).2
      let placed := { state with ready := state.ready.erase first, order := state.order ++ [index] }
      let next ← (dependents index).foldlM (release actions) placed
      sortLoop actions dependents fuel next
    else .ok state

def startState (actions : List Action) (dependencies : List (List String)) : SortState :=
  let indegree := dependencies.map List.length
  { indegree
    ready := ((List.range actions.length).filter fun index => indegree[index]? = some 0).toFinset.image
      (readyKey actions)
    order := [] }

def stableTopologicalOrder (actions : List Action) (dependencies : List (List String)) :
    Except PlanFailure (List Nat) := do
  let indexes := indexById actions
  if dependencies.any fun names => names.any fun name => !indexes.contains name then
    throw (.Panic "no entry found for key")
  let final ← sortLoop actions (dependentsOf indexes dependencies) actions.length
    (startState actions dependencies)
  if final.order.length ≠ actions.length then
    throw (.Model (.DependencyCycle
      ((actions.zip final.indegree).filterMap fun entry =>
        if 0 < entry.2 then some entry.1.id else none)))
  return final.order

/-! ## The plan -/

def plannedAction (config : BootstrapConfig) (dependencies : List (List String)) (index : Nat) :
    Except PlanFailure PlannedAction := do
  let action ← expect config.actions[index]? "index out of bounds"
  let names ← expect dependencies[index]? "index out of bounds"
  let effect ← PlanEffect.fromAction action
  return {
    id := action.id
    kind := action.kind
    phase := action.phase
    run_as := action.run_as
    depends_on := names
    origin := action.origin
    idempotency := action.kind.idempotency
    effect }

def Plan.fromConfig (config : BootstrapConfig) : Except PlanFailure Plan := do
  let dependencies ← planDependencies config
  let order ← stableTopologicalOrder config.actions dependencies
  return { actions := ← order.mapM (plannedAction config dependencies) }

end bootstrap_model
