-- The checks of the model: the inputs (`input.rs`), the fields of an action
-- (`action.rs`) and the whole configuration (`config.rs`).
import NixosDockers.BootstrapModel.Condition

open rust_text

namespace bootstrap_model

/-! ## Inputs -/

def isBootstrapTarget (value : String) : Bool :=
  value ∈ ["identity.uid", "identity.gid", "identity.run_as_root", "identity.home"]

def parseId (kind value : String) : Except ModelError UInt32 :=
  let location := "bootstrap input " ++ kind
  if value = "" || !value.toList.all Char.isDigit then
    .error (.Invalid location (debugText value ++ " is not a valid " ++ kind))
  else
    match parseU32 value with
    | some id => .ok id
    | none =>
      .error (.Invalid location (debugText value ++ " is outside the supported " ++ kind ++ " range"))

namespace BootstrapInput

/-- Parse a value by the declared type alone. -/
def parseValue (input : BootstrapInput) (raw : String) : Except ModelError ParsedInput :=
  match input.input_type with
  | .UidPair =>
    match splitChar ':' raw with
    | [uid] => do return .UidPair (← parseId "uid" uid) none
    | uid :: gid :: rest => do
      let uid ← parseId "uid" uid
      let gid ← parseId "gid" gid
      if !rest.isEmpty then
        throw (.Invalid "bootstrap input" "uid_pair must have the form uid[:gid]")
      return .UidPair uid (some gid)
    -- `split` gives at least one part, so the empty default is never used.
    | [] => do return .UidPair (← parseId "uid" "") none
  | .Gid => do return .Gid (← parseId "gid" raw)
  | .Bool =>
    if raw ∈ ["1", "true", "TRUE", "True"] then .ok (.Bool true)
    else if raw ∈ ["0", "false", "FALSE", "False"] then .ok (.Bool false)
    else .error (.Invalid "bootstrap input" (debugText raw ++ " is not a boolean"))
  | .Path => do
    if hasText raw "$\x7b" then
      throw (.Invalid "bootstrap input" "runtime path inputs must be concrete paths")
    validateTemplate "bootstrap input" raw
    return .Path raw

/-- The type that a target asks for. -/
def expectedType (target : String) : Option InputType :=
  match target with
  | "identity.uid" => some .UidPair
  | "identity.gid" => some .Gid
  | "identity.run_as_root" => some .Bool
  | "identity.home" => some .Path
  | _ => none

def isIdType (type : InputType) : Bool := type = .UidPair || type = .Gid

def validate (input : BootstrapInput) (name : String) : Except ModelError Unit := do
  let location := "bootstrap.inputs." ++ name
  if !isBootstrapTarget input.target then
    throw (.Invalid (location ++ ".target")
      ("unsupported bootstrap target " ++ debugText input.target))
  match expectedType input.target with
  | none =>
    throw (.Invalid (location ++ ".target")
      ("unsupported bootstrap target " ++ debugText input.target))
  | some expected =>
    if input.input_type ≠ expected then
      throw (.Invalid (location ++ ".type")
        ("input target " ++ debugText input.target ++ " requires type " ++ expected.debugName))
  if isIdType input.input_type && input.namespace_.isNone then
    throw (.Invalid (location ++ ".namespace")
      "UID/GID inputs must explicitly declare namespace = \"host\" or \"container\"")
  if !isIdType input.input_type && input.namespace_.isSome then
    throw (.Invalid (location ++ ".namespace")
      "namespace is only valid for uid_pair and gid inputs")
  input.aliases.forM fun name =>
    if isEnvName name then .ok ()
    else .error (.Invalid (location ++ ".aliases")
      (debugText name ++ " is not a valid environment name"))
  match input.default with
  | some value => do discard (input.parseValue (inputValueString value))
  | none => return ()

end BootstrapInput

/-- `input_declaration`: by name, else the first input in name order with such an alias. -/
def inputDeclaration (inputs : Std.ExtTreeMap String BootstrapInput) (name : String) :
    Option BootstrapInput :=
  inputs[name]? <|> inputs.values.find? fun input => input.aliases.contains name

/-! ## The fields of an action -/

namespace Action

def isActionId (value : String) : Bool :=
  value ≠ "" && value.toList.all fun c => c.isAlphanum || c = '.' || c = '_' || c = '-'

def octalValue (s : List Char) : Nat := s.foldl (fun n c => 8 * n + (c.toNat - 48)) 0

def parseMode (value : String) : Except String Nat :=
  if value = "" || byteLen value > 4 || !value.toList.all (fun c => '0' ≤ c && c ≤ '7') then
    .error "mode must be an octal string containing at most four digits"
  else .ok (octalValue value.toList)

def validateArgvValue (location value : String) : Except ModelError Unit := do
  if value = "" || hasChar value nul || hasChar value '\n' || hasChar value '\r' then
    throw (.Invalid location "argv value must be non-empty and contain no NUL/newline")
  if hasText value "$(" || hasChar value backtick || hasChar value ';' || hasChar value '|' then
    throw (.Invalid location "shell expressions are not allowed in argv values")

def validateExecutable (location value : String) : Except ModelError Unit := do
  validateArgvValue location value
  if hasText value "$\x7b" || value.toList.any isWhitespace then
    throw (.Invalid location "executable path must be a concrete single path")
  validateTemplate location value
  if !startsWith value "/" then throw (.Invalid location "executable path must be absolute")

def validateUserName (location value : String) : Except ModelError Unit :=
  if value = "" || byteLen value > 32 ||
      !value.toList.all (fun c => c.isAlphanum || c = '_' || c = '-') then
    .error (.Invalid location ("invalid POSIX user name " ++ debugText value))
  else .ok ()

def validateOwner (location value : String) : Except ModelError Unit :=
  if value = "root" || value = "identity.target" then .ok ()
  else
    match splitOnce [':'] value.toList with
    | none => .error (.Invalid location "owner must be root, identity.target, or uid:gid")
    | some (uid, gid) =>
      match parseId "uid" (String.ofList uid), parseId "gid" (String.ofList gid) with
      | .error _, _ => .error (.Invalid location "owner uid:gid contains an invalid uid")
      | .ok _, .error _ => .error (.Invalid location "owner uid:gid contains an invalid gid")
      | .ok _, .ok _ => .ok ()

/-- The place of a field of an action in an error. -/
def fieldLocation (action : Action) (field : String) : String :=
  "bootstrap.actions." ++ action.id ++ "." ++ field

/-- Check a field that is there. -/
def checkField (value : Option String) (check : String → Except ModelError Unit) :
    Except ModelError Unit :=
  match value with
  | some value => check value
  | none => .ok ()

def requireField (action : Action) (field : String) (value : Option String) :
    Except ModelError Unit :=
  if value.isNone then
    .error (.Invalid (action.fieldLocation field) "field is required for this action kind")
  else .ok ()

/-- Check the names of a list in order, each against the ones before it. -/
def checkDistinct (valid : String → Except ModelError Unit) (repeated : String → ModelError) :
    List String → List String → Except ModelError (List String)
  | seen, [] => .ok seen
  | seen, name :: names => do
    valid name
    if seen.contains name then throw (repeated name)
    checkDistinct valid repeated (seen ++ [name]) names

/-- A name of a controller: a token with no blank and no NUL. -/
def isControllerName (value : String) : Bool :=
  value ≠ "" && !value.toList.any isWhitespace && !hasChar value nul

def validateSshFields (action : Action) : Except ModelError Unit := do
  if action.host_key_dir.isNone && action.path.isNone then requireField action "host_key_dir" none
  if action.authorized_keys_dir.isNone && action.target.isNone then
    requireField action "authorized_keys_dir" none
  if action.runtime_dir.isNone && action.link.isNone then requireField action "runtime_dir" none
  if let some types := action.host_key_types then
    let location := action.fieldLocation "host_key_types"
    if types.isEmpty then throw (.Invalid location "at least one host key type is required")
    discard <| checkDistinct
      (fun type =>
        if type ∈ ["rsa", "ed25519", "ecdsa"] then .ok ()
        else .error (.Invalid location ("unsupported SSH host key type " ++ debugText type)))
      (fun type => .Invalid location ("duplicate SSH host key type " ++ debugText type)) [] types
  if action.authorized_keys_source.isSome && action.content.isSome then
    throw (.Invalid ("bootstrap.actions." ++ action.id)
      "authorized_keys_source and content are mutually exclusive")

/-- One of the two controller lists. The names of both lists are distinct together. -/
def validateControllers (action : Action) (field : String) (seen : List String)
    (controllers : Option (List String)) : Except ModelError (List String) := do
  match controllers with
  | none => return seen
  | some names =>
    let location := action.fieldLocation field
    if names.isEmpty then
      throw (.Invalid location "controllers list may not be empty if specified")
    checkDistinct
      (fun name =>
        if isControllerName name then .ok ()
        else .error (.Invalid location ("invalid controller name " ++ debugText name)))
      (fun name => .Invalid location ("duplicate controller name " ++ debugText name)) seen names

/-- A single relative cgroup file name. -/
def isCgroupFileName (value : String) : Bool :=
  value ≠ "" && !startsWith value "/" && !hasChar value '/' && !hasText value ".." &&
    !hasChar value nul

def validateCgroupFields (action : Action) : Except ModelError Unit := do
  if let some mode := action.mount_mode <|> action.mode then
    if mode ∉ ["default", "direct", "bind_mount", "mount_shadow", "shadow"] then
      throw (.Invalid (action.fieldLocation "mount_mode")
        ("invalid mount_mode " ++ debugText mode ++ "; expected 'default' or 'bind_mount'"))
  if let some subgroup := action.subgroup then
    if subgroup = "" || hasChar subgroup '/' || hasText subgroup ".." || hasChar subgroup nul then
      throw (.Invalid (action.fieldLocation "subgroup")
        "subgroup must not be empty or contain '/', '..', or NUL")
  let seen ← validateControllers action "controllers" [] action.controllers
  discard (validateControllers action "optional_controllers" seen action.optional_controllers)
  if let some subgroupType := action.subgroup_type then
    if action.subgroup.isNone || !isControllerName subgroupType then
      throw (.Invalid (action.fieldLocation "subgroup_type")
        "subgroup_type requires a subgroup and must be a single non-empty token")
  if let some controllers := action.subgroup_controllers then
    let location := action.fieldLocation "subgroup_controllers"
    let bad := fun name =>
      ModelError.Invalid location ("invalid or duplicate subgroup controller " ++ debugText name)
    if action.subgroup.isNone || controllers.isEmpty then
      throw (.Invalid location "subgroup_controllers requires a non-empty subgroup list")
    discard <| checkDistinct
      (fun name => if isControllerName name then .ok () else .error (bad name)) bad [] controllers
  if let some values := action.subgroup_controller_values then
    let location := action.fieldLocation "subgroup_controller_values"
    if action.subgroup.isNone || values.isEmpty then
      throw (.Invalid location "subgroup_controller_values requires a non-empty subgroup")
    values.toList.forM fun entry =>
      [("target", entry.1), ("source", entry.2)].forM fun (field, value) =>
        if isCgroupFileName value then .ok ()
        else .error (.Invalid (location ++ "." ++ field)
          (field ++ " must be a single relative cgroup file name, got " ++ debugText value))

def validateKindFields (action : Action) : Except ModelError Unit :=
  match action.kind with
  | .FilesystemEnsureDir => requireField action "path" action.path
  | .FilesystemEnsureFile => do
    requireField action "path" action.path
    if action.content.isNone && action.mode.isNone then
      throw (.Invalid (action.fieldLocation "content") "ensure_file requires content or mode")
  | .FilesystemEnsureSymlink => do
    requireField action "link" action.link
    requireField action "target" action.target
  | .FilesystemChown => do
    requireField action "path" action.path
    requireField action "owner" action.owner
  | .FilesystemChmod => do
    requireField action "path" action.path
    requireField action "mode" action.mode
  | .ProcessSetUserShell => do
    requireField action "user" action.user
    requireField action "shell" action.shell
  | .ServiceSshPrepare => validateSshFields action
  | .CgroupV2Init => validateCgroupFields action
  | _ => .ok ()

/-- The fields that hold a path template, in the order of the check. -/
def pathFields (action : Action) : List (String × Option String) :=
  [("path", action.path), ("link", action.link), ("target", action.target),
    ("host_key_dir", action.host_key_dir), ("authorized_keys_dir", action.authorized_keys_dir),
    ("authorized_keys_source", action.authorized_keys_source),
    ("runtime_dir", action.runtime_dir), ("shadow_path", action.shadow_path)]

def checkMode (action : Action) (field : String) (value : Option String) :
    Except ModelError Unit :=
  checkField value fun mode =>
    match parseMode mode with
    | .ok _ => .ok ()
    | .error message => .error (.Invalid (action.fieldLocation field) message)

/-- The part of `validate_action` that reads the action alone. -/
def validateFields (action : Action) : Except ModelError Unit := do
  if let some text := action.when then discard (Condition.parse text)
  action.pathFields.forM fun (field, value) =>
    checkField value (validateTemplate (action.fieldLocation field))
  if action.kind ≠ .CgroupV2Init then checkMode action "mode" action.mode
  checkMode action "parent_mode" action.parent_mode
  checkField action.shell (validateExecutable (action.fieldLocation "shell"))
  checkField action.ssh_keygen (validateExecutable (action.fieldLocation "ssh_keygen"))
  checkField action.user fun user =>
    if user ≠ "identity.target" then validateUserName (action.fieldLocation "user") user else .ok ()
  checkField action.owner (validateOwner (action.fieldLocation "owner"))
  checkField action.content fun content =>
    if hasChar content nul then
      .error (.Invalid (action.fieldLocation "content") "content may not contain NUL")
    else .ok ()
  action.depends_on.forM fun dependency =>
    if isActionId dependency then .ok ()
    else .error (.Invalid (action.fieldLocation "depends_on")
      ("invalid dependency id " ++ debugText dependency))
  validateKindFields action

end Action
end bootstrap_model
