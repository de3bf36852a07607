-- The account files (`container-init-posix`: `accounts.rs`, and the lookup of
-- `credentials.rs`): how `passwd` and `group` are reconciled with an identity.
import NixosDockers.Posix.NamespaceMap

open rust_text results

namespace init_posix

/-! ## Names, fields and numbers -/

/-- The identity that the account files shall have. -/
structure PosixIdentity where
  uid : UInt32
  gid : UInt32
  user : String
  home : String

structure ActionChange where
  message : String
  deriving DecidableEq, Repr

structure PosixUser where
  name : String
  uid : UInt32
  gid : UInt32
  home : String
  shell : String
  deriving DecidableEq, Repr

def isUserName (user : String) : Bool :=
  user ≠ "" && byteLen user ≤ 32 && user.toList.all fun c => c.isAlphanum || c = '_' || c = '-'

def validateUserName (user : String) : Except PosixError Unit :=
  if isUserName user then .ok () else .error (.Invalid ("invalid POSIX user name " ++ debugText user))

def isAccountField (value : String) : Bool :=
  !value.toList.any fun c => c = ':' || c = nul || c = '\n' || c = '\r'

def validateAccountField (field value : String) : Except PosixError Unit :=
  if isAccountField value then .ok ()
  else .error (.Invalid ("POSIX account " ++ field ++ " contains a prohibited character"))

/-- `str::parse::<u32>`. -/
def number (value : String) : Option UInt32 := (parseUnsigned UInt32.size value).map UInt32.ofNat

/-- `u32::to_string`. -/
def decimal (n : UInt32) : String := toString n.toNat

def requireNumber (value message : String) : Except PosixError UInt32 :=
  match number value with
  | some n => .ok n
  | none => .error (.Invalid message)

/-! ## Entries of `passwd` -/

/-- The seven fields of an entry. -/
structure PasswdEntry where
  name : String
  password : String
  uid : String
  gid : String
  gecos : String
  home : String
  shell : String
  deriving DecidableEq

def PasswdEntry.fields (entry : PasswdEntry) : List String :=
  [entry.name, entry.password, entry.uid, entry.gid, entry.gecos, entry.home, entry.shell]

def PasswdEntry.ofFields : List String → Option PasswdEntry
  | [name, password, uid, gid, gecos, home, shell] =>
    some ⟨name, password, uid, gid, gecos, home, shell⟩
  | _ => none

def joinFields (fields : List String) : String := String.intercalate ":" fields

def PasswdEntry.line (entry : PasswdEntry) : String := joinFields entry.fields

def validatePasswdFields (fields : List String) (line_number : ℕ) : Except PosixError PasswdEntry :=
  match PasswdEntry.ofFields fields with
  | none => .error (.Invalid ("malformed passwd entry on line " ++ toString line_number ++
      ": expected seven fields"))
  | some entry => do
    validateUserName entry.name
    let _ ← requireNumber entry.uid ("malformed passwd uid on line " ++ toString line_number)
    let _ ← requireNumber entry.gid ("malformed passwd gid on line " ++ toString line_number)
    validateAccountField "home" entry.home
    validateAccountField "shell" entry.shell
    return entry

/-- A field that gets a value, and whether it had another one. -/
def setField (field value : String) (changed : Bool) : String × Bool :=
  if field ≠ value then (value, true) else (field, changed)

/-- The three fields that `reconcile_passwd` sets. -/
def PasswdEntry.set (entry : PasswdEntry) (identity : PosixIdentity) (changed : Bool) :
    PasswdEntry × Bool :=
  let (uid, changed) := setField entry.uid (decimal identity.uid) changed
  let (gid, changed) := setField entry.gid (decimal identity.gid) changed
  let (home, changed) := setField entry.home identity.home changed
  ({ entry with uid, gid, home }, changed)

/-- The variables of the loops over the lines. -/
structure Rewriting where
  lines : List String
  found : Bool
  changed : Bool
  deriving DecidableEq

def Rewriting.push (state : Rewriting) (line : String) : Rewriting :=
  { state with lines := state.lines ++ [line] }

def Rewriting.start : Rewriting := ⟨[], false, false⟩

/-- One turn of the loop of `reconcile_passwd`. -/
def passwdLine (identity : PosixIdentity) (state : Rewriting) (line : String) (line_number : ℕ) :
    Except PosixError Rewriting :=
  if isSkipped line then .ok (state.push line)
  else do
    let entry ← validatePasswdFields (splitChar ':' line) (line_number + 1)
    let entry_uid ← requireNumber entry.uid
      ("malformed passwd UID on line " ++ toString (line_number + 1))
    if entry_uid = identity.uid ∧ entry.name ≠ identity.user then
      .error (.Invalid ("target UID " ++ decimal identity.uid ++
        " is already occupied by passwd user " ++ debugText entry.name))
    else if entry.name = identity.user then
      if state.found then
        .error (.Invalid ("passwd contains duplicate user " ++ debugText identity.user))
      else
        let (entry, changed) := entry.set identity state.changed
        .ok ⟨state.lines ++ [entry.line], true, changed⟩
    else .ok (state.push entry.line)

def PosixIdentity.passwdEntry (identity : PosixIdentity) : PasswdEntry :=
  ⟨identity.user, "x", decimal identity.uid, decimal identity.gid, "", identity.home, "/bin/sh"⟩

structure PasswdReconciliation where
  contents : String
  changed : Bool
  found_target : Bool

/-- `Accounts::reconcile_passwd`. -/
def reconcilePasswd (contents : String) (identity : PosixIdentity) :
    Except PosixError PasswdReconciliation := do
  let state ← eachLine (passwdLine identity) (lines contents) 0 Rewriting.start
  let state := if state.found then state
    else ⟨state.lines ++ [identity.passwdEntry.line], true, true⟩
  return ⟨joinLines state.lines (endsWith contents "\n"), state.changed, state.found⟩

/-! ## Entries of `group` -/

structure GroupEntry where
  name : String
  password : String
  gid : String
  members : String
  deriving DecidableEq

def GroupEntry.fields (entry : GroupEntry) : List String :=
  [entry.name, entry.password, entry.gid, entry.members]

def GroupEntry.ofFields : List String → Option GroupEntry
  | [name, password, gid, members] => some ⟨name, password, gid, members⟩
  | _ => none

def GroupEntry.line (entry : GroupEntry) : String := joinFields entry.fields

/-- The members of a field that are not empty. -/
def memberList (field : String) : List String := (splitChar ',' field).filter (· ≠ "")

def validateGroupFields (fields : List String) (line_number : ℕ) : Except PosixError GroupEntry :=
  match GroupEntry.ofFields fields with
  | none => .error (.Invalid ("malformed group entry on line " ++ toString line_number ++
      ": expected four fields"))
  | some entry => do
    validateUserName entry.name
    let _ ← requireNumber entry.gid ("malformed group GID on line " ++ toString line_number)
    validateAccountField "group members" entry.members
    (memberList entry.members).forM validateUserName
    return entry

/-- The variables of the loop over the members. -/
structure Members where
  reconciled : List String
  target_seen : Bool
  changed : Bool

def memberStep (user : String) (state : Members) (member : String) : Except PosixError Members := do
  validateUserName member
  if member = user then
    if state.target_seen then return { state with changed := true }
    else return ⟨state.reconciled ++ [member], true, state.changed⟩
  else return { state with reconciled := state.reconciled ++ [member] }

/-- The members of the group of the identity. -/
def reconcileMembers (user field : String) (changed : Bool) : Except PosixError (String × Bool) := do
  let state ← (memberList field).foldlM (memberStep user) ⟨[], false, changed⟩
  let state := if state.target_seen then state
    else { state with reconciled := state.reconciled ++ [user], changed := true }
  return setField field (String.intercalate "," state.reconciled) state.changed

/-- One turn of the loop of `reconcile_group`; `found` stands for `matched`. -/
def groupLine (identity : PosixIdentity) (state : Rewriting) (line : String) (line_number : ℕ) :
    Except PosixError Rewriting :=
  if isSkipped line then .ok (state.push line)
  else do
    let entry ← validateGroupFields (splitChar ':' line) (line_number + 1)
    let gid ← requireNumber entry.gid ("malformed group GID on line " ++ toString (line_number + 1))
    if gid = identity.gid then
      let (members, changed) ← reconcileMembers identity.user entry.members state.changed
      return ⟨state.lines ++ [{ entry with members }.line], true, changed⟩
    else return state.push entry.line

def PosixIdentity.groupEntry (identity : PosixIdentity) : GroupEntry :=
  ⟨identity.user, "x", decimal identity.gid, ""⟩

/-- `Accounts::reconcile_group`: the output, and whether it was changed. -/
def reconcileGroup (contents : String) (identity : PosixIdentity) :
    Except PosixError (String × Bool) := do
  let state ← eachLine (groupLine identity) (lines contents) 0 Rewriting.start
  let state := if state.found then state
    else { state with lines := state.lines ++ [identity.groupEntry.line], changed := true }
  return (joinLines state.lines (endsWith contents "\n" || state.changed), state.changed)

/-! ## The login shell -/

/-- One turn of the loop of `set_user_shell`. -/
def shellLine (user shell : String) (state : Rewriting) (line : String) (_line_number : ℕ) :
    Except PosixError Rewriting :=
  if isSkipped line then .ok (state.push line)
  else
    let fields := splitChar ':' line
    if fields.head? = some user then
      match fields[6]? with
      | none => .error (.Invalid "target passwd entry has fewer than seven fields")
      | some current =>
        let fields := if current ≠ shell then fields.set 6 shell else fields
        .ok ⟨state.lines ++ [joinFields fields], true, state.changed || current ≠ shell⟩
    else .ok (state.push line)

/-- `Accounts::set_user_shell`, with what is in `passwd` and what is written to it, if it is. -/
def setUserShell (user shell contents : String) : Except PosixError (ActionChange × Option String) := do
  validateUserName user
  if user = "root" then return (⟨"root login shell left unchanged"⟩, none)
  validateAccountField "shell" shell
  if !isAbsolute shell then throw (.Invalid "login shell path must be absolute")
  let state ← eachLine (shellLine user shell) (lines contents) 0 Rewriting.start
  if !state.found then throw (.Invalid ("POSIX user " ++ debugText user ++ " does not exist"))
  if state.changed then
    return (⟨"updated POSIX login shell"⟩, some (joinLines state.lines (endsWith contents "\n")))
  else return (⟨"POSIX login shell already set"⟩, none)

/-! ## Lookup -/

def InvalidData (message : String) : PosixError := .Io message

/-- `Credentials::lookup_file_user` over the lines of a file. -/
def lookupLines (predicate : List String → Bool) : List String → ℕ → Except PosixError (Option PosixUser)
  | [], _ => .ok none
  | line :: rest, line_number =>
    if isSkipped line then lookupLines predicate rest (line_number + 1)
    else
      match PasswdEntry.ofFields (splitChar ':' line) with
      | none => .error (InvalidData ("malformed passwd entry on line " ++ toString (line_number + 1)))
      | some entry =>
        if entry.name = "" then
          .error (InvalidData ("passwd entry on line " ++ toString (line_number + 1) ++
            " has an empty user name"))
        else do
          let uid ← (number entry.uid).elim
            (.error (InvalidData ("malformed passwd UID on line " ++ toString (line_number + 1)))) .ok
          let gid ← (number entry.gid).elim
            (.error (InvalidData ("malformed passwd GID on line " ++ toString (line_number + 1)))) .ok
          if predicate entry.fields then return some ⟨entry.name, uid, gid, entry.home, entry.shell⟩
          else lookupLines predicate rest (line_number + 1)

def byName (name : String) (fields : List String) : Bool := fields.head? = some name

def byUid (uid : UInt32) (fields : List String) : Bool := fields[2]?.bind number = some uid

/-- A user by the name, in the contents of `passwd`. -/
def lookupFileUserByName (contents name : String) : Except PosixError (Option PosixUser) :=
  lookupLines (byName name) (lines contents) 0

def lookupFileUserByUid (contents : String) (uid : UInt32) : Except PosixError (Option PosixUser) :=
  lookupLines (byUid uid) (lines contents) 0

/-! ## Mapping a user -/

/-- The account files; `none` is a file that is not there. -/
structure AccountFiles where
  passwd : Option String
  group : Option String

/-- What the system answers to the calls of `map_user`: the errors of reading and of
`atomic_replace`, which leaves a file as it is when it fails, and the lookup of a user. -/
structure AccountSystem where
  read_passwd : Option String
  read_group : Option String
  replace_passwd : Option String
  replace_group : Option String
  restore_passwd : Option String
  lookup_user_by_name : AccountFiles → String → Except PosixError (Option PosixUser)

/-- `Credentials::lookup_user_by_name`, with the libc lookup for names that the file does not
have; for a file other than `/etc/passwd` that finds nothing. -/
def lookupUserByName (getpwnam : String → Except PosixError (Option PosixUser))
    (files : AccountFiles) (name : String) : Except PosixError (Option PosixUser) := do
  let found ← match files.passwd with
    | some contents => lookupFileUserByName contents name
    | none => pure none
  match found with
  | some user => return some user
  | none => getpwnam name

/-- A system whose writes are faithful. -/
def AccountSystem.faithful (getpwnam : String → Except PosixError (Option PosixUser)) : AccountSystem :=
  ⟨none, none, none, none, none, lookupUserByName getpwnam⟩

def readPasswd (system : AccountSystem) (files : AccountFiles) : Except PosixError String :=
  match system.read_passwd, files.passwd with
  | none, some contents => .ok contents
  | some source, _ => .error (.Io source)
  | none, none => .error (.Io "No such file or directory")

/-- A `group` that is not there is read as an empty one. -/
def readGroup (system : AccountSystem) (files : AccountFiles) : Except PosixError String :=
  match files.group, system.read_group with
  | none, _ => .ok ""
  | some contents, none => .ok contents
  | some _, some source => .error (.Io source)

def checkIdentity (identity : PosixIdentity) : Except PosixError Unit := do
  validateUserName identity.user
  validateAccountField "home" identity.home
  if !isAbsolute identity.home then throw (.Invalid "home path must be absolute")
  if identity.uid = 0 ∧ identity.user ≠ "root" then
    throw (.Invalid "UID 0 may only be reconciled as the root account")
  if identity.user = "root" ∧ identity.uid ≠ 0 then
    throw (.Invalid "the root account may not be mapped to a non-zero UID")

def PosixIdentity.isRoot (identity : PosixIdentity) : Bool :=
  identity.uid = 0 && identity.user = "root"

/-- What is found out before a file is written. -/
structure AccountPlan where
  passwd : String
  reconciliation : PasswdReconciliation
  group_output : String
  group_changed : Bool

def planAccounts (system : AccountSystem) (identity : PosixIdentity) (files : AccountFiles) :
    Except PosixError AccountPlan := do
  let passwd ← readPasswd system files
  let reconciliation ← reconcilePasswd passwd identity
  if !reconciliation.found_target then
    throw (.Invalid "internal passwd reconciliation did not produce a target account")
  let group ← readGroup system files
  let (group_output, group_changed) ← reconcileGroup group identity
  return ⟨passwd, reconciliation, group_output, group_changed⟩

/-- The user that is read back shall be the identity; homes are compared as paths. -/
def verifyMapped (identity : PosixIdentity) (mapped : Except PosixError (Option PosixUser)) :
    Except PosixError Unit := do
  match ← mapped with
  | none => throw (.Invalid ("account reconcile completed but user " ++ debugText identity.user ++
      " cannot be read back"))
  | some mapped =>
    if mapped.uid ≠ identity.uid ∨ mapped.gid ≠ identity.gid ∨
        components mapped.home ≠ components identity.home then
      throw (.Invalid ("account reconcile verification failed for " ++ debugText identity.user))

def writePasswd (system : AccountSystem) (plan : AccountPlan) (files : AccountFiles) :
    Except PosixError Unit × AccountFiles :=
  if plan.reconciliation.changed then
    match system.replace_passwd with
    | some source =>
      (.error (.Invalid ("account reconcile failed replacing passwd: " ++ source)), files)
    | none => (.ok (), { files with passwd := some plan.reconciliation.contents })
  else (.ok (), files)

/-- When `group` is not replaced, `passwd` gets its contents again. -/
def writeGroup (system : AccountSystem) (plan : AccountPlan) (files : AccountFiles) :
    Except PosixError Unit × AccountFiles :=
  if plan.group_changed then
    match system.replace_group with
    | none => (.ok (), { files with group := some plan.group_output })
    | some source =>
      let message := "account reconcile failed replacing group: " ++ source
      if plan.reconciliation.changed then
        match system.restore_passwd with
        | none => (.error (.Invalid message), { files with passwd := some plan.passwd })
        | some rollback =>
          (.error (.Invalid (message ++ "; passwd rollback also failed: " ++ rollback)), files)
      else (.error (.Invalid message), files)
  else (.ok (), files)

def AccountPlan.change (plan : AccountPlan) : ActionChange :=
  if plan.reconciliation.changed then ⟨"mapped POSIX passwd entry"⟩
  else ⟨"POSIX passwd entry already mapped"⟩

def commitAccounts (system : AccountSystem) (identity : PosixIdentity) (plan : AccountPlan)
    (files : AccountFiles) : Except PosixError ActionChange × AccountFiles :=
  match writePasswd system plan files with
  | (.error error, files) => (.error error, files)
  | (.ok (), files) =>
    match writeGroup system plan files with
    | (.error error, files) => (.error error, files)
    | (.ok (), files) =>
      (do
        verifyMapped identity (system.lookup_user_by_name files identity.user)
        return plan.change, files)

/-- `Accounts::map_user`, with the account files before and after it. -/
def mapUser (system : AccountSystem) (identity : PosixIdentity) (files : AccountFiles) :
    Except PosixError ActionChange × AccountFiles :=
  match checkIdentity identity with
  | .error error => (.error error, files)
  | .ok () =>
    if identity.isRoot then (.ok ⟨"root POSIX account left unchanged"⟩, files)
    else
      match planAccounts system identity files with
      | .error error => (.error error, files)
      | .ok plan => commitAccounts system identity plan files

end init_posix
