-- What a handoff helper checks before it is released: the state of its process and the size
-- of the command line and environment (`container-init-cli`: `preflight.rs`).
import NixosDockers.Backend.Protocol
import NixosDockers.Lib.Results
import NixosDockers.Lib.TreeMaps

open rust_text results tree_maps init_core init_backend

namespace init_cli

structure HandoffSpec where
  command : HandoffCommand
  identity : ResolvedIdentity
  supplemental_groups : List UInt32
  root_service : Bool
  original_cwd : String
  cwd_object : CwdObject
  login_environment : Std.ExtTreeMap String String
  environment : Std.ExtTreeMap String String

/-- What the system calls of the helper return; an error is its text. -/
structure HelperProcess where
  uid : UInt32
  gid : UInt32
  groups : Except String (List UInt32)
  max_groups : ℕ
  cwd : Except String CwdObject
  page_size : Int64
  argument_limit : Int64

/-! ## The state of the process -/

def checkCredentials (process : HelperProcess) (spec : HandoffSpec) : Except String Unit :=
  if spec.root_service then
    if process.uid ≠ 0 then .error "root-service handoff is not running as root" else .ok ()
  else if process.uid ≠ spec.identity.uid || process.gid ≠ spec.identity.gid then
    .error "handoff credentials changed before preflight"
  else .ok ()

/-- `sort_unstable` and `dedup` of the groups with the one of the process. -/
def currentGroups (gid : UInt32) (groups : List UInt32) : List UInt32 :=
  ((groups ++ [gid]).mergeSort fun a b => a ≤ b).destutter (· ≠ ·)

def checkGroups (process : HelperProcess) (spec : HandoffSpec) : Except String Unit :=
  if spec.root_service then .ok ()
  else do
    let groups ← process.groups
    if groups.length > process.max_groups then
      .error "current supplementary groups exceed the platform limit"
    else if currentGroups process.gid groups ≠ spec.supplemental_groups then
      .error "handoff supplementary groups do not match the prepared identity"
    else .ok ()

def checkCwd (process : HelperProcess) (spec : HandoffSpec) : Except String Unit := do
  let cwd ← process.cwd
  if cwd = spec.cwd_object then .ok ()
  else .error "working directory changed between Prepare and Preflight"

def verifyChildState (process : HelperProcess) (spec : HandoffSpec) : Except String Unit :=
  if spec.supplemental_groups.length > process.max_groups then
    .error "handoff supplementary groups exceed the platform limit"
  else do
    checkCredentials process spec
    checkGroups process spec
    checkCwd process spec

/-! ## The size of the command -/

/-- `usize::MAX`. -/
def USIZE_MAX : ℕ := 2 ^ 64 - 1

def checkedAdd (a b : ℕ) : Option ℕ := if a + b ≤ USIZE_MAX then some (a + b) else none

def checkedMul (a b : ℕ) : Option ℕ := if a * b ≤ USIZE_MAX then some (a * b) else none

def saturatingMul (a b : ℕ) : ℕ := min (a * b) USIZE_MAX

def execBudgetError (message : String) : String := "handoff_exec_budget_exceeded: " ++ message

/-- `ok_or_else` with an error of the budget. -/
def orOverflow (what : String) (value : Option ℕ) : Except String ℕ :=
  value.elim (.error (execBudgetError (what ++ " overflowed"))) .ok

def perStringError (field : String) (length limit : ℕ) : String :=
  execBudgetError (field ++ " is " ++ toString length ++
    " bytes; operating system per-string limit is " ++ toString limit ++ " bytes")

/-- The new total. -/
def checkExecString (field value : String) (limit total : ℕ) : Except String ℕ :=
  if hasChar value nul then .error (execBudgetError (field ++ " contains NUL"))
  else do
    let length ← orOverflow "handoff argument size" (checkedAdd (byteLen value) 1)
    if length > limit then .error (perStringError field (byteLen value) limit)
    else orOverflow "handoff argv size" (checkedAdd total length)

def checkArguments (limit : ℕ) : ℕ → List String → ℕ → Except String ℕ
  | _, [], total => .ok total
  | index, argument :: rest, total => do
    let total ← checkExecString ("argv[" ++ toString index ++ "]") argument limit total
    checkArguments limit (index + 1) rest total

def checkEnvironment (limit : ℕ) : List (String × String) → ℕ → Except String ℕ
  | [], total => .ok total
  | (name, value) :: rest, total =>
    if name = "" || hasChar name '=' || hasChar name nul || hasChar value nul then
      .error (execBudgetError "handoff environment contains an invalid name or NUL")
    else do
      let length ← orOverflow "handoff environment size"
        (((checkedAdd (byteLen name) 1).bind fun bytes => checkedAdd bytes (byteLen value)).bind
          fun bytes => checkedAdd bytes 1)
      if length > limit then .error (perStringError ("environment." ++ name) length limit)
      else do
        let total ← orOverflow "handoff environment size" (checkedAdd total length)
        checkEnvironment limit rest total

/-- `environment` extended by `login_environment`. -/
def HandoffSpec.finalEnvironment (spec : HandoffSpec) : Std.ExtTreeMap String String :=
  insertAll spec.environment spec.login_environment.toList

def checkProgramLength (program : String) : Except String Unit :=
  if byteLen program > MAX_ARGV_ITEM_BYTES then
    .error (execBudgetError ("argv[0] is " ++ toString (byteLen program) ++
      " bytes; protocol maximum is " ++ toString MAX_ARGV_ITEM_BYTES ++ " bytes"))
  else .ok ()

def checkArgvLimits (command : HandoffCommand) : Except String Unit :=
  if command.args.length + 1 > MAX_ARGV_ITEMS ||
      command.args.any fun argument => byteLen argument > MAX_ARGV_ITEM_BYTES then
    .error (execBudgetError "final handoff argv exceeds the protocol argument limits")
  else
    let bytes := byteLen command.program + (command.args.map byteLen).sum
    if bytes > MAX_ARGV_TOTAL_BYTES then
      .error (execBudgetError ("final handoff argv is " ++ toString bytes ++
        " bytes; protocol maximum is " ++ toString MAX_ARGV_TOTAL_BYTES ++ " bytes"))
    else .ok ()

def checkTotal (page_size argument_limit total : ℕ) : Except String Unit :=
  let safety_margin := max (saturatingMul page_size 4) (8 * 1024)
  let usable_limit := argument_limit - safety_margin
  if total > usable_limit then
    .error (execBudgetError ("argv and environment need " ++ toString total ++
      " bytes including pointers; safe system limit is " ++ toString usable_limit ++ " bytes"))
  else .ok ()

/-- The size of a pointer is 8. -/
def checkBudget (page_size argument_limit : ℕ) (spec : HandoffSpec) : Except String Unit := do
  let single_argument_limit := saturatingMul page_size 32
  checkProgramLength spec.command.program
  let argument_bytes ← checkExecString "argv[0]" spec.command.program single_argument_limit 0
  let argument_bytes ← checkArguments single_argument_limit 1 spec.command.args argument_bytes
  checkArgvLimits spec.command
  let environment := spec.finalEnvironment.toList
  let environment_bytes ← checkEnvironment single_argument_limit environment 0
  let pointer_bytes ← orOverflow "handoff pointer table size"
    (((checkedAdd (spec.command.args.length + 1) environment.length).bind fun count =>
      checkedAdd count 2).bind fun count => checkedMul count 8)
  let total_bytes ← orOverflow "handoff exec size"
    ((checkedAdd argument_bytes environment_bytes).bind fun bytes => checkedAdd bytes pointer_bytes)
  checkTotal page_size argument_limit total_bytes

def verifyExecBudget (process : HelperProcess) (spec : HandoffSpec) : Except String Unit :=
  if process.page_size ≤ 0 || process.argument_limit ≤ 0 then
    .error (execBudgetError "system argument limits are unavailable")
  else checkBudget process.page_size.toInt.toNat process.argument_limit.toInt.toNat spec

/-- What the helper checks before it says that it is ready. -/
def verify (process : HelperProcess) (spec : HandoffSpec) : Except String Unit := do
  verifyChildState process spec
  verifyExecBudget process spec

/-- The environment that `exec` is called with: `env_clear`, and `env` for each entry. -/
def HandoffSpec.execEnvironment (spec : HandoffSpec) : Std.ExtTreeMap String String :=
  insertAll (insertAll ∅ spec.environment.toList) spec.login_environment.toList

/-! ## What the check accepts -/

section
variable {a b limit total result : ℕ}

theorem checkedAdd_eq_some : checkedAdd a b = some result ↔ a + b ≤ USIZE_MAX ∧ result = a + b := by
  unfold checkedAdd
  split
  · rename_i h
    simp [h, eq_comm]
  · rename_i h
    simp [h]

theorem checkedMul_eq_some : checkedMul a b = some result ↔ a * b ≤ USIZE_MAX ∧ result = a * b := by
  unfold checkedMul
  split
  · rename_i h
    simp [h, eq_comm]
  · rename_i h
    simp [h]

theorem orOverflow_ok {what : String} {value : Option ℕ} :
    orOverflow what value = .ok result ↔ value = some result := by
  cases value <;> simp [orOverflow]

theorem checkExecString_ok {field value : String} (hlimit : limit ≤ USIZE_MAX) :
    checkExecString field value limit total = .ok result ↔
      hasChar value nul = false ∧ byteLen value + 1 ≤ limit ∧
        total + (byteLen value + 1) ≤ USIZE_MAX ∧ result = total + (byteLen value + 1) := by
  unfold checkExecString
  split
  · rename_i h
    simp [h]
  · rename_i h
    rw [bind_ok_iff]
    simp only [orOverflow_ok, checkedAdd_eq_some]
    constructor
    · rintro ⟨length, ⟨-, rfl⟩, hrest⟩
      split at hrest
      · cases hrest
      · rw [orOverflow_ok, checkedAdd_eq_some] at hrest
        exact ⟨by simpa using h, by omega, hrest⟩
    · rintro ⟨-, hfits, htotal⟩
      refine ⟨_, ⟨by omega, rfl⟩, ?_⟩
      rw [if_neg (by omega), orOverflow_ok, checkedAdd_eq_some]
      exact htotal

/-- What a string takes up, with its NUL. -/
def stringBytes (value : String) : ℕ := byteLen value + 1

theorem checkArguments_ok (hlimit : limit ≤ USIZE_MAX) {index : ℕ} {arguments : List String}
    (htotal : total ≤ USIZE_MAX) :
    checkArguments limit index arguments total = .ok result ↔
      (∀ argument ∈ arguments, hasChar argument nul = false ∧ stringBytes argument ≤ limit) ∧
        total + (arguments.map stringBytes).sum ≤ USIZE_MAX ∧
        result = total + (arguments.map stringBytes).sum := by
  induction arguments generalizing index total with
  | nil =>
    rw [checkArguments, Except.ok.injEq]
    simp only [List.map_nil, List.sum_nil, Nat.add_zero, htotal, true_and, List.not_mem_nil,
      false_implies, implies_true, eq_comm]
  | cons argument rest ih =>
    rw [checkArguments, bind_ok_iff]
    simp only [checkExecString_ok hlimit, List.forall_mem_cons, List.map_cons, List.sum_cons,
      stringBytes]
    constructor
    · rintro ⟨next, ⟨hnul, hfits, hnext, rfl⟩, hrest⟩
      rw [ih hnext] at hrest
      obtain ⟨hall, hsum, rfl⟩ := hrest
      simp only [stringBytes] at hall hsum ⊢
      exact ⟨⟨⟨hnul, hfits⟩, hall⟩, by omega, by omega⟩
    · rintro ⟨⟨⟨hnul, hfits⟩, hall⟩, hsum, rfl⟩
      refine ⟨_, ⟨hnul, hfits, by omega, rfl⟩, ?_⟩
      rw [ih (by omega)]
      exact ⟨hall, by omega, by omega⟩

/-- What an entry of the environment takes up: `=` and the NUL come to its texts. -/
def entryBytes (entry : String × String) : ℕ := byteLen entry.1 + byteLen entry.2 + 2

def validEntry (entry : String × String) : Prop :=
  entry.1 ≠ "" ∧ hasChar entry.1 '=' = false ∧ hasChar entry.1 nul = false ∧
    hasChar entry.2 nul = false

theorem checkEnvironment_ok (hlimit : limit ≤ USIZE_MAX) {entries : List (String × String)}
    (htotal : total ≤ USIZE_MAX) :
    checkEnvironment limit entries total = .ok result ↔
      (∀ entry ∈ entries, validEntry entry ∧ entryBytes entry ≤ limit) ∧
        total + (entries.map entryBytes).sum ≤ USIZE_MAX ∧
        result = total + (entries.map entryBytes).sum := by
  induction entries generalizing total with
  | nil =>
    rw [checkEnvironment, Except.ok.injEq]
    simp only [List.map_nil, List.sum_nil, Nat.add_zero, htotal, true_and, List.not_mem_nil,
      false_implies, implies_true, eq_comm]
  | cons entry rest ih =>
    obtain ⟨name, value⟩ := entry
    rw [checkEnvironment]
    simp only [List.forall_mem_cons, List.map_cons, List.sum_cons]
    split
    · rename_i hinvalid
      refine iff_of_false nofun fun h => ?_
      obtain ⟨⟨⟨⟨hname, heq, hnul, hvalue⟩, -⟩, -⟩, -⟩ := h
      simp [hname, heq, hnul, hvalue] at hinvalid
    · rename_i hinvalid
      have hvalid : validEntry (name, value) := by
        simpa [validEntry, and_assoc] using hinvalid
      rw [bind_ok_iff]
      simp only [orOverflow_ok, Option.bind_eq_some_iff, checkedAdd_eq_some]
      constructor
      · rintro ⟨length, ⟨bytes, ⟨-, ⟨-, rfl⟩, -, rfl⟩, -, rfl⟩, hrest⟩
        split at hrest
        · cases hrest
        · rw [bind_ok_iff] at hrest
          simp only [orOverflow_ok, checkedAdd_eq_some] at hrest
          obtain ⟨next, ⟨hnext, rfl⟩, hrest⟩ := hrest
          rw [ih hnext] at hrest
          obtain ⟨hall, hsum, rfl⟩ := hrest
          refine ⟨⟨⟨hvalid, ?_⟩, hall⟩, ?_, ?_⟩ <;> simp only [entryBytes] at hsum ⊢ <;> omega
      · rintro ⟨⟨⟨-, hfits⟩, hall⟩, hsum, rfl⟩
        simp only [entryBytes] at hfits hsum
        refine ⟨_, ⟨_, ⟨_, ⟨?_, rfl⟩, ?_, rfl⟩, ?_, rfl⟩, ?_⟩
        · omega
        · omega
        · omega
        · rw [if_neg (by omega), bind_ok_iff]
          simp only [orOverflow_ok, checkedAdd_eq_some]
          refine ⟨_, ⟨by omega, rfl⟩, ?_⟩
          rw [ih (by omega)]
          exact ⟨hall, by omega, by simp only [entryBytes]; omega⟩

end

theorem finalEnvironment_eq (spec : HandoffSpec) : spec.finalEnvironment = spec.execEnvironment := by
  rw [HandoffSpec.finalEnvironment, HandoffSpec.execEnvironment, insertAll_toList]

def HandoffSpec.argv (spec : HandoffSpec) : List String := spec.command.program :: spec.command.args

/-- What `exec` has to copy: the strings, and a pointer to each with two more that end the
tables. -/
def execBytes (argv : List String) (environment : List (String × String)) : ℕ :=
  (argv.map stringBytes).sum + (environment.map entryBytes).sum +
    8 * (argv.length + environment.length + 2)

/-- The command line and the environment that `exec` is called with fit the limits. -/
structure FitsExec (process : HelperProcess) (spec : HandoffSpec) : Prop where
  pages : 0 < process.page_size
  limit : 0 < process.argument_limit
  arguments : ∀ argument ∈ spec.argv, hasChar argument nul = false ∧
    byteLen argument ≤ MAX_ARGV_ITEM_BYTES ∧
    stringBytes argument ≤ saturatingMul process.page_size.toInt.toNat 32
  items : spec.argv.length ≤ MAX_ARGV_ITEMS
  bytes : (spec.argv.map byteLen).sum ≤ MAX_ARGV_TOTAL_BYTES
  environment : ∀ entry ∈ spec.execEnvironment.toList, validEntry entry ∧
    entryBytes entry ≤ saturatingMul process.page_size.toInt.toNat 32
  total : execBytes spec.argv spec.execEnvironment.toList ≤
    process.argument_limit.toInt.toNat - max (saturatingMul process.page_size.toInt.toNat 4) 8192

theorem checkArgvLimits_ok {command : HandoffCommand} :
    checkArgvLimits command = .ok () ↔
      command.args.length + 1 ≤ MAX_ARGV_ITEMS ∧
        (∀ argument ∈ command.args, byteLen argument ≤ MAX_ARGV_ITEM_BYTES) ∧
        byteLen command.program + (command.args.map byteLen).sum ≤ MAX_ARGV_TOTAL_BYTES := by
  unfold checkArgvLimits
  split
  · rename_i h
    refine iff_of_false nofun fun hall => ?_
    rw [Bool.or_eq_true, decide_eq_true_eq, List.any_eq_true] at h
    rcases h with hmany | ⟨argument, hmem, hlong⟩
    · omega
    · have hfits := hall.2.1 argument hmem
      rw [decide_eq_true_eq] at hlong
      omega
  · rename_i h
    simp only [Bool.or_eq_true, decide_eq_true_eq, List.any_eq_true, not_or, not_exists,
      not_and, not_lt] at h
    dsimp only
    split
    · rename_i hlarge
      exact iff_of_false nofun fun hall => by omega
    · rename_i hsmall
      exact iff_of_true rfl ⟨h.1, h.2, by omega⟩

theorem checkTotal_ok {page_size argument_limit total : ℕ} :
    checkTotal page_size argument_limit total = .ok () ↔
      total ≤ argument_limit - max (saturatingMul page_size 4) 8192 := by
  unfold checkTotal
  dsimp only
  split
  · rename_i h
    simp [h]
  · rename_i h
    simpa using h

theorem saturatingMul_le {a b : ℕ} : saturatingMul a b ≤ USIZE_MAX := Nat.min_le_right _ _

theorem checkProgramLength_ok {program : String} :
    checkProgramLength program = .ok () ↔ byteLen program ≤ MAX_ARGV_ITEM_BYTES := by
  unfold checkProgramLength
  split
  · rename_i h
    exact iff_of_false nofun (by omega)
  · rename_i h
    exact iff_of_true rfl (by omega)

theorem toNat_le_USIZE_MAX (value : Int64) : value.toInt.toNat ≤ USIZE_MAX := by
  have hlt := value.toInt_lt
  have hmax : USIZE_MAX = 2 ^ 64 - 1 := rfl
  omega

theorem checkBudget_ok {page_size argument_limit : ℕ} {spec : HandoffSpec}
    (hlimit : argument_limit ≤ USIZE_MAX) :
    checkBudget page_size argument_limit spec = .ok () ↔
      (∀ argument ∈ spec.argv, hasChar argument nul = false ∧
        byteLen argument ≤ MAX_ARGV_ITEM_BYTES ∧
        stringBytes argument ≤ saturatingMul page_size 32) ∧
      spec.argv.length ≤ MAX_ARGV_ITEMS ∧ (spec.argv.map byteLen).sum ≤ MAX_ARGV_TOTAL_BYTES ∧
      (∀ entry ∈ spec.execEnvironment.toList, validEntry entry ∧
        entryBytes entry ≤ saturatingMul page_size 32) ∧
      execBytes spec.argv spec.execEnvironment.toList ≤
        argument_limit - max (saturatingMul page_size 4) 8192 := by
  have hzero : 0 ≤ USIZE_MAX := Nat.zero_le _
  have hsingle := @saturatingMul_le page_size 32
  unfold checkBudget
  dsimp only
  rw [finalEnvironment_eq]
  simp only [bind_ok_iff, checkExecString_ok hsingle, checkTotal_ok, orOverflow_ok,
    Option.bind_eq_some_iff, checkedAdd_eq_some, checkedMul_eq_some, HandoffSpec.argv,
    List.forall_mem_cons, List.length_cons, List.map_cons, List.sum_cons]
  constructor
  · rintro ⟨⟨⟩, hprogram, first, ⟨hnul, hfits, hfirst, rfl⟩, arguments, harguments, ⟨⟩,
      hlimits, environment, henvironment, pointers,
      ⟨count, ⟨sum, ⟨-, rfl⟩, -, rfl⟩, -, rfl⟩, total, ⟨both, ⟨-, rfl⟩, -, rfl⟩, htotal⟩
    rw [checkProgramLength_ok] at hprogram
    obtain ⟨hitems, hitem, hbytes⟩ := checkArgvLimits_ok.mp hlimits
    rw [checkArguments_ok hsingle hfirst] at harguments
    rw [checkEnvironment_ok hsingle hzero] at henvironment
    obtain ⟨hall, -, rfl⟩ := harguments
    obtain ⟨hentries, -, rfl⟩ := henvironment
    refine ⟨⟨⟨hnul, hprogram, hfits⟩, fun argument hmem => ?_⟩, hitems, hbytes, hentries, ?_⟩
    · exact ⟨(hall argument hmem).1, hitem argument hmem, (hall argument hmem).2⟩
    · simp only [execBytes, List.map_cons, List.sum_cons, List.length_cons, stringBytes]
      omega
  · rintro ⟨⟨⟨hnul, hprogram, hfits⟩, hall⟩, hitems, hbytes, hentries, htotal⟩
    simp only [execBytes, List.map_cons, List.sum_cons, List.length_cons, stringBytes] at htotal hfits
    have harguments := (@checkArguments_ok _ _
      (0 + (byteLen spec.command.program + 1) + (spec.command.args.map stringBytes).sum) hsingle 1
      spec.command.args (by omega)).mpr
        ⟨fun argument hmem => ⟨(hall argument hmem).1, (hall argument hmem).2.2⟩, by omega, rfl⟩
    have henvironment := (@checkEnvironment_ok _ _
      (0 + (spec.execEnvironment.toList.map entryBytes).sum) hsingle _ hzero).mpr
        ⟨hentries, by omega, rfl⟩
    exact ⟨(), checkProgramLength_ok.mpr hprogram, _, ⟨hnul, hfits, by omega, rfl⟩, _, harguments,
      (), checkArgvLimits_ok.mpr ⟨hitems, fun argument hmem => (hall argument hmem).2.1, hbytes⟩,
      _, henvironment, _, ⟨_, ⟨_, ⟨by omega, rfl⟩, by omega, rfl⟩, by omega, rfl⟩, _,
      ⟨_, ⟨by omega, rfl⟩, by omega, rfl⟩, by omega⟩

/-- The check accepts a handoff exactly when the command line and the environment that `exec` will
be called with fit every limit, pointers and terminating bytes included. -/
theorem exec_budget_is_exact (process : HelperProcess) (spec : HandoffSpec) :
    verifyExecBudget process spec = .ok () ↔ FitsExec process spec := by
  unfold verifyExecBudget
  split
  · rename_i h
    refine iff_of_false nofun fun hfits => ?_
    rw [Bool.or_eq_true, decide_eq_true_eq, decide_eq_true_eq] at h
    rcases h with h | h
    · exact absurd hfits.pages (Int64.not_lt.mpr h)
    · exact absurd hfits.limit (Int64.not_lt.mpr h)
  · rename_i h
    rw [Bool.or_eq_true, decide_eq_true_eq, decide_eq_true_eq, not_or, Int64.not_le,
      Int64.not_le] at h
    rw [checkBudget_ok (toNat_le_USIZE_MAX _)]
    constructor
    · rintro ⟨harguments, hitems, hbytes, henvironment, htotal⟩
      exact ⟨h.1, h.2, harguments, hitems, hbytes, henvironment, htotal⟩
    · rintro ⟨-, -, harguments, hitems, hbytes, henvironment, htotal⟩
      exact ⟨harguments, hitems, hbytes, henvironment, htotal⟩

end init_cli
