-- The environment of a materialization (`environment.rs`): what it starts with, and what the
-- delta of a provider makes of it; with the value that each of these leaves at a name.
import NixosDockers.DevEnvCore.Paths
import NixosDockers.DevEnvProvider.Delta
import NixosDockers.Lib.Layers
import NixosDockers.Lib.TreeMaps

open rust_text results dev_env_model layers
open dev_env_provider (EnvironmentDelta)

namespace dev_env_core

/-! ## The first environment -/

/-- `Environment::checked_value`. -/
def checkedValue (name value : String) (origin : Option Origin) (sensitivity : Sensitivity)
    (provider : Option String) : Except CoreError EnvValue := do
  let result : EnvValue := ⟨value, origin, sensitivity, provider⟩
  (result.validate name).mapError .Model
  return result

/-- One turn of the loop over the variables of the process. -/
def inheritVariable (values : Std.ExtTreeMap String EnvValue) (entry : String × String) :
    Except CoreError (Std.ExtTreeMap String EnvValue) := do
  let value ← checkedValue entry.1 entry.2 (some (Origin.environment entry.1)) .Public none
  return values.insert entry.1 value

def inheritProcess (config : EnvironmentConfig)
    (process_environment : Std.ExtTreeMap String String) :
    Except CoreError (Std.ExtTreeMap String EnvValue) :=
  if config.inherit_process then process_environment.toList.foldlM inheritVariable ∅ else .ok ∅

/-- One turn of the loop over the configured variables. -/
def configureVariable (config : ResolvedConfig) (values : Std.ExtTreeMap String EnvValue)
    (entry : String × String) : Except CoreError (Std.ExtTreeMap String EnvValue) :=
  if config.environment.configured_value_precedence = .Locked ∨ entry.1 ∉ values then do
    let source := provenance config ("environment.variables." ++ entry.1)
    let value ← checkedValue entry.1 entry.2 source.1 source.2 none
    return values.insert entry.1 value
  else .ok values

/-- `Environment::initial`. -/
def initial (config : ResolvedConfig) (process_environment : Std.ExtTreeMap String String) :
    Except CoreError MaterializedEnv := do
  let inherited ← inheritProcess config.environment process_environment
  let configured ← config.environment.variables.toList.foldlM (configureVariable config) inherited
  let values ← applyConfiguredPath config configured
  let environment : MaterializedEnv := ⟨values⟩
  environment.validate.mapError .Model
  return environment

/-! ## The delta of a provider -/

/-- The PATH that a provider asks for. -/
def pathOf (path_mode : PathMode) (current : Option String) (value : String) :
    Except CoreError String :=
  match path_mode with
  | .Replace => .ok value
  | .Merge => mergeProviderPath current value

/-- One turn of the loop over the variables that a delta sets. -/
def setVariable (provider : String) (sensitivity : Sensitivity) (path_mode : PathMode)
    (values : Std.ExtTreeMap String EnvValue) (entry : String × String) :
    Except CoreError (Std.ExtTreeMap String EnvValue) :=
  if entry.1 = "PATH" then do
    let value ← pathOf path_mode (values["PATH"]?.map EnvValue.value) entry.2
    return values.insert entry.1 ⟨value, none, sensitivity, some provider⟩
  else .ok (values.insert entry.1 ⟨entry.2, none, sensitivity, some provider⟩)

/-- `Environment::apply_provider_delta`. -/
def applyProviderDelta (environment : MaterializedEnv) (delta : EnvironmentDelta)
    (provider : String) (sensitivity : Sensitivity) (path_mode : PathMode) :
    Except CoreError MaterializedEnv := do
  let kept := delta.unset.toList.foldl (fun values name => values.erase name) environment.values
  let values ← delta.set.toList.foldlM (setVariable provider sensitivity path_mode) kept
  let environment : MaterializedEnv := ⟨values⟩
  environment.validate.mapError .Model
  return environment

/-! ## What is left at a name -/

/-- The value of a variable. -/
def valueAt (values : Std.ExtTreeMap String EnvValue) (name : String) : Option String :=
  values[name]?.map EnvValue.value

variable {config : ResolvedConfig} {values next : Std.ExtTreeMap String EnvValue}
  {process_environment : Std.ExtTreeMap String String} {name : String}
  {environment : MaterializedEnv}

theorem valueAt_empty : valueAt ∅ name = none := by simp [valueAt]

theorem valueAt_insert_self {value : EnvValue} :
    valueAt (values.insert name value) name = some value.value := by
  simp [valueAt]

theorem valueAt_insert_of_ne {other : String} {value : EnvValue} (h : name ≠ other) :
    valueAt (values.insert other value) name = valueAt values name := by
  simp [valueAt, Std.ExtTreeMap.getElem?_insert, h.symm]

theorem checkedValue_value {value : String} {origin : Option Origin} {sensitivity : Sensitivity}
    {provider : Option String} {result : EnvValue}
    (h : checkedValue name value origin sensitivity provider = .ok result) :
    result.value = value := by
  obtain ⟨⟨⟩, -, h⟩ := bind_ok_iff.mp h
  rw [← Except.ok.inj h]

/-! ## The first two layers -/

/-- What the process writes, where it is inherited. -/
def ambientWrite (config : EnvironmentConfig) (process_environment : Std.ExtTreeMap String String)
    (name : String) : Write String :=
  if config.inherit_process then
    match process_environment[name]? with
    | some value => .set value
    | none => .keep
  else .keep

/-- What the configuration writes: all its variables if they are locked, else those that the
process does not write. -/
def configuredWrite (config : EnvironmentConfig)
    (process_environment : Std.ExtTreeMap String String) (name : String) : Write String :=
  match config.variables[name]? with
  | some value =>
    if config.configured_value_precedence = .Locked ∨
        ambientWrite config process_environment name = .keep then .set value
    else .keep
  | none => .keep

theorem inheritVariable_local : Local inheritVariable Prod.fst valueAt := by
  intro values entry next h name hname
  obtain ⟨value, -, h⟩ := bind_ok_iff.mp h
  rw [← Except.ok.inj h, valueAt_insert_of_ne hname]

theorem valueAt_inheritProcess
    (h : inheritProcess config.environment process_environment = .ok values) (name : String) :
    valueAt values name = (ambientWrite config.environment process_environment name).on none := by
  unfold inheritProcess at h
  unfold ambientWrite
  split at h
  · rename_i hinherit
    rw [if_pos hinherit]
    cases hname : process_environment[name]? with
    | none =>
      rw [inheritVariable_local.of_notMem h (tree_maps.notMem_toList hname), valueAt_empty]
      rfl
    | some value =>
      obtain ⟨before, after, hsplit, hbefore, hafter⟩ := tree_maps.toList_at hname
      rw [hsplit] at h
      obtain ⟨middle, next, -, hstep, -, hfinal⟩ := inheritVariable_local.of_mem h hbefore hafter
      obtain ⟨checked, hchecked, hnext⟩ := bind_ok_iff.mp hstep
      rw [hfinal, ← Except.ok.inj hnext, valueAt_insert_self, checkedValue_value hchecked]
      rfl
  · rename_i hinherit
    rw [if_neg hinherit, ← Except.ok.inj h, valueAt_empty]
    rfl

theorem configureVariable_local : Local (configureVariable config) Prod.fst valueAt := by
  intro values entry next h name hname
  unfold configureVariable at h
  split at h
  · obtain ⟨value, -, h⟩ := bind_ok_iff.mp h
    rw [← Except.ok.inj h, valueAt_insert_of_ne hname]
  · rw [← Except.ok.inj h]

theorem mem_iff_valueAt : name ∈ values ↔ valueAt values name ≠ none := by
  rw [valueAt, Std.ExtTreeMap.mem_iff_isSome_getElem?, Ne, Option.map_eq_none_iff]
  exact Option.isSome_iff_ne_none

theorem ambientWrite_on_none {config : EnvironmentConfig} :
    (ambientWrite config process_environment name).on none = none ↔
      ambientWrite config process_environment name = .keep := by
  unfold ambientWrite
  split
  · split
    · exact iff_of_false nofun nofun
    · exact iff_of_true rfl rfl
  · exact iff_of_true rfl rfl

/-- The variables of the process and of the configuration, before PATH is edited. -/
theorem valueAt_configured {inherited : Std.ExtTreeMap String EnvValue}
    (hinherited : inheritProcess config.environment process_environment = .ok inherited)
    (h : config.environment.variables.toList.foldlM (configureVariable config) inherited =
      .ok values) :
    valueAt values name =
      (last [ambientWrite config.environment process_environment name,
        configuredWrite config.environment process_environment name]).on none := by
  have hambient := valueAt_inheritProcess hinherited name
  rw [on_pair]
  unfold configuredWrite
  cases hname : config.environment.variables[name]? with
  | none => rw [configureVariable_local.of_notMem h (tree_maps.notMem_toList hname), hambient]; rfl
  | some value =>
    obtain ⟨before, after, hsplit, hbefore, hafter⟩ := tree_maps.toList_at hname
    rw [hsplit] at h
    obtain ⟨middle, next, -, hstep, hmiddle, hfinal⟩ :=
      configureVariable_local.of_mem h hbefore hafter
    have hfree : name ∉ middle ↔
        ambientWrite config.environment process_environment name = .keep := by
      rw [mem_iff_valueAt, not_not, hmiddle, hambient, ambientWrite_on_none]
    unfold configureVariable at hstep
    dsimp only at hstep ⊢
    rw [hfinal]
    split at hstep
    · rename_i hwrites
      rw [hfree] at hwrites
      obtain ⟨checked, hchecked, hnext⟩ := bind_ok_iff.mp hstep
      rw [if_pos hwrites, ← Except.ok.inj hnext, valueAt_insert_self, checkedValue_value hchecked]
      rfl
    · rename_i hkeeps
      rw [hfree] at hkeeps
      rw [if_neg hkeeps, ← Except.ok.inj hstep, hmiddle, hambient]
      rfl

/-! ## PATH -/

instance (path : EnvironmentPath) : Decidable (EditsPath path) := by
  unfold EditsPath
  infer_instance

/-- The entries of the configuration around those that were there. -/
def editedPath (path : EnvironmentPath) (current : Option String) : Option String :=
  if EditsPath path then
    some (String.intercalate ":" (path.entries ((current.map splitPath).getD [])))
  else current

theorem joinPath_eq {entries : List String} {value : String} (h : joinPath entries = .ok value) :
    value = String.intercalate ":" entries := by
  unfold joinPath at h
  split at h
  · exact absurd h nofun
  · exact (Except.ok.inj h).symm

theorem inheritedEntries_eq :
    inheritedEntries values = ((valueAt values "PATH").map splitPath).getD [] := by
  rw [inheritedEntries, valueAt, Option.map_map]
  rfl

theorem valueAt_configuredPath (h : applyConfiguredPath config values = .ok next) (name : String) :
    valueAt next name =
      if name = "PATH" then editedPath config.environment.path (valueAt values "PATH")
      else valueAt values name := by
  by_cases hedits : EditsPath config.environment.path
  · have hvalid : config.environment.path.validate = .ok () := by
      have hsome : ¬ (config.environment.path.prepend.isEmpty &&
          config.environment.path.append.isEmpty &&
          config.environment.path.remove.isEmpty) = true := by
        unfold EditsPath at hedits
        simp only [Bool.and_eq_true, List.isEmpty_iff]
        tauto
      unfold applyConfiguredPath at h
      dsimp only at h
      rw [if_neg hsome] at h
      obtain ⟨resolved, hresolved, -⟩ := bind_ok_iff.mp h
      obtain ⟨⟨⟩, hvalid, -⟩ := bind_ok_iff.mp (mapError_ok_iff.mp hresolved)
      exact hvalid
    rw [applyConfiguredPath_eq hedits hvalid] at h
    obtain ⟨value, hvalue, rfl⟩ := map_ok_iff.mp h
    by_cases hname : name = "PATH"
    · subst hname
      rw [if_pos rfl, valueAt_insert_self, editedPath, if_pos hedits, ← inheritedEntries_eq,
        ← joinPath_eq hvalue]
    · rw [if_neg hname, valueAt_insert_of_ne hname]
  · have hnone : (config.environment.path.prepend.isEmpty &&
        config.environment.path.append.isEmpty &&
        config.environment.path.remove.isEmpty) = true := by
      unfold EditsPath at hedits
      simp only [Bool.and_eq_true, List.isEmpty_iff]
      tauto
    unfold applyConfiguredPath at h
    dsimp only at h
    rw [if_pos hnone] at h
    obtain rfl := Except.ok.inj h
    rw [editedPath, if_neg hedits]
    split
    · rename_i hname
      rw [hname]
    · rfl

/-- The value of a name in the first environment. -/
theorem valueAt_initial (h : initial config process_environment = .ok environment)
    (name : String) :
    valueAt environment.values name =
      let written (name : String) :=
        (last [ambientWrite config.environment process_environment name,
          configuredWrite config.environment process_environment name]).on none
      if name = "PATH" then editedPath config.environment.path (written "PATH")
      else written name := by
  obtain ⟨inherited, hinherited, h⟩ := bind_ok_iff.mp h
  obtain ⟨configured, hconfigured, h⟩ := bind_ok_iff.mp h
  obtain ⟨values, hvalues, h⟩ := bind_ok_iff.mp h
  obtain ⟨⟨⟩, -, h⟩ := bind_ok_iff.mp h
  obtain rfl := Except.ok.inj h
  dsimp only
  rw [valueAt_configuredPath hvalues, valueAt_configured hinherited hconfigured,
    valueAt_configured hinherited hconfigured]

/-! ## What a provider writes -/

/-- What an entry of a shell environment writes. -/
def entryWrite (name : String) : ShellEnvEntry → Write String
  | .Set other value => if other = name then .set value else .keep
  | .Unset other => if other = name then .unset else .keep

def entryWrites (entries : List ShellEnvEntry) (name : String) : List (Write String) :=
  entries.map (entryWrite name)

/-- What a delta writes. -/
def deltaWrite (delta : EnvironmentDelta) (name : String) : Write String :=
  match delta.set[name]? with
  | some value => .set value
  | none => if name ∈ delta.unset then .unset else .keep

theorem deltaWrite_applyEntry {delta : EnvironmentDelta} {entry : ShellEnvEntry} :
    deltaWrite (delta.applyEntry entry) name =
      match entryWrite name entry with
      | .keep => deltaWrite delta name
      | other => other := by
  cases entry with
  | Set other value =>
    by_cases hname : other = name
    · subst hname
      simp [deltaWrite, entryWrite, EnvironmentDelta.applyEntry]
    · simp [deltaWrite, entryWrite, EnvironmentDelta.applyEntry, hname,
        Std.ExtTreeMap.getElem?_insert, Std.ExtTreeSet.mem_erase]
  | Unset other =>
    by_cases hname : other = name
    · subst hname
      simp [deltaWrite, entryWrite, EnvironmentDelta.applyEntry]
    · simp [deltaWrite, entryWrite, EnvironmentDelta.applyEntry, hname,
        Std.ExtTreeMap.getElem?_erase, Std.ExtTreeSet.mem_insert]

/-- A delta that is collected from entries writes what the last of them does. -/
theorem deltaWrite_fromEntries (entries : List ShellEnvEntry) (name : String) :
    deltaWrite (EnvironmentDelta.fromEntries entries) name = last (entryWrites entries name) := by
  have hfoldl (delta : EnvironmentDelta) :
      deltaWrite (entries.foldl EnvironmentDelta.applyEntry delta) name =
        match last (entryWrites entries name) with
        | .keep => deltaWrite delta name
        | other => other := by
    induction entries generalizing delta with
    | nil => rfl
    | cons entry entries ih =>
      have hcons : entryWrites (entry :: entries) name =
        entryWrite name entry :: entryWrites entries name := rfl
      rw [List.foldl_cons, ih, deltaWrite_applyEntry, hcons, last]
      cases last (entryWrites entries name) <;> rfl
  have hempty : deltaWrite ⟨∅, ∅⟩ name = .keep := by simp [deltaWrite]
  rw [EnvironmentDelta.fromEntries, hfoldl, hempty]
  cases last (entryWrites entries name) <;> rfl

/-- No name is both set and unset. -/
def Proper (delta : EnvironmentDelta) : Prop := ∀ name ∈ delta.unset, delta.set[name]? = none

theorem proper_applyEntry {delta : EnvironmentDelta} (h : Proper delta) (entry : ShellEnvEntry) :
    Proper (delta.applyEntry entry) := by
  intro name hname
  cases entry with
  | Set other value =>
    obtain ⟨hother, hunset⟩ := Std.ExtTreeSet.mem_erase.mp hname
    have hset := h name hunset
    simp only [EnvironmentDelta.applyEntry, Std.ExtTreeMap.getElem?_insert, hset]
    rw [if_neg hother]
  | Unset other =>
    simp only [EnvironmentDelta.applyEntry, Std.ExtTreeMap.getElem?_erase]
    split
    · rfl
    · rename_i hother
      rcases Std.ExtTreeSet.mem_insert.mp hname with hsame | hunset
      · exact absurd hsame hother
      · exact h name hunset

theorem proper_fromEntries (entries : List ShellEnvEntry) :
    Proper (EnvironmentDelta.fromEntries entries) := by
  have hfoldl (delta : EnvironmentDelta) (h : Proper delta) :
      Proper (entries.foldl EnvironmentDelta.applyEntry delta) := by
    induction entries generalizing delta with
    | nil => exact h
    | cons entry entries ih => exact ih _ (proper_applyEntry h entry)
  exact hfoldl _ fun name hname => by simp at hname

theorem valueAt_eraseAll (names : List String) (values : Std.ExtTreeMap String EnvValue)
    (name : String) :
    valueAt (names.foldl (fun values name => values.erase name) values) name =
      if name ∈ names then none else valueAt values name := by
  induction names generalizing values with
  | nil => simp
  | cons other names ih =>
    rw [List.foldl_cons, ih]
    by_cases hname : name = other
    · simp [hname, valueAt]
    · simp [hname, valueAt, Std.ExtTreeMap.getElem?_erase, Ne.symm hname]

theorem setVariable_local {provider : String} {sensitivity : Sensitivity} {path_mode : PathMode} :
    Local (setVariable provider sensitivity path_mode) Prod.fst valueAt := by
  intro values entry next h name hname
  unfold setVariable at h
  split at h
  · obtain ⟨value, -, h⟩ := bind_ok_iff.mp h
    rw [← Except.ok.inj h, valueAt_insert_of_ne hname]
  · rw [← Except.ok.inj h, valueAt_insert_of_ne hname]

/-- PATH after a provider: its entries in front of the others, or alone. -/
def providerPath (path_mode : PathMode) (write : Write String) (current : Option String) :
    Option String :=
  match write with
  | .keep => current
  | .unset => none
  | .set value =>
    match path_mode with
    | .Replace => some value
    | .Merge => some (String.intercalate ":" (providerEntries current value))

theorem pathOf_eq {path_mode : PathMode} {current : Option String} {value result : String}
    (h : pathOf path_mode current value = .ok result) :
    some result = providerPath path_mode (.set value) current := by
  cases path_mode with
  | Merge =>
    rw [pathOf, mergeProviderPath_eq] at h
    rw [← Except.ok.inj h]
    rfl
  | Replace =>
    rw [← Except.ok.inj h]
    rfl

/-- The value of a name after a delta. -/
theorem valueAt_applyProviderDelta {delta : EnvironmentDelta} {provider : String}
    {sensitivity : Sensitivity} {path_mode : PathMode} {left : MaterializedEnv}
    (hproper : Proper delta)
    (h : applyProviderDelta environment delta provider sensitivity path_mode = .ok left)
    (name : String) :
    valueAt left.values name =
      if name = "PATH" then
        providerPath path_mode (deltaWrite delta "PATH") (valueAt environment.values "PATH")
      else (deltaWrite delta name).on (valueAt environment.values name) := by
  obtain ⟨values, hvalues, h⟩ := bind_ok_iff.mp h
  obtain ⟨⟨⟩, -, h⟩ := bind_ok_iff.mp h
  obtain rfl := Except.ok.inj h
  dsimp only
  have hkept := valueAt_eraseAll delta.unset.toList environment.values name
  simp only [Std.ExtTreeSet.mem_toList] at hkept
  cases hset : delta.set[name]? with
  | none =>
    rw [setVariable_local.of_notMem hvalues (tree_maps.notMem_toList hset), hkept]
    by_cases hname : name = "PATH"
    · subst hname
      rw [if_pos rfl, deltaWrite, hset]
      dsimp only
      split <;> rfl
    · rw [if_neg hname, deltaWrite, hset]
      dsimp only
      split <;> rfl
  | some value =>
    have hunset : name ∉ delta.unset := fun hin => by simp [hproper name hin] at hset
    rw [if_neg hunset] at hkept
    obtain ⟨before, after, hsplit, hbefore, hafter⟩ := tree_maps.toList_at hset
    rw [hsplit] at hvalues
    obtain ⟨middle, next, -, hstep, hmiddle, hfinal⟩ :=
      setVariable_local.of_mem hvalues hbefore hafter
    rw [hfinal]
    unfold setVariable at hstep
    by_cases hname : name = "PATH"
    · subst hname
      rw [if_pos rfl] at hstep
      obtain ⟨path, hpath, hnext⟩ := bind_ok_iff.mp hstep
      rw [if_pos rfl, ← Except.ok.inj hnext, valueAt_insert_self, deltaWrite, hset]
      have hcurrent : valueAt middle "PATH" = valueAt environment.values "PATH" :=
        hmiddle.trans hkept
      rw [← hcurrent]
      exact pathOf_eq hpath
    · rw [if_neg hname] at hstep
      rw [if_neg hname, ← Except.ok.inj hstep, valueAt_insert_self, deltaWrite, hset]
      rfl

end dev_env_core
