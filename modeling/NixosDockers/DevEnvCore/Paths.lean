-- PATH as the materializer splits, joins and edits it (`environment.rs`).
import NixosDockers.DevEnvModel.EnvironmentPath
import NixosDockers.DevEnvModel.Materialized

open rust_text results dev_env_model

namespace dev_env_core

/-! ## Errors -/

inductive ContextError where
  | UnknownShell (shell : String)
  | Invalid
  deriving DecidableEq, Repr

/-- `CoreError`. What stands behind a failed provider is left to its supervisor. -/
inductive CoreError where
  | Model (error : ModelError)
  | Context (error : ContextError)
  | ConfigTree
  | Fingerprint
  | Provider (provider : String)
  | PathJoin
  deriving DecidableEq, Repr

/-! ## Splitting and joining -/

/-- `Environment::split_path`. -/
def splitPath (value : String) : List String :=
  if value = "" then [] else splitChar ':' value

/-- `env::join_paths`: an entry must be free of the separator. -/
def joinPath (values : List String) : Except CoreError String :=
  if values.any (hasChar · ':') then .error .PathJoin
  else .ok (String.intercalate ":" values)

/-- `Environment::merge_provider_path`. -/
def mergeProviderPath (current : Option String) (provider_path : String) :
    Except CoreError String :=
  joinPath ((splitPath provider_path ++ (current.map splitPath).getD []).foldl
    (fun values path => if values.any (· = path) then values else values ++ [path]) [])

/-- `Environment::provenance`: the origin and the sensitivity of a configured value. -/
def provenance (config : ResolvedConfig) (path : String) : Option Origin × Sensitivity :=
  match config.provenance[path]? with
  | some entry => (entry.origins.getLast?, entry.sensitivity)
  | none =>
    let fallbacks :=
      if path = "environment.path.prepend" then
        ["environment.path.append", "environment.path.remove", "environment.variables.PATH"]
      else []
    match fallbacks.findSome? (config.provenance[·]?) with
    | some entry => (entry.origins.getLast?, entry.sensitivity)
    | none => (none, .Public)

/-- `Environment::apply_configured_path`. -/
def applyConfiguredPath (config : ResolvedConfig) (values : Std.ExtTreeMap String EnvValue) :
    Except CoreError (Std.ExtTreeMap String EnvValue) := do
  let path := config.environment.path
  if path.prepend.isEmpty && path.append.isEmpty && path.remove.isEmpty then return values
  let inherited := (values["PATH"]?.map fun value => splitPath value.value).getD []
  let resolved ← (path.resolve inherited).mapError .Model
  let path_value ← joinPath resolved
  let (origin, sensitivity) := provenance config "environment.path.prepend"
  return values.insert "PATH" ⟨path_value, origin, sensitivity, none⟩

/-! ## What is split again -/

/-- What a joined PATH splits to: a PATH whose only entry is empty is the empty PATH, and that
one has no entries. -/
def joined (entries : List String) : List String := if entries = [""] then [] else entries

/-- Every entry of the list is free of the separator. -/
def Joinable (entries : List String) : Prop := ∀ entry ∈ entries, ':' ∉ entry.toList

theorem joinable_splitPath (value : String) : Joinable (splitPath value) := by
  unfold splitPath
  by_cases hempty : value = ""
  · rw [if_pos hempty]
    intro entry hentry
    cases hentry
  · rw [if_neg hempty]
    exact fun entry hentry => free_of_mem_splitChar hentry

theorem Joinable.append {left right : List String} (hleft : Joinable left)
    (hright : Joinable right) : Joinable (left ++ right) := by
  intro entry hentry
  rcases List.mem_append.mp hentry with hentry | hentry
  · exact hleft entry hentry
  · exact hright entry hentry

theorem Joinable.eraseDups {entries : List String} (h : Joinable entries) :
    Joinable entries.eraseDups :=
  fun entry hentry => h entry (List.mem_eraseDups.mp hentry)

theorem hasChar_eq_true_iff {s : String} {c : Char} : hasChar s c = true ↔ c ∈ s.toList := by
  simp [hasChar]

theorem joinPath_eq_error {entries : List String} {entry : String} (hentry : entry ∈ entries)
    (hcolon : ':' ∈ entry.toList) : joinPath entries = .error .PathJoin := by
  have hany : entries.any (hasChar · ':') = true :=
    List.any_eq_true.mpr ⟨entry, hentry, hasChar_eq_true_iff.mpr hcolon⟩
  unfold joinPath
  rw [if_pos hany]

/-- Entries without a separator are joined, and the result splits to them. -/
theorem Joinable.joinPath_ok {entries : List String} (h : Joinable entries) :
    joinPath entries = .ok (String.intercalate ":" entries) ∧
      splitPath (String.intercalate ":" entries) = joined entries := by
  have hany : ¬ entries.any (hasChar · ':') = true := by
    intro hany
    obtain ⟨entry, hentry, hcolon⟩ := List.any_eq_true.mp hany
    exact h entry hentry (hasChar_eq_true_iff.mp hcolon)
  constructor
  · unfold joinPath
    rw [if_neg hany]
  · by_cases hnil : entries = []
    · subst hnil
      rfl
    · have hsplit : splitChar ':' (String.intercalate ":" entries) = entries :=
        splitChar_intercalate hnil h
      unfold splitPath joined
      by_cases hempty : String.intercalate ":" entries = ""
      · have hone : entries = [""] := by
          rw [← hsplit, hempty]
          rfl
        rw [if_pos hempty, if_pos hone]
      · have hother : entries ≠ [""] := by
          rintro rfl
          exact hempty rfl
        rw [if_neg hempty, if_neg hother, hsplit]

/-! ## The configured PATH -/

/-- The entries of the PATH that a process inherits. -/
def inheritedEntries (values : Std.ExtTreeMap String EnvValue) : List String :=
  (values["PATH"]?.map fun value => splitPath value.value).getD []

theorem joinable_inheritedEntries (values : Std.ExtTreeMap String EnvValue) :
    Joinable (inheritedEntries values) := by
  unfold inheritedEntries
  cases values["PATH"]? with
  | none =>
    intro entry hentry
    cases hentry
  | some value => exact joinable_splitPath value.value

/-- The configuration names some entry of PATH. -/
def EditsPath (path : EnvironmentPath) : Prop :=
  path.prepend ≠ [] ∨ path.append ≠ [] ∨ path.remove ≠ []

/-- The entries that stand in PATH because the configuration adds them have no separator. -/
def AddsJoinable (path : EnvironmentPath) : Prop :=
  ∀ entry ∈ path.prepend ++ path.append, entry ∉ path.remove → ':' ∉ entry.toList

theorem applyConfiguredPath_eq {config : ResolvedConfig}
    {values : Std.ExtTreeMap String EnvValue} (hedits : EditsPath config.environment.path)
    (hvalid : config.environment.path.validate = .ok ()) :
    applyConfiguredPath config values =
      (joinPath (config.environment.path.entries (inheritedEntries values))).map fun value =>
        values.insert "PATH" ⟨value, (provenance config "environment.path.prepend").1,
          (provenance config "environment.path.prepend").2, none⟩ := by
  have hsome : ¬ (config.environment.path.prepend.isEmpty &&
      config.environment.path.append.isEmpty && config.environment.path.remove.isEmpty) = true := by
    unfold EditsPath at hedits
    simp only [Bool.and_eq_true, List.isEmpty_iff]
    tauto
  unfold applyConfiguredPath
  dsimp only
  rw [if_neg hsome, EnvironmentPath.resolve_eq hvalid]
  unfold inheritedEntries
  generalize config.environment.path.entries _ = entries
  rw [show Except.mapError CoreError.Model (.ok entries) = .ok entries from rfl, ok_bind]
  cases joinPath entries <;> rfl

/-- The value that the configuration gives PATH. -/
def configuredPath (config : ResolvedConfig) (values : Std.ExtTreeMap String EnvValue) :
    EnvValue where
  value := String.intercalate ":" (config.environment.path.entries (inheritedEntries values))
  origin := (provenance config "environment.path.prepend").1
  sensitivity := (provenance config "environment.path.prepend").2
  provider := none

theorem AddsJoinable.entries {path : EnvironmentPath} (h : AddsJoinable path)
    {inherited : List String} (hinherited : Joinable inherited) :
    Joinable (path.entries inherited) := by
  intro entry hentry
  unfold EnvironmentPath.entries at hentry
  rw [List.mem_eraseDups, List.mem_filter] at hentry
  obtain ⟨hin, hkept⟩ := hentry
  have hkept : entry ∉ path.remove := of_decide_eq_true hkept
  rcases List.mem_append.mp hin with hin | happend
  · rcases List.mem_append.mp hin with hprepend | hin
    · exact h entry (List.mem_append_left _ hprepend) hkept
    · exact hinherited entry hin
  · exact h entry (List.mem_append_right _ happend) hkept

theorem mem_entries_of_added {path : EnvironmentPath} {inherited : List String} {entry : String}
    (hentry : entry ∈ path.prepend ++ path.append) (hkept : entry ∉ path.remove) :
    entry ∈ path.entries inherited := by
  unfold EnvironmentPath.entries
  rw [List.mem_eraseDups, List.mem_filter]
  refine ⟨?_, decide_eq_true hkept⟩
  rcases List.mem_append.mp hentry with hentry | hentry
  · exact List.mem_append_left _ (List.mem_append_left _ hentry)
  · exact List.mem_append_right _ hentry

/-- Empty texts come down to at most one. -/
theorem intercalate_blanks {entries : List String} (h : ∀ entry ∈ entries, entry = "") :
    String.intercalate ":" entries.eraseDups = "" := by
  cases entries with
  | nil => rfl
  | cons entry entries =>
    obtain rfl := h entry (by simp)
    have hnone : (entries.filter fun other => !other == "") = [] := by
      rw [List.filter_eq_nil_iff]
      intro other hother
      simp [h other (List.mem_cons_of_mem _ hother)]
    rw [List.eraseDups_cons, hnone]
    rfl

/-- An empty entry that stands alone is not met again, and nothing else is lost. -/
theorem entries_joined (path : EnvironmentPath) (inherited : List String) :
    String.intercalate ":" (path.entries (joined (path.entries inherited))) =
      String.intercalate ":" (path.entries inherited) := by
  unfold joined
  by_cases hblank : path.entries inherited = [""]
  · rw [if_pos hblank, hblank]
    apply intercalate_blanks
    intro entry hentry
    have hin : entry ∈ path.entries inherited := by
      unfold EnvironmentPath.entries
      rw [List.mem_eraseDups]
      rw [List.mem_filter] at hentry ⊢
      refine ⟨?_, hentry.2⟩
      rcases List.mem_append.mp hentry.1 with hprepend | happend
      · rw [List.append_nil] at hprepend
        exact List.mem_append_left _ (List.mem_append_left _ hprepend)
      · exact List.mem_append_right _ happend
    rw [hblank] at hin
    exact List.mem_singleton.mp hin
  · rw [if_neg hblank, EnvironmentPath.entries_entries]

/-- Joinable entries are put into PATH. -/
theorem applyConfiguredPath_ok {config : ResolvedConfig}
    {values : Std.ExtTreeMap String EnvValue} (hedits : EditsPath config.environment.path)
    (hvalid : config.environment.path.validate = .ok ())
    (hadds : AddsJoinable config.environment.path) :
    applyConfiguredPath config values = .ok (values.insert "PATH" (configuredPath config values)) := by
  rw [applyConfiguredPath_eq hedits hvalid,
    (hadds.entries (joinable_inheritedEntries values)).joinPath_ok.1]
  rfl

/-- A PATH that was edited is edited to itself. -/
theorem configuredPath_again {config : ResolvedConfig} {values : Std.ExtTreeMap String EnvValue}
    (hadds : AddsJoinable config.environment.path) :
    configuredPath config (values.insert "PATH" (configuredPath config values)) =
      configuredPath config values := by
  have hsplit := (hadds.entries (joinable_inheritedEntries values)).joinPath_ok.2
  have hinherited : inheritedEntries (values.insert "PATH" (configuredPath config values)) =
      joined (config.environment.path.entries (inheritedEntries values)) := by
    unfold inheritedEntries
    rw [Std.ExtTreeMap.getElem?_insert_self, Option.map_some, Option.getD_some]
    exact hsplit
  unfold configuredPath at hinherited ⊢
  rw [hinherited, entries_joined]

/-! ## The PATH of a provider -/

/-- The entries of a provider in front of the current ones, each at its first place. -/
def providerEntries (current : Option String) (provider_path : String) : List String :=
  (splitPath provider_path ++ (current.map splitPath).getD []).eraseDups

theorem joinable_providerEntries (current : Option String) (provider_path : String) :
    Joinable (providerEntries current provider_path) := by
  apply Joinable.eraseDups
  apply (joinable_splitPath provider_path).append
  cases current with
  | none =>
    intro entry hentry
    cases hentry
  | some current => exact joinable_splitPath current

theorem mergeProviderPath_eq (current : Option String) (provider_path : String) :
    mergeProviderPath current provider_path =
      .ok (String.intercalate ":" (providerEntries current provider_path)) := by
  have hpush : (fun (values : List String) path =>
      if values.any (· = path) then values else values ++ [path]) = occurrences.push := by
    funext values path
    unfold occurrences.push
    by_cases hin : path ∈ values <;> simp [hin]
  unfold mergeProviderPath
  rw [hpush, occurrences.foldl_push_nil]
  exact (joinable_providerEntries current provider_path).joinPath_ok.1

theorem mergeProviderPath_again (current : Option String) (provider_path : String) :
    mergeProviderPath (some (String.intercalate ":" (providerEntries current provider_path)))
        provider_path =
      .ok (String.intercalate ":" (providerEntries current provider_path)) := by
  have hagain : providerEntries
      (some (String.intercalate ":" (providerEntries current provider_path))) provider_path =
      (splitPath provider_path ++ joined (providerEntries current provider_path)).eraseDups := by
    rw [← (joinable_providerEntries current provider_path).joinPath_ok.2]
    rfl
  rw [mergeProviderPath_eq, hagain]
  congr 1
  unfold joined
  by_cases hblank : providerEntries current provider_path = [""]
  · rw [if_pos hblank, hblank, List.append_nil]
    apply intercalate_blanks
    intro entry hentry
    have hin : entry ∈ providerEntries current provider_path := by
      unfold providerEntries
      exact List.mem_eraseDups.mpr (List.mem_append_left _ hentry)
    rw [hblank] at hin
    exact List.mem_singleton.mp hin
  · rw [if_neg hblank]
    unfold providerEntries
    rw [occurrences.eraseDups_prepend]

/-! ## The law of the structured PATH -/

/-- A checked structured PATH with some entry is refused when it adds an entry with a separator.
Otherwise PATH splits to its entries, nothing else changes, and applying it again changes nothing
of PATH. The PATH of a provider is always merged, splits to its entries in front of the others,
and may be merged again. -/
theorem structured_path :
    (∀ (config : ResolvedConfig) (values : Std.ExtTreeMap String EnvValue),
      config.environment.path.validate = .ok () → EditsPath config.environment.path →
      (¬ AddsJoinable config.environment.path →
        applyConfiguredPath config values = .error .PathJoin) ∧
      (AddsJoinable config.environment.path → ∃ next value,
        applyConfiguredPath config values = .ok next ∧ next["PATH"]? = some value ∧
        (∀ name ≠ "PATH", next[name]? = values[name]?) ∧
        splitPath value.value =
          joined (config.environment.path.entries (inheritedEntries values)) ∧
        applyConfiguredPath config next = .ok (next.insert "PATH" value))) ∧
    ∀ (current : Option String) (provider_path : String), ∃ value,
      mergeProviderPath current provider_path = .ok value ∧
      splitPath value = joined (providerEntries current provider_path) ∧
      mergeProviderPath (some value) provider_path = .ok value := by
  constructor
  · intro config values hvalid hedits
    constructor
    · intro hadds
      unfold AddsJoinable at hadds
      push Not at hadds
      obtain ⟨entry, hentry, hkept, hcolon⟩ := hadds
      rw [applyConfiguredPath_eq hedits hvalid,
        joinPath_eq_error (mem_entries_of_added hentry hkept) hcolon]
      rfl
    · intro hadds
      refine ⟨_, configuredPath config values, applyConfiguredPath_ok hedits hvalid hadds,
        Std.ExtTreeMap.getElem?_insert_self, ?_,
        (hadds.entries (joinable_inheritedEntries values)).joinPath_ok.2, ?_⟩
      · intro name hname
        rw [Std.ExtTreeMap.getElem?_insert, if_neg]
        exact fun h => hname (Std.LawfulEqOrd.eq_of_compare h).symm
      · rw [applyConfiguredPath_ok hedits hvalid hadds, configuredPath_again hadds]
  · intro current provider_path
    exact ⟨_, mergeProviderPath_eq current provider_path,
      (joinable_providerEntries current provider_path).joinPath_ok.2,
      mergeProviderPath_again current provider_path⟩

/-- A configuration that says nothing but how PATH is edited. -/
def pathConfig (path : EnvironmentPath) : ResolvedConfig where
  shell_default := "sh"
  shells := ["sh"]
  environment := ⟨true, .Locked, ∅, ∅, path⟩
  features := .Table []
  providers := ∅
  inputs := ∅
  policy := PolicyConfig.default
  provenance := ∅

/-- A checked entry may hold the separator, and an empty entry may be left alone. -/
theorem checked_path_may_not_split :
    ((pathConfig ⟨["/a:b"], [], []⟩).environment.path.validate = .ok () ∧
      applyConfiguredPath (pathConfig ⟨["/a:b"], [], []⟩) ∅ = .error .PathJoin) ∧
    (∃ next, (pathConfig ⟨[], [], ["/x"]⟩).environment.path.validate = .ok () ∧
      applyConfiguredPath (pathConfig ⟨[], [], ["/x"]⟩)
        ((∅ : Std.ExtTreeMap String EnvValue).insert "PATH" ⟨":", none, .Public, none⟩) = .ok next ∧
      (next["PATH"]?.map fun value => splitPath value.value) = some [] ∧
      EnvironmentPath.entries ⟨[], [], ["/x"]⟩ (splitPath ":") = [""]) := by
  have hcolon : (pathConfig ⟨["/a:b"], [], []⟩).environment.path.validate = .ok () :=
    ok_of_toOption (by decide)
  have hremove : (pathConfig ⟨[], [], ["/x"]⟩).environment.path.validate = .ok () :=
    ok_of_toOption (by decide)
  have hfirst : EditsPath (pathConfig ⟨["/a:b"], [], []⟩).environment.path :=
    Or.inl (List.cons_ne_nil _ _)
  have hsecond : EditsPath (pathConfig ⟨[], [], ["/x"]⟩).environment.path :=
    Or.inr (Or.inr (List.cons_ne_nil _ _))
  refine ⟨⟨hcolon, ?_⟩, _, hremove, applyConfiguredPath_ok hsecond hremove ?_, ?_, ?_⟩
  · have hentry : "/a:b" ∈ (pathConfig ⟨["/a:b"], [], []⟩).environment.path.entries
        (inheritedEntries ∅) := by decide
    rw [applyConfiguredPath_eq hfirst hcolon, joinPath_eq_error hentry (by decide)]
    rfl
  · intro entry hentry
    cases hentry
  · decide
  · decide

end dev_env_core
