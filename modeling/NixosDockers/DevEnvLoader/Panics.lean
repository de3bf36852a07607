-- When a load panics: which of its writes comes to a path that goes through
-- something else than a table, and which of them never do.
import NixosDockers.DevEnvLoader.Load
import NixosDockers.DevEnvLoader.Frame
import NixosDockers.ProfileGraph.Applied

open rust_text documents dev_env_model profile_graph results

namespace dev_env_loader

/-! ## A write that panics -/

def Failure.IsPanic : Failure → Prop
  | .Panic _ => True
  | .Error _ => False

/-- Something else than a table is in the way of the path. -/
def Blocked (root : Table) (path : String) : Prop := ¬ Doc.Passable (splitChar '.' path) root

variable {context : MergeContext} {merged : MergedConfig} {source : ProfileSource}
  {policy : PolicyConfig} {path : String}

theorem not_panics_error {α : Type} (error : LoaderError) :
    ¬ Fails Failure.IsPanic (.error (.Error error) : Except Failure α) := by
  rw [fails_error_iff]
  exact id

/-- Nothing is in the way of a path that leads to a value. -/
theorem not_blocked_of_getPath {root : Table} {value : Value} (h : getPath root path = some value) :
    ¬ Blocked root path := by
  refine not_not.mpr fun front hfront habove hne doc hdoc => ?_
  obtain ⟨rest, hrest⟩ := habove
  unfold getPath at h
  rw [← hrest] at h
  have hrestne : rest ≠ [] := by
    rintro rfl
    exact hne (by rw [← hrest, List.append_nil])
  obtain ⟨inner, hinner⟩ := Doc.table_of_lookup_append h hfront hrestne
  exact ⟨inner, Option.some.inj (hdoc.symm.trans hinner)⟩

namespace MergedConfig

theorem write_panics_iff {value : Value} {origin : Origin} {sensitivity : Sensitivity} :
    Fails Failure.IsPanic (merged.write path value origin sensitivity) ↔
      Blocked merged.root path := by
  have hput := @Doc.exists_put_iff _ _ _ _ merged.root value _ _ (splitChar_ne_nil '.' path)
  unfold Blocked write setPath
  rw [← hput]
  cases Doc.put value (splitChar '.' path) merged.root with
  | some root => exact iff_of_false (not_fails_ok _) (not_not.mpr ⟨root, rfl⟩)
  | none => exact iff_of_true ⟨_, rfl, trivial⟩ fun ⟨_, h⟩ => nomatch h

theorem policy_not_panics : ¬ Fails Failure.IsPanic merged.policy := by
  unfold MergedConfig.policy
  cases merged.root.get "policy" with
  | none => exact not_fails_ok _
  | some value =>
    dsimp only
    cases PolicyConfig.ofValue value with
    | some policy => exact not_fails_ok _
    | none => exact not_panics_error _

/-! ## Declarations -/

theorem reject_not_panics {incoming : Value} :
    ¬ Fails Failure.IsPanic (merged.rejectUntrustedProviderAddition path incoming source) := by
  unfold rejectUntrustedProviderAddition
  split_ifs
  · exact not_fails_ok _
  · split
    · exact not_fails_ok _
    · split_ifs
      · exact not_panics_error _
      · exact not_fails_ok _

theorem reject_trusted {incoming : Value} (h : source.source.isTrusted = true) :
    merged.rejectUntrustedProviderAddition path incoming source = .ok () := by
  unfold rejectUntrustedProviderAddition
  rw [h]
  rfl

theorem mergeDifferent_not_panics {existing incoming : Value}
    (h : getPath merged.root path = some existing) :
    ¬ Fails Failure.IsPanic (merged.mergeDifferent context path incoming) := by
  unfold mergeDifferent
  dsimp only
  split_ifs
  · rw [write_panics_iff]
    exact not_blocked_of_getPath h
  · exact not_panics_error _
  · exact not_panics_error _
  · exact not_panics_error _

/-- A declaration is made: no override owns its path, and no check refuses it. -/
def Declares (context : MergeContext) (incoming : Value) (path : String) (merged : MergedConfig) :
    Prop :=
  ¬ context.overrides.contains path = true ∧
    merged.rejectUntrustedProviderAddition path incoming context.source = .ok ()

mutual

/-- A declaration, or one in it, comes to a path with something in the way. -/
def DeclareBlocked (context : MergeContext) : Value → String → MergedConfig → Prop
  | .Scalar value, path, merged =>
    Declares context (.Scalar value) path merged ∧ Blocked merged.root path
  | .Array items, path, merged =>
    Declares context (.Array items) path merged ∧ Blocked merged.root path
  | .Table table, path, merged => Declares context (.Table table) path merged ∧
      (Blocked merged.root path ∨
        (∃ entries, getPath merged.root path = some (.Table entries)) ∧
          EntriesBlocked context table path merged)

def EntriesBlocked (context : MergeContext) :
    List (String × Value) → String → MergedConfig → Prop
  | [], _, _ => False
  | (key, value) :: rest, path, merged =>
    DeclareBlocked context value s!"{path}.{key}" merged ∨
      After (mergePath context value s!"{path}.{key}" merged)
        fun merged => EntriesBlocked context rest path merged

end

theorem not_declareBlocked {incoming : Value} (h : ¬ Declares context incoming path merged) :
    ¬ DeclareBlocked context incoming path merged := by
  cases incoming <;> rw [DeclareBlocked] <;> exact fun hblocked => h hblocked.1

theorem declareBlocked_of_missing {incoming : Value} (h : Declares context incoming path merged)
    (hget : getPath merged.root path = none) :
    DeclareBlocked context incoming path merged ↔ Blocked merged.root path := by
  cases incoming with
  | Table table =>
    rw [DeclareBlocked]
    simp [h, hget]
  | Scalar value => rw [DeclareBlocked]; exact and_iff_right h
  | Array items => rw [DeclareBlocked]; exact and_iff_right h

/-- A declaration that meets a value has nothing in the way, unless both of them are tables. -/
theorem not_declareBlocked_of_present {incoming existing : Value}
    (hget : getPath merged.root path = some existing)
    (hshape : ∀ entries table, incoming = .Table table → existing = .Table entries → False) :
    ¬ DeclareBlocked context incoming path merged := by
  have hopen := not_blocked_of_getPath hget
  cases incoming with
  | Table table =>
    rw [DeclareBlocked]
    rintro ⟨-, hblocked | ⟨⟨entries, hentries⟩, -⟩⟩
    · exact hopen hblocked
    · rw [hget] at hentries
      exact hshape entries table rfl (Option.some.inj hentries)
  | Scalar value => rw [DeclareBlocked]; exact fun h => hopen h.2
  | Array items => rw [DeclareBlocked]; exact fun h => hopen h.2

theorem mergeEntries_cons (key : String) (value : Value) (rest : List (String × Value)) :
    mergeEntries context ((key, value) :: rest) path merged =
      mergePath context value s!"{path}.{key}" merged >>= mergeEntries context rest path := by
  rw [mergeEntries]
  cases mergePath context value s!"{path}.{key}" merged <;> rfl

/-- A declaration panics exactly when it, or one in it, comes to a missing path with something in
the way. -/
theorem mergePath_panics_iff {incoming : Value} :
    Fails Failure.IsPanic (mergePath context incoming path merged) ↔
      DeclareBlocked context incoming path merged := by
  refine mergePath.induct context
    (fun incoming path merged => Fails Failure.IsPanic (mergePath context incoming path merged) ↔
      DeclareBlocked context incoming path merged)
    (fun entries path merged => Fails Failure.IsPanic (mergeEntries context entries path merged) ↔
      EntriesBlocked context entries path merged)
    ?overridden ?rejected ?absent ?tables ?same ?different ?done ?failed ?next
    incoming path merged
  case overridden =>
    intro incoming path merged howned
    rw [mergePath, if_pos howned]
    exact iff_of_false (not_fails_ok _) (not_declareBlocked fun h => h.1 howned)
  case rejected =>
    intro incoming path merged howned failure hreject
    have hnot : ¬ Fails Failure.IsPanic
        (merged.rejectUntrustedProviderAddition path incoming context.source) := reject_not_panics
    rw [hreject] at hnot
    rw [mergePath, if_neg howned, hreject]
    refine iff_of_false (fails_error_iff.not.mpr (fails_error_iff.not.mp hnot))
      (not_declareBlocked fun h => ?_)
    rw [Declares, hreject] at h
    cases h.2
  case absent =>
    intro path merged howned incoming hget hreject
    rw [declareBlocked_of_missing ⟨howned, hreject⟩ hget, mergePath, if_neg howned, hreject]
    simp only [hget]
    exact write_panics_iff
  case tables =>
    intro path merged howned entries table hget hreject ih
    rw [DeclareBlocked, mergePath, if_neg howned, hreject]
    simp only [hget]
    rw [ih]
    constructor
    · intro h
      exact ⟨⟨howned, hreject⟩, Or.inr ⟨⟨entries, rfl⟩, h⟩⟩
    · rintro ⟨-, hblocked | ⟨-, h⟩⟩
      · exact absurd hblocked (not_blocked_of_getPath hget)
      · exact h
  case same =>
    intro path merged howned existing incoming hshape hget hsame hreject
    rw [mergePath_existing howned hreject hget hshape, if_pos hsame]
    exact iff_of_false (not_fails_ok _) (not_declareBlocked_of_present hget hshape)
  case different =>
    intro path merged howned existing incoming hshape hget hsame hreject
    rw [mergePath_existing howned hreject hget hshape, if_neg hsame]
    exact iff_of_false (mergeDifferent_not_panics hget) (not_declareBlocked_of_present hget hshape)
  case done =>
    intro path merged
    rw [mergeEntries, EntriesBlocked]
    exact iff_of_false (not_fails_ok _) id
  case failed =>
    intro key value rest path merged failure hfirst ih
    rw [mergeEntries_cons, fails_bind_iff, ih, EntriesBlocked, hfirst]
    refine or_congr_right (iff_of_false ?_ ?_)
    · rintro ⟨_, ⟨⟩, _⟩
    · rintro ⟨_, ⟨⟩, _⟩
  case next =>
    intro key value rest path merged middle hfirst ihfirst ihrest
    rw [mergeEntries_cons, fails_bind_iff, ihfirst, EntriesBlocked, hfirst]
    refine or_congr_right ?_
    rw [after_ok_iff, after_ok_iff, ihrest]

/-- The entries of a section, each at its path. -/
def SectionBlocked (context : MergeContext) (table : List (String × Value)) (start : String)
    (merged : MergedConfig) : Prop :=
  LoopMeets
    (fun entry merged =>
      mergePath context entry.2 (if start = "" then entry.1 else s!"{start}.{entry.1}") merged)
    (fun entry merged =>
      DeclareBlocked context entry.2 (if start = "" then entry.1 else s!"{start}.{entry.1}") merged)
    table merged

theorem mergeTable_panics_iff {table : List (String × Value)} {start : String} :
    Fails Failure.IsPanic (mergeTable context table start merged) ↔
      SectionBlocked context table start merged := by
  refine fails_loop_iff (fun table => mergeTable context table start) (fun _ => rfl)
    (fun entry rest merged => ?_) fun entry _ merged => mergePath_panics_iff
  obtain ⟨key, value⟩ := entry
  rw [mergeTable]
  dsimp only
  cases mergePath context value (if start = "" then key else s!"{start}.{key}") merged <;> rfl

theorem mergeSection_panics_iff {table : Option Table} {start : String} :
    Fails Failure.IsPanic (mergeSection context table start merged) ↔
      ∃ entries, table = some entries ∧ SectionBlocked context entries start merged := by
  cases table with
  | none => exact iff_of_false (not_fails_ok _) fun ⟨_, h, _⟩ => nomatch h
  | some entries =>
    rw [mergeSection, mergeTable_panics_iff]
    exact ⟨fun h => ⟨entries, rfl, h⟩, fun ⟨_, heq, h⟩ => Option.some.inj heq ▸ h⟩

/-! ## Overrides -/

/-- The values of an override can be written as TOML. -/
def Representable (path : String) (spec : OverrideSpec) : Prop :=
  match spec.op with
  | .Set => ∃ tree value, spec.value = some tree ∧ valueTreeToToml path tree = .ok value
  | _ => ∃ values, itemsToToml path spec.values = .ok values

/-- An override that writes comes to a path with something in the way. -/
def OverrideBlocked (merged : MergedConfig) (path : String) (spec : OverrideSpec) : Prop :=
  spec.op ≠ .Unset ∧ spec.op ≠ .Remove ∧ Representable path spec ∧ Blocked merged.root path

mutual

theorem valueTreeToToml_not_panics :
    ∀ tree : ValueTree, ¬ Fails Failure.IsPanic (valueTreeToToml path tree)
  | .Scalar value => by
    cases value with
    | Null => exact not_panics_error _
    | Bool value => exact not_fails_ok _
    | Integer value => exact not_fails_ok _
    | Float value => exact not_fails_ok _
    | String value => exact not_fails_ok _
  | .Array items => by
    rw [valueTreeToToml, fails_map_iff]
    exact itemsToToml_not_panics items
  | .Table entries => by
    rw [valueTreeToToml, fails_map_iff]
    exact entriesToToml_not_panics entries

theorem itemsToToml_not_panics :
    ∀ items : List ValueTree, ¬ Fails Failure.IsPanic (itemsToToml path items)
  | [] => not_fails_ok _
  | item :: rest => by
    have hitem := valueTreeToToml_not_panics item
    have hrest := itemsToToml_not_panics rest
    rw [itemsToToml]
    cases hfirst : valueTreeToToml path item with
    | error error =>
      rw [hfirst, fails_error_iff] at hitem
      exact fails_error_iff.not.mpr hitem
    | ok value =>
      cases hothers : itemsToToml path rest with
      | error error =>
        rw [hothers, fails_error_iff] at hrest
        exact fails_error_iff.not.mpr hrest
      | ok values => exact not_fails_ok _

theorem entriesToToml_not_panics :
    ∀ entries : List (String × ValueTree), ¬ Fails Failure.IsPanic (entriesToToml path entries)
  | [] => not_fails_ok _
  | (key, value) :: rest => by
    have hvalue := valueTreeToToml_not_panics value
    have hrest := entriesToToml_not_panics rest
    rw [entriesToToml]
    cases hfirst : valueTreeToToml path value with
    | error error =>
      rw [hfirst, fails_error_iff] at hvalue
      exact fails_error_iff.not.mpr hvalue
    | ok value =>
      cases hothers : entriesToToml path rest with
      | error error =>
        rw [hothers, fails_error_iff] at hrest
        exact fails_error_iff.not.mpr hrest
      | ok values => exact not_fails_ok _

end

/-- A checked override that sets has a value. -/
theorem value_of_checked {spec : OverrideSpec} (h : spec.validate path = .ok ())
    (hop : spec.op = .Set) : ∃ tree, spec.value = some tree := by
  simp only [OverrideSpec.validate, throw_eq, error_bind, ite_error_ok_iff, bind_ok_iff] at h
  obtain ⟨_, _, _, _, hoperation, _⟩ := h
  unfold OverrideSpec.validateOperation at hoperation
  rw [hop] at hoperation
  dsimp only at hoperation
  split_ifs at hoperation with hbad
  cases hvalue : spec.value with
  | some tree => exact ⟨tree, rfl⟩
  | none => simp [hvalue] at hbad

theorem applyArray_panics_iff {op : OverrideOperation} {values : List Value} {origin : Origin} :
    Fails Failure.IsPanic (merged.applyArray path op values origin) ↔
      op ≠ .Remove ∧ Blocked merged.root path := by
  unfold applyArray
  cases hget : getPath merged.root path with
  | none =>
    dsimp only
    split_ifs with hremove
    · exact iff_of_false (not_fails_ok _) fun h => h.1 hremove
    · rw [write_panics_iff]
      exact (and_iff_right hremove).symm
  | some existing =>
    have hopen := not_blocked_of_getPath hget
    refine iff_of_false ?_ fun h => hopen h.2
    cases existing with
    | Array current => rw [write_panics_iff]; exact hopen
    | Scalar value => exact not_panics_error _
    | Table entries => exact not_panics_error _

theorem applyOverride_array {spec : OverrideSpec} (hset : spec.op ≠ .Set) (hunset : spec.op ≠ .Unset) :
    merged.applyOverride path spec source = itemsToToml path spec.values >>= fun values =>
      merged.applyArray path spec.op values (source.origin source.id (some spec.reason)) := by
  unfold applyOverride
  cases hop : spec.op <;> simp_all

theorem applyOverride_panics_iff {spec : OverrideSpec} (hchecked : spec.validate path = .ok ()) :
    Fails Failure.IsPanic (merged.applyOverride path spec source) ↔
      OverrideBlocked merged path spec := by
  unfold OverrideBlocked Representable
  by_cases hset : spec.op = .Set
  · obtain ⟨tree, htree⟩ := value_of_checked hchecked hset
    unfold applyOverride
    simp only [hset, htree]
    rw [fails_bind_iff, or_iff_right (valueTreeToToml_not_panics tree)]
    simp only [write_panics_iff, after_const_iff]
    simp
  · by_cases hunset : spec.op = .Unset
    · unfold applyOverride
      simp only [hunset]
      exact iff_of_false (not_fails_ok _) fun h => h.1 rfl
    · rw [applyOverride_array hset hunset, fails_bind_iff,
        or_iff_right (itemsToToml_not_panics spec.values)]
      simp only [applyArray_panics_iff, after_const_iff]
      cases hop : spec.op <;> simp_all [and_comm]

theorem permission_not_panics {profile : String} :
    ¬ Fails Failure.IsPanic (validateOverridePermission path source policy profile) := by
  unfold validateOverridePermission
  split_ifs
  · exact not_fails_ok _
  · split
    split_ifs
    · exact not_fails_ok _
    · exact not_panics_error _

/-- The loop over the overrides of a profile comes to one with something in the way. -/
def OverridesBlocked (source : ProfileSource) (policy : PolicyConfig) (profile : String)
    (overrides : List (String × OverrideSpec)) (merged : MergedConfig) : Prop :=
  LoopMeets
    (fun entry merged => do
      validateOverridePermission entry.1 source policy profile
      merged.applyOverride entry.1 entry.2 source)
    (fun entry merged => validateOverridePermission entry.1 source policy profile = .ok () ∧
      OverrideBlocked merged entry.1 entry.2)
    overrides merged

theorem applyOverrides_panics_iff {profile : String} {overrides : List (String × OverrideSpec)}
    (hchecked : ∀ entry ∈ overrides, entry.2.validate entry.1 = .ok ()) :
    Fails Failure.IsPanic (applyOverrides source policy profile overrides merged) ↔
      OverridesBlocked source policy profile overrides merged := by
  refine fails_loop_iff (applyOverrides source policy profile) (fun _ => rfl)
    (fun entry rest merged => ?_) fun entry hentry merged => ?_
  · obtain ⟨path, spec⟩ := entry
    rw [applyOverrides]
    dsimp only
    cases validateOverridePermission path source policy profile <;> rfl
  · rw [fails_bind_iff, or_iff_right permission_not_panics, after_unit_iff,
      applyOverride_panics_iff (hchecked entry hentry)]

/-! ## Profiles -/

theorem permissions_not_panic {profile : RawProfile} :
    ¬ Fails Failure.IsPanic (validateSourcePermissions profile source) := by
  unfold validateSourcePermissions
  dsimp only
  split_ifs
  · exact not_fails_ok _
  · exact not_panics_error _
  · exact not_panics_error _
  · split
    · exact not_panics_error _
    · exact not_fails_ok _

def PolicyBlocked (merged : MergedConfig) (profile : RawProfile) (source : ProfileSource) : Prop :=
  ∃ table, profile.table "policy" = some table ∧ After merged.policy fun policy =>
    SectionBlocked ⟨source, profile.overrides, policy⟩ table "policy" merged

theorem mergePolicy_panics_iff {profile : RawProfile} :
    Fails Failure.IsPanic (merged.mergePolicy profile source) ↔
      PolicyBlocked merged profile source := by
  unfold mergePolicy PolicyBlocked
  cases profile.table "policy" with
  | none => exact iff_of_false (not_fails_ok _) fun ⟨_, h, _⟩ => nomatch h
  | some table =>
    dsimp only
    rw [fails_bind_iff, or_iff_right policy_not_panics]
    simp only [mergeTable_panics_iff]
    exact ⟨fun h => ⟨table, rfl, h⟩, fun ⟨_, heq, h⟩ => Option.some.inj heq ▸ h⟩

/-- A part of a profile comes to a path with something in the way: its policy, its configuration,
its inputs or its overrides, in this order. -/
def ProfileBlocked (merged : MergedConfig) (profile : RawProfile) (source : ProfileSource) : Prop :=
  validateSourcePermissions profile source = .ok () ∧
    (PolicyBlocked merged profile source ∨
      After (merged.mergePolicy profile source) fun merged => After merged.policy fun policy =>
        (∃ table, profile.table "config" = some table ∧
          SectionBlocked ⟨source, profile.overrides, policy⟩ table "" merged) ∨
        After (mergeSection ⟨source, profile.overrides, policy⟩ (profile.table "config") "" merged)
          fun merged =>
            (∃ table, profile.table "inputs" = some table ∧
              SectionBlocked ⟨source, profile.overrides, policy⟩ table "inputs" merged) ∨
            After (mergeSection ⟨source, profile.overrides, policy⟩ (profile.table "inputs")
              "inputs" merged) fun merged =>
                OverridesBlocked source policy profile.id profile.overrides.toList merged)

theorem mergeProfile_panics_iff {profile : RawProfile} :
    Fails Failure.IsPanic (merged.mergeProfile profile source) ↔
      ProfileBlocked merged profile source := by
  have hchecked : ∀ entry ∈ profile.overrides.toList, entry.2.validate entry.1 = .ok () := by
    intro entry hentry
    exact profile.overrides_checked entry.1 entry.2
      (Std.ExtTreeMap.mem_toList_iff_getElem?_eq_some.mp hentry)
  unfold mergeProfile ProfileBlocked
  rw [fails_bind_iff, or_iff_right permissions_not_panic, after_unit_iff, fails_bind_iff,
    mergePolicy_panics_iff]
  simp only [fails_bind_iff, policy_not_panics, mergeSection_panics_iff,
    applyOverrides_panics_iff hchecked, false_or]

end MergedConfig

/-! ## Sources -/

theorem mergeSource_panics_iff {parsed : ParsedSource} {progress : Progress} :
    Fails Failure.IsPanic (mergeSource parsed progress) ↔
      progress.merged.ProfileBlocked parsed.profile parsed.source := by
  unfold mergeSource
  rw [fails_bind_iff, MergedConfig.mergeProfile_panics_iff]
  exact or_iff_left fun ⟨_, _, h⟩ => not_fails_ok _ h

/-- The loop over the overlays comes to one with something in the way. -/
def SourcesBlocked (sources : List ParsedSource) (progress : Progress) : Prop :=
  LoopMeets applySource
    (fun parsed progress => parsed.profile.id = parsed.source.id ∧
      progress.merged.ProfileBlocked parsed.profile parsed.source)
    sources progress

theorem applySources_panics_iff {sources : List ParsedSource} {progress : Progress} :
    Fails Failure.IsPanic (applySources sources progress) ↔ SourcesBlocked sources progress := by
  refine fails_loop_iff applySources (fun _ => rfl) (fun _ _ _ => rfl) fun parsed _ progress => ?_
  unfold applySource
  split_ifs with hid
  · exact iff_of_false (not_panics_error _) fun h => hid h.1
  · rw [mergeSource_panics_iff]
    exact (and_iff_right (not_not.mp hid)).symm

/-! ## Runtime values -/

namespace RuntimeInputApplier

theorem suppliedBy_not_panics {environment : RuntimeEnvironment} {name : String}
    {candidates : List String} {supplied : Option (String × String)} :
    ¬ Fails Failure.IsPanic (suppliedBy environment name candidates supplied) := by
  induction candidates generalizing supplied with
  | nil => exact not_fails_ok _
  | cons candidate rest ih =>
    unfold suppliedBy
    split
    · exact ih
    · exact ih
    · split_ifs
      · exact not_panics_error _
      · exact ih

theorem setRuntimeValue_panics_iff {merged : MergedConfig} {path : String} {value : ValueTree}
    {origin : Origin} {sensitivity : Sensitivity} :
    Fails Failure.IsPanic (merged.setRuntimeValue path value origin sensitivity) ↔
      (∃ written, valueTreeToToml path value = .ok written) ∧ Blocked merged.root path := by
  unfold MergedConfig.setRuntimeValue
  rw [fails_bind_iff, or_iff_right (MergedConfig.valueTreeToToml_not_panics value)]
  simp only [MergedConfig.write_panics_iff, after_const_iff]

theorem parsedInputValue_representable (path : String) (parsed : ParsedInput) :
    ∃ written, valueTreeToToml path (parsedInputValue parsed) = .ok written := by
  cases parsed <;> exact ⟨_, rfl⟩

theorem modelFailure_not_panics {α : Type} (x : Except ModelError α) :
    ¬ Fails Failure.IsPanic (x.mapError modelFailure) := by
  rw [fails_mapError_iff]
  rintro ⟨_, _, h⟩
  exact h

/-- A supplied input has something in the way of its target. -/
def InputBlocked (environment : RuntimeEnvironment) (name : String) (input : InputSpec)
    (merged : MergedConfig) : Prop :=
  input.runtime = true ∧ ∃ environment_name raw_value parsed,
    suppliedBy environment name (name :: input.export_as.toList) none =
      .ok (some (environment_name, raw_value)) ∧
    input.parseRuntimeValueNamed environment_name raw_value = .ok parsed ∧
    Blocked merged.root input.target

/-- A value that is parsed and put at a path. -/
theorem parsedValue_panics_iff {x : Except ModelError ParsedInput} {merged : MergedConfig}
    {path : String} {origin : Origin} {sensitivity : Sensitivity} :
    Fails Failure.IsPanic (x.mapError modelFailure >>= fun parsed =>
        merged.setRuntimeValue path (parsedInputValue parsed) origin sensitivity) ↔
      (∃ parsed, x = .ok parsed) ∧ Blocked merged.root path := by
  rw [fails_bind_iff, or_iff_right (modelFailure_not_panics x)]
  simp only [setRuntimeValue_panics_iff, parsedInputValue_representable, true_and,
    after_const_iff, mapError_ok_iff]

theorem applyInput_panics_iff {environment : RuntimeEnvironment} {name : String}
    {input : InputSpec} {merged : MergedConfig} :
    Fails Failure.IsPanic (applyInput environment name input merged) ↔
      InputBlocked environment name input merged := by
  unfold applyInput InputBlocked
  by_cases hruntime : input.runtime = true
  · simp only [hruntime, Bool.not_true, Bool.false_eq_true, if_false, true_and]
    rw [fails_bind_iff, or_iff_right suppliedBy_not_panics]
    constructor
    · rintro ⟨_ | ⟨environment_name, raw_value⟩, hsupplied, hfails⟩
      · exact absurd hfails (not_fails_ok _)
      · obtain ⟨⟨parsed, hparsed⟩, hblocked⟩ := parsedValue_panics_iff.mp hfails
        exact ⟨environment_name, raw_value, parsed, hsupplied, hparsed, hblocked⟩
    · rintro ⟨environment_name, raw_value, parsed, hsupplied, hparsed, hblocked⟩
      exact ⟨_, hsupplied, parsedValue_panics_iff.mpr ⟨⟨parsed, hparsed⟩, hblocked⟩⟩
  · simp only [hruntime, Bool.not_false, if_true]
    exact iff_of_false (not_fails_ok _) fun h => Bool.false_ne_true h.1

/-- A variable that names the target of a declared input has something in the way of it. -/
def VariableBlocked (config : ResolvedConfig) (name raw_value : String) (merged : MergedConfig) :
    Prop :=
  ∃ raw path input parsed, stripStart name "DEVENV_OVERRIDE__" = some raw ∧
    namespacePath raw = .ok path ∧ config.policy.allowsWorkspaceOverride path = true ∧
    inputAt config path = some input ∧
    input.parseRuntimeValueNamed name raw_value = .ok parsed ∧ Blocked merged.root path

theorem namespacePath_not_panics (raw : String) : ¬ Fails Failure.IsPanic (namespacePath raw) := by
  unfold namespacePath
  dsimp only
  split_ifs
  · exact not_panics_error _
  · exact not_fails_ok _

theorem overrideValue_not_panics {config : ResolvedConfig} {name path raw_value : String}
    {merged : MergedConfig} :
    ¬ Fails Failure.IsPanic (overrideValue config name path raw_value merged) := by
  unfold overrideValue
  split
  · rw [fails_map_iff]
    exact modelFailure_not_panics _
  · split_ifs
    · exact not_fails_ok _
    · exact not_panics_error _
    · exact not_fails_ok _

/-- A value for a path that is no target of an input is only put where there is one. -/
theorem overrideValue_blocked_iff {config : ResolvedConfig} {name path raw_value : String}
    {merged : MergedConfig} :
    (∃ value written, overrideValue config name path raw_value merged = .ok (some value) ∧
      valueTreeToToml path value = .ok written ∧ Blocked merged.root path) ↔
    ∃ input parsed, inputAt config path = some input ∧
      input.parseRuntimeValueNamed name raw_value = .ok parsed ∧ Blocked merged.root path := by
  unfold overrideValue
  cases hinput : inputAt config path with
  | some input =>
    simp only [map_ok_iff, mapError_ok_iff]
    constructor
    · rintro ⟨value, written, ⟨parsed, hparsed, -⟩, -, hblocked⟩
      exact ⟨input, parsed, rfl, hparsed, hblocked⟩
    · rintro ⟨_, parsed, heq, hparsed, hblocked⟩
      obtain rfl := Option.some.inj heq
      obtain ⟨written, hwritten⟩ := parsedInputValue_representable path parsed
      exact ⟨_, written, ⟨parsed, hparsed, rfl⟩, hwritten, hblocked⟩
  | none =>
    refine iff_of_false ?_ fun ⟨_, _, h, _⟩ => nomatch h
    rintro ⟨value, written, hvalue, -, hblocked⟩
    unfold MergedConfig.valueAt at hvalue
    cases hget : getPath merged.root path with
    | none =>
      rw [hget] at hvalue
      simp only [Option.isNone_none, if_true] at hvalue
      split_ifs at hvalue
      all_goals cases hvalue
    | some existing => exact not_blocked_of_getPath hget hblocked

theorem namedValue_panics_iff {config : ResolvedConfig} {name path raw_value : String}
    {merged : MergedConfig} {origin : Origin} :
    Fails Failure.IsPanic (do
        match ← overrideValue config name path raw_value merged with
        | none => pure merged
        | some value => merged.setRuntimeValue path value origin .Public) ↔
      ∃ input parsed, inputAt config path = some input ∧
        input.parseRuntimeValueNamed name raw_value = .ok parsed ∧ Blocked merged.root path := by
  rw [fails_bind_iff, or_iff_right overrideValue_not_panics, ← overrideValue_blocked_iff]
  constructor
  · rintro ⟨_ | value, hvalue, hfails⟩
    · exact absurd hfails (not_fails_ok _)
    · obtain ⟨⟨written, hwritten⟩, hblocked⟩ := setRuntimeValue_panics_iff.mp hfails
      exact ⟨value, written, hvalue, hwritten, hblocked⟩
  · rintro ⟨value, written, hvalue, hwritten, hblocked⟩
    exact ⟨some value, hvalue, setRuntimeValue_panics_iff.mpr ⟨⟨written, hwritten⟩, hblocked⟩⟩

theorem applyOverride_panics_iff {config : ResolvedConfig} {name raw_value : String}
    {merged : MergedConfig} :
    Fails Failure.IsPanic (applyOverride config name raw_value merged) ↔
      VariableBlocked config name raw_value merged := by
  unfold applyOverride VariableBlocked
  cases hraw : stripStart name "DEVENV_OVERRIDE__" with
  | none => exact iff_of_false (not_fails_ok _) fun ⟨_, _, _, _, h, _⟩ => nomatch h
  | some raw =>
    dsimp only
    rw [fails_bind_iff, or_iff_right (namespacePath_not_panics raw)]
    constructor
    · rintro ⟨path, hpath, hfails⟩
      by_cases hallowed : config.policy.allowsWorkspaceOverride path = true
      · simp only [hallowed, Bool.not_true, Bool.false_eq_true, if_false] at hfails
        obtain ⟨input, parsed, hinput, hparsed, hblocked⟩ := namedValue_panics_iff.mp hfails
        exact ⟨raw, path, input, parsed, rfl, hpath, hallowed, hinput, hparsed, hblocked⟩
      · simp only [hallowed, Bool.not_false, if_true] at hfails
        split_ifs at hfails
        · exact absurd hfails (not_fails_ok _)
        · exact absurd hfails (not_panics_error _)
    · rintro ⟨_, path, input, parsed, heq, hpath, hallowed, hinput, hparsed, hblocked⟩
      obtain rfl := Option.some.inj heq
      refine ⟨path, hpath, ?_⟩
      simp only [hallowed, Bool.not_true, Bool.false_eq_true, if_false]
      exact namedValue_panics_iff.mpr ⟨input, parsed, hinput, hparsed, hblocked⟩

/-- The values of an environment come to a path with something in the way. -/
def RuntimeBlocked (schema : ConfigSchema) (environment : RuntimeEnvironment)
    (merged : MergedConfig) : Prop :=
  After (merged.configSnapshot schema) fun config =>
    LoopMeets (fun entry merged => applyInput environment entry.1 entry.2 merged)
        (fun entry merged => InputBlocked environment entry.1 entry.2 merged)
        config.inputs.toList merged ∨
      After (applyInputs environment config.inputs.toList merged) fun merged =>
        LoopMeets (fun entry merged => applyOverride config entry.1 entry.2 merged)
          (fun entry merged => VariableBlocked config entry.1 entry.2 merged)
          environment.toList merged

theorem decode_not_panics {schema : ConfigSchema} {merged : MergedConfig} {location : String} :
    ¬ Fails Failure.IsPanic (merged.decode schema location) := by
  unfold MergedConfig.decode
  split
  · exact not_panics_error _
  · dsimp only
    split
    · exact not_fails_ok _
    · exact not_panics_error _

theorem apply_panics_iff {schema : ConfigSchema} {environment : RuntimeEnvironment}
    {merged : MergedConfig} :
    Fails Failure.IsPanic (apply schema environment merged) ↔
      RuntimeBlocked schema environment merged := by
  have hinputs : ∀ {inputs : List (String × InputSpec)} {merged : MergedConfig},
      Fails Failure.IsPanic (applyInputs environment inputs merged) ↔
        LoopMeets (fun entry merged => applyInput environment entry.1 entry.2 merged)
          (fun entry merged => InputBlocked environment entry.1 entry.2 merged) inputs merged :=
    fun {_ _} => fails_loop_iff (applyInputs environment) (fun _ => rfl) (fun _ _ _ => rfl)
      fun _ _ _ => applyInput_panics_iff
  have hvariables : ∀ {config : ResolvedConfig} {values : List (String × String)}
      {merged : MergedConfig}, Fails Failure.IsPanic (applyOverrides config values merged) ↔
        LoopMeets (fun entry merged => applyOverride config entry.1 entry.2 merged)
          (fun entry merged => VariableBlocked config entry.1 entry.2 merged) values merged :=
    fun {config _ _} => fails_loop_iff (applyOverrides config) (fun _ => rfl) (fun _ _ _ => rfl)
      fun _ _ _ => applyOverride_panics_iff
  unfold apply RuntimeBlocked
  rw [fails_bind_iff, or_iff_right]
  · simp only [fails_bind_iff, hinputs, hvariables]
  · exact decode_not_panics

end RuntimeInputApplier

/-! ## Whole loads -/

theorem registerInputName_not_panics {names : Std.ExtTreeMap String String} {name owner : String} :
    ¬ Fails Failure.IsPanic (registerInputName names name owner) := by
  unfold registerInputName
  split
  · split_ifs
    · exact not_panics_error _
    · exact not_fails_ok _
  · exact not_fails_ok _

theorem validateInputNames_not_panics {config : ResolvedConfig} :
    ¬ Fails Failure.IsPanic (validateInputNames config) := by
  unfold validateInputNames
  rw [fails_bind_iff, not_or]
  refine ⟨not_fails_foldlM fun _ _ => registerInputName_not_panics, ?_⟩
  rintro ⟨names, _, hfails⟩
  rw [fails_bind_iff] at hfails
  rcases hfails with hfails | ⟨_, _, hfails⟩
  · exact not_fails_foldlM (fun _ _ => registerInputName_not_panics) hfails
  · exact not_fails_ok _ hfails

theorem validateInputTargets_not_panics {config : ResolvedConfig} {root : Table} :
    ¬ Fails Failure.IsPanic (validateInputTargets config root) := by
  unfold validateInputTargets
  split
  · exact not_panics_error _
  · exact not_fails_ok _

theorem finish_not_panics {schema : ConfigSchema} {merged : MergedConfig}
    {chain : List LoadedProfile} : ¬ Fails Failure.IsPanic (merged.finish schema chain) := by
  unfold MergedConfig.finish
  split
  · exact not_panics_error _
  · simp only [fails_bind_iff, RuntimeInputApplier.decode_not_panics,
      validateInputNames_not_panics, validateInputTargets_not_panics, false_or]
    rintro ⟨config, _, _, _, _, _, hfails⟩
    exact not_fails_ok _ hfails

/-- A patch of the command line has something in the way of its path. -/
def PatchBlocked (patch : CliPatch) (merged : MergedConfig) : Prop :=
  patch.spec.validate patch.path = .ok () ∧ After merged.policy fun policy =>
    policy.allowsCliOverride patch.path = true ∧ merged.OverrideBlocked patch.path patch.spec

theorem applyCliPatch_panics_iff {patch : CliPatch} {merged : MergedConfig} :
    Fails Failure.IsPanic (merged.applyCliPatch patch.path patch.spec) ↔
      PatchBlocked patch merged := by
  unfold MergedConfig.applyCliPatch PatchBlocked
  rw [fails_bind_iff, or_iff_right, after_unit_iff, mapError_ok_iff]
  · refine and_congr_right fun hchecked => ?_
    rw [fails_bind_iff, or_iff_right MergedConfig.policy_not_panics]
    refine after_congr fun policy => ?_
    by_cases hallowed : policy.allowsCliOverride patch.path = true
    · simp only [hallowed, Bool.not_true, Bool.false_eq_true, if_false, true_and]
      exact MergedConfig.applyOverride_panics_iff hchecked
    · simp only [hallowed, Bool.not_false, if_true]
      exact iff_of_false (not_panics_error _) fun h => Bool.false_ne_true h.1
  · rw [fails_mapError_iff]
    rintro ⟨_, _, h⟩
    exact h

def PatchesBlocked (schema : ConfigSchema) (patches : List CliPatch) (loaded : LoadedConfig) : Prop :=
  After (MergedConfig.fromConfig schema loaded.config) fun merged =>
    LoopMeets (fun patch merged => merged.applyCliPatch patch.path patch.spec) PatchBlocked
      patches merged

theorem fromConfig_not_panics {schema : ConfigSchema} {config : ResolvedConfig} :
    ¬ Fails Failure.IsPanic (MergedConfig.fromConfig schema config) := by
  unfold MergedConfig.fromConfig
  split
  · exact not_panics_error _
  · exact not_fails_ok _

theorem applyCliPatches_panics_iff {schema : ConfigSchema} {patches : List CliPatch}
    {loaded : LoadedConfig} :
    Fails Failure.IsPanic (ProfileLoader.applyCliPatches schema patches loaded) ↔
      PatchesBlocked schema patches loaded := by
  unfold ProfileLoader.applyCliPatches PatchesBlocked
  rw [fails_bind_iff, or_iff_right fromConfig_not_panics]
  refine after_congr fun merged => ?_
  rw [fails_bind_iff, or_iff_left fun ⟨_, _, hfails⟩ => finish_not_panics hfails]
  exact fails_loop_iff applyPatches (fun _ => rfl) (fun _ _ _ => rfl)
    fun _ _ _ => applyCliPatch_panics_iff

namespace ProfileLoader

variable {loader : ProfileLoader} {schema : ConfigSchema} {depth : ℕ} {profile_id : String}
  {environment : RuntimeInputApplier.RuntimeEnvironment} {overlays : List ParsedSource}

/-- A profile, an overlay or a runtime value of a load comes to a path with something in the way. -/
def InternalBlocked (loader : ProfileLoader) (schema : ConfigSchema) (depth : ℕ)
    (profile_id : String) (environment : RuntimeInputApplier.RuntimeEnvironment)
    (overlays : List ParsedSource) : Prop :=
  TraverseMeets loader.loadProfile applyProfile
      (fun _ parsed progress => progress.merged.ProfileBlocked parsed.profile parsed.source)
      depth profile_id ⟨MergedConfig.default, []⟩ ∨
    ∃ progress, traverse depth loader.loadProfile applyProfile profile_id
        ⟨MergedConfig.default, []⟩ = some (.ok progress) ∧
      (SourcesBlocked loader.overlays progress ∨
        After (applySources loader.overlays progress) fun progress =>
          SourcesBlocked overlays progress ∨
            After (applySources overlays progress) fun progress =>
              RuntimeInputApplier.RuntimeBlocked schema environment progress.merged)

/-- Some write of a load comes to a path with something in the way. -/
def LoadBlocked (loader : ProfileLoader) (schema : ConfigSchema) (depth : ℕ) (profile_id : String)
    (overlays : List ParsedSource) (environment : RuntimeInputApplier.RuntimeEnvironment)
    (patches : List CliPatch) : Prop :=
  loader.InternalBlocked schema depth profile_id environment overlays ∨
    ∃ loaded, loader.loadInternal schema depth profile_id environment overlays =
      some (.ok loaded) ∧ PatchesBlocked schema patches loaded

theorem loadProfile_not_panics (loader : ProfileLoader) (id : String) :
    ¬ Fails Failure.IsPanic (loader.loadProfile id) := by
  unfold loadProfile
  split
  · exact not_fails_ok _
  · split_ifs
    · exact not_panics_error _
    · exact not_fails_ok _

/-- It ended in a panic. -/
def Panics {α : Type} (result : Option (Except Failure α)) : Prop :=
  ∃ message, result = some (.error (.Panic message))

theorem panics_some_iff {α : Type} {result : Except Failure α} :
    Panics (some result) ↔ Fails Failure.IsPanic result := by
  constructor
  · rintro ⟨message, h⟩
    exact ⟨_, Option.some.inj h, trivial⟩
  · rintro ⟨failure, rfl, hpanic⟩
    cases failure with
    | Panic message => exact ⟨message, rfl⟩
    | Error error => cases hpanic

theorem mapGraphError_panics_iff {error : TraverseError Failure} :
    (mapGraphError error).IsPanic ↔ ∃ failure, error = .Source failure ∧ failure.IsPanic := by
  cases error with
  | Source failure =>
    exact ⟨fun h => ⟨failure, rfl, h⟩, fun ⟨_, heq, h⟩ => TraverseError.Source.inj heq ▸ h⟩
  | Graph error => cases error <;> exact iff_of_false id fun ⟨_, h, _⟩ => nomatch h

theorem loadInternal_panics_iff :
    Panics (loader.loadInternal schema depth profile_id environment overlays) ↔
      loader.InternalBlocked schema depth profile_id environment overlays := by
  unfold loadInternal InternalBlocked
  have happly : ∀ id parsed progress, Fails Failure.IsPanic (applyProfile id parsed progress) ↔
      progress.merged.ProfileBlocked parsed.profile parsed.source :=
    fun _ _ _ => mergeSource_panics_iff
  rw [← traverse_fails_iff (loader.loadProfile_not_panics) happly]
  unfold FailsInSource
  cases traverse depth loader.loadProfile applyProfile profile_id ⟨MergedConfig.default, []⟩ with
  | none => simp [Panics]
  | some traversed =>
    rw [Option.map_some, panics_some_iff, fails_bind_iff, fails_mapError_iff]
    cases traversed with
    | error error =>
      have hafter : ∀ made, ¬ After ((.error error :
          Except (TraverseError Failure) Progress).mapError mapGraphError) made :=
        fun _ ⟨_, h, _⟩ => nomatch h
      rw [fails_error_iff, mapGraphError_panics_iff, or_iff_left (hafter _)]
      simp
    | ok progress =>
      have hsource : ¬ ∃ failure, (some (.ok progress) :
          Option (Except (TraverseError Failure) Progress)) = some (.error (.Source failure)) ∧
            failure.IsPanic := fun ⟨_, h, _⟩ => nomatch h
      have hmapped : (.ok progress : Except (TraverseError Failure) Progress).mapError
        mapGraphError = .ok progress := rfl
      rw [or_iff_right (not_fails_ok _), or_iff_right hsource, hmapped, after_ok_iff]
      simp only [fails_bind_iff, applySources_panics_iff, RuntimeInputApplier.apply_panics_iff,
        finish_not_panics, after_const_iff, and_false, or_false]
      constructor
      · intro h
        exact ⟨progress, rfl, h⟩
      · rintro ⟨_, heq, h⟩
        obtain rfl := Except.ok.inj (Option.some.inj heq)
        exact h

/-- A load panics exactly when some write of it comes to a path that goes through something else than
a table. -/
theorem panics_iff_blocked (loader : ProfileLoader) (schema : ConfigSchema) (depth : ℕ)
    (profile_id : String) (overlays : List ParsedSource)
    (environment : RuntimeInputApplier.RuntimeEnvironment) (patches : List CliPatch) :
    Panics (loader.loadWithOverlaysRuntimeAndCli schema depth profile_id overlays environment
      patches) ↔
    loader.LoadBlocked schema depth profile_id overlays environment patches := by
  unfold loadWithOverlaysRuntimeAndCli LoadBlocked
  rw [← loadInternal_panics_iff]
  cases loader.loadInternal schema depth profile_id environment overlays with
  | none => simp [Panics]
  | some result =>
    rw [Option.map_some, panics_some_iff, panics_some_iff]
    change Fails Failure.IsPanic (result >>= applyCliPatches schema patches) ↔ _
    rw [fails_bind_iff]
    simp only [applyCliPatches_panics_iff, Option.some.injEq]
    rfl

end ProfileLoader

end dev_env_loader
