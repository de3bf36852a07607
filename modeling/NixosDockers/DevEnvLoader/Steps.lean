-- What a merge does to its state, one change at a time: the declarations of a
-- profile add what is missing, and its overrides put or drop what is at their
-- paths.
import NixosDockers.DevEnvLoader.Merge

open rust_text documents dev_env_model results

namespace dev_env_loader

theorem splitChar_below (path key : String) :
    splitChar '.' s!"{path}.{key}" = splitChar '.' path ++ splitChar '.' key :=
  splitChar_append '.' path key

/-- The path leads to the keys, or to something above them. -/
def AtOrUnder (path : String) (keys : List String) : Prop := splitChar '.' path <+: keys

namespace MergedConfig

variable {context : MergeContext} {within : String → Prop} {merged merged' : MergedConfig}
  {source : ProfileSource} {policy : PolicyConfig} {profile : RawProfile}

/-! ## Declarations -/

/-- One change that a declaration makes at one of the paths: a value is added where there is none,
one origin more is recorded of a value that is there, or a trusted value takes the place of another
one. -/
inductive DeclareStep (context : MergeContext) (within : String → Prop)
    (merged merged' : MergedConfig) : Prop
  | Added (path : String) (incoming : Value) (path_within : within path)
    (provider : merged.rejectUntrustedProviderAddition path incoming context.source = .ok ())
    (absent : getPath merged.root path = none)
    (written : merged.write path incoming (context.source.origin context.source.id none) .Public =
      .ok merged')
  | Recorded (path : String) (incoming : Value)
    (recorded : merged' =
      merged.record path incoming (context.source.origin context.source.id none) .Public)
  | Preferred (path : String) (incoming : Value) (path_within : within path)
    (prefer : context.policy.merge = .PreferChild) (trusted : context.source.source.isTrusted = true)
    (written : merged.write path incoming (context.source.origin context.source.id none) .Public =
      .ok merged')

theorem DeclareStep.mono {within' : String → Prop} (h : DeclareStep context within merged merged')
    (hsub : ∀ path, within path → within' path) : DeclareStep context within' merged merged' := by
  cases h with
  | Added path incoming hpath provider absent written =>
    exact .Added path incoming (hsub path hpath) provider absent written
  | Recorded path incoming recorded => exact .Recorded path incoming recorded
  | Preferred path incoming hpath prefer trusted written =>
    exact .Preferred path incoming (hsub path hpath) prefer trusted written

/-- The changes of declarations, one after another. -/
abbrev DeclareRun (context : MergeContext) (within : String → Prop) :
    MergedConfig → MergedConfig → Prop :=
  Relation.ReflTransGen (DeclareStep context within)

theorem DeclareRun.mono {within' : String → Prop} (h : DeclareRun context within merged merged')
    (hsub : ∀ path, within path → within' path) : DeclareRun context within' merged merged' :=
  Relation.ReflTransGen.mono (fun _ _ hstep => DeclareStep.mono hstep hsub) _ _ h

theorem mergeDifferent_ok {path : String} {incoming : Value}
    (h : merged.mergeDifferent context path incoming = .ok merged') :
    context.policy.merge = .PreferChild ∧ context.source.source.isTrusted = true ∧
      merged.write path incoming (context.source.origin context.source.id none) .Public =
        .ok merged' := by
  unfold mergeDifferent at h
  split_ifs at h with hprefer
  exact ⟨hprefer.1, hprefer.2, h⟩

/-- A declaration that meets a value, not both of them tables. -/
theorem mergePath_existing {path : String} {existing incoming : Value}
    (howned : ¬ context.overrides.contains path = true)
    (hreject : merged.rejectUntrustedProviderAddition path incoming context.source = .ok ())
    (hget : getPath merged.root path = some existing)
    (hshape : ∀ entries table, incoming = .Table table → existing = .Table entries → False) :
    mergePath context incoming path merged =
      if Value.same existing incoming then
        .ok (merged.record path incoming (context.source.origin context.source.id none) .Public)
      else merged.mergeDifferent context path incoming := by
  rw [mergePath, if_neg howned, hreject]
  simp only [hget]

/-- A declaration only changes what is at its path or below it. -/
theorem mergePath_run {incoming : Value} {path : String}
    (h : mergePath context incoming path merged = .ok merged') :
    DeclareRun context (fun other => splitChar '.' path <+: splitChar '.' other) merged merged' := by
  refine mergePath.induct context
    (fun incoming path merged => ∀ merged', mergePath context incoming path merged = .ok merged' →
      DeclareRun context (fun other => splitChar '.' path <+: splitChar '.' other) merged merged')
    (fun entries path merged => ∀ merged', mergeEntries context entries path merged = .ok merged' →
      DeclareRun context (fun other => splitChar '.' path <+: splitChar '.' other) merged merged')
    ?overridden ?rejected ?absent ?tables ?same ?different ?done ?failed ?next
    incoming path merged merged' h
  case overridden =>
    intro incoming path merged howned merged' h
    rw [mergePath, if_pos howned] at h
    obtain rfl := Except.ok.inj h
    exact .refl
  case rejected =>
    intro incoming path merged howned failure hreject merged' h
    rw [mergePath, if_neg howned, hreject] at h
    cases h
  case absent =>
    intro path merged howned incoming hget hreject merged' h
    rw [mergePath, if_neg howned, hreject] at h
    simp only [hget] at h
    exact .single (.Added path incoming List.prefix_rfl hreject hget h)
  case tables =>
    intro path merged howned entries table hget hreject ih merged' h
    rw [mergePath, if_neg howned, hreject] at h
    simp only [hget] at h
    exact ih merged' h
  case same =>
    intro path merged howned existing incoming hshape hget hsame hreject merged' h
    rw [mergePath_existing howned hreject hget hshape, if_pos hsame] at h
    obtain rfl := Except.ok.inj h
    exact .single (.Recorded path incoming rfl)
  case different =>
    intro path merged howned existing incoming hshape hget hsame hreject merged' h
    rw [mergePath_existing howned hreject hget hshape, if_neg hsame] at h
    obtain ⟨hprefer, htrusted, hwrite⟩ := mergeDifferent_ok h
    exact .single (.Preferred path incoming List.prefix_rfl hprefer htrusted hwrite)
  case done =>
    intro path merged merged' h
    obtain rfl := Except.ok.inj h
    exact .refl
  case failed =>
    intro key value rest path merged failure hfirst _ merged' h
    rw [mergeEntries] at h
    simp only [hfirst] at h
    cases h
  case next =>
    intro key value rest path merged middle hfirst ihfirst ihrest merged' h
    rw [mergeEntries] at h
    simp only [hfirst] at h
    refine .trans ((ihfirst middle hfirst).mono fun other hother => ?_) (ihrest merged' h)
    have hbelow : splitChar '.' path <+: splitChar '.' s!"{path}.{key}" := by
      rw [splitChar_below]
      exact List.prefix_append ..
    exact hbelow.trans hother

/-- What the sections of a profile change is at the paths of their keys or below them. -/
theorem mergeTable_run {table : List (String × Value)} {start : String}
    (h : mergeTable context table start merged = .ok merged') :
    DeclareRun context (fun other => ∃ key ∈ Entries.keys table,
      splitChar '.' (if start = "" then key else s!"{start}.{key}") <+: splitChar '.' other)
      merged merged' := by
  induction table generalizing merged with
  | nil =>
    obtain rfl := Except.ok.inj h
    exact .refl
  | cons entry rest ih =>
    obtain ⟨key, value⟩ := entry
    unfold mergeTable at h
    split at h
    · cases h
    · rename_i middle hfirst
      have hrun := (mergePath_run hfirst).mono fun other hother =>
        (⟨key, List.mem_cons_self, hother⟩ : ∃ first ∈ Entries.keys ((key, value) :: rest),
          splitChar '.' (if start = "" then first else s!"{start}.{first}") <+: splitChar '.' other)
      refine .trans hrun (DeclareRun.mono (ih h) fun other hother => ?_)
      obtain ⟨first, hfirst, hother⟩ := hother
      exact ⟨first, List.mem_cons_of_mem key hfirst, hother⟩

/-! ## Overrides -/

/-- What one override makes of the tree. -/
inductive RootChange (path : String) (root root' : Table) : Prop
  | Put (value : Value) (written : setPath root path value = .ok root')
  | Dropped (dropped : root' = removePath root path)
  | Same (same : root' = root)

theorem write_ok {path : String} {value : Value} {origin : Origin} {sensitivity : Sensitivity}
    (h : merged.write path value origin sensitivity = .ok merged') :
    setPath merged.root path value = .ok merged'.root := by
  unfold write at h
  split at h
  · cases h
  · rename_i hset
    obtain rfl := Except.ok.inj h
    exact hset

theorem applyArray_change {path : String} {op : OverrideOperation} {values : List Value}
    {origin : Origin} (h : merged.applyArray path op values origin = .ok merged') :
    RootChange path merged.root merged'.root := by
  unfold applyArray at h
  split at h
  · split_ifs at h with hremove
    · obtain rfl := Except.ok.inj h
      exact .Same rfl
    · exact .Put _ (write_ok h)
  · exact .Put _ (write_ok h)
  · cases h

theorem applyOverride_change {path : String} {spec : OverrideSpec}
    (h : merged.applyOverride path spec source = .ok merged') :
    RootChange path merged.root merged'.root := by
  unfold applyOverride at h
  simp only at h
  split at h
  · cases h
  · obtain ⟨value, _, hwrite⟩ := bind_ok_iff.mp h
    exact .Put value (write_ok hwrite)
  · obtain rfl := Except.ok.inj h
    exact .Dropped rfl
  · obtain ⟨values, _, harray⟩ := bind_ok_iff.mp h
    exact applyArray_change harray

/-- One override of a profile, permitted and applied. -/
structure OverrideStep (profile : RawProfile) (source : ProfileSource) (policy : PolicyConfig)
    (path : String) (spec : OverrideSpec) (merged merged' : MergedConfig) : Prop where
  declared : profile.overrides[path]? = some spec
  permitted : validateOverridePermission path source policy profile.id = .ok ()
  applied : merged.applyOverride path spec source = .ok merged'

/-- The overrides of a profile, one after another. -/
abbrev OverrideRun (profile : RawProfile) (source : ProfileSource) (policy : PolicyConfig) :
    MergedConfig → MergedConfig → Prop :=
  Relation.ReflTransGen fun merged merged' =>
    ∃ path spec, OverrideStep profile source policy path spec merged merged'

theorem applyOverrides_run {overrides : List (String × OverrideSpec)}
    (hdeclared : ∀ entry ∈ overrides, profile.overrides[entry.1]? = some entry.2)
    (h : applyOverrides source policy profile.id overrides merged = .ok merged') :
    OverrideRun profile source policy merged merged' := by
  induction overrides generalizing merged with
  | nil =>
    obtain rfl := Except.ok.inj h
    exact .refl
  | cons entry rest ih =>
    obtain ⟨path, spec⟩ := entry
    unfold applyOverrides at h
    obtain ⟨_, hpermitted, h⟩ := bind_ok_iff.mp h
    obtain ⟨middle, happlied, h⟩ := bind_ok_iff.mp h
    have hstep : OverrideStep profile source policy path spec merged middle :=
      ⟨hdeclared (path, spec) List.mem_cons_self, hpermitted, happlied⟩
    exact .head ⟨path, spec, hstep⟩
      (ih (fun entry hentry => hdeclared entry (List.mem_cons_of_mem _ hentry)) h)

/-! ## Profiles -/

theorem mergeSection_run {section_table : Option Table} {start : String}
    (h : mergeSection context section_table start merged = .ok merged') :
    DeclareRun context (fun other => ∃ table, section_table = some table ∧
      ∃ key ∈ Entries.keys table,
        splitChar '.' (if start = "" then key else s!"{start}.{key}") <+: splitChar '.' other)
      merged merged' := by
  cases section_table with
  | none =>
    obtain rfl := Except.ok.inj h
    exact .refl
  | some table => exact (mergeTable_run h).mono fun other hother => ⟨table, rfl, hother⟩

theorem splitChar_of_field : ∀ key ∈ configFields, splitChar '.' key = [key] := by decide +kernel

/-- A configuration only declares known sections, each by a path of one key. -/
theorem configSection_run (h : mergeSection context (profile.table "config") "" merged = .ok merged') :
    DeclareRun context (fun other => ∃ key ∈ configFields, [key] <+: splitChar '.' other)
      merged merged' := by
  refine (mergeSection_run h).mono fun other hother => ?_
  obtain ⟨table, htable, key, hkey, hother⟩ := hother
  have hconfig : profile.root.get "config" = some (.Table table) := by
    unfold RawProfile.table at htable
    split at htable
    · rename_i hget
      rw [hget, Option.some.inj htable]
    · cases htable
  obtain ⟨known, heq, hknown⟩ := profile.config_known _ hconfig
  obtain rfl : table = known := by
    injection heq
  have hfield := hknown key hkey
  rw [if_pos rfl, splitChar_of_field key hfield] at hother
  exact ⟨key, hfield, hother⟩

/-- An untrusted profile that is merged changes what the sections of its configuration declare, and
then what its overrides say, under the policy that was there. -/
theorem mergeProfile_untrusted (huntrusted : source.source.isTrusted = false)
    (h : merged.mergeProfile profile source = .ok merged') :
    profile.protectedOverridePath = none ∧ ∃ policy middle, merged.policy = .ok policy ∧
      mergeSection ⟨source, profile.overrides, policy⟩ (profile.table "config") "" merged =
        .ok middle ∧
      DeclareRun ⟨source, profile.overrides, policy⟩
        (fun other => ∃ key ∈ configFields, [key] <+: splitChar '.' other) merged middle ∧
      OverrideRun profile source policy middle merged' := by
  unfold mergeProfile at h
  obtain ⟨_, hallowed, h⟩ := bind_ok_iff.mp h
  unfold validateSourcePermissions at hallowed
  rw [huntrusted] at hallowed
  simp only [Bool.false_eq_true, if_false] at hallowed
  split_ifs at hallowed with hpolicy hinputs
  have htable : ∀ key, profile.hasSection key ≠ true → profile.table key = none := by
    intro key hkey
    unfold RawProfile.hasSection at hkey
    unfold RawProfile.table
    rw [Option.not_isSome_iff_eq_none.mp hkey]
  rw [htable _ hinputs] at h
  obtain ⟨_, hsame, h⟩ := bind_ok_iff.mp h
  unfold mergePolicy at hsame
  rw [htable _ hpolicy] at hsame
  obtain rfl := Except.ok.inj hsame
  obtain ⟨policy, hread, h⟩ := bind_ok_iff.mp h
  obtain ⟨middle, hconfig, h⟩ := bind_ok_iff.mp h
  obtain ⟨_, hnone, h⟩ := bind_ok_iff.mp h
  obtain rfl := Except.ok.inj hnone
  refine ⟨?_, policy, _, hread, hconfig, configSection_run hconfig, ?_⟩
  · cases hprotected : profile.protectedOverridePath with
    | none => rfl
    | some path =>
      rw [hprotected] at hallowed
      cases hallowed
  · refine applyOverrides_run (fun entry hentry => ?_) h
    exact Std.ExtTreeMap.mem_toList_iff_getElem?_eq_some.mp hentry

end MergedConfig

end dev_env_loader
