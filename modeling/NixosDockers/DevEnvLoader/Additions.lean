-- What a strict merge of a trusted profile without overrides adds to what stands at each sequence
-- of keys, as long as no key with a dot goes into a table that is there already.
import NixosDockers.DevEnvLoader.Declared
import NixosDockers.DevEnvLoader.Panics

open rust_text results documents agreement unions dev_env_model

namespace dev_env_loader

/-! ## One declaration -/

/-- What stands at each sequence of keys of a merged configuration. -/
def MergedConfig.shapes (merged : MergedConfig) : List String → Option (Shape String TomlScalar) :=
  Doc.look merged.root

/-- No table of a value that is declared at some keys has a key with a dot, where there is a table
already. -/
def Undotted (there : List String → Option (Shape String TomlScalar)) (keys : List String)
    (value : Value) : Prop :=
  ∀ below inner, there (keys ++ below) = some .Table →
    Doc.reach below (some value) = some (.Table inner) →
      ∀ key ∈ Entries.keys inner, '.' ∉ key.toList

/-- Trusted profiles without overrides, under the strict policy. -/
structure Strict (context : MergeContext) : Prop where
  trusted : context.source.source.isTrusted = true
  no_overrides : context.overrides = ∅
  policy : context.policy.merge = .Strict

namespace MergedConfig

variable {context : MergeContext} {merged : MergedConfig} {path : String} {value : Value}

theorem adds_single {f : List String → Option (Shape String TomlScalar)}
    {made : Except Failure MergedConfig}
    (h : (Fits ShapesAgree merged.shapes f ∧
        ∃ next, made = .ok next ∧ next.shapes = join merged.shapes f) ∨
      ¬ Fits ShapesAgree merged.shapes f ∧ ∃ failure, made = .error failure) :
    Adds ShapesAgree shapes merged [f] made := by
  have htogether : together [merged.shapes, f] = join merged.shapes f := by
    funext keys
    exact congrArg _ Option.or_none
  rcases h with ⟨hfits, next, hmade, hnext⟩ | ⟨hfits, hmade⟩
  · exact .inl ⟨List.pairwise_pair.mpr hfits, next, hmade, hnext.trans htogether.symm⟩
  · exact .inr ⟨fun h => hfits (List.pairwise_pair.mp h), hmade⟩

theorem write_adds {origin : Origin} {sensitivity : Sensitivity}
    (hnone : getPath merged.root path = none) :
    Adds ShapesAgree shapes merged [Doc.placed (splitChar '.' path) value]
      (merged.write path value origin sensitivity) := by
  have hkeys := splitChar_ne_nil '.' path
  refine adds_single ?_
  unfold shapes
  have hexists : (∃ root, Doc.put value (splitChar '.' path) merged.root = some root) ↔
      Doc.Passable (splitChar '.' path) merged.root := Doc.exists_put_iff hkeys
  rw [Doc.fits_placed_iff hkeys hnone, ← hexists]
  unfold write setPath
  cases hput : Doc.put value (splitChar '.' path) merged.root with
  | none => exact .inr ⟨fun ⟨_, h⟩ => (by cases h), _, rfl⟩
  | some root => exact .inl ⟨⟨root, rfl⟩, _, rfl, Doc.look_put hkeys hnone hput⟩

theorem mergeDifferent_strict (hstrict : Strict context) :
    ∃ failure, merged.mergeDifferent context path value = .error failure := by
  cases hmade : merged.mergeDifferent context path value with
  | error failure => exact ⟨failure, rfl⟩
  | ok next =>
    have hprefer := (mergeDifferent_ok hmade).1
    rw [hstrict.policy] at hprefer
    cases hprefer

theorem existing_adds {existing : Value} (hstrict : Strict context)
    (hget : getPath merged.root path = some existing)
    (hshape : ∀ entries table, value = .Table table → existing = .Table entries → False) :
    Adds ShapesAgree shapes merged [Doc.placed (splitChar '.' path) value]
      (if Value.same existing value then
        .ok (merged.record path value (context.source.origin context.source.id none) .Public)
      else merged.mergeDifferent context path value) := by
  refine adds_single ?_
  have hfits : Fits ShapesAgree merged.shapes (Doc.placed (splitChar '.' path) value) ↔
      Value.same existing value = true :=
    Doc.fits_existing_iff (splitChar_ne_nil '.' path) hget fun inner inner' hinner hinner' =>
      hshape inner inner' hinner' hinner
  by_cases hsame : Value.same existing value = true
  · rw [if_pos hsame]
    refine .inl ⟨hfits.mpr hsame, _, rfl, ?_⟩
    exact (Doc.join_existing hget (leaf_of_same hsame hshape)).symm
  · rw [if_neg hsame]
    exact .inr ⟨fun h => hsame (hfits.mp h), mergeDifferent_strict hstrict⟩

/-! ### A declaration with what is in it -/

theorem splitChar_entry {path key : String} (h : '.' ∉ key.toList) :
    splitChar '.' s!"{path}.{key}" = splitChar '.' path ++ [key] := by
  rw [splitChar_below, splitChar_of_free h]

end MergedConfig

section

variable {there other : List String → Option (Shape String TomlScalar)} {keys : List String}
  {value : Value} {table : Table}

theorem Undotted.entry {key : String} (hordered : Ordered (.Table table))
    (h : Undotted there keys (.Table table)) (hentry : (key, value) ∈ table) :
    Undotted there (keys ++ [key]) value := by
  intro below inner hthere hinner
  rw [List.append_assoc] at hthere
  refine h ([key] ++ below) inner hthere ?_
  rw [List.singleton_append, Doc.reach_table (by simp), Doc.lookup_cons,
    get_of_mem hordered hentry]
  exact hinner

theorem Undotted.key {key : String} (h : Undotted there keys (.Table table))
    (hthere : there keys = some .Table) (hkey : key ∈ Entries.keys table) : '.' ∉ key.toList :=
  h [] table ((List.append_nil keys).symm ▸ hthere) rfl key hkey

/-- What stands elsewhere does not matter. -/
theorem Undotted.join (h : Undotted there keys value)
    (hapart : ∀ below, other (keys ++ below) = none) :
    Undotted (agreement.join there other) keys value := by
  intro below inner hthere hinner
  unfold agreement.join at hthere
  rw [hapart, Option.or_none] at hthere
  exact h below inner hthere hinner

theorem Undotted.of_both {there other : List String → Option (Shape String TomlScalar)}
    {keys : List String} {value : Value} (h : Undotted there keys value)
    (h' : Undotted other keys value) : Undotted (agreement.join there other) keys value := by
  intro below inner hthere hinner
  rcases Option.or_eq_some_iff.mp hthere with hthere | ⟨-, hother⟩
  · exact h below inner hthere hinner
  · exact h' below inner hother hinner

/-- What the other entries of a table bring is not at an entry or below it. -/
theorem entries_apart {key : String} (hkey : key ∉ Entries.keys table) (below : List String) :
    together (Doc.placedEntries keys table) (keys ++ [key] ++ below) = none := by
  refine together_eq_none fun f hf => ?_
  obtain ⟨entry, hentry, rfl⟩ := List.mem_map.mp hf
  rw [List.append_assoc, List.singleton_append, Doc.placed_entry_below]
  refine if_neg ?_
  rintro rfl
  exact hkey (List.mem_map.mpr ⟨entry, hentry, rfl⟩)

end

namespace MergedConfig

variable {context : MergeContext} {merged : MergedConfig} {path : String} {value : Value}

/-- The entries of a table, one after another. -/
theorem adds_cons {key : String} {rest : Table} {keys : List String}
    (hkeys : (Entries.keys ((key, value) :: rest)).Nodup)
    {made : Except Failure MergedConfig} {next : MergedConfig → Except Failure MergedConfig}
    (hadds : Adds ShapesAgree shapes merged [Doc.placed (keys ++ [key]) value] made)
    (hentries : ∀ entry ∈ rest, Undotted merged.shapes (keys ++ [entry.1]) entry.2)
    (hnext : ∀ middle, made = .ok middle →
      middle.shapes = join merged.shapes (together (Doc.placedEntries keys [(key, value)])) →
      (∀ entry ∈ rest, Undotted middle.shapes (keys ++ [entry.1]) entry.2) →
      Adds ShapesAgree shapes middle (Doc.placedEntries keys rest) (next middle)) :
    Adds ShapesAgree shapes merged (Doc.placedEntries keys ((key, value) :: rest))
      (made >>= next) := by
  refine Adds.bind hadds fun middle hmiddle hview => ?_
  have hshapes : middle.shapes =
      join merged.shapes (together (Doc.placedEntries keys [(key, value)])) := hview
  refine hnext middle hmiddle hshapes fun entry hentry => ?_
  rw [hshapes]
  refine (hentries entry hentry).join fun below => entries_apart ?_ below
  intro hmem
  obtain rfl := List.mem_singleton.mp hmem
  exact (List.nodup_cons.mp hkeys).1 (List.mem_map.mpr ⟨entry, hentry, rfl⟩)

theorem mergePath_adds (hstrict : Strict context) (hordered : Ordered value)
    (hplain : Undotted merged.shapes (splitChar '.' path) value) :
    Adds ShapesAgree shapes merged [Doc.placed (splitChar '.' path) value]
      (mergePath context value path merged) := by
  refine mergePath.induct context
    (fun value path merged => Ordered value → Undotted merged.shapes (splitChar '.' path) value →
      Adds ShapesAgree shapes merged [Doc.placed (splitChar '.' path) value]
        (mergePath context value path merged))
    (fun entries path merged => Ordered (.Table entries) →
      (∀ key ∈ Entries.keys entries, '.' ∉ key.toList) →
      (∀ entry ∈ entries, Undotted merged.shapes (splitChar '.' path ++ [entry.1]) entry.2) →
      Adds ShapesAgree shapes merged (Doc.placedEntries (splitChar '.' path) entries)
        (mergeEntries context entries path merged))
    ?overridden ?rejected ?absent ?tables ?same ?different ?done ?failed ?next
    value path merged hordered hplain
  case overridden =>
    intro value path merged howned
    rw [hstrict.no_overrides, Std.ExtTreeMap.contains_empty] at howned
    cases howned
  case rejected =>
    intro value path merged howned failure hreject
    rw [reject_trusted hstrict.trusted] at hreject
    cases hreject
  case absent =>
    intro path merged howned value hget hreject _ _
    rw [mergePath, if_neg howned, hreject]
    simp only [hget]
    exact write_adds hget
  case tables =>
    intro path merged howned entries table hget hreject ih hordered hplain
    rw [mergePath, if_neg howned, hreject]
    simp only [hget]
    have hthere : merged.shapes (splitChar '.' path) = some .Table := Doc.look_of_table hget
    refine Doc.adds_table (splitChar_ne_nil '.' path) (nodup_of_ordered hordered) rfl hget
      (ih hordered (fun key hkey => hplain.key hthere hkey) fun entry hentry =>
        hplain.entry hordered hentry)
  case same =>
    intro path merged howned existing value hshape hget hsame hreject _ _
    have h := existing_adds hstrict hget hshape
    rw [mergePath_existing howned hreject hget hshape]
    exact h
  case different =>
    intro path merged howned existing value hshape hget hsame hreject _ _
    have h := existing_adds hstrict hget hshape
    rw [mergePath_existing howned hreject hget hshape]
    exact h
  case done =>
    intro path merged _ _ _
    exact adds_nil
  case failed =>
    intro key value rest path merged failure hfirst ihfirst hordered hdots hplain
    rw [mergeEntries_cons]
    have hkey : splitChar '.' s!"{path}.{key}" = splitChar '.' path ++ [key] :=
      splitChar_entry (hdots key List.mem_cons_self)
    have hadds := ihfirst (ordered_of_mem hordered List.mem_cons_self)
      (hkey ▸ hplain _ List.mem_cons_self)
    rw [hkey] at hadds
    refine adds_cons (nodup_of_ordered hordered) hadds
      (fun entry hentry => hplain entry (List.mem_cons_of_mem _ hentry)) fun middle hmiddle => ?_
    rw [hfirst] at hmiddle
    cases hmiddle
  case next =>
    intro key value rest path merged middle hfirst ihfirst ihrest hordered hdots hplain
    rw [mergeEntries_cons]
    have hkey : splitChar '.' s!"{path}.{key}" = splitChar '.' path ++ [key] :=
      splitChar_entry (hdots key List.mem_cons_self)
    have hadds := ihfirst (ordered_of_mem hordered List.mem_cons_self)
      (hkey ▸ hplain _ List.mem_cons_self)
    rw [hkey] at hadds
    refine adds_cons (nodup_of_ordered hordered) hadds
      (fun entry hentry => hplain entry (List.mem_cons_of_mem _ hentry))
      fun other hother _ hrest => ?_
    obtain rfl := Except.ok.inj (hfirst.symm.trans hother)
    exact ihrest (ordered_tail hordered)
      (fun other hother => hdots other (List.mem_cons_of_mem _ hother)) hrest

theorem mergeTable_cons (key : String) (value : Value) (rest : Table) (start : String) :
    mergeTable context ((key, value) :: rest) start merged =
      mergePath context value (if start = "" then key else s!"{start}.{key}") merged >>=
        mergeTable context rest start := by
  rw [mergeTable]
  cases mergePath context value (if start = "" then key else s!"{start}.{key}") merged <;> rfl

/-- The entries of a section, whose paths lead to the keys below its own. -/
theorem mergeTable_adds {table : Table} {start : String} {front : List String}
    (hstrict : Strict context) (hordered : Ordered (.Table table))
    (hpath : ∀ key ∈ Entries.keys table,
      splitChar '.' (if start = "" then key else s!"{start}.{key}") = front ++ [key])
    (hplain : ∀ entry ∈ table, Undotted merged.shapes (front ++ [entry.1]) entry.2) :
    Adds ShapesAgree shapes merged (Doc.placedEntries front table)
      (mergeTable context table start merged) := by
  induction table generalizing merged with
  | nil => exact adds_nil
  | cons entry rest ih =>
    obtain ⟨key, value⟩ := entry
    rw [mergeTable_cons]
    have hkey := hpath key List.mem_cons_self
    have hadds : Adds ShapesAgree shapes merged [Doc.placed (front ++ [key]) value]
        (mergePath context value (if start = "" then key else s!"{start}.{key}") merged) :=
      hkey ▸ mergePath_adds hstrict (ordered_of_mem hordered List.mem_cons_self)
        (hkey ▸ hplain _ List.mem_cons_self)
    exact adds_cons (nodup_of_ordered hordered) hadds
      (fun entry hentry => hplain entry (List.mem_cons_of_mem _ hentry))
      fun _ _ _ hrest => ih (ordered_tail hordered)
        (fun other hother => hpath other (List.mem_cons_of_mem _ hother)) hrest

end MergedConfig

/-! ## Profiles -/

/-- No key with a dot in a table of the profile where there is a table already. -/
def RawProfile.Undotted (profile : RawProfile)
    (there : List String → Option (Shape String TomlScalar)) : Prop :=
  ∀ name front table, (name, front) ∈ sectionFronts → profile.table name = some table →
    ∀ entry ∈ table, dev_env_loader.Undotted there (front ++ [entry.1]) entry.2

/-- Where no table that stands there is declared with a key with a dot, the profile can be added. -/
theorem RawProfile.undotted_of_declared {profile : RawProfile} {source : ProfileSource}
    (hplain : Plain profile source)
    {there : List String → Option (Shape String TomlScalar)}
    (hdots : ∀ keys key, there keys = some .Table → profile.declared keys = some .Table →
      (profile.declared (keys ++ [key])).isSome = true → '.' ∉ key.toList) :
    profile.Undotted there := by
  intro name front table hsection htable entry hentry below inner hthere hinner key hkey
  have hat := RawProfile.declared_entry hplain hsection htable hentry
  refine hdots _ key hthere ?_ ?_
  · rw [hat, hinner]
    rfl
  · obtain ⟨value, hvalue⟩ := Entries.mem_keys_iff.mp hkey
    rw [List.append_assoc, hat, Doc.reach_append, hinner, Doc.reach_table (by simp),
      Doc.lookup_cons, hvalue]
    rfl

theorem MergedConfig.policy_of_strict {merged : MergedConfig} (h : StrictPolicy merged.shapes) :
    ∃ policy, merged.policy = .ok policy ∧ policy.merge = .Strict := by
  unfold policy
  cases hget : merged.root.get "policy" with
  | none => exact ⟨PolicyConfig.default, rfl, rfl⟩
  | some value =>
    have hshape : merged.shapes ["policy"] = some value.shape := by
      unfold shapes Doc.look
      rw [← get_eq_lookup, hget]
      rfl
    cases value with
    | Scalar value => exact absurd hshape (h.table _)
    | Array items => exact absurd hshape (h.table _)
    | Table table =>
      have hfields : ∀ name value, Entries.get name table = some value → FieldRead name value := by
        intro name value hvalue
        have hlook : merged.shapes ["policy", name] = some value.shape := by
          unfold shapes Doc.look
          rw [Doc.lookup_cons, hget, Doc.reach_table (by simp), ← get_eq_lookup, hvalue]
          rfl
        obtain ⟨leaf, hleaf, hread⟩ := h.fields name _ hlook
        cases value with
        | Table => cases hleaf
        | Scalar =>
          obtain rfl := Shape.Leaf.inj hleaf
          exact hread
        | Array =>
          obtain rfl := Shape.Leaf.inj hleaf
          exact hread
      obtain ⟨policy, hpolicy, hstrict⟩ := ofTable_strict_iff.mpr hfields
      refine ⟨policy, ?_, hstrict⟩
      have hread : PolicyConfig.ofValue (.Table table) = some policy := hpolicy
      simp only [hread]

namespace MergedConfig

variable {profile : RawProfile} {source : ProfileSource} {merged : MergedConfig}

/-- Every section leads to its own place: no name of a field or of an input has a dot. -/
theorem section_path {start : String} {front : List String}
    (hstart : start = "" ∧ front = [] ∨ start ≠ "" ∧ '.' ∉ start.toList ∧ front = [start])
    {table : Table} (hkeys : ∀ key ∈ Entries.keys table, '.' ∉ key.toList) :
    ∀ key ∈ Entries.keys table,
      splitChar '.' (if start = "" then key else s!"{start}.{key}") = front ++ [key] := by
  intro key hkey
  rcases hstart with ⟨rfl, rfl⟩ | ⟨hstart, hdot, rfl⟩
  · rw [if_pos rfl, splitChar_of_free (hkeys key hkey), List.nil_append]
  · rw [if_neg hstart, splitChar_entry (hkeys key hkey), splitChar_of_free hdot]

theorem entry_path (hplain : Plain profile source) {name start : String} {front : List String}
    {table : Table} (hsection : (name, front) ∈ sectionFronts) (hstart : start = front.headD "")
    (htable : profile.table name = some table) :
    ∀ key ∈ Entries.keys table,
      splitChar '.' (if start = "" then key else s!"{start}.{key}") = front ++ [key] := by
  have hkeys := hplain.entry_undotted hsection htable
  subst hstart
  simp only [sectionFronts, List.mem_cons, List.not_mem_nil, or_false, Prod.mk.injEq] at hsection
  rcases hsection with ⟨rfl, rfl⟩ | ⟨rfl, rfl⟩ | ⟨rfl, rfl⟩
  · exact section_path (.inr ⟨by decide, by decide, rfl⟩) hkeys
  · exact section_path (.inl ⟨rfl, rfl⟩) hkeys
  · exact section_path (.inr ⟨by decide, by decide, rfl⟩) hkeys

/-- A section of a profile is added, and the other sections can be added after it. -/
theorem section_adds {context : MergeContext} {name : String} {front : List String}
    (hstrict : Strict context) (hplain : Plain profile source)
    (hsection : (name, front) ∈ sectionFronts)
    (hdots : ∀ table, profile.table name = some table → ∀ entry ∈ table,
      Undotted merged.shapes (front ++ [entry.1]) entry.2) :
    Adds ShapesAgree shapes merged (profile.sectionMaps name front)
      (mergeSection context (profile.table name) (front.headD "") merged) := by
  unfold mergeSection RawProfile.sectionMaps
  cases htable : profile.table name with
  | none => exact adds_nil
  | some table =>
    exact mergeTable_adds hstrict (hplain.section_ordered htable)
      (entry_path hplain hsection rfl htable) (hdots table htable)

/-- After one section, there is still nothing in the way of the entries of another one. -/
theorem undotted_after {name name' : String} {front front' : List String} {middle : MergedConfig}
    (hsection : (name, front) ∈ sectionFronts) (hsection' : (name', front') ∈ sectionFronts)
    (hne : name ≠ name')
    (hview : middle.shapes = together (merged.shapes :: profile.sectionMaps name front))
    (hdots : ∀ table, profile.table name' = some table → ∀ entry ∈ table,
      Undotted merged.shapes (front' ++ [entry.1]) entry.2) :
    ∀ table, profile.table name' = some table → ∀ entry ∈ table,
      Undotted middle.shapes (front' ++ [entry.1]) entry.2 := by
  intro table htable entry hentry
  rw [hview]
  refine (hdots table htable entry hentry).join fun below => ?_
  unfold RawProfile.sectionMaps
  cases hfirst : profile.table name with
  | none => rfl
  | some first =>
    exact sections_apart hsection hsection' hne hfirst htable
      (List.mem_map.mpr ⟨entry, hentry, rfl⟩) below

theorem mergePolicy_section {policy : PolicyConfig} (hread : merged.policy = .ok policy) :
    merged.mergePolicy profile source =
      mergeSection ⟨source, profile.overrides, policy⟩ (profile.table "policy") "policy"
        merged := by
  unfold mergePolicy mergeSection
  cases profile.table "policy" with
  | none => rfl
  | some table =>
    dsimp only
    rw [hread]
    rfl

/-- What a policy declares are values, so no key with a dot can be in its way. -/
theorem mergePolicy_adds (hplain : Plain profile source) (hpolicy : StrictPolicy merged.shapes) :
    Adds ShapesAgree shapes merged (profile.sectionMaps "policy" ["policy"])
      (merged.mergePolicy profile source) := by
  obtain ⟨policy, hread, hstrict⟩ := policy_of_strict hpolicy
  rw [mergePolicy_section hread]
  refine section_adds ⟨hplain.trusted, hplain.no_overrides, hstrict⟩ hplain policyIn
    fun table htable entry hentry below inner _ hinner => ?_
  have hleaf := (hplain.policy_fields htable entry.1 entry.2 hentry).isLeaf
  obtain ⟨table', htable'⟩ := Doc.table_of_reach_table hinner
  rw [htable'] at hleaf
  cases hleaf

/-- The policy stays strict when that of the profile is merged. -/
theorem strict_after_policy (hplain : Plain profile source) (hpolicy : StrictPolicy merged.shapes)
    {middle : MergedConfig} (h : merged.mergePolicy profile source = .ok middle) :
    StrictPolicy middle.shapes := by
  rw [(mergePolicy_adds hplain hpolicy).view_eq h]
  refine StrictPolicy.together (List.forall_mem_cons.mpr ⟨hpolicy, fun f hf => ?_⟩)
  exact hplain.maps_strict f (List.mem_flatMap.mpr ⟨_, policyIn, hf⟩)

/-- A trusted profile without overrides is its three sections. -/
theorem mergeProfile_plain (hplain : Plain profile source) :
    merged.mergeProfile profile source =
      merged.mergePolicy profile source >>= fun middle => middle.policy >>= fun policy =>
        mergeSection ⟨source, profile.overrides, policy⟩ (profile.table "config") "" middle >>=
          mergeSection ⟨source, profile.overrides, policy⟩ (profile.table "inputs") "inputs" := by
  have hpermitted : validateSourcePermissions profile source = .ok () := by
    unfold validateSourcePermissions
    rw [if_pos hplain.trusted]
  have hdone : ∀ policy (merged : MergedConfig),
      applyOverrides source policy profile.id profile.overrides.toList merged = .ok merged := by
    intro policy merged
    rw [hplain.no_overrides]
    rfl
  have hend : ∀ made : Except Failure MergedConfig, (made >>= fun last => .ok last) = made :=
    fun made => bind_pure made
  unfold mergeProfile
  rw [hpermitted]
  simp only [hdone, hend]
  rfl

theorem mergeProfile_adds (hplain : Plain profile source) (hpolicy : StrictPolicy merged.shapes)
    (hdots : profile.Undotted merged.shapes) :
    Adds ShapesAgree shapes merged profile.maps (merged.mergeProfile profile source) := by
  have hmaps : profile.maps = profile.sectionMaps "policy" ["policy"] ++
      (profile.sectionMaps "config" [] ++ profile.sectionMaps "inputs" ["inputs"]) := by
    simp [RawProfile.maps, sectionFronts]
  rw [mergeProfile_plain hplain, hmaps]
  refine Adds.bind (mergePolicy_adds hplain hpolicy) fun middle hmiddle hview => ?_
  obtain ⟨policy, hread, hstrict⟩ :=
    policy_of_strict (strict_after_policy hplain hpolicy hmiddle)
  have hcontext : Strict ⟨source, profile.overrides, policy⟩ :=
    ⟨hplain.trusted, hplain.no_overrides, hstrict⟩
  rw [hread]
  have hconfig := undotted_after policyIn configIn (by decide) hview
    fun table htable => hdots _ _ table configIn htable
  have hinputs := undotted_after policyIn inputsIn (by decide) hview
    fun table htable => hdots _ _ table inputsIn htable
  refine Adds.bind (section_adds hcontext hplain configIn hconfig) fun next _ hnext => ?_
  exact section_adds hcontext hplain inputsIn
    (undotted_after configIn inputsIn (by decide) hnext hinputs)

end MergedConfig

end dev_env_loader
