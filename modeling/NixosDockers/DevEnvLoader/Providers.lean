-- Which sources can bring in a provider: the declarations of an untrusted
-- profile cannot, but its overrides can, and so can a runtime value whose target
-- is below a provider that nobody declared.
import NixosDockers.DevEnvLoader.Frame
import NixosDockers.DevEnvLoader.Runtime

open rust_text documents dev_env_model results

namespace dev_env_loader

/-- The id is one of those under `providers`. -/
def HasProvider (root : Table) (id : String) : Prop :=
  ∃ doc, Doc.lookup ["providers", id] root = some doc

/-- The path leads to the provider, or to something below it. -/
def InProvider (path id : String) : Prop := ["providers", id] <+: splitChar '.' path

/-- The override writes something at or below the provider, or a whole table that has it. -/
def WritesProvider (path : String) (spec : OverrideSpec) (id : String) : Prop :=
  spec.op ∈ [.Set, .Replace, .Append] ∧ InProvider path id ∨
    spec.op = .Set ∧ path = "providers" ∧
      ∃ entries, spec.value = some (.Table entries) ∧ id ∈ Entries.keys entries

theorem splitChar_providers : splitChar '.' "providers" = ["providers"] := by decide

theorem splitChar_provider (id : String) :
    splitChar '.' s!"providers.{id}" = "providers" :: splitChar '.' id := by
  have happend := splitChar_append '.' "providers" id
  rwa [splitChar_providers, List.singleton_append] at happend

/-! ## What a value brings in -/

/-- A value that is put somewhere only brings in the provider that its path is in, or a provider of
the table that it is. -/
theorem hasProvider_of_put {root root' : Table} {path id : String} {value : Value}
    (h : setPath root path value = .ok root') (hafter : HasProvider root' id) :
    HasProvider root id ∨ InProvider path id ∨
      path = "providers" ∧ ∃ entries, value = .Table entries ∧ id ∈ Entries.keys entries := by
  have hput := setPath_ok_iff.mp h
  by_cases hin : InProvider path id
  · exact Or.inr (Or.inl hin)
  by_cases habove : splitChar '.' path <+: ["providers", id]
  · have hpath : splitChar '.' path = ["providers"] := by
      rcases List.prefix_cons_iff.mp habove with hnil | ⟨rest, heq, hrest⟩
      · exact absurd hnil (splitChar_ne_nil '.' path)
      · rcases List.prefix_cons_iff.mp hrest with rfl | ⟨rest', rfl, hrest'⟩
        · exact heq
        · obtain rfl := List.prefix_nil.mp hrest'
          unfold InProvider at hin
          exact absurd (heq ▸ List.prefix_rfl) hin
    have hprovider : path = "providers" :=
      splitChar_injective '.' (hpath.trans splitChar_providers.symm)
    obtain ⟨doc, hdoc⟩ := hafter
    have hvalue := Doc.lookup_put hput
    rw [hpath] at hvalue
    have hreach : Doc.lookup (["providers"] ++ [id]) root' = Doc.reach [id] (some value) := by
      rw [Doc.lookup_append (by simp), hvalue]
    rw [List.singleton_append, hdoc] at hreach
    cases value with
    | Scalar => cases hreach
    | Array => cases hreach
    | Table entries =>
      exact Or.inr (Or.inr ⟨hprovider, entries, rfl, Entries.mem_keys_iff.mpr ⟨doc, hreach.symm⟩⟩)
  · obtain ⟨doc, hdoc⟩ := hafter
    rw [Doc.lookup_put_apart hput habove hin] at hdoc
    exact Or.inl ⟨doc, hdoc⟩

theorem hasProvider_of_drop {root : Table} {path id : String}
    (hafter : HasProvider (removePath root path) id) : HasProvider root id := by
  by_contra hbefore
  obtain ⟨doc, hdoc⟩ := hafter
  have hnone : Doc.lookup ["providers", id] root = none := by
    cases hfound : Doc.lookup ["providers", id] root with
    | none => rfl
    | some found => exact absurd ⟨found, hfound⟩ hbefore
  unfold removePath at hdoc
  rw [Doc.lookup_drop_none hnone] at hdoc
  cases hdoc

/-- What is at a path in a provider is in a provider that there is. -/
theorem hasProvider_of_getPath {root : Table} {path id : String} {doc : Value}
    (h : getPath root path = some doc) (hin : InProvider path id) : HasProvider root id := by
  obtain ⟨rest, hrest⟩ := hin
  unfold getPath at h
  rw [← hrest] at h
  by_cases hnil : rest = []
  · subst hnil
    exact ⟨doc, by simpa using h⟩
  · obtain ⟨inner, hinner⟩ := Doc.table_of_lookup_append h (by simp) hnil
    exact ⟨_, hinner⟩

theorem keys_entriesToToml {path : String} {entries : List (String × ValueTree)}
    {table : List (String × Value)} (h : entriesToToml path entries = .ok table) :
    Entries.keys table = Entries.keys entries := by
  induction entries generalizing table with
  | nil =>
    obtain rfl := Except.ok.inj h
    rfl
  | cons entry rest ih =>
    obtain ⟨key, value⟩ := entry
    rw [entriesToToml] at h
    split at h
    · cases h
    · cases h
    · rename_i doc table' _ hrest
      obtain rfl := Except.ok.inj h
      have := ih hrest
      simp only [Entries.keys, List.map_cons] at this ⊢
      rw [this]

/-- Only a table becomes a table. -/
theorem table_of_valueTreeToToml {path : String} {tree : ValueTree} {table : Table}
    (h : valueTreeToToml path tree = .ok (.Table table)) :
    ∃ entries, tree = .Table entries ∧ Entries.keys entries = Entries.keys table := by
  cases tree with
  | Scalar scalar => cases scalar <;> · rw [valueTreeToToml] at h; cases h
  | Array items =>
    rw [valueTreeToToml] at h
    obtain ⟨_, _, heq⟩ := map_ok_iff.mp h
    cases heq
  | Table entries =>
    rw [valueTreeToToml] at h
    obtain ⟨found, hfound, heq⟩ := map_ok_iff.mp h
    injection heq with heq
    subst heq
    exact ⟨entries, rfl, (keys_entriesToToml hfound).symm⟩

namespace MergedConfig

variable {context : MergeContext} {within : String → Prop} {merged merged' : MergedConfig}
  {source : ProfileSource} {policy : PolicyConfig} {profile : RawProfile} {path id : String}

/-! ## Declarations -/

/-- A path in a provider whose declaration is let through is in a provider that there is. -/
theorem hasProvider_of_allowed {incoming : Value} (huntrusted : source.source.isTrusted = false)
    (h : merged.rejectUntrustedProviderAddition path incoming source = .ok ())
    (hin : InProvider path id) : HasProvider merged.root id := by
  obtain ⟨rest, hrest⟩ := hin
  rw [List.cons_append, List.singleton_append] at hrest
  rcases eq_of_splitChar_cons hrest.symm with ⟨hnil, _⟩ | ⟨tail, rfl, htail⟩
  · cases hnil
  · have hstrip : stripStart ("providers" ++ String.singleton '.' ++ tail) "providers." = some tail :=
      stripStart_eq_some_iff.mpr rfl
    have hstarts : startsWith ("providers" ++ String.singleton '.' ++ tail) "providers" = true :=
      startsWith_iff.mpr ⟨String.singleton '.' ++ tail, String.append_assoc⟩
    unfold rejectUntrustedProviderAddition at h
    rw [huntrusted, hstarts] at h
    simp only [Bool.not_true, Bool.or_self, Bool.false_eq_true, if_false, providerOf, hstrip, htail,
      List.head?_cons] at h
    split_ifs at h with hsome
    have hfree : '.' ∉ id.toList := free_of_mem_splitChar (htail ▸ List.mem_cons_self)
    cases hget : getPath merged.root s!"providers.{id}" with
    | none => exact absurd (by rw [hget]; rfl) hsome
    | some doc =>
      unfold getPath at hget
      rw [splitChar_provider, splitChar_of_free hfree] at hget
      exact ⟨doc, hget⟩

/-- A whole table of providers that is let through has a first provider that there is. -/
theorem hasFirst_of_allowed {table : Table} (huntrusted : source.source.isTrusted = false)
    (h : merged.rejectUntrustedProviderAddition "providers" (.Table table) source = .ok ())
    (hkeys : Entries.keys table ≠ []) :
    ∃ key : String, getPath merged.root s!"providers.{key}" ≠ none := by
  obtain ⟨first, rest, hfirst⟩ := List.exists_cons_of_ne_nil hkeys
  have hstrip : stripStart "providers" "providers." = none := by decide
  have hstarts : startsWith "providers" "providers" = true := by decide
  unfold rejectUntrustedProviderAddition at h
  rw [huntrusted, hstarts] at h
  simp only [Bool.not_true, Bool.or_self, Bool.false_eq_true, if_false, providerOf, hstrip, if_true,
    hfirst, List.head?_cons] at h
  split_ifs at h with hsome
  exact ⟨first, fun hnone => hsome (by rw [hnone]; rfl)⟩

/-- A declaration of an untrusted source brings in no provider. -/
theorem DeclareStep.hasProvider (h : DeclareStep context within merged merged')
    (huntrusted : context.source.source.isTrusted = false) (hafter : HasProvider merged'.root id) :
    HasProvider merged.root id := by
  cases h with
  | Added path incoming path_within provider absent written =>
    rcases hasProvider_of_put (write_ok written) hafter with hbefore | hin | ⟨rfl, table, rfl, hkey⟩
    · exact hbefore
    · exact hasProvider_of_allowed huntrusted provider hin
    · have hkeys : Entries.keys table ≠ [] := List.ne_nil_of_mem hkey
      obtain ⟨key, hsome⟩ := hasFirst_of_allowed huntrusted provider hkeys
      refine absurd ?_ hsome
      unfold getPath at absent ⊢
      rw [splitChar_provider, ← List.singleton_append, Doc.lookup_append (by simp),
        ← splitChar_providers, absent, Doc.reach_none]
  | Recorded path incoming recorded =>
    rw [recorded] at hafter
    exact hafter
  | Preferred path incoming path_within prefer trusted written =>
    rw [huntrusted] at trusted
    cases trusted

theorem DeclareRun.hasProvider (h : DeclareRun context within merged merged')
    (huntrusted : context.source.source.isTrusted = false) (hafter : HasProvider merged'.root id) :
    HasProvider merged.root id := by
  induction h with
  | refl => exact hafter
  | tail _ hstep ih => exact ih (hstep.hasProvider huntrusted hafter)

/-- Each entry of a section is declared in a state that the entries before it led to. -/
theorem mergeTable_member {table : List (String × Value)} {start key : String} {value : Value}
    (h : mergeTable context table start merged = .ok merged') (hentry : (key, value) ∈ table) :
    ∃ middle next, DeclareRun context (fun _ => True) merged middle ∧
      mergePath context value (if start = "" then key else s!"{start}.{key}") middle = .ok next := by
  induction table generalizing merged with
  | nil => cases hentry
  | cons entry rest ih =>
    obtain ⟨first, incoming⟩ := entry
    unfold mergeTable at h
    split at h
    · cases h
    · rename_i middle hfirst
      rcases List.mem_cons.mp hentry with heq | hrest
      · obtain ⟨rfl, rfl⟩ := Prod.mk.injEq .. |>.mp heq
        exact ⟨merged, middle, .refl, hfirst⟩
      · obtain ⟨before, next, hrun, hnext⟩ := ih h hrest
        have hstep := (mergePath_run hfirst).mono fun _ _ => trivial
        exact ⟨before, next, hstep.trans hrun, hnext⟩

theorem mergeEntries_member {table : List (String × Value)} {key : String} {value : Value}
    (h : mergeEntries context table path merged = .ok merged') (hentry : (key, value) ∈ table) :
    ∃ middle next, DeclareRun context (fun _ => True) merged middle ∧
      mergePath context value s!"{path}.{key}" middle = .ok next := by
  induction table generalizing merged with
  | nil => cases hentry
  | cons entry rest ih =>
    obtain ⟨first, incoming⟩ := entry
    rw [mergeEntries] at h
    split at h
    · cases h
    · rename_i middle hfirst
      rcases List.mem_cons.mp hentry with heq | hrest
      · obtain ⟨rfl, rfl⟩ := Prod.mk.injEq .. |>.mp heq
        exact ⟨merged, middle, .refl, hfirst⟩
      · obtain ⟨before, next, hrun, hnext⟩ := ih h hrest
        have hstep := (mergePath_run hfirst).mono fun _ _ => trivial
        exact ⟨before, next, hstep.trans hrun, hnext⟩

theorem mergePath_allowed {incoming : Value}
    (h : mergePath context incoming path merged = .ok merged')
    (howned : ¬ context.overrides.contains path = true) :
    merged.rejectUntrustedProviderAddition path incoming context.source = .ok () := by
  rw [mergePath, if_neg howned] at h
  split at h
  · cases h
  · rename_i hallowed
    exact hallowed

/-- A provider that is declared is one that there is, or the profile overrides it or all of them, or
its id has a dot. -/
theorem declared_of_mergePath {table : Table} (huntrusted : context.source.source.isTrusted = false)
    (h : mergePath context (.Table table) "providers" merged = .ok merged')
    (hkey : id ∈ Entries.keys table) (hall : context.overrides.contains "providers" = false)
    (hone : context.overrides.contains s!"providers.{id}" = false) (hfree : '.' ∉ id.toList) :
    HasProvider merged.root id := by
  have howned : ¬ context.overrides.contains "providers" = true := by rw [hall]; exact Bool.false_ne_true
  have hallowed := mergePath_allowed h howned
  obtain ⟨first, hfirst⟩ := hasFirst_of_allowed huntrusted hallowed (List.ne_nil_of_mem hkey)
  obtain ⟨inner, hinner⟩ : ∃ inner, getPath merged.root "providers" = some (.Table inner) := by
    obtain ⟨doc, hdoc⟩ := Option.ne_none_iff_exists'.mp hfirst
    unfold getPath at hdoc ⊢
    rw [splitChar_provider, ← List.singleton_append] at hdoc
    rw [splitChar_providers]
    exact Doc.table_of_lookup_append hdoc (by simp) (splitChar_ne_nil '.' first)
  rw [mergePath, if_neg howned, hallowed] at h
  simp only [hinner] at h
  obtain ⟨value, hvalue⟩ := Entries.mem_keys_iff.mp hkey
  obtain ⟨middle, next, hrun, hnext⟩ := mergeEntries_member h (Entries.mem_of_get hvalue)
  have hsplit : splitChar '.' s!"providers.{id}" = ["providers", id] := by
    rw [splitChar_provider, splitChar_of_free hfree]
  have hpath : ¬ context.overrides.contains s!"providers.{id}" = true := by
    rw [hone]
    exact Bool.false_ne_true
  have hin : InProvider s!"providers.{id}" id := by
    unfold InProvider
    rw [hsplit]
  exact hrun.hasProvider huntrusted
    (hasProvider_of_allowed huntrusted (mergePath_allowed hnext hpath) hin)

/-! ## Overrides -/

theorem hasProvider_put {root root' : Table} {value : Value} (h : setPath root path value = .ok root')
    (hin : InProvider path id) : HasProvider root' id := by
  have hget : getPath root' path = some value := Doc.lookup_put (setPath_ok_iff.mp h)
  exact hasProvider_of_getPath hget hin

theorem applyArray_hasProvider {op : OverrideOperation} {values : List Value} {origin : Origin}
    (h : merged.applyArray path op values origin = .ok merged') (hafter : HasProvider merged'.root id) :
    HasProvider merged.root id ∨ op ≠ .Remove ∧ InProvider path id := by
  unfold applyArray at h
  split at h
  · rename_i hget
    split_ifs at h with hremove
    · obtain rfl := Except.ok.inj h
      exact Or.inl hafter
    · rcases hasProvider_of_put (write_ok h) hafter with hbefore | hin | ⟨_, _, hvalue, _⟩
      · exact Or.inl hbefore
      · exact Or.inr ⟨hremove, hin⟩
      · cases hvalue
  · rename_i current hget
    rcases hasProvider_of_put (write_ok h) hafter with hbefore | hin | ⟨_, _, hvalue, _⟩
    · exact Or.inl hbefore
    · exact Or.inl (hasProvider_of_getPath hget hin)
    · cases hvalue
  · cases h

/-- An override only brings in a provider that it writes. -/
theorem applyOverride_hasProvider {spec : OverrideSpec}
    (h : merged.applyOverride path spec source = .ok merged') (hafter : HasProvider merged'.root id) :
    HasProvider merged.root id ∨ WritesProvider path spec id := by
  unfold applyOverride at h
  simp only at h
  split at h
  · cases h
  · rename_i tree hop hvalue
    obtain ⟨value, htoml, hwrite⟩ := bind_ok_iff.mp h
    rcases hasProvider_of_put (write_ok hwrite) hafter with hbefore | hin | ⟨hpath, table, rfl, hkey⟩
    · exact Or.inl hbefore
    · exact Or.inr (Or.inl ⟨by simp [hop], hin⟩)
    · obtain ⟨entries, rfl, hkeys⟩ := table_of_valueTreeToToml htoml
      exact Or.inr (Or.inr ⟨hop, hpath, entries, hvalue, hkeys ▸ hkey⟩)
  · obtain rfl := Except.ok.inj h
    exact Or.inl (hasProvider_of_drop hafter)
  · rename_i hunset hnone hsome
    obtain ⟨values, _, harray⟩ := bind_ok_iff.mp h
    rcases applyArray_hasProvider harray hafter with hbefore | ⟨hremove, hin⟩
    · exact Or.inl hbefore
    · refine Or.inr (Or.inl ⟨?_, hin⟩)
      cases hop : spec.op with
      | Set => simp
      | Replace => simp
      | Append => simp
      | Remove => exact absurd hop hremove
      | Unset => exact absurd hop hunset

/-- What an override writes is there afterwards. -/
theorem hasProvider_of_writes {spec : OverrideSpec}
    (h : merged.applyOverride path spec source = .ok merged') (hwrites : WritesProvider path spec id) :
    HasProvider merged'.root id := by
  unfold applyOverride at h
  simp only at h
  split at h
  · cases h
  · rename_i tree hop hvalue
    obtain ⟨value, htoml, hwrite⟩ := bind_ok_iff.mp h
    rcases hwrites with ⟨_, hin⟩ | ⟨_, rfl, entries, hentries, hkey⟩
    · exact hasProvider_put (write_ok hwrite) hin
    · obtain rfl := Option.some.inj (hvalue.symm.trans hentries)
      rw [valueTreeToToml] at htoml
      obtain ⟨table, htable, rfl⟩ := map_ok_iff.mp htoml
      have hput := Doc.lookup_put (setPath_ok_iff.mp (write_ok hwrite))
      rw [← keys_entriesToToml htable] at hkey
      obtain ⟨doc, hdoc⟩ := Entries.mem_keys_iff.mp hkey
      refine ⟨doc, ?_⟩
      rw [← List.singleton_append, Doc.lookup_append (by simp), ← splitChar_providers, hput]
      exact hdoc
  · rename_i hop
    rcases hwrites with ⟨hmem, _⟩ | ⟨hset, _⟩
    · rw [hop] at hmem
      exact absurd hmem (by decide)
    · rw [hop] at hset
      cases hset
  · rename_i hunset hnone hsome
    obtain ⟨values, _, harray⟩ := bind_ok_iff.mp h
    have hwritten : ∃ value, setPath merged.root path (.Array value) = .ok merged'.root := by
      unfold applyArray at harray
      split at harray
      · split_ifs at harray with hremove
        · rcases hwrites with ⟨hmem, _⟩ | ⟨hop, _⟩
          · rw [hremove] at hmem
            exact absurd hmem (by decide)
          · rw [hremove] at hop
            cases hop
        · exact ⟨_, write_ok harray⟩
      · exact ⟨_, write_ok harray⟩
      · cases harray
    obtain ⟨value, hput⟩ := hwritten
    rcases hwrites with ⟨_, hin⟩ | ⟨hop, _, entries, hvalue, _⟩
    · exact hasProvider_put hput hin
    · exact absurd hvalue (hsome _ hop)

/-- An override keeps to the known providers exactly when what it writes does. -/
theorem override_keeps_providers_iff {spec : OverrideSpec} {known : String → Prop}
    (hknown : ∀ id, HasProvider merged.root id → known id)
    (h : merged.applyOverride path spec source = .ok merged') :
    (∀ id, HasProvider merged'.root id → known id) ↔ ∀ id, WritesProvider path spec id → known id := by
  constructor
  · intro hafter id hwrites
    exact hafter id (hasProvider_of_writes h hwrites)
  · intro hwrites id hafter
    rcases applyOverride_hasProvider h hafter with hbefore | hnew
    · exact hknown id hbefore
    · exact hwrites id hnew

/-! ## Profiles -/

end MergedConfig

/-- The profile declares the provider in its configuration. -/
def RawProfile.DeclaresProvider (profile : RawProfile) (id : String) : Prop :=
  ∃ config table, profile.table "config" = some config ∧
    config.get "providers" = some (.Table table) ∧ id ∈ Entries.keys table

/-- The declaration of the provider is not looked at: the profile overrides the provider or all of
them, or the id has a dot and is taken apart. -/
def RawProfile.Unchecked (profile : RawProfile) (id : String) : Prop :=
  '.' ∈ id.toList ∨ profile.overrides.contains "providers" = true ∨
    profile.overrides.contains s!"providers.{id}" = true

/-- A profile whose overrides, and whose declarations that are not looked at, keep to the known
providers. -/
structure KnownWrites (known : String → Prop) (profile : RawProfile) : Prop where
  overrides : ∀ path spec id, profile.overrides[path]? = some spec → WritesProvider path spec id →
    known id
  unchecked : ∀ id, profile.DeclaresProvider id → profile.Unchecked id → known id

namespace MergedConfig

variable {merged merged' : MergedConfig} {source : ProfileSource} {policy : PolicyConfig}
  {profile : RawProfile} {known : String → Prop} {id : String}

theorem OverrideRun.hasProvider (h : OverrideRun profile source policy merged merged')
    (hwrites : KnownWrites known profile) (hknown : ∀ id, HasProvider merged.root id → known id) :
    ∀ id, HasProvider merged'.root id → known id := by
  induction h with
  | refl => exact hknown
  | tail _ hstep ih =>
    obtain ⟨path, spec, hstep⟩ := hstep
    exact (override_keeps_providers_iff ih hstep.applied).mpr fun id =>
      hwrites.overrides path spec id hstep.declared

/-- An untrusted profile that is merged and keeps its writes to the known providers brings in no
provider, and declares none. -/
theorem mergeProfile_providers (huntrusted : source.source.isTrusted = false)
    (hwrites : KnownWrites known profile) (hknown : ∀ id, HasProvider merged.root id → known id)
    (h : merged.mergeProfile profile source = .ok merged') :
    (∀ id, HasProvider merged'.root id → known id) ∧
      ∀ id, profile.DeclaresProvider id → known id := by
  obtain ⟨_, policy, middle, _, hsection, hdeclare, hoverride⟩ := mergeProfile_untrusted huntrusted h
  have hmiddle : ∀ id, HasProvider middle.root id → known id := fun id hafter =>
    hknown id (hdeclare.hasProvider huntrusted hafter)
  refine ⟨hoverride.hasProvider hwrites hmiddle, ?_⟩
  rintro id ⟨config, table, hconfig, hproviders, hkey⟩
  by_cases hunchecked : profile.Unchecked id
  · exact hwrites.unchecked id ⟨config, table, hconfig, hproviders, hkey⟩ hunchecked
  · simp only [RawProfile.Unchecked, not_or, Bool.not_eq_true] at hunchecked
    obtain ⟨hfree, hall, hone⟩ := hunchecked
    rw [hconfig] at hsection
    obtain ⟨before, next, hrun, hnext⟩ := mergeTable_member hsection (Entries.mem_of_get hproviders)
    have hbefore := declared_of_mergePath huntrusted hnext hkey hall hone hfree
    exact hknown id (hrun.hasProvider huntrusted hbefore)

/-- Profiles, merged one after another. -/
def mergeProfiles : List (RawProfile × ProfileSource) → MergedConfig → Except Failure MergedConfig
  | [], merged => .ok merged
  | (profile, source) :: rest, merged => do
    let merged ← merged.mergeProfile profile source
    mergeProfiles rest merged

theorem mergeProfiles_providers {profiles : List (RawProfile × ProfileSource)}
    (huntrusted : ∀ entry ∈ profiles, IsOverlay entry.2.source)
    (hwrites : ∀ entry ∈ profiles, KnownWrites known entry.1)
    (hknown : ∀ id, HasProvider merged.root id → known id)
    (h : mergeProfiles profiles merged = .ok merged') :
    (∀ id, HasProvider merged'.root id → known id) ∧
      ∀ entry ∈ profiles, ∀ id, entry.1.DeclaresProvider id → known id := by
  induction profiles generalizing merged with
  | nil =>
    obtain rfl := Except.ok.inj h
    exact ⟨hknown, fun _ hentry => absurd hentry List.not_mem_nil⟩
  | cons entry rest ih =>
    obtain ⟨profile, source⟩ := entry
    unfold mergeProfiles at h
    obtain ⟨middle, hfirst, hrest⟩ := bind_ok_iff.mp h
    rw [List.forall_mem_cons] at huntrusted hwrites
    obtain ⟨hmiddle, hdeclared⟩ :=
      mergeProfile_providers huntrusted.1.untrusted hwrites.1 hknown hfirst
    obtain ⟨hafter, hothers⟩ := ih huntrusted.2 hwrites.2 hmiddle hrest
    exact ⟨hafter, List.forall_mem_cons.mpr ⟨hdeclared, hothers⟩⟩

end MergedConfig

/-! ## Runtime values -/

namespace RuntimeInputApplier

open MergedConfig

variable {merged merged' : MergedConfig} {known : String → Prop} {environment : RuntimeEnvironment}
  {config : ResolvedConfig} {id : String}

/-- The environment has a value for the input, by one of its names or as an override of its target. -/
def Supplied (environment : RuntimeEnvironment) (name : String) (input : InputSpec) : Prop :=
  (input.runtime = true ∧ ∃ candidate ∈ name :: input.export_as.toList,
    environment.contains candidate = true) ∨
  ∃ raw, environment.contains ("DEVENV_OVERRIDE__" ++ raw) = true ∧
    namespacePath raw = .ok input.target

/-- The inputs that the environment supplies keep to the known providers. -/
def KnownTargets (known : String → Prop) (environment : RuntimeEnvironment) (config : ResolvedConfig) :
    Prop :=
  ∀ name input id, config.inputs[name]? = some input → Supplied environment name input →
    InProvider input.target id → known id

/-- A runtime value is a scalar, so it only brings in the provider that its path is in. -/
theorem setRuntimeValue_hasProvider {path : String} {parsed : ParsedInput} {origin : Origin}
    {sensitivity : Sensitivity}
    (h : merged.setRuntimeValue path (parsedInputValue parsed) origin sensitivity = .ok merged')
    (hafter : HasProvider merged'.root id) : HasProvider merged.root id ∨ InProvider path id := by
  unfold setRuntimeValue at h
  obtain ⟨value, htoml, hwrite⟩ := bind_ok_iff.mp h
  rcases hasProvider_of_put (write_ok hwrite) hafter with hbefore | hin | ⟨_, table, rfl, _⟩
  · exact Or.inl hbefore
  · exact Or.inr hin
  · obtain ⟨entries, hentries, _⟩ := table_of_valueTreeToToml htoml
    cases parsed <;> cases hentries

theorem suppliedBy_some {name : String} {candidates : List String} {supplied : Option (String × String)}
    {found : String × String}
    (h : suppliedBy environment name candidates supplied = .ok (some found)) :
    supplied.isSome = true ∨ ∃ candidate ∈ candidates, environment.contains candidate = true := by
  induction candidates generalizing supplied with
  | nil =>
    obtain rfl := Except.ok.inj h
    exact Or.inl rfl
  | cons candidate rest ih =>
    unfold suppliedBy at h
    split at h
    · rcases ih h with hsome | ⟨other, hother, hin⟩
      · exact Or.inl hsome
      · exact Or.inr ⟨other, List.mem_cons_of_mem _ hother, hin⟩
    · rename_i value hvalue
      refine Or.inr ⟨candidate, List.mem_cons_self, ?_⟩
      rw [Std.ExtTreeMap.contains_eq_isSome_getElem?, hvalue]
      rfl
    · exact Or.inl rfl

theorem applyInput_hasProvider {name : String} {input : InputSpec}
    (h : applyInput environment name input merged = .ok merged') (hafter : HasProvider merged'.root id) :
    HasProvider merged.root id ∨ Supplied environment name input ∧ InProvider input.target id := by
  unfold applyInput at h
  split at h
  · obtain rfl := Except.ok.inj h
    exact Or.inl hafter
  · rename_i hruntime
    obtain ⟨supplied, hsupplied, h⟩ := bind_ok_iff.mp h
    cases supplied with
    | none =>
      obtain rfl := Except.ok.inj h
      exact Or.inl hafter
    | some found =>
      obtain ⟨parsed, _, h⟩ := bind_ok_iff.mp h
      refine (setRuntimeValue_hasProvider h hafter).imp_right fun hin => ⟨Or.inl ⟨?_, ?_⟩, hin⟩
      · simpa using hruntime
      · exact (suppliedBy_some hsupplied).resolve_left Bool.false_ne_true

theorem applyInputs_hasProvider {inputs : List (String × InputSpec)}
    (h : applyInputs environment inputs merged = .ok merged') (hafter : HasProvider merged'.root id) :
    HasProvider merged.root id ∨ ∃ name input, (name, input) ∈ inputs ∧
      Supplied environment name input ∧ InProvider input.target id := by
  induction inputs generalizing merged with
  | nil =>
    obtain rfl := Except.ok.inj h
    exact Or.inl hafter
  | cons entry rest ih =>
    obtain ⟨name, input⟩ := entry
    unfold applyInputs at h
    obtain ⟨middle, hfirst, hrest⟩ := bind_ok_iff.mp h
    rcases ih hrest with hmiddle | ⟨other, found, hmem, hsupplied⟩
    · rcases applyInput_hasProvider hfirst hmiddle with hbefore | hsupplied
      · exact Or.inl hbefore
      · exact Or.inr ⟨name, input, List.mem_cons_self, hsupplied⟩
    · exact Or.inr ⟨other, found, List.mem_cons_of_mem _ hmem, hsupplied⟩

theorem inputAt_some {path : String} {input : InputSpec} (h : inputAt config path = some input) :
    input.target = path ∧ ∃ name : String, config.inputs[name]? = some input := by
  unfold inputAt at h
  obtain ⟨⟨name, found⟩, hfind, rfl⟩ := Option.map_eq_some_iff.mp h
  refine ⟨by simpa using List.find?_some hfind, name, ?_⟩
  exact Std.ExtTreeMap.mem_toList_iff_getElem?_eq_some.mp (List.mem_of_find?_eq_some hfind)

/-- A value that overrides a path brings in a provider only when the path is the target of an input:
anything else must be there already. -/
theorem applyOverride_hasProvider {name raw_value : String}
    (hin : environment.contains name = true)
    (h : applyOverride config name raw_value merged = .ok merged') (hafter : HasProvider merged'.root id) :
    HasProvider merged.root id ∨ ∃ (name : String) (input : InputSpec), config.inputs[name]? = some input ∧
      Supplied environment name input ∧ InProvider input.target id := by
  unfold applyOverride at h
  split at h
  · obtain rfl := Except.ok.inj h
    exact Or.inl hafter
  · rename_i raw hraw
    obtain ⟨path, hpath, h⟩ := bind_ok_iff.mp h
    split_ifs at h
    · obtain rfl := Except.ok.inj h
      exact Or.inl hafter
    · obtain ⟨value, hvalue, h⟩ := bind_ok_iff.mp h
      unfold overrideValue at hvalue
      split at hvalue
      · rename_i input hinput
        obtain ⟨parsed, _, rfl⟩ := map_ok_iff.mp hvalue
        obtain ⟨rfl, owner, howner⟩ := inputAt_some hinput
        refine (setRuntimeValue_hasProvider h hafter).imp_right fun htarget => ?_
        refine ⟨owner, input, howner, Or.inr ⟨raw, ?_, hpath⟩, htarget⟩
        rwa [← stripStart_eq_some_iff.mp hraw]
      · split_ifs at hvalue with hnone
        · obtain rfl := Except.ok.inj hvalue
          obtain rfl := Except.ok.inj h
          exact Or.inl hafter
        · obtain rfl := Except.ok.inj hvalue
          have hparsed : (Doc.Scalar (.String raw_value) : ValueTree) =
              parsedInputValue (.String raw_value) := rfl
          simp only [hparsed] at h
          rcases setRuntimeValue_hasProvider h hafter with hbefore | htarget
          · exact Or.inl hbefore
          · cases hdoc : merged.valueAt path with
            | none => exact absurd (by rw [hdoc]; rfl) hnone
            | some doc => exact Or.inl (hasProvider_of_getPath hdoc htarget)

theorem applyOverrides_hasProvider {values : List (String × String)}
    (hin : ∀ entry ∈ values, environment.contains entry.1 = true)
    (h : applyOverrides config values merged = .ok merged') (hafter : HasProvider merged'.root id) :
    HasProvider merged.root id ∨ ∃ (name : String) (input : InputSpec), config.inputs[name]? = some input ∧
      Supplied environment name input ∧ InProvider input.target id := by
  induction values generalizing merged with
  | nil =>
    obtain rfl := Except.ok.inj h
    exact Or.inl hafter
  | cons entry rest ih =>
    obtain ⟨name, raw_value⟩ := entry
    unfold applyOverrides at h
    obtain ⟨middle, hfirst, hrest⟩ := bind_ok_iff.mp h
    rw [List.forall_mem_cons] at hin
    rcases ih hin.2 hrest with hmiddle | hsupplied
    · exact applyOverride_hasProvider hin.1 hfirst hmiddle
    · exact Or.inr hsupplied

/-- Runtime values bring in no provider but those that the targets of supplied inputs are in. -/
theorem apply_providers {schema : ConfigSchema}
    (htargets : ∀ config, merged.configSnapshot schema = .ok config →
      KnownTargets known environment config)
    (hknown : ∀ id, HasProvider merged.root id → known id)
    (h : apply schema environment merged = .ok merged') :
    ∀ id, HasProvider merged'.root id → known id := by
  intro id hafter
  unfold apply at h
  obtain ⟨config, hconfig, h⟩ := bind_ok_iff.mp h
  obtain ⟨middle, hinputs, hoverrides⟩ := bind_ok_iff.mp h
  have hin : ∀ entry ∈ environment.toList, environment.contains entry.1 = true := by
    intro entry hentry
    rw [Std.ExtTreeMap.contains_eq_isSome_getElem?,
      Std.ExtTreeMap.mem_toList_iff_getElem?_eq_some.mp hentry]
    rfl
  rcases applyOverrides_hasProvider hin hoverrides hafter with
    hmiddle | ⟨name, input, hinput, hsupplied, htarget⟩
  · rcases applyInputs_hasProvider hinputs hmiddle with hbefore | ⟨name, input, hmem, hsupplied, htarget⟩
    · exact hknown id hbefore
    · have hinput := Std.ExtTreeMap.mem_toList_iff_getElem?_eq_some.mp hmem
      exact htargets config hconfig name input id hinput hsupplied htarget
  · exact htargets config hconfig name input id hinput hsupplied htarget

end RuntimeInputApplier

/-! ## Untrusted sources -/

/-- Overlays that are merged, and runtime values that are applied after them, bring in no provider as
long as their overrides, the declarations that are not looked at and the supplied targets keep to the
providers that there are; and no overlay declares another one. -/
theorem untrusted_sources_add_no_provider {schema : ConfigSchema}
    {merged merged₁ merged₂ : MergedConfig} {profiles : List (RawProfile × ProfileSource)}
    {environment : RuntimeInputApplier.RuntimeEnvironment}
    (hoverlays : ∀ entry ∈ profiles, MergedConfig.IsOverlay entry.2.source)
    (hwrites : ∀ entry ∈ profiles, KnownWrites (HasProvider merged.root) entry.1)
    (htargets : ∀ config, merged₁.configSnapshot schema = .ok config →
      RuntimeInputApplier.KnownTargets (HasProvider merged.root) environment config)
    (hmerge : MergedConfig.mergeProfiles profiles merged = .ok merged₁)
    (happly : RuntimeInputApplier.apply schema environment merged₁ = .ok merged₂) :
    (∀ id, HasProvider merged₂.root id → HasProvider merged.root id) ∧
      ∀ entry ∈ profiles, ∀ id, entry.1.DeclaresProvider id → HasProvider merged.root id := by
  obtain ⟨hafter, hdeclared⟩ :=
    MergedConfig.mergeProfiles_providers hoverlays hwrites (fun _ h => h) hmerge
  exact ⟨RuntimeInputApplier.apply_providers htargets hafter happly, hdeclared⟩

/-- A workspace that takes another shell by an override that the policy permits. -/
def shellOverlay : RawProfile :=
  RawProfile.overriding "workspace" "shell.default" (setText "bash" "taste") (by decide)

def shellPolicy : Table := [("workspace_can_override", .Array [Value.text "shell.default"])]

theorem shell_override_adds_no_provider : ∃ merged₁ merged₂,
    MergedConfig.mergeProfiles [(shellOverlay, workspaceSource)] (imageConfig shellPolicy) =
      .ok merged₁ ∧
    RuntimeInputApplier.apply imageSchema ∅ merged₁ = .ok merged₂ ∧
    ∀ id, ¬ HasProvider merged₂.root id := by
  have hok : ((MergedConfig.mergeProfiles [(shellOverlay, workspaceSource)]
      (imageConfig shellPolicy)).bind (RuntimeInputApplier.apply imageSchema ∅)).isOk = true := by
    decide
  obtain ⟨merged₂, hmerged₂⟩ := exists_of_isOk hok
  obtain ⟨merged₁, hmerge, happly⟩ := bind_ok_iff.mp hmerged₂
  refine ⟨merged₁, merged₂, hmerge, happly, fun id hafter => ?_⟩
  have hnone : ¬ HasProvider (imageConfig shellPolicy).root id := fun ⟨_, hdoc⟩ => nomatch hdoc
  refine hnone ((untrusted_sources_add_no_provider ?_ ?_ ?_ hmerge happly).1 id hafter)
  · exact List.forall_mem_singleton.mpr (Or.inr rfl)
  · refine List.forall_mem_singleton.mpr ⟨fun path spec id hspec hwrites => ?_, fun id hdeclares => ?_⟩
    · have hentry : (path, spec) ∈ shellOverlay.overrides.toList :=
        Std.ExtTreeMap.mem_toList_iff_getElem?_eq_some.mpr hspec
      have hlist : shellOverlay.overrides.toList =
          [("shell.default", setText "bash" "taste")] := rfl
      rw [hlist, List.mem_singleton] at hentry
      obtain ⟨rfl, rfl⟩ := Prod.mk.injEq .. |>.mp hentry
      rcases hwrites with ⟨_, hin⟩ | ⟨_, hpath, _⟩
      · have hsplit : splitChar '.' "shell.default" = ["shell", "default"] := by decide
        unfold InProvider at hin
        rw [hsplit, List.cons_prefix_cons] at hin
        exact absurd hin.1 (by decide)
      · exact absurd hpath (by decide)
    · obtain ⟨config, table, hconfig, _⟩ := hdeclares
      cases hconfig
  · intro config _ name input id _ hsupplied
    rcases hsupplied with ⟨_, candidate, _, hin⟩ | ⟨raw, hin, _⟩
    · simp at hin
    · simp at hin

/-! ### A provider of a workspace -/

def providersPolicy : Table := [("workspace_can_override", .Array [Value.text "providers.*"])]

/-- A workspace that overrides a field of a provider that nobody declared. -/
def intrudingOverlay : RawProfile :=
  RawProfile.overriding "workspace" "providers.intruder.executable"
    (setText "/workspace/intruder" "tools") (by decide)

/-- A workspace overlay that the policy lets override providers brings in one that nobody declared. -/
theorem workspace_adds_provider : ∃ merged,
    MergedConfig.mergeProfiles [(intrudingOverlay, workspaceSource)] (imageConfig providersPolicy) =
      .ok merged ∧
    HasProvider merged.root "intruder" ∧
    ¬ HasProvider (imageConfig providersPolicy).root "intruder" := by
  have hvalue : (MergedConfig.mergeProfiles [(intrudingOverlay, workspaceSource)]
      (imageConfig providersPolicy)).map
        (fun merged => Doc.lookup ["providers", "intruder"] merged.root) =
      .ok (some (.Table [("executable", Value.text "/workspace/intruder")])) := rfl
  obtain ⟨merged, hmerged, hlookup⟩ := map_ok_iff.mp hvalue
  exact ⟨merged, hmerged, ⟨_, hlookup⟩, fun ⟨_, hdoc⟩ => nomatch hdoc⟩

end dev_env_loader
