-- An override owns its path: what a profile declares at the path or under it
-- is not merged where every path above leads to a table.
import NixosDockers.DevEnvLoader.Frame
import NixosDockers.DevEnvLoader.Providers

open rust_text documents dev_env_model results

namespace dev_env_loader

/-! ## Profiles without some declarations -/

/-- A change of the entries, when the value is a table. -/
def mapTable (change : Table → Table) : Value → Value
  | .Table inner => .Table (change inner)
  | value => value

/-- The entries without what is at the keys and under it. -/
def withoutDeclarations : List String → Table → Table
  | [], entries => entries
  | [key], entries => entries.erase key
  | key :: next :: rest, entries => entries.map fun (other, value) =>
    (other, if other = key then mapTable (withoutDeclarations (next :: rest)) value else value)

/-- The entries of every table come in the order of their keys. -/
inductive Ordered : Value → Prop
  | Scalar (value : TomlScalar) : Ordered (.Scalar value)
  | Array (items : List Value) (ordered : ∀ item ∈ items, Ordered item) : Ordered (.Array items)
  | Table (entries : Table) (ordered_keys : entries.Pairwise fun first second => first.1 < second.1)
    (ordered : ∀ entry ∈ entries, Ordered entry.2) : Ordered (.Table entries)

section Without

variable {key next other : String} {rest keys : List String} {entries : Table} {value : Value}

theorem withoutDeclarations_cons (hrest : rest ≠ []) :
    withoutDeclarations (key :: rest) ((other, value) :: entries) =
      (other, if other = key then mapTable (withoutDeclarations rest) value else value) ::
        withoutDeclarations (key :: rest) entries := by
  cases rest with
  | nil => exact absurd rfl hrest
  | cons => rfl

theorem get_withoutDeclarations (hrest : rest ≠ []) :
    (withoutDeclarations (key :: rest) entries).get other =
      if other = key then (entries.get other).map (mapTable (withoutDeclarations rest))
      else entries.get other := by
  induction entries with
  | nil =>
    cases rest with
    | nil => exact absurd rfl hrest
    | cons => split_ifs <;> rfl
  | cons entry entries ih =>
    obtain ⟨first, value⟩ := entry
    rw [withoutDeclarations_cons hrest, Entries.get_cons, Entries.get_cons, ih]
    by_cases hfirst : other = first
    · subst hfirst
      rw [if_pos rfl, if_pos rfl]
      split_ifs <;> rfl
    · rw [if_neg hfirst, if_neg hfirst]

theorem mem_keys_withoutDeclarations (h : other ∈ Entries.keys (withoutDeclarations keys entries)) :
    other ∈ Entries.keys entries := by
  match keys with
  | [] => exact h
  | [key] =>
    obtain ⟨entry, hentry, rfl⟩ := List.mem_map.mp h
    exact List.mem_map_of_mem (List.mem_filter.mp hentry).1
  | key :: next :: rest =>
    obtain ⟨entry, hentry, rfl⟩ := List.mem_map.mp h
    obtain ⟨first, hfirst, rfl⟩ := List.mem_map.mp hentry
    exact List.mem_map.mpr ⟨first, hfirst, rfl⟩

theorem withoutDeclarations_ne (h : other ≠ key) :
    withoutDeclarations (key :: rest) ((other, value) :: entries) =
      (other, value) :: withoutDeclarations (key :: rest) entries := by
  cases rest with
  | nil =>
    unfold withoutDeclarations Entries.erase
    rw [List.filter_cons_of_pos (by simpa using h)]
  | cons next rest => rw [withoutDeclarations_cons (List.cons_ne_nil next rest), if_neg h]

/-- Nothing is removed by a key that is not there. -/
theorem withoutDeclarations_of_missing (h : key ∉ Entries.keys entries) :
    withoutDeclarations (key :: rest) entries = entries := by
  cases rest with
  | nil =>
    refine List.filter_eq_self.mpr fun entry hentry => ?_
    have hne : entry.1 ≠ key := fun heq => h (heq ▸ List.mem_map_of_mem hentry)
    simpa using hne
  | cons next rest =>
    refine (List.map_congr_left fun entry hentry => ?_).trans (List.map_id entries)
    have hne : entry.1 ≠ key := fun heq => h (heq ▸ List.mem_map_of_mem hentry)
    obtain ⟨first, value⟩ := entry
    exact Prod.ext rfl (if_neg hne)

theorem not_mem_keys_of_ordered (h : Ordered (.Table ((key, value) :: entries))) :
    key ∉ Entries.keys entries := by
  cases h with
  | Table _ hkeys _ =>
    intro hmem
    obtain ⟨entry, hentry, heq⟩ := List.mem_map.mp hmem
    have hlt := (List.pairwise_cons.mp hkeys).1 entry hentry
    rw [heq] at hlt
    exact lt_irrefl _ hlt

theorem ordered_tail {entry : String × Value} (h : Ordered (.Table (entry :: entries))) :
    Ordered (.Table entries) := by
  cases h with
  | Table _ hkeys hvalues =>
    exact .Table entries (List.pairwise_cons.mp hkeys).2 fun other hother =>
      hvalues other (List.mem_cons_of_mem _ hother)

theorem get_of_mem (hordered : Ordered (.Table entries)) (h : (key, value) ∈ entries) :
    entries.get key = some value := by
  induction entries with
  | nil => cases h
  | cons entry entries ih =>
    obtain ⟨first, old⟩ := entry
    rw [Entries.get_cons]
    rcases List.mem_cons.mp h with heq | hmem
    · cases heq
      rw [if_pos rfl]
    · have hne : key ≠ first := by
        rintro rfl
        exact not_mem_keys_of_ordered hordered (List.mem_map.mpr ⟨_, hmem, rfl⟩)
      rw [if_neg hne]
      exact ih (ordered_tail hordered) hmem

theorem ordered_of_mem (hordered : Ordered (.Table entries)) (h : (key, value) ∈ entries) :
    Ordered value := by
  cases hordered with
  | Table _ _ hvalues => exact hvalues _ h

/-- Nothing is removed where nothing is declared. -/
theorem withoutDeclarations_of_lookup (h : Doc.lookup keys entries = none)
    (hordered : Ordered (.Table entries)) : withoutDeclarations keys entries = entries := by
  induction keys generalizing entries with
  | nil => rfl
  | cons key rest ih =>
    by_cases hmem : key ∈ Entries.keys entries
    · obtain ⟨value, hget⟩ := Entries.mem_keys_iff.mp hmem
      rw [Doc.lookup_cons, hget] at h
      cases rest with
      | nil => cases h
      | cons next rest =>
        refine (List.map_congr_left fun entry hentry => ?_).trans (List.map_id entries)
        obtain ⟨other, old⟩ := entry
        refine Prod.ext rfl ?_
        dsimp only [id_eq]
        by_cases hother : other = key
        · subst hother
          obtain rfl := Option.some.inj ((get_of_mem hordered hentry).symm.trans hget)
          rw [if_pos rfl]
          cases old with
          | Scalar | Array => rfl
          | Table inner =>
            rw [Doc.reach_table (List.cons_ne_nil next rest)] at h
            unfold mapTable
            dsimp only
            rw [ih h (ordered_of_mem hordered hentry)]
        · rw [if_neg hother]
    · exact withoutDeclarations_of_missing hmem

end Without

theorem RawProfile.eq_of_root {first second : RawProfile} (hid : first.id = second.id)
    (hparents : first.parents = second.parents) (hoverrides : first.overrides = second.overrides)
    (hroot : first.root = second.root) : first = second := by
  cases first
  cases second
  subst hid hparents hoverrides hroot
  rfl

/-- The profile without what `[config]` declares at the path and under it. -/
def RawProfile.withoutConfig (profile : RawProfile) (path : String) : RawProfile where
  id := profile.id
  parents := profile.parents
  overrides := profile.overrides
  root := withoutDeclarations ("config" :: splitChar '.' path) profile.root
  policy_read := by
    rw [get_withoutDeclarations (splitChar_ne_nil _ _), if_neg (by decide)]
    exact profile.policy_read
  config_known := by
    rw [get_withoutDeclarations (splitChar_ne_nil _ _), if_pos rfl]
    intro value hvalue
    obtain ⟨old, hold, rfl⟩ := Option.map_eq_some_iff.mp hvalue
    obtain ⟨table, rfl, hknown⟩ := profile.config_known old hold
    exact ⟨_, rfl, fun key hkey => hknown key (mem_keys_withoutDeclarations hkey)⟩
  inputs_named := by
    rw [get_withoutDeclarations (splitChar_ne_nil _ _), if_neg (by decide)]
    exact profile.inputs_named
  overrides_checked := profile.overrides_checked

/-! ## Declarations that are not reached -/

/-- A table is at the end of the keys. -/
def IsTableAt (root : Table) (keys : List String) : Prop :=
  ∃ inner, Doc.lookup keys root = some (.Table inner)

theorem not_append_lt (s t : String) : ¬ s ++ t < s := by
  rw [String.lt_iff_toList_lt, String.toList_append]
  generalize s.toList = front
  induction front with
  | nil => exact List.not_lt_nil _
  | cons c front ih =>
    intro h
    rcases List.cons_lt_cons_iff.mp h with hlt | ⟨-, hlt⟩
    · exact lt_irrefl _ hlt
    · exact ih hlt

/-- A key before another one does not begin a path with it. -/
theorem head_ne_of_lt {key other : String} {rest : List String} (h : other < key) :
    splitChar '.' other ≠ key :: rest := by
  intro hsplit
  rcases eq_of_splitChar_cons hsplit with ⟨-, rfl⟩ | ⟨tail, rfl, -⟩
  · exact lt_irrefl _ h
  · rw [String.append_assoc] at h
    exact not_append_lt _ _ h

namespace MergedConfig

variable {context : MergeContext} {within : String → Prop} {merged merged' : MergedConfig}
  {path key : String} {keys front rest : List String} {entries : Table}

/-- Declarations below other paths leave a table in its place. -/
theorem DeclareRun.isTableAt (h : DeclareRun context within merged merged') (hkeys : keys ≠ [])
    (hapart : ∀ path, within path → ¬ splitChar '.' path <+: keys)
    (htable : IsTableAt merged.root keys) : IsTableAt merged'.root keys := by
  have hput : ∀ {before after : MergedConfig} {path : String} {value : Value}, within path →
      setPath before.root path value = .ok after.root → IsTableAt before.root keys →
      IsTableAt after.root keys := by
    intro before after path value hwithin hset htable
    have hwritten := setPath_ok_iff.mp hset
    by_cases habove : keys <+: splitChar '.' path
    · have hne : keys ≠ splitChar '.' path := fun heq =>
        hapart path hwithin (heq ▸ List.prefix_rfl)
      exact (Doc.lookup_put_above hwritten hkeys habove hne).1
    · obtain ⟨inner, hinner⟩ := htable
      exact ⟨inner, (Doc.lookup_put_apart hwritten (hapart path hwithin) habove).trans hinner⟩
  induction h with
  | refl => exact htable
  | tail _ hstep ih =>
    cases hstep with
    | Added path incoming path_within provider absent written =>
      exact hput path_within (write_ok written) ih
    | Recorded path incoming recorded =>
      rw [recorded]
      exact ih
    | Preferred path incoming path_within prefer trusted written =>
      exact hput path_within (write_ok written) ih

/-- Only the check of the whole section of providers looks at what is declared. -/
theorem reject_of_ne {incoming other : Value} {source : ProfileSource} (h : path ≠ "providers") :
    merged.rejectUntrustedProviderAddition path incoming source =
      merged.rejectUntrustedProviderAddition path other source := by
  have hprovider : providerOf path incoming = providerOf path other := by
    unfold providerOf
    rw [if_neg h, if_neg h]
  unfold rejectUntrustedProviderAddition
  rw [hprovider]

theorem below_ne_providers (path key : String) : s!"{path}.{key}" ≠ "providers" := by
  intro h
  have hlength := congrArg List.length (splitChar_below path key)
  have hsingle : (splitChar '.' "providers").length = 1 := by decide +kernel
  rw [h, hsingle, List.length_append] at hlength
  have hpath := List.length_pos_of_ne_nil (splitChar_ne_nil '.' path)
  have hkey := List.length_pos_of_ne_nil (splitChar_ne_nil '.' key)
  omega

theorem toOption_mergeEntries_cons (value : Value) :
    (mergeEntries context ((key, value) :: entries) path merged).toOption =
      (mergePath context value s!"{path}.{key}" merged).toOption.bind fun merged =>
        (mergeEntries context entries path merged).toOption := by
  rw [mergeEntries]
  cases mergePath context value s!"{path}.{key}" merged <;> rfl

/-- What is removed inside a declaration makes no difference where an override owns its path, or
where it meets a table and makes none inside. -/
theorem mergePath_without (value : Value)
    (h : context.overrides.contains path = false →
      ((merged.rejectUntrustedProviderAddition path (mapTable (withoutDeclarations rest) value)
          context.source).toOption =
        (merged.rejectUntrustedProviderAddition path value context.source).toOption ∧
      IsTableAt merged.root (splitChar '.' path) ∧ ∀ inner, value = .Table inner →
        (mergeEntries context (withoutDeclarations rest inner) path merged).toOption =
          (mergeEntries context inner path merged).toOption)) :
    (mergePath context (mapTable (withoutDeclarations rest) value) path merged).toOption =
      (mergePath context value path merged).toOption := by
  cases howned : context.overrides.contains path with
  | true =>
    have hcontains : context.overrides.contains path = true := howned
    rw [mergePath, mergePath, if_pos hcontains, if_pos hcontains]
  | false =>
    obtain ⟨hreject, ⟨existing, htable⟩, hinner⟩ := h howned
    cases value with
    | Scalar | Array => rfl
    | Table inner =>
      have hcontains : ¬ context.overrides.contains path = true := by
        rw [howned]
        exact Bool.false_ne_true
      have hget : getPath merged.root path = some (.Table existing) := htable
      unfold mapTable at hreject ⊢
      dsimp only at hreject ⊢
      rw [mergePath, mergePath, if_neg hcontains, if_neg hcontains]
      cases hfirst : merged.rejectUntrustedProviderAddition path (.Table inner) context.source with
      | error failure =>
        rw [hfirst] at hreject
        cases hsecond : merged.rejectUntrustedProviderAddition path
            (.Table (withoutDeclarations rest inner)) context.source with
        | error => rfl
        | ok =>
          rw [hsecond] at hreject
          cases hreject
      | ok =>
        rw [hfirst] at hreject
        cases hsecond : merged.rejectUntrustedProviderAddition path
            (.Table (withoutDeclarations rest inner)) context.source with
        | error =>
          rw [hsecond] at hreject
          cases hreject
        | ok =>
          simp only [hget]
          exact hinner inner rfl

/-- A loop over the declarations at some paths makes nothing of what is removed by one key, when the
declaration of that key does not. What holds before the loop is kept by the declarations that come
before the one of the key. -/
theorem loop_without (child : String → String) (loop : Table → MergedConfig → Option MergedConfig)
    {first : String} (holds : MergedConfig → Prop)
    (hnext : ∀ key value entries merged, loop ((key, value) :: entries) merged =
      (mergePath context value (child key) merged).toOption.bind (loop entries))
    (hlast : rest = [] → context.overrides.contains (child first) = true)
    (hkept : ∀ key value merged merged', key < first →
      mergePath context value (child key) merged = .ok merged' → holds merged → holds merged')
    (hfirst : ∀ value merged, (first, value) ∈ entries → holds merged →
      (mergePath context (mapTable (withoutDeclarations rest) value) (child first) merged).toOption =
        (mergePath context value (child first) merged).toOption)
    (hordered : Ordered (.Table entries)) (hmerged : holds merged) :
    loop (withoutDeclarations (first :: rest) entries) merged = loop entries merged := by
  induction entries generalizing merged with
  | nil => cases rest <;> rfl
  | cons entry entries ih =>
    obtain ⟨key, value⟩ := entry
    by_cases hkey : key = first
    · subst hkey
      have hmissing := not_mem_keys_of_ordered hordered
      cases rest with
      | nil =>
        have hrest : withoutDeclarations [key] entries = entries :=
          withoutDeclarations_of_missing hmissing
        have hdropped : withoutDeclarations [key] ((key, value) :: entries) = entries := by
          unfold withoutDeclarations Entries.erase at hrest ⊢
          rw [List.filter_cons_of_neg (by simp), hrest]
        rw [hdropped, hnext, mergePath, if_pos (hlast rfl)]
        rfl
      | cons next rest =>
        rw [withoutDeclarations_cons (List.cons_ne_nil next rest), if_pos rfl,
          withoutDeclarations_of_missing hmissing, hnext, hnext,
          hfirst value merged List.mem_cons_self hmerged]
    · rw [withoutDeclarations_ne hkey, hnext, hnext]
      cases hstep : mergePath context value (child key) merged with
      | error => rfl
      | ok next =>
        by_cases hmem : first ∈ Entries.keys entries
        · have hbefore : key < first := by
            cases hordered with
            | Table _ hordered_keys _ =>
              obtain ⟨entry, hentry, heq⟩ := List.mem_map.mp hmem
              rw [← heq]
              exact (List.pairwise_cons.mp hordered_keys).1 entry hentry
          exact ih (fun value merged hentry => hfirst value merged (List.mem_cons_of_mem _ hentry))
            (ordered_tail hordered) (hkept key value merged next hbefore hstep hmerged)
        · rw [withoutDeclarations_of_missing hmem]

/-- A declaration before another one leaves the tables on the way of that one. -/
theorem isTableAt_of_before {first : String} {value : Value}
    (hsplit : splitChar '.' path = front ++ splitChar '.' key) (hlt : key < first) (h : mergePath context value path merged = .ok merged')
    (htable : IsTableAt merged.root (front ++ first :: rest)) :
    IsTableAt merged'.root (front ++ first :: rest) := by
  refine DeclareRun.isTableAt (mergePath_run h) (by simp) ?_ htable
  intro other hother hbelow
  have hle := hother.trans hbelow
  rw [hsplit, List.prefix_append_right_inj] at hle
  obtain ⟨head, more, hhead⟩ := List.exists_cons_of_ne_nil (splitChar_ne_nil '.' key)
  rw [hhead] at hle
  obtain rfl := (List.cons_prefix_cons.mp hle).1
  exact head_ne_of_lt hlt hhead

/-- What is removed at the keys or under them was not reached when an override owns a path above
them, or theirs, and every path above that one leads to a table. -/
theorem mergeEntries_without (owned : List String) {owner : String}
    (howner : context.overrides.contains owner = true) (hkeys : owned <+: keys)
    (hsplit : splitChar '.' owner = splitChar '.' path ++ owned) (howned : owned ≠ [])
    (habove : ∀ above, above ≠ [] → above <+: owned → above ≠ owned →
      IsTableAt merged.root (splitChar '.' path ++ above))
    (hordered : Ordered (.Table entries)) :
    (mergeEntries context (withoutDeclarations keys entries) path merged).toOption =
      (mergeEntries context entries path merged).toOption := by
  induction owned generalizing keys path entries merged with
  | nil => exact absurd rfl howned
  | cons first owned ih =>
    obtain ⟨tail, rfl⟩ := hkeys
    have hfirst : splitChar '.' s!"{path}.{first}" = splitChar '.' path ++ [first] := by
      have hfree : '.' ∉ first.toList :=
        free_of_mem_splitChar (hsplit ▸ List.mem_append_right _ List.mem_cons_self)
      rw [splitChar_below, splitChar_of_free hfree]
    have hcontained : owned = [] → context.overrides.contains s!"{path}.{first}" = true := by
      rintro rfl
      rw [← splitChar_injective '.' (hsplit.trans hfirst.symm)]
      exact howner
    refine loop_without (fun key => s!"{path}.{key}")
      (fun entries merged => (mergeEntries context entries path merged).toOption)
      (fun merged => ∀ above, above ≠ [] → above <+: first :: owned → above ≠ first :: owned →
        IsTableAt merged.root (splitChar '.' path ++ above))
      (fun key value entries merged => toOption_mergeEntries_cons value)
      (fun h => hcontained (List.append_eq_nil_iff.mp h).1)
      (fun key value merged merged' hlt hstep hholds above hne hle hproper => ?_)
      (fun value merged hentry hholds => mergePath_without value fun hopen => ?_) hordered habove
    · obtain ⟨head, more, rfl⟩ := List.exists_cons_of_ne_nil hne
      obtain rfl := (List.cons_prefix_cons.mp hle).1
      exact isTableAt_of_before (splitChar_below path key) hlt hstep (hholds _ hne hle hproper)
    · have hmore : owned ≠ [] := fun h => by
        rw [hcontained h] at hopen
        cases hopen
      refine ⟨by rw [reject_of_ne (below_ne_providers path first)], ?_, fun inner hinner => ?_⟩
      · rw [hfirst]
        exact hholds [first] (List.cons_ne_nil _ _) (List.prefix_append [first] owned)
          (by simp [hmore])
      · subst hinner
        have hinside := ordered_of_mem hordered hentry
        refine ih (List.prefix_append owned tail) ?_ hmore (fun above hne hle hlt => ?_) hinside
        · rw [hsplit, hfirst, List.append_assoc]
          rfl
        · rw [hfirst, List.append_assoc]
          exact hholds (first :: above) (List.cons_ne_nil _ _)
            (List.cons_prefix_cons.mpr ⟨rfl, hle⟩) (by simpa using hlt)

theorem toOption_mergeTable_cons (value : Value) :
    (mergeTable context ((key, value) :: entries) "" merged).toOption =
      (mergePath context value key merged).toOption.bind fun merged =>
        (mergeTable context entries "" merged).toOption := by
  rw [mergeTable, if_pos rfl]
  cases mergePath context value key merged <;> rfl

/-- The check of a section of providers only looks at the section that is there. -/
theorem reject_of_section {incoming : Value} {source : ProfileSource}
    (h : merged'.root.get "providers" = merged.root.get "providers") :
    merged'.rejectUntrustedProviderAddition path incoming source =
      merged.rejectUntrustedProviderAddition path incoming source := by
  have hget : ∀ provider : String, getPath merged'.root s!"providers.{provider}" =
      getPath merged.root s!"providers.{provider}" := by
    intro provider
    unfold getPath
    rw [splitChar_provider, Doc.lookup_cons, Doc.lookup_cons, h]
  unfold rejectUntrustedProviderAddition
  simp only [hget]

/-- The same for a whole configuration, where the check of the section of providers has to come to
the same answer. -/
theorem mergeConfig_without {config : Table} {owner : String}
    (howner : context.overrides.contains owner = true)
    (hkeys : splitChar '.' owner <+: splitChar '.' path)
    (habove : ∀ above, above ≠ [] → above <+: splitChar '.' owner → above ≠ splitChar '.' owner →
      IsTableAt merged.root above)
    (hproviders : context.overrides.contains "providers" = false → ∀ value rest,
      ("providers", value) ∈ config → splitChar '.' path = "providers" :: rest →
      (merged.rejectUntrustedProviderAddition "providers" (mapTable (withoutDeclarations rest) value)
        context.source).toOption =
      (merged.rejectUntrustedProviderAddition "providers" value context.source).toOption)
    (hordered : Ordered (.Table config)) :
    (mergeTable context (withoutDeclarations (splitChar '.' path) config) "" merged).toOption =
      (mergeTable context config "" merged).toOption := by
  obtain ⟨first, owned, hsplit⟩ := List.exists_cons_of_ne_nil (splitChar_ne_nil '.' owner)
  rw [hsplit] at hkeys habove
  obtain ⟨tail, htail⟩ := hkeys
  rw [List.cons_append] at htail
  rw [← htail]
  have hfree : '.' ∉ first.toList :=
    free_of_mem_splitChar (hsplit ▸ List.mem_cons_self : first ∈ splitChar '.' owner)
  have hfirst : splitChar '.' first = [first] := splitChar_of_free hfree
  have hcontained : owned = [] → context.overrides.contains first = true := by
    rintro rfl
    rw [← splitChar_injective '.' (hsplit.trans hfirst.symm)]
    exact howner
  refine loop_without (fun key => key)
    (fun entries merged => (mergeTable context entries "" merged).toOption)
    (fun after => after.root.get first = merged.root.get first)
    (fun key value entries merged => toOption_mergeTable_cons value)
    (fun h => hcontained (List.append_eq_nil_iff.mp h).1)
    (fun key value before after hlt hstep hholds => ?_)
    (fun value after hentry hholds => mergePath_without value fun hopen => ?_) hordered rfl
  · refine Eq.trans (DeclareRun.section (mergePath_run hstep) fun other hother hbelow => ?_) hholds
    obtain ⟨head, more, hhead⟩ := List.exists_cons_of_ne_nil (splitChar_ne_nil '.' key)
    have hle : [first] <+: splitChar '.' key ∨ splitChar '.' key <+: [first] :=
      List.prefix_or_prefix_of_prefix hbelow hother
    rw [hhead] at hle
    have heq : head = first := hle.elim (fun h => (List.cons_prefix_cons.mp h).1.symm)
      fun h => (List.cons_prefix_cons.mp h).1
    exact head_ne_of_lt hlt (heq ▸ hhead)
  · have hmore : owned ≠ [] := fun h => by
      rw [hcontained h] at hopen
      cases hopen
    have htable : ∀ above, above <+: owned → above ≠ owned → IsTableAt after.root (first :: above) := by
      intro above hle hne
      obtain ⟨inner, hinner⟩ := habove (first :: above) (List.cons_ne_nil _ _)
        (List.cons_prefix_cons.mpr ⟨rfl, hle⟩) (by simpa using hne)
      rw [Doc.lookup_cons] at hinner
      exact ⟨inner, by rw [Doc.lookup_cons, hholds, hinner]⟩
    refine ⟨?_, ?_, fun inner hinner => ?_⟩
    · by_cases hsection : first = "providers"
      · subst hsection
        rw [reject_of_section hholds, reject_of_section hholds]
        exact hproviders hopen value _ hentry htail.symm
      · rw [reject_of_ne hsection]
    · rw [hfirst]
      exact htable [] List.nil_prefix hmore.symm
    · subst hinner
      have hinside := ordered_of_mem hordered hentry
      refine mergeEntries_without owned howner (List.prefix_append owned tail) ?_ hmore
        (fun above hne hle hproper => ?_) hinside
      · rw [hsplit, hfirst]
        rfl
      · rw [hfirst]
        exact htable above hle hproper

/-! ## Owned paths -/

theorem toOption_bind {ε α β : Type} (x : Except ε α) (f : α → Except ε β) :
    (x >>= f).toOption = x.toOption.bind fun a => (f a).toOption := by
  cases x <;> rfl

/-- The profile declares nothing at the path; or it overrides a path above it, or this one, such
that every path above that one leads to a table of the state. -/
def Owned (merged : MergedConfig) (profile : RawProfile) (path : String) : Prop :=
  Doc.lookup ("config" :: splitChar '.' path) profile.root = none ∨
  ∃ owner, profile.overrides.contains owner = true ∧ splitChar '.' owner <+: splitChar '.' path ∧
    ∀ above, above ≠ [] → above <+: splitChar '.' owner → above ≠ splitChar '.' owner →
      IsTableAt merged.root above

/-- The check of the section of providers comes to the same answer without what the profile declares
at the path. -/
def ProvidersAgree (merged : MergedConfig) (profile : RawProfile) (path : String)
    (source : ProfileSource) : Prop :=
  profile.overrides.contains "providers" = false → ∀ value other,
    Doc.lookup ["config", "providers"] profile.root = some value →
    Doc.lookup ["config", "providers"] (profile.withoutConfig path).root = some other →
    (merged.rejectUntrustedProviderAddition "providers" value source).toOption =
      (merged.rejectUntrustedProviderAddition "providers" other source).toOption

variable {profile : RawProfile} {source : ProfileSource}

theorem get_withoutConfig (profile : RawProfile) (path : String) {key : String}
    (h : key ≠ "config") : (profile.withoutConfig path).root.get key = profile.root.get key := by
  unfold RawProfile.withoutConfig
  rw [get_withoutDeclarations (splitChar_ne_nil _ _), if_neg h]

theorem table_withoutConfig (profile : RawProfile) (path : String) {key : String}
    (h : key ≠ "config") : (profile.withoutConfig path).table key = profile.table key := by
  unfold RawProfile.table
  rw [get_withoutConfig profile path h]

theorem config_withoutConfig (profile : RawProfile) (path : String) :
    (profile.withoutConfig path).table "config" =
      (profile.table "config").map (withoutDeclarations (splitChar '.' path)) := by
  unfold RawProfile.table RawProfile.withoutConfig
  rw [get_withoutDeclarations (splitChar_ne_nil _ _), if_pos rfl]
  cases profile.root.get "config" with
  | none => rfl
  | some value => cases value <;> rfl

theorem permissions_withoutConfig (profile : RawProfile) (path : String) (source : ProfileSource) :
    validateSourcePermissions (profile.withoutConfig path) source =
      validateSourcePermissions profile source := by
  have hsection : ∀ key, key ≠ "config" →
      (profile.withoutConfig path).hasSection key = profile.hasSection key := by
    intro key hkey
    unfold RawProfile.hasSection
    rw [get_withoutConfig profile path hkey]
  unfold validateSourcePermissions
  rw [hsection "policy" (by decide), hsection "inputs" (by decide)]
  rfl

theorem policy_withoutConfig (merged : MergedConfig) (profile : RawProfile) (path : String)
    (source : ProfileSource) :
    merged.mergePolicy (profile.withoutConfig path) source = merged.mergePolicy profile source := by
  unfold mergePolicy
  rw [table_withoutConfig profile path (by decide)]
  rfl

/-- The policy of a profile leaves the other sections as they were. -/
theorem mergePolicy_get (h : merged.mergePolicy profile source = .ok merged')
    (hkey : key ≠ "policy") : merged'.root.get key = merged.root.get key := by
  unfold mergePolicy at h
  split at h
  · obtain rfl := Except.ok.inj h
    rfl
  · obtain ⟨policy, -, h⟩ := bind_ok_iff.mp h
    refine DeclareRun.section (mergeTable_run h) fun other hother hbelow => ?_
    obtain ⟨field, -, hfield⟩ := hother
    rw [if_neg (by decide), splitChar_below] at hfield
    have hpolicy : ["policy"] <+: splitChar '.' other := by
      refine List.IsPrefix.trans ?_ hfield
      have hsplit : splitChar '.' "policy" = ["policy"] := by decide +kernel
      rw [hsplit]
      exact List.prefix_append _ _
    have hle := List.prefix_of_prefix_length_le hbelow hpolicy le_rfl
    exact hkey (List.cons_prefix_cons.mp hle).1

theorem table_some {table : Table} (h : profile.table key = some table) :
    profile.root.get key = some (.Table table) := by
  unfold RawProfile.table at h
  split at h
  · next inner hget => rw [hget, Option.some.inj h]
  · cases h

theorem overrides_withoutConfig (profile : RawProfile) (path : String) :
    (profile.withoutConfig path).overrides = profile.overrides := rfl

/-- What is declared at a path begins with a known section. -/
theorem field_of_declared {config : Table} {first : String}
    (hconfig : profile.root.get "config" = some (.Table config))
    (h : Doc.lookup ("config" :: first :: rest) profile.root ≠ none) : first ∈ configFields := by
  rw [Doc.lookup_cons, hconfig, Doc.reach_table (List.cons_ne_nil _ _), Doc.lookup_cons] at h
  obtain ⟨known, heq, hknown⟩ := profile.config_known _ hconfig
  obtain rfl : config = known := by injection heq
  refine hknown first (Entries.mem_keys_iff.mpr ?_)
  cases hget : config.get first with
  | none =>
    rw [hget, Doc.reach_none] at h
    exact absurd rfl h
  | some value => exact ⟨value, rfl⟩

/-- The answers of the check of providers, as a merge of the section asks for them. -/
theorem ProvidersAgree.of_section {config : Table} {value : Value}
    (h : ProvidersAgree merged profile path source)
    (hordered : Ordered (.Table config))
    (hconfig : profile.root.get "config" = some (.Table config))
    (hopen : profile.overrides.contains "providers" = false)
    (hmem : ("providers", value) ∈ config) (hpath : splitChar '.' path = "providers" :: rest)
    (hrest : rest ≠ []) :
    (merged.rejectUntrustedProviderAddition "providers" (mapTable (withoutDeclarations rest) value)
        source).toOption =
      (merged.rejectUntrustedProviderAddition "providers" value source).toOption := by
  have hvalue : Doc.lookup ["config", "providers"] profile.root = some value := by
    rw [Doc.lookup_cons, hconfig, Doc.reach_table (List.cons_ne_nil _ _), Doc.lookup_cons,
      get_of_mem hordered hmem]
    rfl
  have hroot : (profile.withoutConfig path).root =
      withoutDeclarations ("config" :: splitChar '.' path) profile.root := rfl
  refine (h hopen value _ hvalue ?_).symm
  rw [hroot, hpath, Doc.lookup_cons, get_withoutDeclarations (List.cons_ne_nil _ _), if_pos rfl, hconfig,
    Option.map_some]
  unfold mapTable
  rw [Doc.reach_table (List.cons_ne_nil _ _), Doc.lookup_cons, get_withoutDeclarations hrest,
    if_pos rfl, get_of_mem hordered hmem, Option.map_some]
  rfl

/-- The profile is merged as if it declared nothing at an owned path or under it. -/
theorem mergeProfile_withoutConfig (hordered : Ordered (.Table profile.root))
    (howned : Owned merged profile path) (hproviders : ProvidersAgree merged profile path source) :
    (merged.mergeProfile (profile.withoutConfig path) source).toOption =
      (merged.mergeProfile profile source).toOption := by
  unfold mergeProfile
  rw [permissions_withoutConfig, policy_withoutConfig, config_withoutConfig,
    table_withoutConfig profile path (by decide), overrides_withoutConfig]
  simp only [toOption_bind]
  refine congrArg _ (funext fun _ => Option.bind_congr fun middle hmiddle => ?_)
  have hpolicy := ok_of_toOption hmiddle
  refine congrArg _ (funext fun policy => congrArg (Option.bind · _) ?_)
  cases htable : profile.table "config" with
  | none => rfl
  | some config =>
    have hconfig := table_some htable
    have hinside := ordered_of_mem hordered (Entries.mem_of_get hconfig)
    dsimp only [mergeSection, Option.map_some]
    by_cases hnone : Doc.lookup ("config" :: splitChar '.' path) profile.root = none
    · rw [Doc.lookup_cons, hconfig, Doc.reach_table (splitChar_ne_nil _ _)] at hnone
      rw [withoutDeclarations_of_lookup hnone hinside]
    · obtain ⟨owner, howner, hkeys, habove⟩ := howned.resolve_left hnone
      obtain ⟨first, rest, hsplit⟩ := List.exists_cons_of_ne_nil (splitChar_ne_nil '.' path)
      rw [hsplit] at hnone
      have hfield := field_of_declared hconfig hnone
      have hkept : middle.root.get first = merged.root.get first := by
        refine mergePolicy_get hpolicy ?_
        rintro rfl
        exact absurd hfield (by decide)
      refine mergeConfig_without howner hkeys (fun above hne hle hlt => ?_)
        (fun hopen value tail hmem htail => ?_) hinside
      · obtain ⟨inner, hinner⟩ := habove above hne hle hlt
        obtain ⟨head, more, rfl⟩ := List.exists_cons_of_ne_nil hne
        have hprefix := hle.trans hkeys
        rw [hsplit] at hprefix
        obtain rfl := (List.cons_prefix_cons.mp hprefix).1
        rw [Doc.lookup_cons] at hinner
        exact ⟨inner, by rw [Doc.lookup_cons, hkept, hinner]⟩
      · have hproviders' := hproviders.of_section hinside hconfig hopen hmem htail ?_
        · obtain rfl : first = "providers" := by
            rw [hsplit] at htail
            exact (List.cons.inj htail).1
          rw [reject_of_section hkept, reject_of_section hkept]
          exact hproviders'
        · rintro rfl
          rw [htail] at hkeys
          have howner' : splitChar '.' owner = splitChar '.' "providers" := by
            rw [splitChar_providers]
            refine (List.prefix_cons_iff.mp hkeys).elim (fun h => absurd h (splitChar_ne_nil _ _)) ?_
            rintro ⟨tail, heq, htail⟩
            rw [heq, List.prefix_nil.mp htail]
          rw [splitChar_injective '.' howner', hopen] at howner
          cases howner

/-- An owned path is owned by its override: the tree is the one that the profile makes without its
declarations there. -/
theorem override_owns_its_path (hordered : Ordered (.Table profile.root))
    (howned : Owned merged profile path) (hproviders : ProvidersAgree merged profile path source) :
    (merged.mergeProfile profile source).toOption.map MergedConfig.root =
      (merged.mergeProfile (profile.withoutConfig path) source).toOption.map MergedConfig.root := by
  rw [mergeProfile_withoutConfig hordered howned hproviders]

end MergedConfig

/-! ## A list of directories -/

/-- A profile that appends to the list of directories that it declares itself. -/
def listOverride : RawProfile where
  id := "list-override"
  parents := []
  overrides := Std.ExtTreeMap.empty.insert "environment.path.prepend"
    ⟨.Append, none, [.Scalar (.String "/opt/child")], "add the project toolchain"⟩
  root := [("config", .Table [("environment", .Table [("path",
    .Table [("prepend", .Array [Value.text "/not-used"])])])])]
  policy_read := (fun _ h => nomatch h)
  config_known := by
    rintro value h
    obtain rfl := Option.some.inj h
    exact ⟨_, rfl, by decide⟩
  inputs_named := (fun _ h => nomatch h)
  overrides_checked := by
    intro other found h
    rw [Std.ExtTreeMap.getElem?_insert] at h
    split_ifs at h with heq
    · rw [← Std.LawfulEqOrd.eq_of_compare heq, ← Option.some.inj h]
      decide +kernel
    · simp at h

def imageSource : ProfileSource := ⟨"image", .ImageProfile, none⟩

/-- A state with a list of directories. -/
def baseConfig : MergedConfig where
  root := [("environment", .Table [("path", .Table [("prepend", .Array [Value.text "/opt/base"])])])]
  origins := ∅
  provenance := ∅

/-- The profile without what it declares at the path of its override. -/
def bareOverride : RawProfile where
  id := "list-override"
  parents := []
  overrides := listOverride.overrides
  root := [("config", .Table [("environment", .Table [("path", .Table [])])])]
  policy_read := (fun _ h => nomatch h)
  config_known := by
    rintro value h
    obtain rfl := Option.some.inj h
    exact ⟨_, rfl, by decide⟩
  inputs_named := (fun _ h => nomatch h)
  overrides_checked := listOverride.overrides_checked

theorem splitChar_prepend :
    splitChar '.' "environment.path.prepend" = ["environment", "path", "prepend"] := by
  decide +kernel

theorem withoutConfig_listOverride :
    listOverride.withoutConfig "environment.path.prepend" = bareOverride := by
  have hroot : (listOverride.withoutConfig "environment.path.prepend").root = bareOverride.root := by
    unfold RawProfile.withoutConfig
    dsimp only
    rw [splitChar_prepend]
    rfl
  exact RawProfile.eq_of_root rfl rfl rfl hroot

theorem Ordered.single {key : String} {value : Value} (h : Ordered value) :
    Ordered (.Table [(key, value)]) :=
  .Table _ (List.pairwise_singleton _ _) fun entry hentry => by
    rw [List.mem_singleton.mp hentry]
    exact h

theorem listOverride_ordered : Ordered (.Table listOverride.root) := by
  refine .single (.single (.single (.single (.Array _ fun item hitem => ?_))))
  rw [List.mem_singleton.mp hitem]
  exact .Scalar _

theorem base_list_is_appended_to :
    (baseConfig.mergeProfile listOverride imageSource).toOption.map MergedConfig.root =
      (baseConfig.mergeProfile (listOverride.withoutConfig "environment.path.prepend")
        imageSource).toOption.map MergedConfig.root := by
  refine MergedConfig.override_owns_its_path listOverride_ordered
    (Or.inr ⟨"environment.path.prepend", rfl, List.prefix_rfl, ?_⟩) (fun _ _ _ h => nomatch h)
  rw [splitChar_prepend]
  intro above hne hle hlt
  simp only [List.prefix_cons_iff, List.prefix_nil] at hle
  obtain rfl | ⟨rest, rfl, rfl | ⟨rest, rfl, rfl | ⟨rest, rfl, rfl⟩⟩⟩ := hle
  · exact absurd rfl hne
  · exact ⟨_, rfl⟩
  · exact ⟨_, rfl⟩
  · exact absurd rfl hlt

/-- With no list of directories before, the declared one is appended to. -/
theorem declared_list_is_appended_to : ¬ ∀ (merged : MergedConfig) (profile : RawProfile)
    (path : String) (source : ProfileSource),
    profile.overrides.contains path = true → Ordered (.Table profile.root) →
    (merged.mergeProfile profile source).toOption.map MergedConfig.root =
      (merged.mergeProfile (profile.withoutConfig path) source).toOption.map MergedConfig.root := by
  intro h
  have hequal := h MergedConfig.default listOverride "environment.path.prepend" imageSource rfl
    listOverride_ordered
  have hdeclared : (MergedConfig.default.mergeProfile listOverride imageSource).map
      (fun merged => Doc.lookup ["environment", "path", "prepend"] merged.root) =
      .ok (some (.Array [Value.text "/not-used", Value.text "/opt/child"])) := rfl
  have hbare : (MergedConfig.default.mergeProfile bareOverride imageSource).map
      (fun merged => Doc.lookup ["environment", "path", "prepend"] merged.root) =
      .ok (some (.Array [Value.text "/opt/child"])) := rfl
  obtain ⟨merged, hmerged, hlookup⟩ := map_ok_iff.mp hdeclared
  obtain ⟨bare, hbare, hlookup'⟩ := map_ok_iff.mp hbare
  rw [withoutConfig_listOverride, hmerged, hbare] at hequal
  have hroot : merged.root = bare.root := Option.some.inj hequal
  rw [hroot, hlookup'] at hlookup
  injection hlookup with hlookup
  injection hlookup with hlookup
  injection hlookup with hfirst hrest
  cases hrest

end dev_env_loader
