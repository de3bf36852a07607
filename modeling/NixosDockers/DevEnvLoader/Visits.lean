-- What a strict merge that succeeds comes to at keys without dots, and where a key with a dot
-- leads it.
import NixosDockers.DevEnvLoader.Additions

open rust_text results documents agreement unions dev_env_model

namespace dev_env_loader

/-! ## Growing -/

namespace MergedConfig

/-- What stands somewhere stays there, and no key with a dot comes into a table that is there. -/
structure Grows (merged merged' : MergedConfig) : Prop where
  kept : ∀ keys shape, merged.shapes keys = some shape → merged'.shapes keys = some shape
  closed : ∀ keys key, '.' ∈ key.toList → merged.shapes keys = some .Table →
    merged.shapes (keys ++ [key]) = none → merged'.shapes (keys ++ [key]) = none

variable {context : MergeContext} {within : String → Prop} {merged merged' middle : MergedConfig}
  {path : String} {value : Value}

theorem Grows.refl (merged : MergedConfig) : Grows merged merged :=
  ⟨fun _ _ => id, fun _ _ _ _ => id⟩

theorem Grows.trans (h : Grows merged middle) (h' : Grows middle merged') :
    Grows merged merged' where
  kept := fun keys shape hshape => h'.kept keys shape (h.kept keys shape hshape)
  closed := fun keys key hdot htable hnone =>
    h'.closed keys key hdot (h.kept keys .Table htable) (h.closed keys key hdot htable hnone)

theorem write_shapes {origin : Origin} {sensitivity : Sensitivity}
    (hnone : getPath merged.root path = none)
    (hwritten : merged.write path value origin sensitivity = .ok merged') :
    merged'.shapes = join merged.shapes (Doc.placed (splitChar '.' path) value) :=
  Doc.look_put (splitChar_ne_nil '.' path) hnone (setPath_ok_iff.mp (write_ok hwritten))

/-- What is added goes to the keys that its path splits to, none of which has a dot. -/
theorem grows_of_written {origin : Origin} {sensitivity : Sensitivity}
    (hnone : getPath merged.root path = none)
    (hwritten : merged.write path value origin sensitivity = .ok merged') :
    Grows merged merged' := by
  have hshapes := write_shapes hnone hwritten
  refine ⟨fun keys shape hshape => ?_, fun keys key hdot htable habsent => ?_⟩
  · rw [hshapes]
    exact Option.or_eq_some_iff.mpr (.inl hshape)
  · have hlast : ¬ keys ++ [key] <+: splitChar '.' path := fun hinit =>
      free_of_mem_splitChar (hinit.subset List.mem_concat_self) hdot
    have hbelow : ¬ splitChar '.' path <+: keys ++ [key] := by
      intro hinit
      rcases List.prefix_concat_iff.mp hinit with heq | hfront
      · exact hlast (heq ▸ List.prefix_rfl)
      · have hnothing : merged.shapes keys = none :=
          Doc.look_below_none (splitChar_ne_nil '.' path) hnone hfront
        cases hnothing.symm.trans htable
    rw [hshapes, join, habsent, Option.none_or, Doc.placed_apart hbelow]
    exact if_neg fun habove => hlast habove.1

theorem DeclareStep.grows (hstrict : Strict context)
    (h : DeclareStep context within merged merged') : Grows merged merged' := by
  cases h with
  | Added path incoming path_within provider absent written =>
    exact grows_of_written absent written
  | Recorded path incoming recorded =>
    rw [recorded]
    exact ⟨fun _ _ => id, fun _ _ _ _ => id⟩
  | Preferred path incoming path_within prefer trusted written =>
    rw [hstrict.policy] at prefer
    cases prefer

theorem DeclareRun.grows (hstrict : Strict context) (h : DeclareRun context within merged merged') :
    Grows merged merged' := by
  induction h with
  | refl => exact Grows.refl _
  | tail _ hstep ih => exact ih.trans (DeclareStep.grows hstrict hstep)

/-! ## One declaration -/

/-- How a declaration succeeds: its value is written where there is nothing, is there already, or is
a table that goes into one that is there. -/
theorem mergePath_strict (hstrict : Strict context)
    (h : mergePath context value path merged = .ok merged') :
    (getPath merged.root path = none ∧
      merged.write path value (context.source.origin context.source.id none) .Public =
        .ok merged') ∨
    (∃ existing, getPath merged.root path = some existing ∧ Value.same existing value = true ∧
      value.IsLeaf ∧ merged'.root = merged.root) ∨
    ∃ entries table, getPath merged.root path = some (.Table entries) ∧ value = .Table table ∧
      mergeEntries context table path merged = .ok merged' := by
  have howned : ¬ context.overrides.contains path = true := by
    rw [hstrict.no_overrides, Std.ExtTreeMap.contains_empty]
    exact Bool.false_ne_true
  have hallowed : merged.rejectUntrustedProviderAddition path value context.source = .ok () :=
    reject_trusted hstrict.trusted
  cases hget : getPath merged.root path with
  | none =>
    rw [mergePath, if_neg howned, hallowed] at h
    simp only [hget] at h
    exact .inl ⟨rfl, h⟩
  | some existing =>
    refine .inr ?_
    by_cases hboth : ∃ entries table, existing = .Table entries ∧ value = .Table table
    · obtain ⟨entries, table, rfl, rfl⟩ := hboth
      rw [mergePath, if_neg howned, hallowed] at h
      simp only [hget] at h
      exact .inr ⟨entries, table, rfl, rfl, h⟩
    · have hshape : ∀ entries table, value = .Table table → existing = .Table entries → False :=
        fun entries table hvalue hexisting => hboth ⟨entries, table, hexisting, hvalue⟩
      rw [mergePath_existing howned hallowed hget hshape] at h
      split_ifs at h with hsame
      · obtain rfl := Except.ok.inj h
        exact .inl ⟨existing, rfl, hsame, leaf_of_same hsame hshape, rfl⟩
      · have hfailed : ∃ failure, merged.mergeDifferent context path value = .error failure :=
          mergeDifferent_strict hstrict
        obtain ⟨failure, hfailed⟩ := hfailed
        cases hfailed.symm.trans h

theorem mergeEntries_grows {table : Table} (hstrict : Strict context)
    (h : mergeEntries context table path merged = .ok merged') : Grows merged merged' := by
  induction table generalizing merged with
  | nil =>
    obtain rfl := Except.ok.inj h
    exact .refl _
  | cons entry rest ih =>
    obtain ⟨key, value⟩ := entry
    rw [mergeEntries_cons] at h
    obtain ⟨next, hfirst, hnext⟩ := bind_ok_iff.mp h
    exact (DeclareRun.grows hstrict (mergePath_run hfirst)).trans (ih hnext)

/-- Each entry of a table is declared on the way, and what was there and what comes after stays. -/
theorem mergeEntries_visit {table : Table} {key : String} (hstrict : Strict context)
    (h : mergeEntries context table path merged = .ok merged') (hentry : (key, value) ∈ table) :
    ∃ before after, Grows merged before ∧
      mergePath context value s!"{path}.{key}" before = .ok after ∧ Grows after merged' := by
  induction table generalizing merged with
  | nil => cases hentry
  | cons entry rest ih =>
    obtain ⟨first, incoming⟩ := entry
    rw [mergeEntries_cons] at h
    obtain ⟨next, hfirst, hnext⟩ := bind_ok_iff.mp h
    rcases List.mem_cons.mp hentry with heq | hrest
    · obtain ⟨rfl, rfl⟩ := Prod.mk.injEq .. |>.mp heq
      exact ⟨merged, next, .refl _, hfirst, mergeEntries_grows hstrict hnext⟩
    · obtain ⟨before, after, hbefore, hvisit, hafter⟩ := ih hnext hrest
      exact ⟨before, after, (DeclareRun.grows hstrict (mergePath_run hfirst)).trans hbefore, hvisit,
        hafter⟩

theorem mergeTable_visit {table : Table} {start key : String} (hstrict : Strict context)
    (h : mergeTable context table start merged = .ok merged') (hentry : (key, value) ∈ table) :
    ∃ before after, Grows merged before ∧
      mergePath context value (if start = "" then key else s!"{start}.{key}") before = .ok after ∧
      Grows after merged' := by
  induction table generalizing merged with
  | nil => cases hentry
  | cons entry rest ih =>
    obtain ⟨first, incoming⟩ := entry
    rw [mergeTable_cons] at h
    obtain ⟨next, hfirst, hnext⟩ := bind_ok_iff.mp h
    rcases List.mem_cons.mp hentry with heq | hrest
    · obtain ⟨rfl, rfl⟩ := Prod.mk.injEq .. |>.mp heq
      exact ⟨merged, next, .refl _, hfirst, DeclareRun.grows hstrict (mergeTable_run hnext)⟩
    · obtain ⟨before, after, hbefore, hvisit, hafter⟩ := ih hnext hrest
      exact ⟨before, after, (DeclareRun.grows hstrict (mergePath_run hfirst)).trans hbefore, hvisit,
        hafter⟩

/-- Between two states something is declared at some keys: it fits what was there, and is there
afterwards. -/
def Shows (merged merged' : MergedConfig) (keys : List String) (shape : Shape String TomlScalar) :
    Prop :=
  (∀ there, merged.shapes keys = some there → ShapesAgree there shape) ∧
    ∃ found, merged'.shapes keys = some found ∧ Stands found shape

theorem Shows.between {before after : MergedConfig} {keys : List String}
    {shape : Shape String TomlScalar} (h : Shows before after keys shape)
    (hbefore : Grows merged before) (hafter : Grows after merged') :
    Shows merged merged' keys shape := by
  obtain ⟨hfits, found, hfound, hstands⟩ := h
  exact ⟨fun there hthere => hfits there (hbefore.kept keys there hthere), found,
    hafter.kept keys found hfound, hstands⟩

theorem mergePath_shows_or (hstrict : Strict context) {below : List String} {found : Value}
    (h : mergePath context value path merged = .ok merged')
    (hfound : Doc.reach below (some value) = some found) :
    Shows merged merged' (splitChar '.' path ++ below) found.shape ∨
    ∃ entries table, getPath merged.root path = some (.Table entries) ∧ value = .Table table ∧
      mergeEntries context table path merged = .ok merged' := by
  rcases mergePath_strict hstrict h with ⟨hnone, hwritten⟩ | ⟨existing, hget, hsame, hleaf, hroot⟩ |
    htables
  · refine .inl ⟨fun there hthere => ?_, found.shape, ?_, .inl rfl⟩
    · cases (Doc.look_below_none (splitChar_ne_nil '.' path) hnone
        (List.prefix_append _ _)).symm.trans hthere
    · rw [write_shapes hnone hwritten, join, Doc.placed_below, hfound]
      exact (congrArg (Option.or · _) (Doc.look_below_none (splitChar_ne_nil '.' path) hnone
        (List.prefix_append _ _))).trans (Option.none_or)
  · have hnil : below = [] := by
      by_contra hne
      cases (Doc.reach_leaf hleaf hne).symm.trans hfound
    subst hnil
    obtain rfl := Option.some.inj hfound
    have hshape : merged.shapes (splitChar '.' path ++ []) = some existing.shape := by
      rw [List.append_nil]
      exact congrArg (Option.map Doc.shape) hget
    have hagree : ShapesAgree existing.shape value.shape := by
      cases existing with
      | Table entries =>
        cases value with
        | Table => exact absurd hleaf id
        | Scalar => cases hsame
        | Array => cases hsame
      | Scalar =>
        cases value with
        | Table => cases hsame
        | Scalar => exact hsame
        | Array => cases hsame
      | Array =>
        cases value with
        | Table => cases hsame
        | Scalar => cases hsame
        | Array => exact hsame
    refine .inl ⟨fun there hthere => ?_, existing.shape, ?_, .inr hagree⟩
    · obtain rfl := Option.some.inj (hshape.symm.trans hthere)
      exact hagree
    · unfold shapes at hshape ⊢
      rw [hroot]
      exact hshape
  · exact .inr htables

theorem table_agrees {there : Shape String TomlScalar} (h : there = .Table) :
    ShapesAgree there .Table := by
  subst h
  trivial

/-- What a declaration that succeeds says at keys without dots fits what was there, and is there
afterwards. -/
theorem mergePath_shows (hstrict : Strict context) {below : List String} {found : Value}
    (h : mergePath context value path merged = .ok merged')
    (hdots : ∀ key ∈ below, '.' ∉ key.toList)
    (hfound : Doc.reach below (some value) = some found) :
    Shows merged merged' (splitChar '.' path ++ below) found.shape := by
  induction below generalizing value path merged merged' with
  | nil =>
    rcases mergePath_shows_or hstrict h hfound with hshows | ⟨entries, table, hget, rfl, hentries⟩
    · exact hshows
    · obtain rfl := Option.some.inj hfound
      have hthere : merged.shapes (splitChar '.' path ++ []) = some .Table := by
        rw [List.append_nil]
        exact Doc.look_of_table hget
      refine ⟨fun there h => table_agrees (Option.some.inj (h.symm.trans hthere)), .Table, ?_,
        .inl rfl⟩
      exact (mergeEntries_grows hstrict hentries).kept _ _ hthere
  | cons key rest ih =>
    rcases mergePath_shows_or hstrict h hfound with hshows | ⟨entries, table, hget, rfl, hentries⟩
    · exact hshows
    · obtain ⟨hkey, hrest⟩ := List.forall_mem_cons.mp hdots
      rw [Doc.reach_table (by simp), Doc.lookup_cons] at hfound
      cases hentry : Entries.get key table with
      | none =>
        rw [hentry, Doc.reach_none] at hfound
        cases hfound
      | some value =>
        rw [hentry] at hfound
        have hmem := Entries.mem_of_get hentry
        obtain ⟨before, after, hbefore, hvisit, hafter⟩ := mergeEntries_visit hstrict hentries hmem
        have hshows := ih hvisit hrest hfound
        rw [splitChar_entry hkey, List.append_assoc, List.singleton_append] at hshows
        exact hshows.between hbefore hafter

theorem mergePath_found (hstrict : Strict context)
    (h : mergePath context value path merged = .ok merged') :
    ∃ found, merged'.shapes (splitChar '.' path) = some found := by
  have hshows : Shows merged merged' (splitChar '.' path ++ []) value.shape :=
    mergePath_shows hstrict h (fun key hkey => nomatch hkey) rfl
  obtain ⟨-, found, hfound, -⟩ := hshows
  rw [List.append_nil] at hfound
  exact ⟨found, hfound⟩

/-- A key in a table that is there already is declared where it splits to. -/
theorem mergePath_splits (hstrict : Strict context) {below : List String} {inner : Table}
    {entry : String × Value} (h : mergePath context value path merged = .ok merged')
    (hdots : ∀ key ∈ below, '.' ∉ key.toList)
    (hthere : merged.shapes (splitChar '.' path ++ below) = some .Table)
    (hinner : Doc.reach below (some value) = some (.Table inner)) (hentry : entry ∈ inner) :
    ∃ found, merged'.shapes (splitChar '.' path ++ below ++ splitChar '.' entry.1) =
      some found := by
  induction below generalizing value path merged merged' with
  | nil =>
    obtain rfl := Option.some.inj hinner
    rcases mergePath_strict hstrict h with ⟨hnone, -⟩ | ⟨_, _, _, hleaf, _⟩ |
      ⟨entries, table, hget, heq, hentries⟩
    · cases (Doc.look_below_none (splitChar_ne_nil '.' path) hnone
        (List.prefix_append _ _)).symm.trans hthere
    · exact absurd hleaf id
    · obtain rfl := Doc.Table.inj heq
      obtain ⟨before, after, -, hvisit, hafter⟩ := mergeEntries_visit hstrict hentries hentry
      obtain ⟨found, hfound⟩ := mergePath_found hstrict hvisit
      refine ⟨found, hafter.kept _ _ ?_⟩
      rw [List.append_nil, ← splitChar_below]
      exact hfound
  | cons key rest ih =>
    obtain ⟨hkey, hrest⟩ := List.forall_mem_cons.mp hdots
    rcases mergePath_strict hstrict h with ⟨hnone, -⟩ | ⟨_, _, _, hleaf, _⟩ |
      ⟨entries, table, hget, rfl, hentries⟩
    · cases (Doc.look_below_none (splitChar_ne_nil '.' path) hnone
        (List.prefix_append _ _)).symm.trans hthere
    · cases (Doc.reach_leaf hleaf (List.cons_ne_nil key rest)).symm.trans hinner
    · rw [Doc.reach_table (by simp), Doc.lookup_cons] at hinner
      cases hget' : Entries.get key table with
      | none =>
        rw [hget', Doc.reach_none] at hinner
        cases hinner
      | some value =>
        rw [hget'] at hinner
        obtain ⟨before, after, hbefore, hvisit, hafter⟩ :=
          mergeEntries_visit hstrict hentries (Entries.mem_of_get hget')
        have hpath : splitChar '.' s!"{path}.{key}" ++ rest =
            splitChar '.' path ++ key :: rest := by
          rw [splitChar_entry hkey, List.append_assoc, List.singleton_append]
        obtain ⟨found, hfound⟩ := ih hvisit hrest (hpath ▸ hbefore.kept _ _ hthere) hinner
        exact ⟨found, hafter.kept _ _ (hpath ▸ hfound)⟩

/-! ## Profiles -/

variable {profile : RawProfile} {source : ProfileSource}

theorem mergeSection_grows {table : Option Table} {start : String} (hstrict : Strict context)
    (h : mergeSection context table start merged = .ok merged') : Grows merged merged' :=
  DeclareRun.grows hstrict (mergeSection_run h)

/-- The three sections of a profile that is merged. -/
theorem mergeProfile_ok (hplain : Plain profile source) (hpolicy : StrictPolicy merged.shapes)
    (h : merged.mergeProfile profile source = .ok merged') :
    ∃ first second middle next, Strict first ∧ Strict second ∧
      merged.mergePolicy profile source = .ok middle ∧
      mergeSection first (profile.table "policy") "policy" merged = .ok middle ∧
      mergeSection second (profile.table "config") "" middle = .ok next ∧
      mergeSection second (profile.table "inputs") "inputs" next = .ok merged' := by
  rw [mergeProfile_plain hplain] at h
  obtain ⟨middle, hmiddle, h⟩ := bind_ok_iff.mp h
  obtain ⟨policy, hread, h⟩ := bind_ok_iff.mp h
  obtain ⟨next, hnext, hlast⟩ := bind_ok_iff.mp h
  obtain ⟨before, hbefore, hstrict⟩ := policy_of_strict hpolicy
  obtain ⟨after, hafter, hstrict'⟩ :=
    policy_of_strict (strict_after_policy hplain hpolicy hmiddle)
  obtain rfl := Except.ok.inj (hread.symm.trans hafter)
  exact ⟨⟨source, profile.overrides, before⟩, ⟨source, profile.overrides, policy⟩, middle, next,
    ⟨hplain.trusted, hplain.no_overrides, hstrict⟩, ⟨hplain.trusted, hplain.no_overrides, hstrict'⟩,
    hmiddle, mergePolicy_section hbefore ▸ hmiddle, hnext, hlast⟩

theorem mergeProfile_grows (hplain : Plain profile source) (hpolicy : StrictPolicy merged.shapes)
    (h : merged.mergeProfile profile source = .ok merged') : Grows merged merged' := by
  obtain ⟨first, second, middle, next, hfirst, hsecond, -, hmiddle, hnext, hlast⟩ :=
    mergeProfile_ok hplain hpolicy h
  exact ((mergeSection_grows hfirst hmiddle).trans (mergeSection_grows hsecond hnext)).trans
    (mergeSection_grows hsecond hlast)

/-- Each entry of each section is declared on the way. -/
theorem mergeProfile_visit (hplain : Plain profile source) (hpolicy : StrictPolicy merged.shapes)
    (h : merged.mergeProfile profile source = .ok merged') {name : String} {front : List String}
    {table : Table} (hsection : (name, front) ∈ sectionFronts)
    (htable : profile.table name = some table) {entry : String × Value} (hentry : entry ∈ table) :
    ∃ context path before after, Strict context ∧ splitChar '.' path = front ++ [entry.1] ∧
      Grows merged before ∧ mergePath context entry.2 path before = .ok after ∧
      Grows after merged' := by
  obtain ⟨first, second, middle, next, hfirst, hsecond, -, hmiddle, hnext, hlast⟩ :=
    mergeProfile_ok hplain hpolicy h
  have hvisit : ∀ context before after, Strict context → Grows merged before →
      mergeSection context (profile.table name) (front.headD "") before = .ok after →
      Grows after merged' →
      ∃ context path before after, Strict context ∧ splitChar '.' path = front ++ [entry.1] ∧
        Grows merged before ∧ mergePath context entry.2 path before = .ok after ∧
        Grows after merged' := by
    intro context before after hstrict hbefore hmerged hafter
    rw [htable] at hmerged
    obtain ⟨here, there, hhere, hpath, hthere⟩ := mergeTable_visit hstrict hmerged hentry
    exact ⟨context, _, here, there, hstrict, entry_path hplain hsection rfl htable entry.1
      (List.mem_map.mpr ⟨entry, hentry, rfl⟩), hbefore.trans hhere, hpath, hthere.trans hafter⟩
  simp only [sectionFronts, List.mem_cons, List.not_mem_nil, or_false, Prod.mk.injEq] at hsection
  rcases hsection with ⟨rfl, rfl⟩ | ⟨rfl, rfl⟩ | ⟨rfl, rfl⟩
  · exact hvisit first merged middle hfirst (.refl _) hmiddle
      ((mergeSection_grows hsecond hnext).trans (mergeSection_grows hsecond hlast))
  · exact hvisit second middle next hsecond (mergeSection_grows hfirst hmiddle) hnext
      (mergeSection_grows hsecond hlast)
  · exact hvisit second next merged' hsecond
      ((mergeSection_grows hfirst hmiddle).trans (mergeSection_grows hsecond hnext)) hlast (.refl _)

/-- Declarations elsewhere leave alone what stands below a first key. -/
theorem DeclareRun.shapes_head (hstrict : Strict context)
    (h : DeclareRun context within merged merged') {head : String}
    (hapart : ∀ path, within path → ∃ first rest, splitChar '.' path = first :: rest ∧ first ≠ head)
    (below : List String) : merged'.shapes (head :: below) = merged.shapes (head :: below) := by
  induction h with
  | refl => rfl
  | tail _ hstep ih =>
    cases hstep with
    | Added path incoming path_within provider absent written =>
      obtain ⟨first, rest, hpath, hne⟩ := hapart path path_within
      rw [write_shapes absent written, join, hpath, placed_head_ne hne, Option.or_none, ih]
    | Recorded path incoming recorded =>
      rw [recorded]
      exact ih
    | Preferred path incoming path_within prefer trusted written =>
      rw [hstrict.policy] at prefer
      cases prefer

theorem section_keeps_policy {name : String} {front : List String} (hstrict : Strict context)
    (hplain : Plain profile source) (hsection : (name, front) ∈ sectionFronts)
    (hname : name ≠ "policy")
    (h : mergeSection context (profile.table name) (front.headD "") merged = .ok merged')
    (below : List String) :
    merged'.shapes ("policy" :: below) = merged.shapes ("policy" :: below) := by
  refine DeclareRun.shapes_head hstrict (mergeSection_run h) (fun path hpath => ?_) below
  obtain ⟨table, htable, key, hkey, hinit⟩ := hpath
  rw [entry_path hplain hsection rfl htable key hkey] at hinit
  obtain ⟨first, rest, hfront, hfirst⟩ := head_of_entry hsection htable hkey
  rw [hfront] at hinit
  obtain ⟨tail, htail⟩ := hinit
  exact ⟨first, rest ++ tail, htail.symm, hfirst.ne (.inl ⟨rfl, rfl⟩) hname⟩

/-- The policy stays strict. -/
theorem strict_after (hplain : Plain profile source) (hpolicy : StrictPolicy merged.shapes)
    (h : merged.mergeProfile profile source = .ok merged') : StrictPolicy merged'.shapes := by
  obtain ⟨first, second, middle, next, -, hsecond, hpolicyMerged, -, hnext, hlast⟩ :=
    mergeProfile_ok hplain hpolicy h
  have hmiddle := strict_after_policy hplain hpolicy hpolicyMerged
  have hsame : ∀ below, merged'.shapes ("policy" :: below) = middle.shapes ("policy" :: below) :=
    fun below => (section_keeps_policy hsecond hplain inputsIn (by decide) hlast below).trans
      (section_keeps_policy hsecond hplain configIn (by decide) hnext below)
  exact ⟨fun doc => hsame [] ▸ hmiddle.table doc,
    fun name shape => hsame [name] ▸ hmiddle.fields name shape⟩

/-- What a profile that is merged declares at keys without dots fits what was there, and is there
afterwards. -/
theorem mergeProfile_shows (hplain : Plain profile source) (hpolicy : StrictPolicy merged.shapes)
    (h : merged.mergeProfile profile source = .ok merged') {keys : List String}
    {shape : Shape String TomlScalar} (hdots : ∀ key ∈ keys, '.' ∉ key.toList)
    (hdeclared : profile.declared keys = some shape) : Shows merged merged' keys shape := by
  obtain ⟨name, front, table, entry, hsection, htable, hentry, hwhere⟩ :=
    RawProfile.declared_cases hdeclared
  obtain ⟨context, path, before, after, hstrict, hpath, hbefore, hmerged, hafter⟩ :=
    mergeProfile_visit hplain hpolicy h hsection htable hentry
  rcases hwhere with ⟨below, rfl, hfound⟩ | ⟨habove, hne, rfl⟩
  · obtain ⟨found, hreach, rfl⟩ := Option.map_eq_some_iff.mp hfound
    rw [← hpath] at hdots ⊢
    have hbelow : ∀ key ∈ below, '.' ∉ key.toList := fun key hkey =>
      hdots key (List.mem_append_right _ hkey)
    exact (mergePath_shows hstrict hmerged hbelow hreach).between hbefore hafter
  · obtain ⟨found, hfound⟩ := mergePath_found hstrict hmerged
    rw [hpath] at hfound
    obtain ⟨doc, hdoc, -⟩ := Option.map_eq_some_iff.mp hfound
    have hthere : after.shapes keys = some .Table := by
      refine Doc.look_above hdoc (habove.trans (List.prefix_append _ _)) hne ?_
      rintro rfl
      exact absurd habove.length_le (by simp)
    have hlast := hafter.kept _ _ hthere
    refine ⟨fun there hfirst => table_agrees ?_, .Table, hlast, .inl rfl⟩
    exact Option.some.inj (((mergeProfile_grows hplain hpolicy h).kept _ _ hfirst).symm.trans hlast)

/-- A key with a dot, in a table that is there already, leads a profile to the keys it splits to. -/
theorem mergeProfile_splits (hplain : Plain profile source) (hpolicy : StrictPolicy merged.shapes)
    (h : merged.mergeProfile profile source = .ok merged') {keys : List String} {key : String}
    (hdots : ∀ key ∈ keys, '.' ∉ key.toList) (hdot : '.' ∈ key.toList)
    (hthere : merged.shapes keys = some .Table)
    (hdeclared : (profile.declared (keys ++ [key])).isSome = true) :
    ∃ found, merged'.shapes (keys ++ splitChar '.' key) = some found := by
  obtain ⟨shape, hshape⟩ := Option.isSome_iff_exists.mp hdeclared
  obtain ⟨name, front, table, entry, hsection, htable, hentry, hwhere⟩ :=
    RawProfile.declared_cases hshape
  obtain ⟨context, path, before, after, hstrict, hpath, hbefore, hmerged, hafter⟩ :=
    mergeProfile_visit hplain hpolicy h hsection htable hentry
  have hfree : ∀ part ∈ front ++ [entry.1], '.' ∉ part.toList := fun part hpart =>
    free_of_mem_splitChar (hpath ▸ hpart)
  rcases hwhere with ⟨below, heq, hfound⟩ | ⟨habove, -, -⟩
  · rcases List.eq_nil_or_concat below with rfl | ⟨below, last, rfl⟩
    · rw [List.append_nil] at heq
      exact absurd hdot (hfree key (heq ▸ List.mem_concat_self))
    · rw [List.concat_eq_append, ← List.append_assoc] at heq
      obtain ⟨rfl, hlast⟩ := List.append_inj' heq rfl
      obtain rfl := List.singleton_inj.mp hlast
      rw [List.concat_eq_append, Doc.reach_append] at hfound
      obtain ⟨found, hreach, -⟩ := Option.map_eq_some_iff.mp hfound
      obtain ⟨inner, hinner, hkey⟩ := Doc.table_of_reach_key hreach
      have hbelow : ∀ part ∈ below, '.' ∉ part.toList := fun part hpart =>
        hdots part (List.mem_append_right _ hpart)
      obtain ⟨found', hfound'⟩ := mergePath_splits hstrict hmerged hbelow
        (hpath ▸ hbefore.kept _ _ hthere) hinner (Entries.mem_of_get hkey)
      exact ⟨found', hafter.kept _ _ (hpath ▸ hfound')⟩
  · exact absurd hdot (hfree key (List.mem_append_left _ (habove.subset List.mem_concat_self)))

end MergedConfig

end dev_env_loader
