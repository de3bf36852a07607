-- Whole merges: what a chain of profiles ends with is what its last profiles
-- declare, and no value changes without an override.
import NixosDockers.BootstrapLoader.Overlay

open bootstrap_model rust_text results

namespace bootstrap_loader

/-! ## Overrides as they are written -/

/-- The profile writes the override of `path`, beside its namespace or in it. -/
def ProfileEntry.Writes (entry : ProfileEntry) (path : String) (value : OverrideValue) : Prop :=
  entry.profile.overrides[path]? = some value ∨
    ∃ bootstrap name, entry.profile.bootstrap = some bootstrap ∧ fullOverridePath name = path ∧
      bootstrap.overrides[name]? = some value

/-- A trusted profile writes an override of `path` with a reason that is not blank. -/
structure Overrides (entry : ProfileEntry) (path reason : String) : Prop where
  trusted : entry.source.source.isTrusted = true
  written : ∃ table, entry.Writes path (.Table table) ∧ table["reason"]?.join = some reason
  not_blank : isBlank reason = false

theorem collectOverrides_written {entry : ProfileEntry}
    {raw : Std.ExtTreeMap String OverrideValue} (h : collectOverrides entry.profile = .ok raw)
    {path : String} {value : OverrideValue} (hvalue : raw[path]? = some value) :
    entry.Writes path value := by
  unfold collectOverrides at h
  split at h
  · cases h
    exact .inl hvalue
  · rename_i bootstrap hbootstrap
    revert path value
    refine foldlM_invariant (I := fun raw : Std.ExtTreeMap String OverrideValue =>
      ∀ {path value}, raw[path]? = some value → entry.Writes path value) ?_ ?_ h
    · intro raw written raw' hmem hraw hstep path value hvalue
      simp only [throw_eq, error_bind, ite_error_ok_iff, pure_ok_iff] at hstep
      obtain ⟨-, rfl⟩ := hstep
      rw [Std.ExtTreeMap.getElem?_insert] at hvalue
      split_ifs at hvalue with hpath
      · cases hvalue
        refine .inr ⟨bootstrap, written.1, hbootstrap, Std.LawfulEqOrd.eq_of_compare hpath, ?_⟩
        exact Std.ExtTreeMap.mem_toList_iff_getElem?_eq_some.mp hmem
      · exact hraw hvalue
    · intro path value hvalue
      exact .inl hvalue

theorem overrideReason_ok {entry : ProfileEntry} {path reason : String} {value : OverrideValue}
    (hvalue : entry.Writes path value)
    (h : overrideReason entry.profile entry.source.source path value = .ok reason) :
    Overrides entry path reason := by
  simp only [overrideReason, throw_eq, error_bind, ite_error_ok_iff, bind_ok_iff] at h
  obtain ⟨_, -, htrusted, h⟩ := h
  split at h
  · cases h
  · rename_i table
    cases htext : table["reason"]?.join with
    | none =>
      simp only [htext] at h
      split at h
      · split_ifs at h
      · cases h
    | some text =>
      simp only [htext] at h
      have hreason : isBlank text = false ∧ text = reason := by
        split at h
        · simpa [ite_error_ok_iff, pure_ok_iff] using (ite_error_ok_iff.mp h).2
        · simpa [ite_error_ok_iff, pure_ok_iff] using h
      obtain ⟨hblank, rfl⟩ := hreason
      exact ⟨by simpa using htrusted, ⟨table, hvalue, htext⟩, hblank⟩

/-- The catalog holds what the profile writes. -/
theorem reason_overrides {entry : ProfileEntry} {overrides : OverrideCatalog}
    (h : OverrideCatalog.new entry.profile entry.source.source = .ok overrides)
    {path reason : String} (hreason : overrides.reason path = some reason) :
    Overrides entry path reason := by
  simp only [OverrideCatalog.new, bind_ok_iff, pure_ok_iff] at h
  obtain ⟨raw, hraw, entries, hentries, rfl⟩ := h
  revert path reason
  refine foldlM_invariant (I := fun entries : Std.ExtTreeMap String String =>
    ∀ {path reason}, entries[path]? = some reason → Overrides entry path reason) ?_ ?_ hentries
  · intro entries written entries' hmem hkept hstep path reason hreason
    split_ifs at hstep
    · cases hstep
      exact hkept hreason
    · simp only [bind_ok_iff, pure_ok_iff] at hstep
      obtain ⟨text, htext, rfl⟩ := hstep
      rw [Std.ExtTreeMap.getElem?_insert] at hreason
      split_ifs at hreason with hpath
      · cases hreason
        obtain rfl := Std.LawfulEqOrd.eq_of_compare hpath
        refine overrideReason_ok (collectOverrides_written hraw ?_) htext
        exact Std.ExtTreeMap.mem_toList_iff_getElem?_eq_some.mp hmem
      · exact hkept hreason
  · intro path reason hreason
    simp at hreason

theorem contains_overrides {entry : ProfileEntry} {overrides : OverrideCatalog}
    (h : OverrideCatalog.new entry.profile entry.source.source = .ok overrides) {path : String}
    (hcontains : overrides.contains path = true) : ∃ reason, Overrides entry path reason := by
  unfold OverrideCatalog.contains at hcontains
  obtain ⟨reason, hreason⟩ := Option.isSome_iff_exists.mp
    ((Std.ExtTreeMap.isSome_getElem?_eq_contains).trans hcontains)
  exact ⟨reason, reason_overrides h hreason⟩

/-! ## What profiles declare -/

/-- The scalar that a profile with a bootstrap namespace declares. -/
def ProfileEntry.scalar (entry : ProfileEntry) (key : ScalarKey) : Option key.Value :=
  entry.profile.bootstrap.bind fun bootstrap => key.incoming entry.profile bootstrap

def ProfileEntry.input (entry : ProfileEntry) (name : String) : Option BootstrapInput :=
  entry.profile.bootstrap.bind fun bootstrap => bootstrap.inputs[name]?

def ProfileEntry.action (entry : ProfileEntry) (id : String) : Option Action :=
  entry.profile.bootstrap.bind fun bootstrap => bootstrap.actions.find? (·.id = id)

/-- What the last profile that declares it declares. -/
def lastDeclared {α : Type} (declares : ProfileEntry → Option α) (entries : List ProfileEntry) :
    Option α :=
  entries.reverse.findSome? declares

theorem lastDeclared_append_singleton {α : Type} (declares : ProfileEntry → Option α)
    (entries : List ProfileEntry) (entry : ProfileEntry) :
    lastDeclared declares (entries ++ [entry]) =
      (declares entry).or (lastDeclared declares entries) := by
  unfold lastDeclared
  rw [List.reverse_append, List.reverse_singleton, List.singleton_append, List.findSome?_cons]
  cases declares entry <;> rfl

/-- A value before and after a profile that may declare it: what the profile declares holds, and
only an override changes what was there. -/
structure Settles {α : Type} (entry : ProfileEntry) (path : String)
    (before declared after : Option α) : Prop where
  value : after = declared.or before
  changed : ∀ current value, before = some current → declared = some value → current ≠ value →
    ∃ reason, Overrides entry path reason

section profile

variable {entry : ProfileEntry} {overrides : OverrideCatalog} {merged next : MergedBootstrap}

/-! ## Scalars -/

theorem mergeScalar_settles
    (hoverrides : OverrideCatalog.new entry.profile entry.source.source = .ok overrides)
    {origin : Origin} {key : ScalarKey} {incoming : Option key.Value}
    (h : mergeScalar overrides origin merged key incoming = .ok next) :
    Settles entry key.path (merged.scalars key) incoming (next.scalars key) := by
  unfold mergeScalar at h
  split at h
  · cases h
    exact ⟨rfl, by simp⟩
  · rename_i value
    split at h
    · rename_i hnone
      cases h
      exact ⟨by simp [MergedBootstrap.setScalar], by simp [hnone]⟩
    · rename_i current hcurrent
      split_ifs at h with hsame hcontains
      · cases h
        exact ⟨by simp [hcurrent, hsame], by simp_all⟩
      · cases h
        refine ⟨by simp [MergedBootstrap.setScalar], fun _ _ _ _ _ => ?_⟩
        exact contains_overrides hoverrides (by simpa using hcontains)

/-- A scalar touches only its own slot. -/
theorem mergeScalar_frame {origin : Origin} {key : ScalarKey} {incoming : Option key.Value}
    (h : mergeScalar overrides origin merged key incoming = .ok next) :
    next = { merged with scalars := next.scalars, field_origins := next.field_origins } ∧
      ∀ other ≠ key, next.scalars other = merged.scalars other := by
  unfold mergeScalar at h
  split at h
  · cases h
    exact ⟨rfl, fun _ _ => rfl⟩
  · split at h
    · cases h
      exact ⟨rfl, fun other hne => Function.update_of_ne hne _ _⟩
    · split_ifs at h
      · cases h
        exact ⟨rfl, fun _ _ => rfl⟩
      · cases h
        exact ⟨rfl, fun other hne => Function.update_of_ne hne _ _⟩

theorem mergeScalars_settles
    (hoverrides : OverrideCatalog.new entry.profile entry.source.source = .ok overrides)
    {origin : Origin} {bootstrap : RawBootstrap}
    (h : mergeScalars overrides origin entry.profile bootstrap merged = .ok next)
    (key : ScalarKey) :
    Settles entry key.path (merged.scalars key) (key.incoming entry.profile bootstrap)
      (next.scalars key) := by
  unfold mergeScalars at h
  have hkeys : (ScalarKey.all.map id).Nodup := by decide
  refine (foldlM_slots (V := fun key => Option key.Value) (I := fun _ => True)
    (R := fun key before after => Settles entry key.path before
      (key.incoming entry.profile bootstrap) after) id (fun key merged => merged.scalars key)
    ?_ ?_ ?_ hkeys trivial h).1 key ?_
  · intros
    trivial
  · intro state key state' _ hstep
    exact mergeScalar_settles hoverrides hstep
  · intro state key state' _ hstep
    exact (mergeScalar_frame hstep).2
  · cases key <;> decide

theorem mergeScalars_frame {origin : Origin} {profile : RawProfile} {bootstrap : RawBootstrap}
    (h : mergeScalars overrides origin profile bootstrap merged = .ok next) :
    next = { merged with scalars := next.scalars, field_origins := next.field_origins } := by
  refine foldlM_invariant (I := fun state => state = { merged with
    scalars := state.scalars, field_origins := state.field_origins }) ?_ rfl h
  intro state key state' _ hstate hstep
  rw [(mergeScalar_frame hstep).1, hstate]

/-! ## Inputs -/

theorem mergeInput_settles
    (hoverrides : OverrideCatalog.new entry.profile entry.source.source = .ok overrides)
    {name : String} {input : BootstrapInput}
    (h : mergeInput entry overrides merged name input = .ok next) :
    Settles entry (inputPath name) merged.inputs[name]? (some input) next.inputs[name]? := by
  unfold mergeInput at h
  dsimp only at h
  split at h
  · rename_i hnone
    cases h
    exact ⟨by simp [MergedBootstrap.setInput], by simp [hnone]⟩
  · rename_i previous hprevious
    split_ifs at h with hsame hcontains
    · cases h
      exact ⟨by simp [hprevious, hsame], by simp_all⟩
    · cases h
      refine ⟨by simp [MergedBootstrap.setInput], fun _ _ _ _ _ => ?_⟩
      exact contains_overrides hoverrides (by simpa using hcontains)

/-- An input touches only its own slot. -/
theorem mergeInput_frame {name : String} {input : BootstrapInput}
    (h : mergeInput entry overrides merged name input = .ok next) :
    next = { merged with inputs := next.inputs, input_origins := next.input_origins } ∧
      ∀ other ≠ name, next.inputs[other]? = merged.inputs[other]? := by
  have hset : ∀ other ≠ name, ∀ origin,
      (merged.setInput name input origin).inputs[other]? = merged.inputs[other]? := by
    intro other hne origin
    simp [MergedBootstrap.setInput, Std.ExtTreeMap.getElem?_insert, hne.symm]
  unfold mergeInput at h
  dsimp only at h
  split at h
  · cases h
    exact ⟨rfl, fun other hne => hset other hne _⟩
  · split_ifs at h
    · cases h
      exact ⟨rfl, fun _ _ => rfl⟩
    · cases h
      exact ⟨rfl, fun other hne => hset other hne _⟩

theorem mergeInputs_settles
    (hoverrides : OverrideCatalog.new entry.profile entry.source.source = .ok overrides)
    {inputs : Std.ExtTreeMap String BootstrapInput}
    (h : mergeInputs entry overrides inputs merged = .ok next) (name : String) :
    Settles entry (inputPath name) merged.inputs[name]? inputs[name]? next.inputs[name]? := by
  unfold mergeInputs at h
  have hkeys : (inputs.toList.map Prod.fst).Nodup := by
    rw [Std.ExtTreeMap.map_fst_toList_eq_keys]
    exact Std.ExtTreeMap.nodup_keys
  obtain ⟨hown, hother⟩ := foldlM_slots (I := fun _ => True)
    (R := fun (input : String × BootstrapInput) before after =>
      Settles entry (inputPath input.1) before (some input.2) after) Prod.fst
    (fun name merged => merged.inputs[name]?) (fun _ _ _ _ _ => trivial)
    (fun _ _ _ _ hstep => mergeInput_settles hoverrides hstep)
    (fun _ _ _ _ hstep => (mergeInput_frame hstep).2) hkeys trivial h
  cases hinput : inputs[name]? with
  | some input =>
    exact hown (name, input) (Std.ExtTreeMap.mem_toList_iff_getElem?_eq_some.mpr hinput)
  | none =>
    refine ⟨hother name ?_, by simp⟩
    rw [Std.ExtTreeMap.map_fst_toList_eq_keys, Std.ExtTreeMap.mem_keys]
    simpa using hinput

theorem mergeInputs_frame {inputs : Std.ExtTreeMap String BootstrapInput}
    (h : mergeInputs entry overrides inputs merged = .ok next) :
    next = { merged with inputs := next.inputs, input_origins := next.input_origins } := by
  refine foldlM_invariant (I := fun state => state = { merged with
    inputs := state.inputs, input_origins := state.input_origins }) ?_ rfl h
  intro state input state' _ hstate hstep
  rw [(mergeInput_frame hstep).1, hstate]

/-! ## Actions -/

/-- The action that the merge holds for an id. -/
def MergedBootstrap.recorded (merged : MergedBootstrap) (id : String) : Option Action :=
  merged.actions.find? (·.id = id)

/-- The index of the actions has each id at its place. -/
def Indexed (merged : MergedBootstrap) : Prop :=
  ∀ id index, merged.action_indexes[id]? = some index ↔
    merged.actions[index]?.map Action.id = some id

theorem Indexed.nodup (h : Indexed merged) : (merged.actions.map Action.id).Nodup := by
  rw [List.nodup_iff_getElem?_ne_getElem?]
  intro i j hij hj he
  rw [List.getElem?_map, List.getElem?_map] at he
  rw [List.length_map] at hj
  have hid : merged.actions[j]?.map Action.id = some merged.actions[j].id := by simp [hj]
  have hi := (h _ _).mpr (he.trans hid)
  rw [(h _ _).mpr hid] at hi
  have := Option.some.inj hi
  omega

theorem Indexed.recorded_eq (h : Indexed merged) (id : String) :
    merged.recorded id = merged.action_indexes[id]?.bind (merged.actions[·]?) := by
  unfold MergedBootstrap.recorded
  cases hindex : merged.action_indexes[id]? with
  | none =>
    rw [Option.bind_none, List.find?_eq_none]
    intro action haction hid
    obtain ⟨index, hget⟩ := List.getElem?_of_mem haction
    have := (h id index).mpr (by simpa [hget] using hid)
    simp [hindex] at this
  | some index =>
    obtain ⟨action, hget, hid⟩ := Option.map_eq_some_iff.mp ((h id index).mp hindex)
    obtain ⟨hlt, hget'⟩ := List.getElem?_eq_some_iff.mp hget
    rw [Option.bind_some, hget, List.find?_eq_some_iff_getElem]
    refine ⟨by simpa using hid, index, hlt, hget', fun j hj => ?_⟩
    -- an earlier action with the id would be the one of the index
    by_contra hother
    have hearlier := (h id j).mpr (by simpa [show j < merged.actions.length by omega] using hother)
    rw [hindex] at hearlier
    have := Option.some.inj hearlier
    omega

theorem Indexed.pushAction (h : Indexed merged) {action : Action}
    (hnew : merged.action_indexes[action.id]? = none) : Indexed (merged.pushAction action) := by
  intro id index
  unfold MergedBootstrap.pushAction
  dsimp only
  rw [Std.ExtTreeMap.getElem?_insert]
  rcases lt_trichotomy index merged.actions.length with hlt | rfl | hgt
  · rw [List.getElem?_append_left hlt, ← h id index]
    split_ifs with hid
    · obtain rfl := Std.LawfulEqOrd.eq_of_compare hid
      simp only [hnew, Option.some.injEq, reduceCtorEq, iff_false]
      omega
    · rfl
  · have hpast : merged.action_indexes[id]? ≠ some merged.actions.length := by
      rw [ne_eq, h id]
      simp
    simp [hpast]
  · have hpast : merged.action_indexes[id]? ≠ some index := by
      rw [ne_eq, h id, List.getElem?_eq_none hgt.le]
      simp
    have hnone : (merged.actions ++ [action])[index]? = none := by
      rw [List.getElem?_eq_none]
      simp
      omega
    rw [hnone]
    split_ifs
    · simp only [Option.some.injEq, Option.map_none, reduceCtorEq, iff_false]
      omega
    · simp [hpast]

theorem Indexed.replaceAction (h : Indexed merged) {action : Action} {index : Nat}
    (hindex : merged.action_indexes[action.id]? = some index) (reason : String) :
    Indexed (merged.replaceAction index action reason) := by
  intro id other
  unfold MergedBootstrap.replaceAction
  dsimp only
  rw [h id other, List.getElem?_set]
  split_ifs with he hlt
  · obtain rfl := he
    rw [(h _ _).mp hindex]
    rfl
  · obtain rfl := he
    rw [List.getElem?_eq_none (by omega)]
  · rfl

/-- The recorded action is the declared one, but for where it comes from and for a reason that
the override of the profile gives to an action without one. -/
def RecordedAs (entry : ProfileEntry) (declared recorded : Action) : Prop :=
  sameActionDefinition recorded declared = true ∨
    declared.reason = none ∧ ∃ reason, Overrides entry (actionPath declared.id) reason ∧
      sameActionDefinition recorded { declared with reason := some reason } = true

/-- The recorded action of an id before and after a profile that may declare it. -/
structure ActionSettles (entry : ProfileEntry) (before declared after : Option Action) : Prop where
  kept : declared = none → after = before
  value : ∀ action, declared = some action →
    ∃ recorded, after = some recorded ∧ RecordedAs entry action recorded
  changed : ∀ current action, before = some current → declared = some action →
    sameActionDefinition current action = false →
    ∃ reason, Overrides entry (actionPath action.id) reason

theorem sameActionDefinition_self (action : Action) : sameActionDefinition action action = true := by
  simp [sameActionDefinition]

theorem mergeAction_indexed (hindexed : Indexed merged) {action : Action}
    (h : mergeAction entry overrides merged action = .ok next) : Indexed next := by
  rcases mergeAction_cases h with
    ⟨hnew, rfl⟩ | ⟨index, _, hindex, -, ⟨-, rfl⟩ | ⟨-, -, reason, -, rfl⟩⟩
  · exact hindexed.pushAction hnew
  · exact hindexed
  · exact hindexed.replaceAction hindex reason

theorem replaced_recordedAs {action : Action} {reason : String}
    (hreason : Overrides entry (actionPath action.id) reason) :
    RecordedAs entry action { action with reason := action.reason.or (some reason) } := by
  cases hown : action.reason with
  | some own =>
    left
    simp [sameActionDefinition, hown]
  | none => exact .inr ⟨hown, reason, hreason, sameActionDefinition_self _⟩

theorem mergeAction_settles
    (hoverrides : OverrideCatalog.new entry.profile entry.source.source = .ok overrides)
    (hindexed : Indexed merged) {action : Action}
    (h : mergeAction entry overrides merged action = .ok next) :
    ActionSettles entry (merged.recorded action.id) (some action) (next.recorded action.id) := by
  have hnext := mergeAction_indexed hindexed h
  rw [hnext.recorded_eq, hindexed.recorded_eq]
  rcases mergeAction_cases h with
    ⟨hnew, rfl⟩ | ⟨index, existing, hindex, hexisting, ⟨hsame, rfl⟩ | ⟨-, -, reason, hreason, rfl⟩⟩
  · refine ⟨nofun, ?_, by simp [hnew]⟩
    rintro _ ⟨rfl⟩
    refine ⟨action, ?_, .inl (sameActionDefinition_self action)⟩
    simp [MergedBootstrap.pushAction]
  · refine ⟨nofun, ?_, ?_⟩
    · rintro _ ⟨rfl⟩
      exact ⟨existing, by simp [hindex, hexisting], .inl hsame⟩
    · rintro current _ hcurrent ⟨rfl⟩ hdifferent
      rw [hindex, Option.bind_some, hexisting] at hcurrent
      rw [← Option.some.inj hcurrent, hsame] at hdifferent
      cases hdifferent
  · have hoverride := reason_overrides hoverrides hreason
    refine ⟨nofun, ?_, ?_⟩
    · rintro _ ⟨rfl⟩
      refine ⟨_, ?_, replaced_recordedAs hoverride⟩
      obtain ⟨hlt, -⟩ := List.getElem?_eq_some_iff.mp hexisting
      simp [MergedBootstrap.replaceAction, hindex, hlt]
    · rintro _ _ _ ⟨rfl⟩ _
      exact ⟨reason, hoverride⟩

/-- An action touches only the action of its own id. -/
theorem mergeAction_other (hindexed : Indexed merged) {action : Action}
    (h : mergeAction entry overrides merged action = .ok next) {other : String}
    (hne : other ≠ action.id) : next.recorded other = merged.recorded other := by
  have hnext := mergeAction_indexed hindexed h
  rcases mergeAction_cases h with
    ⟨hnew, rfl⟩ | ⟨index, existing, hindex, hexisting, ⟨hsame, rfl⟩ | ⟨-, -, reason, hreason, rfl⟩⟩
  · unfold MergedBootstrap.recorded MergedBootstrap.pushAction
    simp [List.find?_append, hne.symm]
  · rfl
  · rw [hnext.recorded_eq, hindexed.recorded_eq]
    unfold MergedBootstrap.replaceAction
    dsimp only
    cases hplace : merged.action_indexes[other]? with
    | none => rfl
    | some place =>
      have hplaces : index ≠ place := by
        rintro rfl
        rw [hindexed] at hindex hplace
        exact hne (Option.some.inj (hplace.symm.trans hindex))
      simp [List.getElem?_set_ne hplaces]

theorem mergeAction_frame {action : Action}
    (h : mergeAction entry overrides merged action = .ok next) :
    next = { merged with actions := next.actions, action_indexes := next.action_indexes } := by
  rcases mergeAction_cases h with ⟨-, rfl⟩ | ⟨_, _, -, -, ⟨-, rfl⟩ | ⟨-, -, _, -, rfl⟩⟩ <;> rfl

/-- The actions of a profile with the places they come from, from `index` on. -/
def ProfileEntry.placedFrom (entry : ProfileEntry) (index : Nat) (actions : List Action) :
    List Action :=
  (actions.zipIdx index).map fun action => entry.placed action.2 action.1

/-- The place of the declared action does not matter. -/
theorem ActionSettles.of_placed {index : Nat} {action : Action} {before after : Option Action}
    (h : ActionSettles entry before (some (entry.placed index action)) after) :
    ActionSettles entry before (some action) after := by
  refine ⟨nofun, ?_, ?_⟩
  · rintro _ ⟨rfl⟩
    exact h.value (entry.placed index action) rfl
  · rintro current _ hcurrent ⟨rfl⟩ hdifferent
    exact h.changed current (entry.placed index action) hcurrent rfl hdifferent

theorem placedFrom_ids (entry : ProfileEntry) (index : Nat) (actions : List Action) :
    (entry.placedFrom index actions).map Action.id = actions.map Action.id := by
  unfold ProfileEntry.placedFrom
  rw [List.map_map]
  calc (actions.zipIdx index).map (Action.id ∘ fun action => entry.placed action.2 action.1)
      = (actions.zipIdx index).map (Action.id ∘ Prod.fst) := rfl
    _ = actions.map Action.id := by rw [← List.map_map, List.zipIdx_map_fst]

/-- A loop that ends has met no id twice, and has merged its actions one after the other. -/
theorem mergeActions_loop {index : Nat} {seen : List String} {actions : List Action}
    (h : mergeActions entry overrides index seen actions merged = .ok next) :
    (∀ action ∈ actions, action.id ∉ seen) ∧ (actions.map Action.id).Nodup ∧
      (entry.placedFrom index actions).foldlM (mergeAction entry overrides) merged = .ok next := by
  induction actions generalizing index seen merged with
  | nil =>
    cases h
    exact ⟨by simp, by simp, rfl⟩
  | cons action actions ih =>
    simp only [mergeActions, throw_eq, error_bind, ite_error_ok_iff, bind_ok_iff] at h
    obtain ⟨hseen, step, hstep, h⟩ := h
    obtain ⟨hfresh, hnodup, hloop⟩ := ih h
    refine ⟨?_, ?_, ?_⟩
    · intro other hother
      rcases List.mem_cons.mp hother with rfl | hother
      · simpa using hseen
      · exact fun hin => hfresh other hother (List.mem_cons_of_mem _ hin)
    · rw [List.map_cons, List.nodup_cons]
      refine ⟨fun hin => ?_, hnodup⟩
      obtain ⟨other, hother, hid⟩ := List.mem_map.mp hin
      exact hfresh other hother (by simp [hid])
    · unfold ProfileEntry.placedFrom at hloop ⊢
      rw [List.zipIdx_cons, List.map_cons, List.foldlM_cons, bind_ok_iff]
      exact ⟨step, hstep, hloop⟩

theorem mergeActions_settles
    (hoverrides : OverrideCatalog.new entry.profile entry.source.source = .ok overrides)
    (hindexed : Indexed merged) {actions : List Action}
    (h : mergeActions entry overrides 0 [] actions merged = .ok next) (id : String) :
    ActionSettles entry (merged.recorded id) (actions.find? (·.id = id)) (next.recorded id) := by
  obtain ⟨-, hnodup, hloop⟩ := mergeActions_loop h
  have hids := placedFrom_ids entry 0 actions
  obtain ⟨hown, hother⟩ := foldlM_slots (I := Indexed)
    (R := fun (action : Action) before after => ActionSettles entry before (some action) after)
    Action.id (fun id merged => merged.recorded id)
    (fun _ _ _ hstate hstep => mergeAction_indexed hstate hstep)
    (fun _ _ _ hstate hstep => mergeAction_settles hoverrides hstate hstep)
    (fun _ _ _ hstate hstep _ hne => mergeAction_other hstate hstep hne) (hids.symm ▸ hnodup)
    hindexed hloop
  cases hfind : actions.find? (·.id = id) with
  | none =>
    have hfresh : id ∉ (entry.placedFrom 0 actions).map Action.id := by
      rw [hids]
      simpa using hfind
    exact ⟨fun _ => hother id hfresh, by simp, by simp⟩
  | some action =>
    obtain rfl : action.id = id := by simpa using List.find?_some hfind
    obtain ⟨index, hindex⟩ := List.getElem?_of_mem (List.mem_of_find?_eq_some hfind)
    have hplaced : entry.placed index action ∈ entry.placedFrom 0 actions :=
      List.mem_map.mpr ⟨(action, index), List.mk_mem_zipIdx_iff_getElem?.mpr hindex, rfl⟩
    exact (hown _ hplaced).of_placed

theorem mergeActions_indexed (hindexed : Indexed merged) {actions : List Action}
    (h : mergeActions entry overrides 0 [] actions merged = .ok next) : Indexed next :=
  foldlM_invariant (fun _ _ _ _ hstate hstep => mergeAction_indexed hstate hstep) hindexed
    (mergeActions_loop h).2.2

theorem mergeActions_frame {actions : List Action}
    (h : mergeActions entry overrides 0 [] actions merged = .ok next) :
    next = { merged with actions := next.actions, action_indexes := next.action_indexes } := by
  refine foldlM_invariant (I := fun state => state = { merged with
    actions := state.actions, action_indexes := state.action_indexes }) ?_ rfl
    (mergeActions_loop h).2.2
  intro state action state' _ hstate hstep
  rw [mergeAction_frame hstep, hstate]

/-! ## Profiles -/

/-- What a profile does to the merge. -/
structure ProfileSettles (entry : ProfileEntry) (merged next : MergedBootstrap) : Prop where
  scalars : ∀ key : ScalarKey,
    Settles entry key.path (merged.scalars key) (entry.scalar key) (next.scalars key)
  inputs : ∀ name,
    Settles entry (inputPath name) merged.inputs[name]? (entry.input name) next.inputs[name]?
  actions : ∀ id, ActionSettles entry (merged.recorded id) (entry.action id) (next.recorded id)
  safe_kinds :
    merged.policy.workspace_safe_action_kinds ⊆ next.policy.workspace_safe_action_kinds
  admin_kinds : merged.policy.admin_only_action_kinds ⊆ next.policy.admin_only_action_kinds

theorem mergePolicy_frame (policy : Option RawPolicy) (merged : MergedBootstrap) :
    mergePolicy policy merged = { merged with policy := (mergePolicy policy merged).policy } := by
  cases policy <;> rfl

theorem mergePolicy_grows (policy : Option RawPolicy) (merged : MergedBootstrap) :
    merged.policy.workspace_safe_action_kinds ⊆
        (mergePolicy policy merged).policy.workspace_safe_action_kinds ∧
      merged.policy.admin_only_action_kinds ⊆
        (mergePolicy policy merged).policy.admin_only_action_kinds := by
  cases policy with
  | none => exact ⟨Finset.Subset.refl _, Finset.Subset.refl _⟩
  | some policy => exact ⟨Finset.subset_union_left, Finset.subset_union_left⟩

theorem mergeBootstrap_settles
    (hoverrides : OverrideCatalog.new entry.profile entry.source.source = .ok overrides)
    {bootstrap : RawBootstrap} (hbootstrap : entry.profile.bootstrap = some bootstrap)
    (hindexed : Indexed merged) (h : mergeBootstrap merged entry bootstrap overrides = .ok next) :
    Indexed next ∧ ProfileSettles entry merged next := by
  simp only [mergeBootstrap, bind_ok_iff] at h
  obtain ⟨_, -, afterScalars, hscalars, afterInputs, hinputs, hactions⟩ := h
  have hframe₁ := mergeScalars_frame hscalars
  have hframe₂ := mergePolicy_frame bootstrap.policy afterScalars
  have hframe₃ := mergeInputs_frame hinputs
  have hframe₄ := mergeActions_frame hactions
  -- each part is settled by its own loop and kept by the others
  have hactionsKept : afterInputs.actions = merged.actions :=
    (congrArg (·.actions) hframe₃).trans
      ((congrArg (·.actions) hframe₂).trans (congrArg (·.actions) hframe₁))
  have hindexesKept : afterInputs.action_indexes = merged.action_indexes :=
    (congrArg (·.action_indexes) hframe₃).trans
      ((congrArg (·.action_indexes) hframe₂).trans (congrArg (·.action_indexes) hframe₁))
  have hinputsKept : (mergePolicy bootstrap.policy afterScalars).inputs = merged.inputs :=
    (congrArg (·.inputs) hframe₂).trans (congrArg (·.inputs) hframe₁)
  have hscalarsKept : next.scalars = afterScalars.scalars :=
    (congrArg (·.scalars) hframe₄).trans
      ((congrArg (·.scalars) hframe₃).trans (congrArg (·.scalars) hframe₂))
  have hpolicyKept : next.policy = (mergePolicy bootstrap.policy afterScalars).policy :=
    (congrArg (·.policy) hframe₄).trans (congrArg (·.policy) hframe₃)
  have hpolicyFirst : afterScalars.policy = merged.policy := congrArg (·.policy) hframe₁
  have hinputsLast : next.inputs = afterInputs.inputs := congrArg (·.inputs) hframe₄
  have hindexed' : Indexed afterInputs := by
    unfold Indexed
    rw [hactionsKept, hindexesKept]
    exact hindexed
  have hgrows := mergePolicy_grows bootstrap.policy afterScalars
  rw [hpolicyFirst] at hgrows
  refine ⟨mergeActions_indexed hindexed' hactions, ?_, ?_, ?_, ?_, ?_⟩
  · intro key
    have hsettles := mergeScalars_settles hoverrides hscalars key
    simpa [ProfileEntry.scalar, hbootstrap, hscalarsKept] using hsettles
  · intro name
    have hsettles := mergeInputs_settles hoverrides hinputs name
    simpa [ProfileEntry.input, hbootstrap, hinputsLast, hinputsKept] using hsettles
  · intro id
    have hsettles := mergeActions_settles hoverrides hindexed' hactions id
    simpa [ProfileEntry.action, hbootstrap, MergedBootstrap.recorded, hactionsKept] using hsettles
  · rw [hpolicyKept]
    exact hgrows.1
  · rw [hpolicyKept]
    exact hgrows.2

theorem mergeProfile_settles (hindexed : Indexed merged) (h : mergeProfile merged entry = .ok next) :
    Indexed next ∧ ProfileSettles entry merged next := by
  simp only [mergeProfile, bind_ok_iff] at h
  obtain ⟨overrides, hoverrides, h⟩ := h
  split at h
  · rename_i hnone
    simp only [throw_eq, error_bind, ite_error_ok_iff, pure_ok_iff] at h
    obtain ⟨-, rfl⟩ := h
    refine ⟨hindexed, ?_, ?_, ?_, Finset.Subset.refl _, Finset.Subset.refl _⟩
    · intro key
      exact ⟨by simp [ProfileEntry.scalar, hnone], by simp [ProfileEntry.scalar, hnone]⟩
    · intro name
      exact ⟨by simp [ProfileEntry.input, hnone], by simp [ProfileEntry.input, hnone]⟩
    · intro id
      exact ⟨fun _ => rfl, by simp [ProfileEntry.action, hnone], by simp [ProfileEntry.action, hnone]⟩
  · rename_i bootstrap hbootstrap
    exact mergeBootstrap_settles hoverrides hbootstrap hindexed h

end profile

/-! ## Chains of profiles -/

/-- The merge holds what the last profiles that declare it declare. -/
structure Resolves (entries : List ProfileEntry) (merged : MergedBootstrap) : Prop where
  scalars : ∀ key : ScalarKey, merged.scalars key = lastDeclared (·.scalar key) entries
  inputs : ∀ name, merged.inputs[name]? = lastDeclared (·.input name) entries
  ids : (merged.actions.map Action.id).Nodup
  actions : ∀ id,
    match lastDeclared (fun entry => (entry.action id).map (entry, ·)) entries with
    | none => merged.recorded id = none
    | some (entry, action) =>
      ∃ recorded, merged.recorded id = some recorded ∧ RecordedAs entry action recorded

theorem mergeProfiles_append_singleton {entries : List ProfileEntry} {entry : ProfileEntry}
    {next : MergedBootstrap} :
    mergeProfiles (entries ++ [entry]) = .ok next ↔
      ∃ merged, mergeProfiles entries = .ok merged ∧ mergeProfile merged entry = .ok next := by
  unfold mergeProfiles
  rw [List.foldlM_append, bind_ok_iff]
  simp only [List.foldlM_cons, List.foldlM_nil, bind_ok_iff, pure_ok_iff, exists_eq_right]

theorem mergeProfiles_resolves {entries : List ProfileEntry} {merged : MergedBootstrap}
    (h : mergeProfiles entries = .ok merged) : Indexed merged ∧ Resolves entries merged := by
  induction entries using List.reverseRecOn generalizing merged with
  | nil =>
    cases h
    have hindexed : Indexed {} := by
      intro id index
      simp
    exact ⟨hindexed, fun _ => rfl, fun _ => rfl, hindexed.nodup, fun _ => rfl⟩
  | append_singleton entries entry ih =>
    obtain ⟨state, hstate, hstep⟩ := mergeProfiles_append_singleton.mp h
    obtain ⟨hindexed, hresolves⟩ := ih hstate
    obtain ⟨hindexed', hsettles⟩ := mergeProfile_settles hindexed hstep
    refine ⟨hindexed', ?_, ?_, hindexed'.nodup, ?_⟩
    · intro key
      rw [lastDeclared_append_singleton, (hsettles.scalars key).value, hresolves.scalars key]
    · intro name
      rw [lastDeclared_append_singleton, (hsettles.inputs name).value, hresolves.inputs name]
    · intro id
      rw [lastDeclared_append_singleton]
      cases hdeclared : entry.action id with
      | none =>
        rw [(hsettles.actions id).kept hdeclared]
        exact hresolves.actions id
      | some action => exact (hsettles.actions id).value action hdeclared

/-- In a chain of profiles that merges, every value is the one of the last profile that declares
it, and every profile that changes a value, by declaring another one than the profiles before it
left, is trusted and writes an override of that value with a reason. -/
theorem no_silent_override {entries : List ProfileEntry} {merged : MergedBootstrap}
    (h : mergeProfiles entries = .ok merged) :
    Resolves entries merged ∧
      ∀ before entry after, entries = before ++ entry :: after →
        ∃ state next, mergeProfiles before = .ok state ∧ mergeProfile state entry = .ok next ∧
          Resolves before state ∧ ProfileSettles entry state next := by
  refine ⟨(mergeProfiles_resolves h).2, ?_⟩
  rintro before entry after rfl
  unfold mergeProfiles at h
  rw [List.foldlM_append, bind_ok_iff] at h
  obtain ⟨state, hstate, h⟩ := h
  rw [List.foldlM_cons, bind_ok_iff] at h
  obtain ⟨next, hnext, -⟩ := h
  obtain ⟨hindexed, hresolves⟩ := mergeProfiles_resolves hstate
  exact ⟨state, next, hstate, hnext, hresolves, (mergeProfile_settles hindexed hnext).2⟩

/-- A profile that declares the workspace root. -/
def rootEntry (id root : String) (overrides : Std.ExtTreeMap String OverrideValue) :
    ProfileEntry where
  profile := { id, bootstrap := some { workspace_root := some root }, overrides }
  source := { id, source := .AdminProfile }
  info := { id, source := .AdminProfile }

def movedRoot : Std.ExtTreeMap String OverrideValue :=
  Std.ExtTreeMap.ofList [("bootstrap.workspace_root",
    OverrideValue.Table (Std.ExtTreeMap.ofList [("reason", some "moved")]))]

/-- A chain in which the second profile moves the root and the third repeats it. -/
def movedChain : List ProfileEntry :=
  [rootEntry "base" "/a" ∅, rootEntry "child" "/b" movedRoot, rootEntry "last" "/b" ∅]

theorem moved_root_is_overridden :
    ∃ merged, mergeProfiles movedChain = .ok merged ∧ Resolves movedChain merged ∧
      ∃ state next, mergeProfiles [rootEntry "base" "/a" ∅] = .ok state ∧
        mergeProfile state (rootEntry "child" "/b" movedRoot) = .ok next ∧
        Resolves [rootEntry "base" "/a" ∅] state ∧
        ProfileSettles (rootEntry "child" "/b" movedRoot) state next := by
  obtain ⟨merged, hmerged⟩ : ∃ merged, mergeProfiles movedChain = .ok merged :=
    exists_of_isOk (by decide +kernel)
  exact ⟨merged, hmerged, (no_silent_override hmerged).1, (no_silent_override hmerged).2 _ _ _ rfl⟩

/-- A profile may repeat the value of an override without one, though an earlier profile declares
another value. -/
theorem repeated_root_needs_no_override :
    (∃ merged, mergeProfiles movedChain = .ok merged) ∧
      movedChain = [rootEntry "base" "/a" ∅, rootEntry "child" "/b" movedRoot,
        rootEntry "last" "/b" ∅] ∧
      (rootEntry "base" "/a" ∅).scalar .WorkspaceRoot = some "/a" ∧
      (rootEntry "last" "/b" ∅).scalar .WorkspaceRoot = some "/b" ∧
      ∀ reason, ¬ Overrides (rootEntry "last" "/b" ∅) (ScalarKey.path .WorkspaceRoot) reason := by
  refine ⟨exists_of_isOk (by decide +kernel), rfl, rfl, rfl, ?_⟩
  rintro reason ⟨-, ⟨table, hwrites | ⟨bootstrap, name, hbootstrap, -, hwrites⟩, -⟩, -⟩
  · simp [rootEntry] at hwrites
  · obtain rfl := Option.some.inj hbootstrap
    simp at hwrites

end bootstrap_loader
