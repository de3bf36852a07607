-- Profiles without overrides merge in any order: what a merge accepts and what it ends with is
-- said by partial maps that agree.
import NixosDockers.BootstrapLoader.MergeRun
import NixosDockers.Lib.Agreement

open bootstrap_model rust_text results agreement

namespace bootstrap_loader

/-! ## Profiles without overrides -/

/-- A trusted profile that declares no override. -/
structure Plain (entry : ProfileEntry) : Prop where
  trusted : entry.source.source.isTrusted = true
  profile : entry.profile.overrides = ∅
  bootstrap : ∀ bootstrap, entry.profile.bootstrap = some bootstrap → bootstrap.overrides = ∅

theorem Plain.not_overrides {entry : ProfileEntry} (hplain : Plain entry) (path reason : String) :
    ¬ Overrides entry path reason := by
  rintro ⟨-, ⟨table, hwrites, -⟩, -⟩
  rcases hwrites with hwrites | ⟨bootstrap, name, hbootstrap, -, hwrites⟩
  · rw [hplain.profile] at hwrites
    simp at hwrites
  · rw [hplain.bootstrap bootstrap hbootstrap] at hwrites
    simp at hwrites

/-- The catalog of such a profile is empty. -/
theorem Plain.catalog {entry : ProfileEntry} (hplain : Plain entry) :
    OverrideCatalog.new entry.profile entry.source.source = .ok {} := by
  have hcollect : collectOverrides entry.profile = .ok ∅ := by
    unfold collectOverrides
    split
    · rw [hplain.profile]
    · rename_i bootstrap hbootstrap
      rw [hplain.bootstrap bootstrap hbootstrap, hplain.profile]
      rfl
  unfold OverrideCatalog.new
  rw [hcollect]
  rfl

/-! ## What a merge holds -/

/-- An action without the place it comes from. -/
def withoutOrigin (action : Action) : Action := { action with origin := .unknown }

theorem sameActionDefinition_iff {left right : Action} :
    sameActionDefinition left right = true ↔ withoutOrigin left = withoutOrigin right := by
  simp [sameActionDefinition, withoutOrigin]

/-- The definitions of the actions by their ids. -/
def MergedBootstrap.definition (merged : MergedBootstrap) (id : String) : Option Action :=
  (merged.recorded id).map withoutOrigin

def ProfileEntry.definition (entry : ProfileEntry) (id : String) : Option Action :=
  (entry.action id).map withoutOrigin

def MergedBootstrap.input (merged : MergedBootstrap) (name : String) : Option BootstrapInput :=
  merged.inputs[name]?

/-- The actions that a profile declares. -/
def ProfileEntry.actions (entry : ProfileEntry) : List Action :=
  (entry.profile.bootstrap.map RawBootstrap.actions).getD []

def actionIds (actions : List Action) : Finset String := (actions.map Action.id).toFinset

/-- The policy that a profile adds. -/
def ProfileEntry.policy (entry : ProfileEntry) : Option RawPolicy :=
  entry.profile.bootstrap.bind RawBootstrap.policy

/-- A merge as the loader builds it: its index is right, and it is within the limit. -/
structure Sound (merged : MergedBootstrap) : Prop where
  indexed : Indexed merged
  bounded : merged.actions.length ≤ MAX_BOOTSTRAP_ACTIONS

/-- The actions of the profile contradict none of the merge, and there is room for them. -/
structure Admits (merged : MergedBootstrap) (entry : ProfileEntry) : Prop where
  definitions : Agrees merged.definition entry.definition
  distinct : (entry.actions.map Action.id).Nodup
  room : (actionIds merged.actions ∪ actionIds entry.actions).card ≤ MAX_BOOTSTRAP_ACTIONS

/-- The profile contradicts nothing in the merge. -/
structure Compatible (merged : MergedBootstrap) (entry : ProfileEntry) : Prop where
  scalars : Agrees merged.scalars entry.scalar
  inputs : Agrees merged.input entry.input
  actions : Admits merged entry

/-- What a profile without overrides does to a merge. -/
structure Joined (merged : MergedBootstrap) (entry : ProfileEntry) (next : MergedBootstrap) :
    Prop where
  sound : Sound next
  scalars : next.scalars = join merged.scalars entry.scalar
  inputs : next.input = join merged.input entry.input
  definitions : next.definition = join merged.definition entry.definition
  ids : actionIds next.actions = actionIds merged.actions ∪ actionIds entry.actions
  policy : next.policy = (mergePolicy entry.policy merged).policy
  saw : next.saw_bootstrap = (merged.saw_bootstrap || entry.profile.bootstrap.isSome)

section profile

variable {entry : ProfileEntry} {merged next : MergedBootstrap}

theorem mem_actionIds_iff {actions : List Action} {id : String} :
    id ∈ actionIds actions ↔ (actions.find? (·.id = id)).isSome = true := by
  unfold actionIds
  rw [List.mem_toFinset, List.find?_isSome, List.mem_map]
  simp

theorem mem_merged_ids_iff {id : String} :
    id ∈ actionIds merged.actions ↔ (merged.definition id).isSome = true := by
  unfold MergedBootstrap.definition MergedBootstrap.recorded
  rw [mem_actionIds_iff, Option.isSome_map]

/-- An action among actions with different ids is found by its id. -/
theorem find_of_mem {actions : List Action} {action : Action}
    (hdistinct : (actions.map Action.id).Nodup) (hmem : action ∈ actions) :
    actions.find? (·.id = action.id) = some action := by
  cases hfind : actions.find? (·.id = action.id) with
  | none => exact absurd (decide_eq_true rfl) (List.find?_eq_none.mp hfind action hmem)
  | some found =>
    have hid : found.id = action.id := by simpa using List.find?_some hfind
    rw [List.inj_on_of_nodup_map hdistinct (List.mem_of_find?_eq_some hfind) hmem hid]

theorem entry_action_eq (entry : ProfileEntry) (id : String) :
    entry.action id = entry.actions.find? (·.id = id) := by
  unfold ProfileEntry.action ProfileEntry.actions
  cases entry.profile.bootstrap <;> rfl

theorem mem_entry_ids_iff {id : String} :
    id ∈ actionIds entry.actions ↔ (entry.definition id).isSome = true := by
  unfold ProfileEntry.definition
  rw [mem_actionIds_iff, Option.isSome_map, entry_action_eq]

theorem Sound.card_ids (hsound : Sound merged) :
    (actionIds merged.actions).card = merged.actions.length := by
  unfold actionIds
  rw [List.toFinset_card_of_nodup hsound.indexed.nodup, List.length_map]

/-! ## What a merge accepts -/

/-- Without overrides, a value that is there is the declared one. -/
theorem Settles.agree {α : Type} {path : String} {before declared after : Option α}
    (hplain : Plain entry) (h : Settles entry path before declared after) :
    (∀ current value, before = some current → declared = some value → current = value) ∧
      after = before.or declared := by
  have hsame : ∀ current value, before = some current → declared = some value →
      current = value := by
    intro current value hbefore hdeclared
    by_contra hne
    obtain ⟨reason, hoverrides⟩ := h.changed current value hbefore hdeclared hne
    exact hplain.not_overrides path reason hoverrides
  refine ⟨hsame, ?_⟩
  rw [h.value]
  cases declared with
  | none => rw [Option.none_or, Option.or_none]
  | some value =>
    cases before with
    | none => rfl
    | some current => rw [hsame current value rfl rfl, Option.some_or]

theorem ActionSettles.agree {before declared after : Option Action} (hplain : Plain entry)
    (h : ActionSettles entry before declared after) :
    (∀ current value, before.map withoutOrigin = some current →
        declared.map withoutOrigin = some value → current = value) ∧
      after.map withoutOrigin =
        (before.map withoutOrigin).or (declared.map withoutOrigin) := by
  have hsame : ∀ current action, before = some current → declared = some action →
      withoutOrigin current = withoutOrigin action := by
    intro current action hbefore hdeclared
    rw [← sameActionDefinition_iff]
    by_contra hne
    obtain ⟨reason, hoverrides⟩ :=
      h.changed current action hbefore hdeclared (Bool.eq_false_of_not_eq_true hne)
    exact hplain.not_overrides _ reason hoverrides
  constructor
  · intro current value hcurrent hvalue
    obtain ⟨held, hheld, rfl⟩ := Option.map_eq_some_iff.mp hcurrent
    obtain ⟨action, haction, rfl⟩ := Option.map_eq_some_iff.mp hvalue
    exact hsame held action hheld haction
  · cases hdeclared : declared with
    | none => rw [h.kept hdeclared, Option.map_none, Option.or_none]
    | some action =>
      obtain ⟨recorded, rfl, hrecorded⟩ := h.value action hdeclared
      have hdefinition : withoutOrigin recorded = withoutOrigin action := by
        rcases hrecorded with hrecorded | ⟨-, reason, hoverrides, -⟩
        · exact sameActionDefinition_iff.mp hrecorded
        · exact absurd hoverrides (hplain.not_overrides _ reason)
      cases hbefore : before with
      | none => exact congrArg some hdefinition
      | some current =>
        have := hsame current action hbefore hdeclared
        exact congrArg some (hdefinition.trans this.symm)

/-- What is left of `merge_profile` for such a profile. -/
theorem Plain.mergeProfile_eq (hplain : Plain entry) {bootstrap : RawBootstrap}
    (hbootstrap : entry.profile.bootstrap = some bootstrap) :
    mergeProfile merged entry = (do
      let merged ← mergeScalars {} (profileOrigin entry.info entry.source "bootstrap")
        entry.profile bootstrap { merged with saw_bootstrap := true }
      let merged ← mergeInputs entry {} bootstrap.inputs (mergePolicy bootstrap.policy merged)
      mergeActions entry {} 0 [] bootstrap.actions merged) := by
  have htrusted : checkUntrusted entry bootstrap {} = .ok () := by
    unfold checkUntrusted
    dsimp only
    rw [hplain.trusted]
    rfl
  unfold mergeProfile
  rw [hplain.catalog, ok_bind, hbootstrap]
  dsimp only
  unfold mergeBootstrap
  rw [htrusted, ok_bind]

theorem mergeAction_bounded {overrides : OverrideCatalog} {action : Action}
    (hbounded : merged.actions.length ≤ MAX_BOOTSTRAP_ACTIONS)
    (h : mergeAction entry overrides merged action = .ok next) :
    next.actions.length ≤ MAX_BOOTSTRAP_ACTIONS := by
  rcases mergeAction_cases h with ⟨hnew, rfl⟩ | ⟨_, _, -, -, ⟨-, rfl⟩ | ⟨-, -, _, -, rfl⟩⟩
  · unfold mergeAction at h
    rw [hnew] at h
    simp only [throw_eq, error_bind, ite_error_ok_iff] at h
    unfold MergedBootstrap.pushAction
    rw [List.length_append, List.length_singleton]
    omega
  · exact hbounded
  · unfold MergedBootstrap.replaceAction
    rwa [List.length_set]

/-- No profile takes a merge beyond the limit. -/
theorem mergeProfile_bounded (hbounded : merged.actions.length ≤ MAX_BOOTSTRAP_ACTIONS)
    (h : mergeProfile merged entry = .ok next) : next.actions.length ≤ MAX_BOOTSTRAP_ACTIONS := by
  simp only [mergeProfile, bind_ok_iff] at h
  obtain ⟨overrides, -, h⟩ := h
  split at h
  · simp only [throw_eq, error_bind, ite_error_ok_iff, pure_ok_iff] at h
    exact h.2 ▸ hbounded
  · rename_i bootstrap _
    simp only [mergeBootstrap, bind_ok_iff] at h
    obtain ⟨_, -, afterScalars, hscalars, afterInputs, hinputs, hactions⟩ := h
    have hkept : afterInputs.actions = merged.actions :=
      (congrArg (·.actions) (mergeInputs_frame hinputs)).trans
        ((congrArg (·.actions) (mergePolicy_frame bootstrap.policy afterScalars)).trans
          (congrArg (·.actions) (mergeScalars_frame hscalars)))
    refine foldlM_invariant (I := fun state => state.actions.length ≤ MAX_BOOTSTRAP_ACTIONS) ?_
      (hkept ▸ hbounded) (mergeActions_loop hactions).2.2
    intro state action state' _ hstate hstep
    exact mergeAction_bounded hstate hstep

/-- What the policy becomes depends on what it was. -/
theorem mergePolicy_policy {policy : Option RawPolicy} {left right : MergedBootstrap}
    (h : left.policy = right.policy) :
    (mergePolicy policy left).policy = (mergePolicy policy right).policy := by
  cases policy with
  | none => exact h
  | some policy =>
    unfold mergePolicy
    dsimp only
    rw [h]

/-- The parts of the merge that only one of its loops touches. -/
theorem Plain.mergeProfile_parts (hplain : Plain entry) {bootstrap : RawBootstrap}
    (hbootstrap : entry.profile.bootstrap = some bootstrap)
    (h : mergeProfile merged entry = .ok next) :
    next.policy = (mergePolicy bootstrap.policy merged).policy ∧ next.saw_bootstrap = true ∧
      (bootstrap.actions.map Action.id).Nodup := by
  rw [hplain.mergeProfile_eq hbootstrap, bind_ok_iff] at h
  obtain ⟨afterScalars, hscalars, h⟩ := h
  rw [bind_ok_iff] at h
  obtain ⟨afterInputs, hinputs, hactions⟩ := h
  have hscalarsFrame := mergeScalars_frame hscalars
  have hinputsFrame := mergeInputs_frame hinputs
  have hactionsFrame := mergeActions_frame hactions
  have hpolicyFrame := mergePolicy_frame bootstrap.policy afterScalars
  have hfirst : afterScalars.policy = merged.policy := congrArg (·.policy) hscalarsFrame
  have hpolicy : afterInputs.policy = (mergePolicy bootstrap.policy merged).policy :=
    (congrArg (·.policy) hinputsFrame).trans (mergePolicy_policy hfirst)
  have hsaw : afterInputs.saw_bootstrap = true :=
    (congrArg (·.saw_bootstrap) hinputsFrame).trans
      ((congrArg (·.saw_bootstrap) hpolicyFrame).trans (congrArg (·.saw_bootstrap) hscalarsFrame))
  refine ⟨?_, ?_, (mergeActions_loop hactions).2.1⟩
  · exact (congrArg (·.policy) hactionsFrame).trans hpolicy
  · exact (congrArg (·.saw_bootstrap) hactionsFrame).trans hsaw

/-- A profile that is merged contradicts nothing, and adds what it declares. -/
theorem Plain.joined (hplain : Plain entry) (hsound : Sound merged)
    (h : mergeProfile merged entry = .ok next) : Compatible merged entry ∧ Joined merged entry next := by
  obtain ⟨hindexed, hsettles⟩ := mergeProfile_settles hsound.indexed h
  have hdefinitions : next.definition = join merged.definition entry.definition :=
    funext fun id => ((hsettles.actions id).agree hplain).2
  have hparts : next.policy = (mergePolicy entry.policy merged).policy ∧
      next.saw_bootstrap = (merged.saw_bootstrap || entry.profile.bootstrap.isSome) ∧
      (entry.actions.map Action.id).Nodup := by
    unfold ProfileEntry.policy ProfileEntry.actions
    cases hbootstrap : entry.profile.bootstrap with
    | none =>
      unfold mergeProfile at h
      rw [hplain.catalog, ok_bind, hbootstrap] at h
      obtain rfl := pure_ok_iff.mp h
      exact ⟨rfl, (Bool.or_false _).symm, List.nodup_nil⟩
    | some bootstrap =>
      obtain ⟨hpolicy, hsaw, hnodup⟩ := hplain.mergeProfile_parts hbootstrap h
      exact ⟨hpolicy, hsaw.trans (Bool.or_true _).symm, hnodup⟩
  obtain ⟨hpolicy, hsaw, hnodup⟩ := hparts
  have hbounded := mergeProfile_bounded hsound.bounded h
  have hids : actionIds next.actions = actionIds merged.actions ∪ actionIds entry.actions := by
    ext id
    rw [Finset.mem_union, mem_merged_ids_iff, mem_merged_ids_iff, mem_entry_ids_iff, hdefinitions]
    unfold join
    rw [Option.isSome_or, Bool.or_eq_true]
  have hnext : Sound next := ⟨hindexed, hbounded⟩
  refine ⟨⟨?_, ?_, ?_, hnodup, ?_⟩, hnext, ?_, ?_, hdefinitions, hids, hpolicy, hsaw⟩
  · exact fun key => ((hsettles.scalars key).agree hplain).1
  · exact fun name => ((hsettles.inputs name).agree hplain).1
  · exact fun id => ((hsettles.actions id).agree hplain).1
  · rw [← hids, hnext.card_ids]
    exact hbounded
  · exact funext fun key => ((hsettles.scalars key).agree hplain).2
  · exact funext fun name => ((hsettles.inputs name).agree hplain).2

/-! ## That compatible profiles are accepted -/

/-- A loop succeeds when each of its turns does. -/
theorem foldlM_succeeds {σ ε α : Type} {I : σ → Prop} {f : σ → α → Except ε σ} {l : List α}
    (hstep : ∀ s a, a ∈ l → I s → ∃ s', f s a = .ok s' ∧ I s') {s : σ} (hs : I s) :
    ∃ s', l.foldlM f s = .ok s' ∧ I s' := by
  induction l generalizing s with
  | nil => exact ⟨s, rfl, hs⟩
  | cons a l ih =>
    obtain ⟨s₁, h₁, hs₁⟩ := hstep s a (by simp) hs
    obtain ⟨s₂, h₂, hs₂⟩ := ih (fun s b hb => hstep s b (by simp [hb])) hs₁
    exact ⟨s₂, by rw [List.foldlM_cons, h₁, ok_bind, h₂], hs₂⟩

theorem mergeScalars_succeeds (merged : MergedBootstrap) (origin : Origin) {profile : RawProfile}
    {bootstrap : RawBootstrap}
    (hagrees : Agrees merged.scalars (ScalarKey.incoming profile bootstrap)) :
    ∃ next, mergeScalars {} origin profile bootstrap merged = .ok next := by
  have hloop := foldlM_succeeds (l := ScalarKey.all)
    (I := fun state => Agrees state.scalars (ScalarKey.incoming profile bootstrap))
    (f := fun merged key => mergeScalar {} origin merged key (key.incoming profile bootstrap))
    ?_ hagrees
  · obtain ⟨next, hnext, -⟩ := hloop
    exact ⟨next, hnext⟩
  · intro state key _ hstate
    unfold mergeScalar
    cases hincoming : key.incoming profile bootstrap with
    | none => exact ⟨state, rfl, hstate⟩
    | some value =>
      dsimp only
      cases hcurrent : state.scalars key with
      | none =>
        refine ⟨_, rfl, ?_⟩
        intro other left right hleft hright
        unfold MergedBootstrap.setScalar at hleft
        dsimp only at hleft
        by_cases hkey : other = key
        · subst hkey
          rw [Function.update_self] at hleft
          exact Option.some.inj (hleft.symm.trans (hincoming.symm.trans hright))
        · rw [Function.update_of_ne hkey] at hleft
          exact hstate other left right hleft hright
      | some current =>
        dsimp only
        rw [if_pos (hstate key current value hcurrent hincoming)]
        exact ⟨state, rfl, hstate⟩

theorem mergeInputs_succeeds {inputs : Std.ExtTreeMap String BootstrapInput}
    (hagrees : Agrees merged.input fun name => inputs[name]?) :
    ∃ next, mergeInputs entry {} inputs merged = .ok next := by
  have hloop := foldlM_succeeds (l := inputs.toList)
    (I := fun state => Agrees (MergedBootstrap.input state) fun name => inputs[name]?)
    (f := fun merged input => mergeInput entry {} merged input.1 input.2) ?_ hagrees
  · obtain ⟨next, hnext, -⟩ := hloop
    exact ⟨next, hnext⟩
  · rintro state ⟨name, input⟩ hmem hstate
    have hinput := Std.ExtTreeMap.mem_toList_iff_getElem?_eq_some.mp hmem
    unfold mergeInput
    dsimp only
    cases hprevious : state.inputs[name]? with
    | none =>
      refine ⟨_, rfl, ?_⟩
      intro other left right hleft hright
      unfold MergedBootstrap.input MergedBootstrap.setInput at hleft
      rw [Std.ExtTreeMap.getElem?_insert] at hleft
      split_ifs at hleft with hname
      · obtain rfl := Std.LawfulEqOrd.eq_of_compare hname
        exact Option.some.inj (hleft.symm.trans (hinput.symm.trans hright))
      · exact hstate other left right hleft hright
    | some previous =>
      dsimp only
      rw [if_pos (hstate name previous input hprevious hinput)]
      exact ⟨state, rfl, hstate⟩

/-- With new and different ids the loop merges the actions one after the other. -/
theorem mergeActions_eq {overrides : OverrideCatalog} {index : Nat} {seen : List String}
    {actions : List Action} (hfresh : ∀ action ∈ actions, action.id ∉ seen)
    (hnodup : (actions.map Action.id).Nodup) :
    mergeActions entry overrides index seen actions merged =
      (entry.placedFrom index actions).foldlM (mergeAction entry overrides) merged := by
  induction actions generalizing index seen merged with
  | nil => rfl
  | cons action actions ih =>
    rw [List.map_cons, List.nodup_cons] at hnodup
    have hseen : ¬ seen.contains action.id = true := by
      simpa using hfresh action (by simp)
    unfold mergeActions ProfileEntry.placedFrom
    rw [if_neg hseen, List.zipIdx_cons, List.map_cons, List.foldlM_cons]
    refine bind_congr fun step => ?_
    apply ih _ hnodup.2
    intro other hother hin
    rcases List.mem_cons.mp hin with hid | hin
    · exact hnodup.1 (hid ▸ List.mem_map_of_mem hother)
    · exact hfresh other (by simp [hother]) hin

/-- An action that is admitted is new with room for it, or there already. -/
theorem Plain.mergeAction_succeeds (hplain : Plain entry) {action : Action}
    (hadmits : Admits merged entry) (hsound : Sound merged)
    (hmem : action ∈ entry.actions) (index : Nat) :
    ∃ next, mergeAction entry {} merged (entry.placed index action) = .ok next ∧ Sound next ∧
      Admits next entry := by
  have hid : (entry.placed index action).id = action.id := rfl
  have haction := (entry_action_eq entry _).trans (find_of_mem hadmits.distinct hmem)
  have hdefinition : entry.definition action.id = some (withoutOrigin action) :=
    congrArg (Option.map withoutOrigin) haction
  cases hindex : merged.action_indexes[action.id]? with
  | none =>
    have hnew : merged.recorded action.id = none := by
      rw [hsound.indexed.recorded_eq, hindex, Option.bind_none]
    have hroom : merged.actions.length < MAX_BOOTSTRAP_ACTIONS := by
      rw [← hsound.card_ids]
      refine lt_of_lt_of_le (Finset.card_lt_card ?_) hadmits.room
      refine (Finset.ssubset_iff_of_subset Finset.subset_union_left).mpr ⟨action.id, ?_, ?_⟩
      · rw [Finset.mem_union, mem_entry_ids_iff, hdefinition]
        exact Or.inr rfl
      · rw [mem_merged_ids_iff]
        unfold MergedBootstrap.definition
        rw [hnew]
        exact Bool.false_ne_true
    have hstep : mergeAction entry {} merged (entry.placed index action) =
        .ok (merged.pushAction (entry.placed index action)) := by
      unfold mergeAction
      rw [hid, hindex]
      dsimp only
      rw [if_neg (Nat.not_le.mpr hroom)]
      rfl
    refine ⟨_, hstep, ⟨mergeAction_indexed hsound.indexed hstep,
      mergeAction_bounded hsound.bounded hstep⟩, ?_,
      hadmits.distinct, ?_⟩
    · intro id left right hleft hright
      by_cases hother : id = action.id
      · subst hother
        have hown := ((mergeAction_settles hplain.catalog hsound.indexed hstep).agree hplain).2
        rw [hid, hnew] at hown
        have hboth := hleft.symm.trans (hown.trans (hdefinition.symm.trans hright))
        exact Option.some.inj hboth
      · apply hadmits.definitions id left right _ hright
        unfold MergedBootstrap.definition at hleft ⊢
        rwa [mergeAction_other hsound.indexed hstep hother] at hleft
    · have hids : actionIds (merged.pushAction (entry.placed index action)).actions =
          actionIds merged.actions ∪ {action.id} := by
        unfold actionIds MergedBootstrap.pushAction
        rw [List.map_append, List.toFinset_append]
        rfl
      have hin : {action.id} ⊆ actionIds entry.actions := by
        rw [Finset.singleton_subset_iff, mem_entry_ids_iff, hdefinition]
        rfl
      rw [hids, Finset.union_assoc, Finset.union_eq_right.mpr hin]
      exact hadmits.room
  | some place =>
    obtain ⟨existing, hexisting, -⟩ :=
      Option.map_eq_some_iff.mp ((hsound.indexed action.id place).mp hindex)
    have hrecorded : merged.recorded action.id = some existing := by
      rw [hsound.indexed.recorded_eq, hindex, Option.bind_some, hexisting]
    have hsame : sameActionDefinition existing (entry.placed index action) = true := by
      rw [sameActionDefinition_iff]
      exact hadmits.definitions action.id _ _ (congrArg (Option.map withoutOrigin) hrecorded)
        hdefinition
    refine ⟨merged, ?_, hsound, hadmits⟩
    unfold mergeAction
    rw [hid, hindex]
    dsimp only
    rw [hexisting]
    dsimp only
    rw [if_pos hsame]
    rfl

theorem Plain.mergeActions_succeeds (hplain : Plain entry) (hadmits : Admits merged entry) (hsound : Sound merged) :
    ∃ next, mergeActions entry {} 0 [] entry.actions merged = .ok next := by
  rw [mergeActions_eq (by simp) hadmits.distinct]
  have hloop := foldlM_succeeds
    (I := fun state => Sound state ∧ Admits state entry) (l := entry.placedFrom 0 entry.actions)
    (f := mergeAction entry {}) ?_ ⟨hsound, hadmits⟩
  · obtain ⟨next, hnext, -⟩ := hloop
    exact ⟨next, hnext⟩
  · rintro state _ hmem ⟨hstate, hadmits⟩
    obtain ⟨⟨action, index⟩, haction, rfl⟩ := List.mem_map.mp hmem
    exact hplain.mergeAction_succeeds hadmits hstate (List.fst_mem_of_mem_zipIdx haction) index

/-- A compatible profile is merged. -/
theorem Plain.mergeProfile_succeeds (hplain : Plain entry) (hcompatible : Compatible merged entry)
    (hsound : Sound merged) : ∃ next, mergeProfile merged entry = .ok next := by
  cases hbootstrap : entry.profile.bootstrap with
  | none =>
    refine ⟨merged, ?_⟩
    unfold mergeProfile
    rw [hplain.catalog, ok_bind, hbootstrap]
    rfl
  | some bootstrap =>
    have hscalar : entry.scalar = ScalarKey.incoming entry.profile bootstrap := by
      unfold ProfileEntry.scalar
      rw [hbootstrap]
      rfl
    have hinput : entry.input = fun name => bootstrap.inputs[name]? := by
      unfold ProfileEntry.input
      rw [hbootstrap]
      rfl
    have hactions : entry.actions = bootstrap.actions := by
      unfold ProfileEntry.actions
      rw [hbootstrap]
      rfl
    rw [hplain.mergeProfile_eq hbootstrap]
    obtain ⟨afterScalars, hscalars⟩ := mergeScalars_succeeds
      { merged with saw_bootstrap := true } (profileOrigin entry.info entry.source "bootstrap")
      (hscalar ▸ hcompatible.scalars)
    rw [hscalars, ok_bind]
    have hscalarsFrame := mergeScalars_frame hscalars
    have hpolicyFrame := mergePolicy_frame bootstrap.policy afterScalars
    have hinputsKept : (mergePolicy bootstrap.policy afterScalars).inputs = merged.inputs :=
      (congrArg (·.inputs) hpolicyFrame).trans (congrArg (·.inputs) hscalarsFrame)
    have hagrees : Agrees (mergePolicy bootstrap.policy afterScalars).input
        fun name => bootstrap.inputs[name]? := by
      unfold MergedBootstrap.input
      rw [hinputsKept]
      exact hinput ▸ hcompatible.inputs
    obtain ⟨afterInputs, hinputs⟩ := mergeInputs_succeeds hagrees
    rw [hinputs, ok_bind]
    have hinputsFrame := mergeInputs_frame hinputs
    have hactionsKept : afterInputs.actions = merged.actions :=
      (congrArg (·.actions) hinputsFrame).trans
        ((congrArg (·.actions) hpolicyFrame).trans (congrArg (·.actions) hscalarsFrame))
    have hindexesKept : afterInputs.action_indexes = merged.action_indexes :=
      (congrArg (·.action_indexes) hinputsFrame).trans
        ((congrArg (·.action_indexes) hpolicyFrame).trans
          (congrArg (·.action_indexes) hscalarsFrame))
    have hsound' : Sound afterInputs := by
      constructor
      · unfold Indexed
        rw [hactionsKept, hindexesKept]
        exact hsound.indexed
      · rw [hactionsKept]
        exact hsound.bounded
    have hadmits : Admits afterInputs entry := by
      have hdefinition : afterInputs.definition = merged.definition := by
        unfold MergedBootstrap.definition MergedBootstrap.recorded
        rw [hactionsKept]
      refine ⟨hdefinition ▸ hcompatible.actions.definitions, hcompatible.actions.distinct, ?_⟩
      rw [hactionsKept]
      exact hcompatible.actions.room
    rw [← hactions]
    exact hplain.mergeActions_succeeds hadmits hsound'

end profile

/-! ## The order of two profiles -/

/-- A second profile that is compatible after the first is compatible before it, and the first
is after the second. -/
theorem compatible_swap {merged afterFirst : MergedBootstrap} {first second : ProfileEntry}
    (hfirst : Compatible merged first) (hjoined : Joined merged first afterFirst)
    (hsecond : Compatible afterFirst second) :
    Compatible merged second ∧
      ∀ afterSecond, Joined merged second afterSecond → Compatible afterSecond first := by
  have hscalars := agrees_swap.mp ⟨hfirst.scalars, hjoined.scalars ▸ hsecond.scalars⟩
  have hinputs := agrees_swap.mp ⟨hfirst.inputs, hjoined.inputs ▸ hsecond.inputs⟩
  have hdefinitions := agrees_swap.mp
    ⟨hfirst.actions.definitions, hjoined.definitions ▸ hsecond.actions.definitions⟩
  have hroom := hsecond.actions.room
  rw [hjoined.ids, Finset.union_right_comm] at hroom
  constructor
  · refine ⟨hscalars.1, hinputs.1, hdefinitions.1, hsecond.actions.distinct, ?_⟩
    exact (Finset.card_le_card Finset.subset_union_left).trans hroom
  · intro afterSecond h
    refine ⟨h.scalars ▸ hscalars.2, h.inputs ▸ hinputs.2, h.definitions ▸ hdefinitions.2,
      hfirst.actions.distinct, ?_⟩
    rw [h.ids]
    exact hroom

theorem mergePolicy_swap {left right : Option RawPolicy}
    {merged afterLeft afterRight : MergedBootstrap}
    (hleft : afterLeft.policy = (mergePolicy left merged).policy)
    (hright : afterRight.policy = (mergePolicy right merged).policy) :
    (mergePolicy right afterLeft).policy = (mergePolicy left afterRight).policy := by
  rw [mergePolicy_policy hleft, mergePolicy_policy hright]
  cases left with
  | none => cases right <;> rfl
  | some left =>
    cases right with
    | none => rfl
    | some right =>
      unfold mergePolicy
      dsimp only
      rw [Finset.union_right_comm merged.policy.workspace_safe_action_kinds,
        Finset.union_right_comm merged.policy.admin_only_action_kinds]

/-- Merges with the same definitions have the same actions, but for their order and origins. -/
theorem Sound.actions_perm {left right : MergedBootstrap} (hleft : Sound left)
    (hright : Sound right) (h : left.definition = right.definition) :
    (left.actions.map withoutOrigin).Perm (right.actions.map withoutOrigin) := by
  have hnodup : ∀ {merged : MergedBootstrap}, Sound merged →
      (merged.actions.map withoutOrigin).Nodup := by
    intro merged hsound
    apply List.Nodup.of_map Action.id
    rw [List.map_map]
    exact hsound.indexed.nodup
  have hmem : ∀ {merged : MergedBootstrap}, Sound merged → ∀ action,
      action ∈ merged.actions.map withoutOrigin ↔ merged.definition action.id = some action := by
    intro merged hsound action
    constructor
    · intro hmem
      obtain ⟨held, hheld, rfl⟩ := List.mem_map.mp hmem
      exact congrArg (Option.map withoutOrigin) (find_of_mem hsound.indexed.nodup hheld)
    · intro hdefinition
      obtain ⟨held, hheld, rfl⟩ := Option.map_eq_some_iff.mp hdefinition
      exact List.mem_map_of_mem (List.mem_of_find?_eq_some hheld)
  rw [List.perm_ext_iff_of_nodup (hnodup hleft) (hnodup hright)]
  intro action
  rw [hmem hleft, hmem hright, h]

/-- Merging two profiles one after the other. -/
def mergeBoth (merged : MergedBootstrap) (first second : ProfileEntry) :
    Except LoadFailure MergedBootstrap := do
  mergeProfile (← mergeProfile merged first) second

/-- What is merged in one order is merged in the other. -/
theorem mergeBoth_swap {merged left : MergedBootstrap} {first second : ProfileEntry}
    (hfirst : Plain first) (hsecond : Plain second) (hsound : Sound merged)
    (h : mergeBoth merged first second = .ok left) :
    ∃ right, mergeBoth merged second first = .ok right ∧ Sound left ∧ Sound right ∧
      left.scalars = right.scalars ∧ left.input = right.input ∧
      left.definition = right.definition ∧ left.policy = right.policy ∧
      left.saw_bootstrap = right.saw_bootstrap := by
  unfold mergeBoth at h ⊢
  obtain ⟨afterFirst, hmergeFirst, hmergeLeft⟩ := bind_ok_iff.mp h
  obtain ⟨hcompatible, hjoined⟩ := hfirst.joined hsound hmergeFirst
  obtain ⟨hcompatible', hleft⟩ := hsecond.joined hjoined.sound hmergeLeft
  obtain ⟨hbefore, hafter⟩ := compatible_swap hcompatible hjoined hcompatible'
  obtain ⟨afterSecond, hmergeSecond⟩ := hsecond.mergeProfile_succeeds hbefore hsound
  obtain ⟨-, hjoined'⟩ := hsecond.joined hsound hmergeSecond
  obtain ⟨right, hmergeRight⟩ :=
    hfirst.mergeProfile_succeeds (hafter afterSecond hjoined') hjoined'.sound
  obtain ⟨-, hright⟩ := hfirst.joined hjoined'.sound hmergeRight
  refine ⟨right, ?_, hleft.sound, hright.sound, ?_, ?_, ?_, ?_, ?_⟩
  · rw [hmergeSecond, ok_bind, hmergeRight]
  · rw [hleft.scalars, hright.scalars, hjoined.scalars, hjoined'.scalars]
    exact join_swap hcompatible.scalars (hjoined.scalars ▸ hcompatible'.scalars)
  · rw [hleft.inputs, hright.inputs, hjoined.inputs, hjoined'.inputs]
    exact join_swap hcompatible.inputs (hjoined.inputs ▸ hcompatible'.inputs)
  · rw [hleft.definitions, hright.definitions, hjoined.definitions, hjoined'.definitions]
    exact join_swap hcompatible.actions.definitions
      (hjoined.definitions ▸ hcompatible'.actions.definitions)
  · rw [hleft.policy, hright.policy]
    exact mergePolicy_swap hjoined.policy hjoined'.policy
  · rw [hleft.saw, hright.saw, hjoined.saw, hjoined'.saw, Bool.or_right_comm]

theorem mergeProfiles_sound {chain : List ProfileEntry} {merged : MergedBootstrap}
    (h : mergeProfiles chain = .ok merged) : Sound merged := by
  refine ⟨(mergeProfiles_resolves h).1, ?_⟩
  refine foldlM_invariant (I := fun state => state.actions.length ≤ MAX_BOOTSTRAP_ACTIONS) ?_
    (Nat.zero_le _) h
  intro state entry state' _ hstate hstep
  exact mergeProfile_bounded hstate hstep

/-- Two trusted profiles without overrides, merged into what a chain of profiles has come to:
both orders succeed or none does, and they end with the same configuration. -/
theorem merge_order_independent {chain : List ProfileEntry} {merged : MergedBootstrap}
    {first second : ProfileEntry} (hmerged : mergeProfiles chain = .ok merged)
    (hfirst : Plain first) (hsecond : Plain second) :
    ((∃ left, mergeBoth merged first second = .ok left) ↔
        ∃ right, mergeBoth merged second first = .ok right) ∧
      ∀ left right, mergeBoth merged first second = .ok left →
        mergeBoth merged second first = .ok right →
        left.scalars = right.scalars ∧ left.inputs = right.inputs ∧
          left.identityConfig = right.identityConfig ∧
          left.handoffConfig = right.handoffConfig ∧ left.policy = right.policy ∧
          left.saw_bootstrap = right.saw_bootstrap ∧
          (left.actions.map withoutOrigin).Perm (right.actions.map withoutOrigin) := by
  have hsound := mergeProfiles_sound hmerged
  refine ⟨⟨?_, ?_⟩, ?_⟩
  · rintro ⟨left, hleft⟩
    obtain ⟨right, hright, -⟩ := mergeBoth_swap hfirst hsecond hsound hleft
    exact ⟨right, hright⟩
  · rintro ⟨right, hright⟩
    obtain ⟨left, hleft, -⟩ := mergeBoth_swap hsecond hfirst hsound hright
    exact ⟨left, hleft⟩
  · intro left right hleft hright
    obtain ⟨other, hother, hsoundLeft, hsoundRight, hscalars, hinputs, hdefinitions, hpolicy,
      hsaw⟩ := mergeBoth_swap hfirst hsecond hsound hleft
    obtain rfl := Except.ok.inj (hother.symm.trans hright)
    refine ⟨hscalars, ?_, ?_, ?_, hpolicy, hsaw,
      hsoundLeft.actions_perm hsoundRight hdefinitions⟩
    · exact Std.ExtTreeMap.ext_getElem? fun name => congrFun hinputs name
    · unfold MergedBootstrap.identityConfig
      rw [hscalars]
    · unfold MergedBootstrap.handoffConfig
      rw [hscalars]

/-- A profile with a root beside one that repeats it. -/
theorem repeated_roots_merge_in_both_orders :
    ∃ left right, mergeBoth {} (rootEntry "base" "/w" ∅) (rootEntry "site" "/w" ∅) = .ok left ∧
      mergeBoth {} (rootEntry "site" "/w" ∅) (rootEntry "base" "/w" ∅) = .ok right ∧
      left.scalars = right.scalars := by
  have hplain : ∀ id, Plain (rootEntry id "/w" ∅) := by
    intro id
    refine ⟨rfl, rfl, fun bootstrap hbootstrap => ?_⟩
    obtain rfl := Option.some.inj hbootstrap
    rfl
  obtain ⟨hiff, hequal⟩ := @merge_order_independent [] {} _ _ rfl (hplain "base") (hplain "site")
  obtain ⟨left, hleft⟩ : ∃ left, mergeBoth {} (rootEntry "base" "/w" ∅)
    (rootEntry "site" "/w" ∅) = .ok left := exists_of_isOk (by decide +kernel)
  obtain ⟨right, hright⟩ := hiff.mp ⟨left, hleft⟩
  exact ⟨left, right, hleft, hright, (hequal left right hleft hright).1⟩

end bootstrap_loader
