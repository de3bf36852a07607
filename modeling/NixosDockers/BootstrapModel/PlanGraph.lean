-- The dependency relation of a configuration, and that the dependency lists
-- that `from_config` builds say exactly this relation.
import NixosDockers.BootstrapModel.Plan
import NixosDockers.Lib.Results
import NixosDockers.Lib.TreeMaps

open results

namespace bootstrap_model

/-! ## The relation -/

/-- The action `a` must come before the action `b`: `b` declares it, `a` resolves the
identity, or `a` drops the privileges and `b` is the handoff. -/
def Before (a b : Action) : Prop :=
  a.id ∈ b.depends_on ∨ (a.kind = .IdentityResolve ∧ b.kind ≠ .IdentityResolve) ∨
    (a.kind = .ProcessDropPrivileges ∧ b.kind = .HandoffExec)

/-- The dependency relation over the places of the actions. -/
def Requires (config : BootstrapConfig) (i j : Nat) : Prop :=
  ∃ a b, config.actions[i]? = some a ∧ config.actions[j]? = some b ∧ Before a b

/-- Every declared dependency is the id of an action. -/
def DependenciesDeclared (config : BootstrapConfig) : Prop :=
  ∀ b ∈ config.actions, ∀ name ∈ b.depends_on, ∃ a ∈ config.actions, a.id = name

/-- At most one action of each of the three special kinds. -/
structure SpecialsUnique (config : BootstrapConfig) : Prop where
  resolve : (ofKind config .IdentityResolve).length ≤ 1
  handoff : (ofKind config .HandoffExec).length ≤ 1
  drop : (ofKind config .ProcessDropPrivileges).length ≤ 1

/-- No action depends on an action of a later phase. -/
def PhasesRespected (config : BootstrapConfig) : Prop :=
  ∀ a ∈ config.actions, ∀ b ∈ config.actions, Before a b → a.phase.rank ≤ b.phase.rank

/-- Where an action reads the identity, an action resolves it. -/
def IdentityResolved (config : BootstrapConfig) : Prop :=
  ∀ b ∈ config.actions, b.kind ≠ .IdentityResolve → b.referencesIdentity = true →
    ∃ a ∈ config.actions, a.kind = .IdentityResolve

/-- No action names itself as a dependency. -/
def NoSelfDependency (config : BootstrapConfig) : Prop :=
  ∀ b ∈ config.actions, b.id ∉ b.depends_on

instance (a b : Action) : Decidable (Before a b) := inferInstanceAs (Decidable (_ ∨ _))

instance (config : BootstrapConfig) : Decidable (DependenciesDeclared config) :=
  inferInstanceAs (Decidable (∀ b ∈ config.actions, ∀ name ∈ b.depends_on,
    ∃ a ∈ config.actions, a.id = name))

instance (config : BootstrapConfig) : Decidable (PhasesRespected config) :=
  inferInstanceAs (Decidable (∀ a ∈ config.actions, ∀ b ∈ config.actions,
    Before a b → a.phase.rank ≤ b.phase.rank))

instance (config : BootstrapConfig) : Decidable (IdentityResolved config) :=
  inferInstanceAs (Decidable (∀ b ∈ config.actions, b.kind ≠ .IdentityResolve →
    b.referencesIdentity = true → ∃ a ∈ config.actions, a.kind = .IdentityResolve))

/-- Everything the checks before the sort ask for. -/
structure Plannable (config : BootstrapConfig) : Prop where
  valid : config.validate = .ok ()
  unique : SpecialsUnique config
  declared : DependenciesDeclared config
  no_self : NoSelfDependency config
  resolved : IdentityResolved config
  phases : PhasesRespected config

/-! ## The actions of a valid configuration -/

theorem validateActions_ok {config : BootstrapConfig} {ids : List String} {actions : List Action}
    (h : config.validateActions ids actions = .ok ()) :
    (actions.map (·.id)).Nodup ∧
      ∀ action ∈ actions, action.id ∉ ids ∧ config.validateAction action = .ok () := by
  induction actions generalizing ids with
  | nil => simp
  | cons action actions ih =>
    simp only [BootstrapConfig.validateActions, throw_bind, ite_error_ok_iff, bind_ok_iff] at h
    obtain ⟨hfresh, _, hvalid, hrest⟩ := h
    obtain ⟨hnodup, hall⟩ := ih hrest
    simp only [List.mem_cons, not_or] at hall
    have hnew : action.id ∉ actions.map (·.id) := by
      intro hm
      obtain ⟨other, ho, he⟩ := List.mem_map.mp hm
      exact (hall other ho).1.1 he
    refine ⟨by simpa using ⟨by simpa using hnew, hnodup⟩, fun other ho => ?_⟩
    rcases List.mem_cons.mp ho with rfl | ho
    · exact ⟨by simpa using hfresh, hvalid⟩
    · exact ⟨(hall other ho).1.2, (hall other ho).2⟩

theorem validate_actions {config : BootstrapConfig} (h : config.validate = .ok ()) :
    (config.actions.map (·.id)).Nodup ∧
      ∀ action ∈ config.actions, config.validateAction action = .ok () := by
  unfold BootstrapConfig.validate at h
  simp only [throw_bind, ite_error_ok_iff, bind_ok_iff] at h
  obtain ⟨_, _, _, _, _, _, _, _, _, _, _, _, _, _, _, _, hactions, _⟩ := h
  obtain ⟨hnodup, hall⟩ := validateActions_ok hactions
  exact ⟨hnodup, fun action ha => (hall action ha).2⟩

theorem eq_of_same_id {config : BootstrapConfig} (hids : (config.actions.map (·.id)).Nodup)
    {a b : Action} (ha : a ∈ config.actions) (hb : b ∈ config.actions) (hab : a.id = b.id) :
    a = b :=
  List.inj_on_of_nodup_map hids ha hb hab

theorem getElem?_inj_of_ids {config : BootstrapConfig} (hids : (config.actions.map (·.id)).Nodup)
    {i j : Nat} {a b : Action} (hi : config.actions[i]? = some a)
    (hj : config.actions[j]? = some b) (hab : a.id = b.id) : i = j := by
  obtain ⟨hi', rfl⟩ := List.getElem?_eq_some_iff.mp hi
  obtain ⟨hj', rfl⟩ := List.getElem?_eq_some_iff.mp hj
  have hsame : (config.actions.map (·.id))[i]? = (config.actions.map (·.id))[j]? := by
    simp [hi, hj, hab]
  exact (List.getElem?_inj (by simpa using hi') hids).mp hsame

/-- The map of the ids gives the place of every action. -/
theorem indexById_eq_some {config : BootstrapConfig} (hids : (config.actions.map (·.id)).Nodup)
    {name : String} {i : Nat} :
    (indexById config.actions)[name]? = some i ↔
      ∃ a, config.actions[i]? = some a ∧ a.id = name := by
  have hkeys : ((config.actions.zipIdx.map fun entry => (entry.1.id, entry.2)).map
      Prod.fst).Nodup := by
    have he : (config.actions.zipIdx.map fun entry => (entry.1.id, entry.2)).map Prod.fst =
        config.actions.map (·.id) := by
      apply List.ext_getElem?
      intro k
      simp [Function.comp_def]
    rw [he]
    exact hids
  unfold indexById
  rw [tree_maps.getElem?_ofList_iff hkeys, List.mem_map]
  constructor
  · rintro ⟨⟨a, k⟩, hk, he⟩
    obtain ⟨rfl, rfl⟩ := Prod.mk.inj he
    exact ⟨a, List.mk_mem_zipIdx_iff_getElem?.mp hk, rfl⟩
  · rintro ⟨a, ha, rfl⟩
    exact ⟨(a, i), List.mk_mem_zipIdx_iff_getElem?.mpr ha, rfl⟩

theorem indexById_contains {config : BootstrapConfig}
    (hids : (config.actions.map (·.id)).Nodup) {name : String} :
    (indexById config.actions).contains name = true ↔ ∃ a ∈ config.actions, a.id = name := by
  rw [Std.ExtTreeMap.contains_eq_isSome_getElem?, Option.isSome_iff_exists]
  constructor
  · rintro ⟨i, hi⟩
    obtain ⟨a, ha, rfl⟩ := (indexById_eq_some hids).mp hi
    exact ⟨a, List.mem_of_getElem? ha, rfl⟩
  · rintro ⟨a, ha, rfl⟩
    obtain ⟨i, hi⟩ := List.getElem?_of_mem ha
    exact ⟨i, (indexById_eq_some hids).mpr ⟨a, hi, rfl⟩⟩

/-! ## The dependency lists -/

theorem mem_sortedSet {names : List String} {name : String} :
    name ∈ sortedSet names ↔ name ∈ names := by
  simp [sortedSet, Std.ExtTreeSet.mem_toList, Std.ExtTreeSet.mem_ofList]

theorem sortedSet_nodup (names : List String) : (sortedSet names).Nodup := by
  refine (Std.ExtTreeSet.distinct_toList (t := Std.ExtTreeSet.ofList names)).imp ?_
  intro a b hne he
  exact hne (by simp [he])

/-- The list of one action before the handoff gets its dependency on the drop. -/
def plainDependencies (config : BootstrapConfig) (action : Action) : List String :=
  if action.kind ≠ .IdentityResolve then
    sortedSet (action.depends_on ++ (identityResolveId config).toList)
  else sortedSet action.depends_on

def dependencyLists (config : BootstrapConfig) : List (List String) :=
  addDropDependency config (config.actions.map (plainDependencies config))

theorem head?_ofKind {config : BootstrapConfig} {kind : ActionKind}
    (hone : (ofKind config kind).length ≤ 1) {a : Action} :
    (ofKind config kind).head? = some a ↔ a ∈ config.actions ∧ a.kind = kind := by
  have hmem : ∀ x, x ∈ ofKind config kind ↔ x ∈ config.actions ∧ x.kind = kind := by
    intro x
    simp [ofKind]
  rw [← hmem]
  rcases hl : ofKind config kind with _ | ⟨x, _ | ⟨y, l⟩⟩
  · simp
  · simp [eq_comm]
  · rw [hl] at hone
    simp at hone

theorem identityResolveId_eq_some {config : BootstrapConfig} (hone : SpecialsUnique config)
    {name : String} :
    identityResolveId config = some name ↔
      ∃ a ∈ config.actions, a.kind = .IdentityResolve ∧ a.id = name := by
  simp only [identityResolveId, Option.map_eq_some_iff, head?_ofKind hone.resolve, and_assoc]

/-- The handoff is at its place, and at no other. -/
theorem findIdx?_handoff {config : BootstrapConfig} (hids : (config.actions.map (·.id)).Nodup)
    (hone : SpecialsUnique config) {j : Nat} {b : Action} (hb : config.actions[j]? = some b) :
    config.actions.findIdx? (·.kind = .HandoffExec) = some j ↔ b.kind = .HandoffExec := by
  obtain ⟨hj, rfl⟩ := List.getElem?_eq_some_iff.mp hb
  rw [List.findIdx?_eq_some_iff_getElem]
  constructor
  · rintro ⟨_, h, _⟩
    simpa using h
  · intro hkind
    refine ⟨hj, by simpa using hkind, fun k hk hk' => ?_⟩
    have hfirst := (head?_ofKind hone.handoff).mpr
      ⟨List.getElem_mem (lt_trans hk hj), by simpa using hk'⟩
    have hsecond := (head?_ofKind hone.handoff).mpr ⟨List.getElem_mem hj, hkind⟩
    have hsame : config.actions[k] = config.actions[j] :=
      Option.some.inj (hfirst.symm.trans hsecond)
    have := getElem?_inj_of_ids hids (List.getElem?_eq_getElem (lt_trans hk hj)) hb
      (by rw [hsame])
    omega

theorem mem_plainDependencies {config : BootstrapConfig} (hone : SpecialsUnique config)
    {action : Action} {name : String} :
    name ∈ plainDependencies config action ↔
      name ∈ action.depends_on ∨ (action.kind ≠ .IdentityResolve ∧
        ∃ a ∈ config.actions, a.kind = .IdentityResolve ∧ a.id = name) := by
  unfold plainDependencies
  split
  · rename_i hkind
    simp [mem_sortedSet, hkind, identityResolveId_eq_some hone]
  · rename_i hkind
    simp [mem_sortedSet, hkind]

theorem plainDependencies_nodup (config : BootstrapConfig) (action : Action) :
    (plainDependencies config action).Nodup := by
  unfold plainDependencies
  split <;> exact sortedSet_nodup _

theorem length_dependencyLists (config : BootstrapConfig) :
    (dependencyLists config).length = config.actions.length := by
  unfold dependencyLists addDropDependency
  split <;> simp

theorem exists_action_at {config : BootstrapConfig} {j : Nat} {names : List String}
    (hnames : (dependencyLists config)[j]? = some names) : ∃ b, config.actions[j]? = some b := by
  have hlt := (List.getElem?_eq_some_iff.mp hnames).1
  rw [length_dependencyLists] at hlt
  exact ⟨_, List.getElem?_eq_getElem hlt⟩

theorem exists_list_at {config : BootstrapConfig} {j : Nat} {b : Action}
    (hb : config.actions[j]? = some b) : ∃ names, (dependencyLists config)[j]? = some names := by
  have hlt := (List.getElem?_eq_some_iff.mp hb).1
  rw [← length_dependencyLists] at hlt
  exact ⟨_, List.getElem?_eq_getElem hlt⟩

/-- What the list of one action is, with the implicit dependency of the handoff. -/
theorem dependencyLists_getElem? {config : BootstrapConfig}
    (hids : (config.actions.map (·.id)).Nodup) (hone : SpecialsUnique config) {j : Nat}
    {b : Action} (hb : config.actions[j]? = some b) :
    (dependencyLists config)[j]? = some
      (if b.kind = .HandoffExec then
        match (ofKind config .ProcessDropPrivileges).head? with
        | some drop => sortedSet (plainDependencies config b ++ [drop.id])
        | none => plainDependencies config b
      else plainDependencies config b) := by
  have hfind := findIdx?_handoff hids hone hb
  unfold dependencyLists addDropDependency
  by_cases hkind : b.kind = .HandoffExec
  · rw [hfind.mpr hkind, if_pos hkind]
    rcases (ofKind config .ProcessDropPrivileges).head? with _ | drop
    · simp [hb]
    · simp [hb]
  · rw [if_neg hkind]
    split
    · rename_i handoff drop hh hd
      have hne : handoff ≠ j := fun he => hkind (hfind.mp (he ▸ hh))
      simp [hb, hne]
    · simp [hb]

/-- The lists hold every action that must come before, and nothing else. -/
theorem mem_dependencyLists {config : BootstrapConfig}
    (hids : (config.actions.map (·.id)).Nodup) (hone : SpecialsUnique config)
    (hdecl : DependenciesDeclared config) {j : Nat} {b : Action} {names : List String}
    (hb : config.actions[j]? = some b) (hnames : (dependencyLists config)[j]? = some names)
    {name : String} :
    name ∈ names ↔ ∃ a ∈ config.actions, a.id = name ∧ Before a b := by
  rw [dependencyLists_getElem? hids hone hb] at hnames
  have hplain : name ∈ plainDependencies config b ↔ ∃ a ∈ config.actions, a.id = name ∧
      (a.id ∈ b.depends_on ∨ (a.kind = .IdentityResolve ∧ b.kind ≠ .IdentityResolve)) := by
    rw [mem_plainDependencies hone]
    constructor
    · rintro (hm | ⟨hk, a, ha, hkind, rfl⟩)
      · obtain ⟨a, ha, rfl⟩ := hdecl b (List.mem_of_getElem? hb) name hm
        exact ⟨a, ha, rfl, Or.inl hm⟩
      · exact ⟨a, ha, rfl, Or.inr ⟨hkind, hk⟩⟩
    · rintro ⟨a, ha, rfl, hm | ⟨hkind, hk⟩⟩
      · exact Or.inl hm
      · exact Or.inr ⟨hk, a, ha, hkind, rfl⟩
  by_cases hkind : b.kind = .HandoffExec
  · rw [if_pos hkind] at hnames
    rcases hdrop : (ofKind config .ProcessDropPrivileges).head? with _ | drop
    · -- Without a drop the third case of the relation is empty.
      rw [hdrop] at hnames
      obtain rfl := Option.some.inj hnames
      rw [hplain]
      have hno : ∀ a ∈ config.actions, a.kind ≠ .ProcessDropPrivileges := by
        intro a ha hk
        rw [(head?_ofKind hone.drop).mpr ⟨ha, hk⟩] at hdrop
        cases hdrop
      constructor
      · rintro ⟨a, ha, he, h | h⟩
        · exact ⟨a, ha, he, Or.inl h⟩
        · exact ⟨a, ha, he, Or.inr (Or.inl h)⟩
      · rintro ⟨a, ha, he, h | h | h⟩
        · exact ⟨a, ha, he, Or.inl h⟩
        · exact ⟨a, ha, he, Or.inr h⟩
        · exact absurd h.1 (hno a ha)
    · rw [hdrop] at hnames
      obtain rfl := Option.some.inj hnames
      obtain ⟨hd, hdk⟩ := (head?_ofKind hone.drop).mp hdrop
      rw [mem_sortedSet, List.mem_append, hplain, List.mem_singleton]
      constructor
      · rintro (⟨a, ha, he, h | h⟩ | rfl)
        · exact ⟨a, ha, he, Or.inl h⟩
        · exact ⟨a, ha, he, Or.inr (Or.inl h)⟩
        · exact ⟨drop, hd, rfl, Or.inr (Or.inr ⟨hdk, hkind⟩)⟩
      · rintro ⟨a, ha, he, h | h | h⟩
        · exact Or.inl ⟨a, ha, he, Or.inl h⟩
        · exact Or.inl ⟨a, ha, he, Or.inr h⟩
        · have := (head?_ofKind hone.drop).mpr ⟨ha, h.1⟩
          rw [hdrop] at this
          obtain rfl := Option.some.inj this
          exact Or.inr he.symm
  · rw [if_neg hkind] at hnames
    obtain rfl := Option.some.inj hnames
    rw [hplain]
    constructor
    · rintro ⟨a, ha, he, h | h⟩
      · exact ⟨a, ha, he, Or.inl h⟩
      · exact ⟨a, ha, he, Or.inr (Or.inl h)⟩
    · rintro ⟨a, ha, he, h | h | h⟩
      · exact ⟨a, ha, he, Or.inl h⟩
      · exact ⟨a, ha, he, Or.inr h⟩
      · exact absurd h.2 hkind

theorem dependencyLists_nodup {config : BootstrapConfig}
    (hids : (config.actions.map (·.id)).Nodup) (hone : SpecialsUnique config) {j : Nat}
    {b : Action} {names : List String} (hb : config.actions[j]? = some b)
    (hnames : (dependencyLists config)[j]? = some names) : names.Nodup := by
  rw [dependencyLists_getElem? hids hone hb] at hnames
  obtain rfl := Option.some.inj hnames
  split
  · split
    · exact sortedSet_nodup _
    · exact plainDependencies_nodup _ _
  · exact plainDependencies_nodup _ _

/-! ## The checks before the sort -/

/-- What the checks of one declared dependency ask for. -/
theorem checkDependency_ok_iff {config : BootstrapConfig}
    (hids : (config.actions.map (·.id)).Nodup) {action : Action} {name : String} :
    checkDependency config action name = .ok () ↔
      name ≠ action.id ∧ ∃ a ∈ config.actions, a.id = name := by
  unfold checkDependency
  simp only [throw_eq, error_bind, ite_error_ok_iff, pure_ok_iff, and_true,
    ← indexById_contains hids]
  simp

theorem actionDependencies_ok_iff {config : BootstrapConfig}
    (hids : (config.actions.map (·.id)).Nodup) {action : Action} {names : List String} :
    actionDependencies config action = .ok names ↔
      (∀ name ∈ action.depends_on, name ≠ action.id ∧ ∃ a ∈ config.actions, a.id = name) ∧
      (action.kind ≠ .IdentityResolve → action.referencesIdentity = true →
        (identityResolveId config).isSome) ∧
      names = plainDependencies config action := by
  unfold actionDependencies plainDependencies
  simp only [bind_ok_iff]
  constructor
  · rintro ⟨_, hall, h⟩
    have hchecks := forM_ok_iff.mp hall
    refine ⟨fun name hn => (checkDependency_ok_iff hids).mp (hchecks name hn), ?_⟩
    split at h
    · rename_i hkind
      simp only [throw_bind, ite_error_ok_iff, pure_ok_iff] at h
      rw [if_pos hkind]
      refine ⟨fun _ href => ?_, h.2.symm⟩
      have hsome := h.1
      simp only [href, Bool.true_and, Option.isNone_iff_eq_none] at hsome
      exact Option.isSome_iff_ne_none.mpr hsome
    · rename_i hkind
      rw [if_neg hkind]
      exact ⟨fun h => absurd h hkind, (pure_ok_iff.mp h).symm⟩
  · rintro ⟨hall, hsome, rfl⟩
    refine ⟨⟨⟩, forM_ok_iff.mpr fun name hn => (checkDependency_ok_iff hids).mpr (hall name hn), ?_⟩
    split
    · rename_i hkind
      have hno : ¬ (action.referencesIdentity && (identityResolveId config).isNone) = true := by
        intro hboth
        obtain ⟨href, hnone⟩ := Bool.and_eq_true_iff.mp hboth
        have := hsome hkind href
        simp_all
      rw [if_neg hno, pure_ok_iff]
    · exact pure_ok_iff.mpr rfl

theorem liftModel_ok_iff {α : Type} {result : Except ModelError α} {value : α} :
    liftModel result = .ok value ↔ result = .ok value := by
  cases result <;> simp [liftModel]

theorem expect_ok_iff {α : Type} {found : Option α} {message : String} {value : α} :
    expect found message = .ok value ↔ found = some value := by
  cases found <;> simp [expect]

theorem checkPhase_ok_iff {config : BootstrapConfig}
    (hids : (config.actions.map (·.id)).Nodup) {action : Action} {name : String} :
    checkPhase config action name = .ok () ↔
      ∃ a ∈ config.actions, a.id = name ∧ a.phase.rank ≤ action.phase.rank := by
  unfold checkPhase
  simp only [bind_ok_iff, throw_eq, ite_error_ok_iff, pure_ok_iff, and_true, expect_ok_iff,
    not_lt]
  constructor
  · rintro ⟨i, hi, a, ha, hle⟩
    obtain ⟨a', ha', rfl⟩ := (indexById_eq_some hids).mp hi
    obtain rfl := Option.some.inj (ha.symm.trans ha')
    exact ⟨a, List.mem_of_getElem? ha, rfl, hle⟩
  · rintro ⟨a, ha, rfl, hle⟩
    obtain ⟨i, hi⟩ := List.getElem?_of_mem ha
    exact ⟨i, (indexById_eq_some hids).mpr ⟨a, hi, rfl⟩, a, hi, hle⟩

theorem identityResolveId_isSome {config : BootstrapConfig} :
    (identityResolveId config).isSome ↔ ∃ a ∈ config.actions, a.kind = .IdentityResolve := by
  simp [identityResolveId, ofKind]

/-- The first pass over the actions succeeds with the plain lists. -/
theorem mapM_actionDependencies_ok_iff {config : BootstrapConfig}
    (hids : (config.actions.map (·.id)).Nodup) {lists : List (List String)} :
    config.actions.mapM (actionDependencies config) = .ok lists ↔
      DependenciesDeclared config ∧ NoSelfDependency config ∧ IdentityResolved config ∧
        lists = config.actions.map (plainDependencies config) := by
  simp only [mapM_ok_iff, actionDependencies_ok_iff hids, List.forall₂_and_left]
  have hmap : List.Forall₂ (fun action names => names = plainDependencies config action)
      config.actions lists ↔ lists = config.actions.map (plainDependencies config) := by
    have := List.forall₂_map_left_iff (R := Eq) (f := plainDependencies config)
      (l := config.actions) (u := lists)
    rw [List.forall₂_eq_eq_eq] at this
    simpa only [eq_comm] using this.symm
  rw [hmap]
  constructor
  · rintro ⟨hall, hres, hlists⟩
    refine ⟨fun b hb name hn => (hall b hb name hn).2, fun b hb hself => ?_,
      fun b hb hk href => ?_, hlists⟩
    · exact (hall b hb b.id hself).1 rfl
    · exact identityResolveId_isSome.mp (hres b hb hk href)
  · rintro ⟨hdecl, hself, hres, hlists⟩
    refine ⟨fun b hb name hn => ⟨?_, hdecl b hb name hn⟩, fun b hb hk href => ?_, hlists⟩
    · rintro rfl
      exact hself b hb hn
    · exact identityResolveId_isSome.mpr (hres b hb hk href)

/-- The second pass succeeds when no dependency is of a later phase. -/
theorem phase_pass_ok_iff {config : BootstrapConfig}
    (hids : (config.actions.map (·.id)).Nodup) (hone : SpecialsUnique config)
    (hdecl : DependenciesDeclared config) :
    ((config.actions.zip (dependencyLists config)).forM fun (action, names) =>
      names.forM (checkPhase config action)) = .ok () ↔ PhasesRespected config := by
  rw [forM_ok_iff]
  simp only [Prod.forall, forM_ok_iff, checkPhase_ok_iff hids]
  constructor
  · intro h a ha b hb hab
    obtain ⟨j, hj⟩ := List.getElem?_of_mem hb
    obtain ⟨names, hnames⟩ := exists_list_at hj
    obtain ⟨a', ha', hid, hle⟩ := h b _
      (List.mem_of_getElem? (List.getElem?_zip_eq_some.mpr ⟨hj, hnames⟩)) a.id
      ((mem_dependencyLists hids hone hdecl hj hnames).mpr ⟨a, ha, rfl, hab⟩)
    rw [← eq_of_same_id hids ha' ha hid]
    exact hle
  · intro h b names hzip name hn
    obtain ⟨j, hj⟩ := List.getElem?_of_mem hzip
    obtain ⟨hj, hnames⟩ := List.getElem?_zip_eq_some.mp hj
    obtain ⟨a, ha, rfl, hab⟩ := (mem_dependencyLists hids hone hdecl hj hnames).mp hn
    exact ⟨a, ha, rfl, h a ha b (List.mem_of_getElem? hj) hab⟩

theorem planDependencies_ok_iff {config : BootstrapConfig} {lists : List (List String)} :
    planDependencies config = .ok lists ↔ Plannable config ∧ lists = dependencyLists config := by
  unfold planDependencies
  simp only [throw_eq, error_bind, ite_error_ok_iff, bind_ok_iff, pure_ok_iff, liftModel_ok_iff,
    not_lt]
  constructor
  · rintro ⟨_, hvalid, hresolve, declared, hmap, hhandoff, hdrop, _, hphase, rfl⟩
    have hids := (validate_actions hvalid).1
    have hone : SpecialsUnique config := ⟨hresolve, hhandoff, hdrop⟩
    obtain ⟨hdecl, hself, hres, rfl⟩ := (mapM_actionDependencies_ok_iff hids).mp hmap
    exact ⟨⟨hvalid, hone, hdecl, hself, hres, (phase_pass_ok_iff hids hone hdecl).mp hphase⟩, rfl⟩
  · rintro ⟨hplan, rfl⟩
    have hids := (validate_actions hplan.valid).1
    refine ⟨(), hplan.valid, hplan.unique.resolve, _, (mapM_actionDependencies_ok_iff hids).mpr
      ⟨hplan.declared, hplan.no_self, hplan.resolved, rfl⟩, hplan.unique.handoff,
      hplan.unique.drop, (), ?_, rfl⟩
    exact (phase_pass_ok_iff hids hplan.unique hplan.declared).mpr hplan.phases

/-- An action that names itself is reported as a cycle, when nothing else is wrong. -/
theorem planDependencies_self {config : BootstrapConfig} (hvalid : config.validate = .ok ())
    (hone : SpecialsUnique config) (hdecl : DependenciesDeclared config)
    (hres : IdentityResolved config) (hself : ¬ NoSelfDependency config) :
    ∃ ids, planDependencies config = .error (.Model (.DependencyCycle ids)) := by
  have hids := (validate_actions hvalid).1
  cases hmap : config.actions.mapM (actionDependencies config) with
  | ok lists => exact absurd ((mapM_actionDependencies_ok_iff hids).mp hmap).2.1 hself
  | error e =>
    obtain ⟨action, ha, he⟩ := mapM_error hmap
    have hcycle : e = .DependencyCycle [action.id] := by
      unfold actionDependencies at he
      cases hchecks : action.depends_on.forM (checkDependency config action) with
      | error e' =>
        rw [hchecks, error_bind] at he
        obtain rfl := Except.error.inj he
        obtain ⟨name, hn, hcheck⟩ := forM_error hchecks
        have hthere := (indexById_contains hids).mpr (hdecl action ha name hn)
        unfold checkDependency at hcheck
        simp only [throw_eq, error_bind, hthere, Bool.not_true, Bool.false_eq_true, if_false]
          at hcheck
        split at hcheck
        · exact (Except.error.inj hcheck).symm
        · cases hcheck
      | ok _ =>
        rw [hchecks, ok_bind] at he
        split at he
        · rename_i hkind
          have hno : ¬ (action.referencesIdentity && (identityResolveId config).isNone) = true := by
            intro hboth
            obtain ⟨href, hnone⟩ := Bool.and_eq_true_iff.mp hboth
            have := identityResolveId_isSome.mpr (hres action ha hkind href)
            simp_all
          rw [if_neg hno] at he
          cases he
        · cases he
    refine ⟨[action.id], ?_⟩
    unfold planDependencies
    rw [hvalid, hmap, hcycle]
    simp only [liftModel, ok_bind, error_bind, not_lt.mpr hone.resolve, if_false]

end bootstrap_model
