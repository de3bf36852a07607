-- The order of a plan: it is a dependency order of the declared actions, its
-- phases never go back, and it is the least such order.
import NixosDockers.BootstrapModel.PlanGraph
import NixosDockers.BootstrapModel.PlanSort

open results

namespace bootstrap_model

/-! ## What an order is -/

/-- All the declared actions, each after every action that must come before it. -/
structure DependencyOrder (config : BootstrapConfig) (order : List Action) : Prop where
  perm : order.Perm config.actions
  before : ∀ l₁ b l₂, order = l₁ ++ b :: l₂ → ∀ a ∈ config.actions, Before a b → a ∈ l₁

/-- The phase and the declaration index of an action. -/
def orderKey (config : BootstrapConfig) (action : Action) : ℕ ×ₗ ℕ :=
  toLex (action.phase.rank, config.actions.idxOf action)

/-- The order is before or equal to every other dependency order. -/
def LeastOrder (config : BootstrapConfig) (order : List Action) : Prop :=
  ∀ other, DependencyOrder config other →
    order = other ∨ List.Lex (· < ·) (order.map (orderKey config)) (other.map (orderKey config))

/-! ## The sort runs on the relation -/

section

variable {config : BootstrapConfig} (h : Plannable config)

include h

theorem Plannable.ids : (config.actions.map (·.id)).Nodup := (validate_actions h.valid).1

theorem Plannable.sortInput : SortInput config.actions (dependencyLists config) where
  length := length_dependencyLists config
  nodup := by
    intro names hnames
    obtain ⟨j, hj⟩ := List.getElem?_of_mem hnames
    obtain ⟨b, hb⟩ := exists_action_at hj
    exact dependencyLists_nodup h.ids h.unique hb hj
  found := by
    intro names hnames name hn
    obtain ⟨j, hj⟩ := List.getElem?_of_mem hnames
    obtain ⟨b, hb⟩ := exists_action_at hj
    obtain ⟨a, ha, rfl, _⟩ := (mem_dependencyLists h.ids h.unique h.declared hb hj).mp hn
    obtain ⟨i, hi⟩ := List.getElem?_of_mem ha
    exact ⟨i, (List.getElem?_eq_some_iff.mp hi).1, (indexById_eq_some h.ids).mpr ⟨a, hi, rfl⟩⟩
  inj := by
    intro name other i hi hi'
    obtain ⟨a, ha, rfl⟩ := (indexById_eq_some h.ids).mp hi
    obtain ⟨b, hb, rfl⟩ := (indexById_eq_some h.ids).mp hi'
    rw [Option.some.inj (ha.symm.trans hb)]

theorem Plannable.mem_depIndexes_iff {i j : Nat} :
    i ∈ depIndexes config.actions (dependencyLists config) j ↔ Requires config i j := by
  rw [mem_depIndexes]
  constructor
  · rintro ⟨names, hj, name, hn, hi⟩
    obtain ⟨b, hb⟩ := exists_action_at hj
    obtain ⟨a, ha, rfl, hab⟩ := (mem_dependencyLists h.ids h.unique h.declared hb hj).mp hn
    obtain ⟨a', ha', hid⟩ := (indexById_eq_some h.ids).mp hi
    obtain rfl := eq_of_same_id h.ids (List.mem_of_getElem? ha') ha hid
    exact ⟨a', _, ha', hb, hab⟩
  · rintro ⟨a, b, ha, hb, hab⟩
    obtain ⟨names, hj⟩ := exists_list_at hb
    refine ⟨_, hj, a.id, ?_, (indexById_eq_some h.ids).mpr ⟨a, ha, rfl⟩⟩
    exact (mem_dependencyLists h.ids h.unique h.declared hb hj).mpr
      ⟨a, List.mem_of_getElem? ha, rfl, hab⟩

theorem Plannable.dependsOn_iff {i j : Nat} :
    topo_order.DependsOn (Finset.range config.actions.length)
      (depIndexes config.actions (dependencyLists config)) i j ↔ Requires config i j := by
  unfold topo_order.DependsOn
  rw [h.mem_depIndexes_iff]
  constructor
  · exact fun hd => hd.2
  · rintro ⟨a, b, ha, hb, hab⟩
    exact ⟨Finset.mem_range.mpr (List.getElem?_eq_some_iff.mp hb).1, a, b, ha, hb, hab⟩

/-! ## Orders of places and orders of actions -/

omit h

/-- The list of places stands for the list of actions. -/
def Places (config : BootstrapConfig) (places : List Nat) (order : List Action) : Prop :=
  places.map (config.actions[·]?) = order.map some

theorem Places.getElem? {places : List Nat} {order : List Action}
    (hp : Places config places order) {i : Nat} (hi : i ∈ places) :
    ∃ a ∈ order, config.actions[i]? = some a := by
  have hm : config.actions[i]? ∈ order.map some := hp ▸ List.mem_map_of_mem hi
  obtain ⟨a, ha, he⟩ := List.mem_map.mp hm
  exact ⟨a, ha, he.symm⟩

theorem Places.exists_place {places : List Nat} {order : List Action}
    (hp : Places config places order) {a : Action} (ha : a ∈ order) :
    ∃ i ∈ places, config.actions[i]? = some a := by
  have hm : some a ∈ places.map (config.actions[·]?) := hp ▸ List.mem_map_of_mem ha
  exact List.mem_map.mp hm

include h

/-- An order of all the places is a dependency order of the actions. -/
theorem Plannable.completes_iff {places : List Nat} {order : List Action}
    (hp : Places config places order) :
    topo_order.Completes (Finset.range config.actions.length)
      (depIndexes config.actions (dependencyLists config)) ∅ places ↔
      DependencyOrder config order := by
  have hactions : config.actions.Nodup := List.Nodup.of_map _ h.ids
  constructor
  · intro hc
    have hmem : ∀ a, a ∈ order ↔ a ∈ config.actions := by
      intro a
      constructor
      · intro ha
        obtain ⟨i, _, hi⟩ := hp.exists_place ha
        exact List.mem_of_getElem? hi
      · intro ha
        obtain ⟨i, hi⟩ := List.getElem?_of_mem ha
        obtain ⟨b, hb, hib⟩ := hp.getElem? ((hc.mem_iff i).mpr
          ⟨Finset.mem_range.mpr (List.getElem?_eq_some_iff.mp hi).1, by simp⟩)
        rw [Option.some.inj (hi.symm.trans hib)]
        exact hb
    have hnodup : order.Nodup := by
      refine List.Nodup.of_map some ?_
      rw [← hp]
      refine hc.nodup.map_on fun i hi j _ hij => ?_
      obtain ⟨a, _, hia⟩ := hp.getElem? hi
      exact getElem?_inj_of_ids h.ids hia (hij ▸ hia) rfl
    refine ⟨(List.perm_ext_iff_of_nodup hnodup hactions).mpr hmem, fun l₁ b l₂ he a ha hab => ?_⟩
    obtain ⟨m₁, m, rfl, h₁, hm⟩ := List.map_eq_append_iff.mp (hp.trans (by rw [he, List.map_append]))
    obtain ⟨j, m₂, rfl, hj, -⟩ := List.map_eq_cons_iff.mp hm
    obtain ⟨i, hi⟩ := List.getElem?_of_mem ha
    have hdep := h.mem_depIndexes_iff.mpr ⟨a, b, hi, hj, hab⟩
    rcases topo_order.respects_iff_split.mp hc.respects m₁ j m₂ rfl i hdep with hno | hi₁
    · simp at hno
    · obtain ⟨a', ha', hia'⟩ := Places.getElem? h₁ hi₁
      rw [Option.some.inj (hi.symm.trans hia')]
      exact ha'
  · intro ho
    refine ⟨?_, fun i => ?_, topo_order.respects_iff_split.mpr fun m₁ j m₂ he i hi => ?_⟩
    · refine List.Nodup.of_map (config.actions[·]?) ?_
      rw [hp]
      exact (ho.perm.nodup_iff.mpr hactions).map (Option.some_injective _)
    · rw [Finset.mem_range]
      constructor
      · intro hi
        obtain ⟨a, _, ha⟩ := hp.getElem? hi
        exact ⟨(List.getElem?_eq_some_iff.mp ha).1, by simp⟩
      · rintro ⟨hi, -⟩
        obtain ⟨j, hj, hja⟩ := hp.exists_place (ho.perm.mem_iff.mpr (List.getElem_mem hi))
        rw [getElem?_inj_of_ids h.ids (List.getElem?_eq_getElem hi) hja rfl]
        exact hj
    · right
      have hsplit : order.map some = m₁.map (config.actions[·]?) ++
          config.actions[j]? :: m₂.map (config.actions[·]?) := by
        rw [← hp, he, List.map_append, List.map_cons]
      obtain ⟨l₁, l, rfl, h₁, hl⟩ := List.map_eq_append_iff.mp hsplit
      obtain ⟨b, l₂, rfl, hb, -⟩ := List.map_eq_cons_iff.mp hl
      obtain ⟨a, b', ha, hb', hab⟩ := h.mem_depIndexes_iff.mp hi
      obtain rfl := Option.some.inj (hb.trans hb')
      have ha₁ := ho.before l₁ b l₂ rfl a (List.mem_of_getElem? ha) hab
      obtain ⟨k, hk, hka⟩ := Places.exists_place h₁.symm ha₁
      rw [getElem?_inj_of_ids h.ids ha hka rfl]
      exact hk

/-- The keys of the sort are the keys of the actions. -/
theorem Plannable.map_key {places : List Nat} {order : List Action}
    (hp : Places config places order) :
    places.map (readyKey config.actions) = order.map (orderKey config) := by
  have hkey : ∀ i a, config.actions[i]? = some a → readyKey config.actions i = orderKey config a := by
    intro i a ha
    have hmem := List.mem_of_getElem? ha
    have hidx : config.actions[config.actions.idxOf a]? = some a := List.getElem?_idxOf hmem
    rw [readyKey, orderKey, ha, Option.map_some, Option.getD_some,
      ← getElem?_inj_of_ids h.ids ha hidx rfl]
  refine List.map_injective_iff.mpr (Option.some_injective _) ?_
  calc (places.map (readyKey config.actions)).map some
      = places.map (fun i => (config.actions[i]?).map (orderKey config)) := by
        rw [List.map_map]
        refine List.map_congr_left fun i hi => ?_
        obtain ⟨a, _, ha⟩ := hp.getElem? hi
        simp [ha, hkey i a ha]
    _ = (places.map (config.actions[·]?)).map (Option.map (orderKey config)) := by
        rw [List.map_map]
        rfl
    _ = (order.map (orderKey config)).map some := by
        rw [hp, List.map_map, List.map_map]
        rfl

end

theorem exists_places {config : BootstrapConfig} {order : List Action}
    (h : ∀ a ∈ order, a ∈ config.actions) : ∃ places, Places config places order := by
  refine ⟨order.map config.actions.idxOf, ?_⟩
  unfold Places
  rw [List.map_map]
  exact List.map_congr_left fun a ha => List.getElem?_idxOf (h a ha)

/-- The greedy order is the least dependency order. -/
theorem Plannable.least {config : BootstrapConfig} (h : Plannable config) {places : List Nat}
    {order : List Action} (hp : Places config places order)
    (hg : topo_order.Greedy (Finset.range config.actions.length)
      (depIndexes config.actions (dependencyLists config)) (readyKey config.actions) ∅ places) :
    LeastOrder config order := by
  intro other hother
  obtain ⟨places', hp'⟩ := exists_places fun a ha => hother.perm.mem_iff.mp ha
  have hc := (h.completes_iff hp').mpr hother
  rcases hg.least hc (readyKey_injective _) with rfl | hlt
  · left
    exact List.map_injective_iff.mpr (Option.some_injective _) (hp.symm.trans hp')
  · right
    rw [← h.map_key hp, ← h.map_key hp']
    exact hlt

/-- The phases of the greedy order never go back. -/
theorem Plannable.phases_sorted {config : BootstrapConfig} (h : Plannable config)
    {places : List Nat} {order : List Action} (hp : Places config places order)
    (hg : topo_order.Greedy (Finset.range config.actions.length)
      (depIndexes config.actions (dependencyLists config)) (readyKey config.actions) ∅ places) :
    (order.map (·.phase.rank)).Pairwise (· ≤ ·) := by
  have hkey : ∀ i j, readyKey config.actions i ≤ readyKey config.actions j →
      (ofLex (readyKey config.actions i)).1 ≤ (ofLex (readyKey config.actions j)).1 := by
    intro i j hij
    rcases Prod.Lex.le_iff.mp hij with hlt | ⟨heq, _⟩
    · exact hlt.le
    · exact heq.le
  have hsorted := hg.rank_sorted hkey (fun j _ i hi => by
    obtain ⟨a, b, ha, hb, hab⟩ := h.mem_depIndexes_iff.mp hi
    simpa [readyKey, ha, hb] using h.phases a (List.mem_of_getElem? ha) b
      (List.mem_of_getElem? hb) hab)
  have hranks : order.map (·.phase.rank) =
      places.map fun i => (ofLex (readyKey config.actions i)).1 := by
    have hkeys := congrArg (List.map fun k => (ofLex k).1) (h.map_key hp)
    rw [List.map_map, List.map_map] at hkeys
    exact hkeys.symm
  rw [hranks]
  exact List.pairwise_map.mpr hsorted

/-! ## The effects -/

theorem requireField_ok_iff {action : Action} {field : String} {value : Option String} {u : Unit} :
    Action.requireField action field value = .ok u ↔ ∃ text, value = some text := by
  cases value <;> simp [Action.requireField]

theorem validateKindFields_of_validate {config : BootstrapConfig} {action : Action}
    (h : config.validateAction action = .ok ()) : action.validateKindFields = .ok () := by
  simp only [BootstrapConfig.validateAction, throw_eq, error_bind, ite_error_ok_iff,
    bind_ok_iff] at h
  obtain ⟨_, _, _, _, hfields⟩ := h
  unfold Action.validateFields at hfields
  by_cases hkind : action.kind = .CgroupV2Init <;> rcases hw : action.when with _ | text <;>
    simp only [hw, hkind, bind_ok_iff, ne_eq, not_true, not_false_iff, if_true, if_false] at hfields <;>
    grind

/-- The three directories of `service.ssh_prepare` are there. -/
theorem sshFields_of_validate {action : Action} (h : action.validateSshFields = .ok ()) :
    (∃ text, action.sshHostKeyDir = some text) ∧
      (∃ text, action.sshAuthorizedKeysDir = some text) ∧
      ∃ text, action.sshRuntimeDir = some text := by
  have hmissing : ∀ field, action.requireField field none =
      .error (.Invalid (action.fieldLocation field) "field is required for this action kind") :=
    fun _ => rfl
  have hsome : ∀ a b : Option String, ¬ (a.isNone && b.isNone) = true →
      ∃ text, (a <|> b) = some text := by
    intro a b hab
    cases a <;> cases b <;> simp_all
  simp only [Action.validateSshFields, hmissing, error_bind, ite_error_ok_iff] at h
  obtain ⟨hhost, hkeys, hruntime, _⟩ := h
  exact ⟨hsome _ _ hhost, hsome _ _ hkeys, hsome _ _ hruntime⟩

/-- The checks of an action make sure that it has the fields of its effect. -/
theorem fromAction_of_validate {config : BootstrapConfig} {action : Action}
    (h : config.validateAction action = .ok ()) :
    ∃ effect, PlanEffect.fromAction action = .ok effect := by
  have hkind := validateKindFields_of_validate h
  unfold PlanEffect.fromAction
  unfold Action.validateKindFields at hkind
  cases hk : action.kind <;>
    simp only [hk, bind_ok_iff, requireField_ok_iff, throw_eq, ite_error_ok_iff] at hkind ⊢
  case FilesystemEnsureDir =>
    obtain ⟨path, hpath⟩ := hkind
    exact ⟨_, path, expect_ok_iff.mpr hpath, rfl⟩
  case FilesystemEnsureFile =>
    obtain ⟨_, ⟨path, hpath⟩, _⟩ := hkind
    exact ⟨_, path, expect_ok_iff.mpr hpath, rfl⟩
  case ServiceSshPrepare =>
    obtain ⟨⟨host, hhost⟩, ⟨keys, hkeys⟩, runtime, hruntime⟩ := sshFields_of_validate hkind
    exact ⟨_, host, expect_ok_iff.mpr hhost, keys, expect_ok_iff.mpr hkeys, runtime,
      expect_ok_iff.mpr hruntime, rfl⟩
  case FilesystemEnsureSymlink | FilesystemChown | FilesystemChmod | ProcessSetUserShell =>
    obtain ⟨_, ⟨first, hfirst⟩, second, hsecond⟩ := hkind
    exact ⟨_, first, expect_ok_iff.mpr hfirst, second, expect_ok_iff.mpr hsecond, rfl⟩
  all_goals exact ⟨_, rfl⟩

/-! ## The plan -/

theorem plannedAction_ok {config : BootstrapConfig} {dependencies : List (List String)} {i : Nat}
    {planned : PlannedAction} (h : plannedAction config dependencies i = .ok planned) :
    ∃ a names, config.actions[i]? = some a ∧ dependencies[i]? = some names ∧
      planned.id = a.id ∧ planned.kind = a.kind ∧ planned.phase = a.phase ∧
      planned.run_as = a.run_as ∧ planned.origin = a.origin ∧ planned.depends_on = names := by
  simp only [plannedAction, bind_ok_iff, expect_ok_iff, pure_ok_iff] at h
  obtain ⟨a, ha, names, hnames, effect, _, rfl⟩ := h
  exact ⟨a, names, ha, hnames, rfl, rfl, rfl, rfl, rfl, rfl⟩

/-- A plan holds the planned actions of the greedy order. -/
theorem fromConfig_ok {config : BootstrapConfig} {plan : Plan}
    (h : Plan.fromConfig config = .ok plan) :
    Plannable config ∧ ∃ places,
      topo_order.Greedy (Finset.range config.actions.length)
        (depIndexes config.actions (dependencyLists config)) (readyKey config.actions) ∅ places ∧
      places.length = config.actions.length ∧
      List.Forall₂ (fun i planned => plannedAction config (dependencyLists config) i = .ok planned)
        places plan.actions := by
  simp only [Plan.fromConfig, bind_ok_iff, pure_ok_iff] at h
  obtain ⟨lists, hlists, order, horder, planned, hplanned, rfl⟩ := h
  obtain ⟨hplan, rfl⟩ := planDependencies_ok_iff.mp hlists
  obtain ⟨places, hgreedy, hok, hcycle⟩ := stableTopologicalOrder_greedy hplan.sortInput
  have hlen : places.length = config.actions.length := by
    by_contra hne
    obtain ⟨ids, hids⟩ := hcycle hne
    rw [hids] at horder
    cases horder
  rw [hok hlen] at horder
  obtain rfl := Except.ok.inj horder
  exact ⟨hplan, places, hgreedy, hlen, mapM_ok_iff.mp hplanned⟩

/-- The planned action was made from the declared one. -/
structure PlannedFrom (config : BootstrapConfig) (planned : PlannedAction) (a : Action) :
    Prop where
  id : planned.id = a.id
  kind : planned.kind = a.kind
  phase : planned.phase = a.phase
  depends_on : ∀ name, name ∈ planned.depends_on ↔ ∃ c ∈ config.actions, c.id = name ∧ Before c a

theorem Plannable.exists_order {config : BootstrapConfig} (h : Plannable config)
    {places : List Nat} {planned : List PlannedAction}
    (hp : List.Forall₂ (fun i p => plannedAction config (dependencyLists config) i = .ok p)
      places planned) :
    ∃ order, Places config places order ∧ List.Forall₂ (PlannedFrom config) planned order := by
  induction hp with
  | nil => exact ⟨[], rfl, .nil⟩
  | cons hp _ ih =>
    obtain ⟨order, hplaces, hfrom⟩ := ih
    obtain ⟨a, names, ha, hnames, hid, hkind, hphase, _, _, hdeps⟩ := plannedAction_ok hp
    refine ⟨a :: order, ?_, .cons ⟨hid, hkind, hphase, fun name => ?_⟩ hfrom⟩
    · simp only [Places, List.map_cons, ha]
      exact congrArg _ hplaces
    · rw [hdeps]
      exact mem_dependencyLists h.ids h.unique h.declared ha hnames

/-- The actions of a plan are the declared actions in the least dependency order. -/
theorem fromConfig_order {config : BootstrapConfig} {plan : Plan}
    (hplan : Plan.fromConfig config = .ok plan) :
    ∃ order, DependencyOrder config order ∧ List.Forall₂ (PlannedFrom config) plan.actions order ∧
      (order.map (·.phase.rank)).Pairwise (· ≤ ·) ∧ LeastOrder config order := by
  obtain ⟨h, places, hgreedy, hlen, hplanned⟩ := fromConfig_ok hplan
  obtain ⟨order, hplaces, hfrom⟩ := h.exists_order hplanned
  have hc := hgreedy.completes (by rw [hlen, Finset.card_range])
  exact ⟨order, (h.completes_iff hplaces).mp hc, hfrom, h.phases_sorted hplaces hgreedy,
    h.least hplaces hgreedy⟩

theorem map_plannedFrom {config : BootstrapConfig} {planned : List PlannedAction}
    {order : List Action} (h : List.Forall₂ (PlannedFrom config) planned order) :
    planned.map (fun p => (p.id, p.phase)) = order.map fun a => (a.id, a.phase) := by
  refine map_eq_of_forall₂ (h.imp fun p a hp => ?_)
  rw [hp.id, hp.phase]

/-! ## What a run relies on -/

theorem plan_ids_nodup {config : BootstrapConfig} {plan : Plan}
    (hplan : Plan.fromConfig config = .ok plan) : (plan.actions.map (·.id)).Nodup := by
  obtain ⟨order, horder, hfrom, _⟩ := fromConfig_order hplan
  have hids : plan.actions.map (·.id) = order.map (·.id) := by
    have := congrArg (List.map Prod.fst) (map_plannedFrom hfrom)
    rw [List.map_map, List.map_map] at this
    exact this
  rw [hids, (horder.perm.map _).nodup_iff]
  exact (fromConfig_ok hplan).1.ids

/-- In a plan, every dependency of an action is an action before it. -/
theorem plan_dependency_before {config : BootstrapConfig} {plan : Plan}
    (hplan : Plan.fromConfig config = .ok plan) {l₁ l₂ : List PlannedAction} {p : PlannedAction}
    (hsplit : plan.actions = l₁ ++ p :: l₂) {name : String} (hname : name ∈ p.depends_on) :
    ∃ q ∈ l₁, q.id = name := by
  obtain ⟨order, horder, hfrom, _⟩ := fromConfig_order hplan
  rw [hsplit] at hfrom
  obtain ⟨o₁, a, o₂, rfl, hfrom₁, hpa, _⟩ := forall₂_split hfrom
  obtain ⟨c, hc, rfl, hbefore⟩ := (hpa.depends_on name).mp hname
  obtain ⟨q, hq, hqc⟩ := forall₂_mem_left hfrom₁ (horder.before o₁ a o₂ rfl c hc hbefore)
  exact ⟨q, hq, hqc.id⟩

/-- A planned action was made from a declared action. -/
theorem plan_action_declared {config : BootstrapConfig} {plan : Plan}
    (hplan : Plan.fromConfig config = .ok plan) {p : PlannedAction} (hp : p ∈ plan.actions) :
    ∃ a ∈ config.actions, PlannedFrom config p a := by
  obtain ⟨order, horder, hfrom, _⟩ := fromConfig_order hplan
  obtain ⟨l₁, l₂, hsplit⟩ := List.append_of_mem hp
  rw [hsplit] at hfrom
  obtain ⟨o₁, a, o₂, rfl, _, hpa, _⟩ := forall₂_split hfrom
  exact ⟨a, horder.perm.mem_iff.mp (by simp), hpa⟩

/-! ## Cycles -/

/-- A sort that places every action finds no cycle, and one that does not finds one. -/
theorem Plannable.cycle_iff {config : BootstrapConfig} (h : Plannable config) {places : List Nat}
    (hg : topo_order.Greedy (Finset.range config.actions.length)
      (depIndexes config.actions (dependencyLists config)) (readyKey config.actions) ∅ places) :
    places.length ≠ config.actions.length ↔ ∃ i, Relation.TransGen (Requires config) i i := by
  have hrel : topo_order.DependsOn (Finset.range config.actions.length)
      (depIndexes config.actions (dependencyLists config)) = Requires config := by
    funext i j
    exact propext h.dependsOn_iff
  constructor
  · intro hne
    rw [← hrel]
    refine topo_order.exists_cycle (fun j _ => depIndexes_subset h.sortInput j)
      (by simpa using hg.ready_final) ?_
    by_contra hall
    push Not at hall
    refine hne ?_
    have heq : places.toFinset = Finset.range config.actions.length := by
      refine Finset.Subset.antisymm (fun i hi => ?_) hall
      exact (hg.mem i (List.mem_toFinset.mp hi)).1
    rw [← List.toFinset_card_of_nodup hg.nodup, heq, Finset.card_range]
  · rintro ⟨i, hi⟩ hlen
    have hc := hg.completes (by rw [hlen, Finset.card_range])
    rw [← hrel] at hi
    exact hc.no_cycle i hi

/-- Placed actions are all planned: the panics of the effects are not reached. -/
theorem Plannable.mapM_plannedAction {config : BootstrapConfig} (h : Plannable config)
    {places : List Nat} (hin : ∀ i ∈ places, i < config.actions.length) :
    ∃ planned, places.mapM (plannedAction config (dependencyLists config)) = .ok planned := by
  cases hm : places.mapM (plannedAction config (dependencyLists config)) with
  | ok planned => exact ⟨planned, rfl⟩
  | error e =>
    obtain ⟨i, hi, he⟩ := mapM_error hm
    have ha := List.getElem?_eq_getElem (hin i hi)
    obtain ⟨names, hnames⟩ := exists_list_at ha
    obtain ⟨effect, heffect⟩ := fromAction_of_validate
      ((validate_actions h.valid).2 _ (List.mem_of_getElem? ha))
    simp only [plannedAction, expect, ha, hnames, heffect, ok_bind] at he
    cases he

/-- Past the checks, the plan fails exactly on a cycle. -/
theorem Plannable.fromConfig_cases {config : BootstrapConfig} (h : Plannable config) :
    ((∃ i, Relation.TransGen (Requires config) i i) ∧
      ∃ ids, Plan.fromConfig config = .error (.Model (.DependencyCycle ids))) ∨
    ((¬ ∃ i, Relation.TransGen (Requires config) i i) ∧
      ∃ plan, Plan.fromConfig config = .ok plan) := by
  obtain ⟨places, hgreedy, hok, hcycle⟩ := stableTopologicalOrder_greedy h.sortInput
  rw [← h.cycle_iff hgreedy]
  have hlists := planDependencies_ok_iff.mpr ⟨h, rfl⟩
  by_cases hlen : places.length = config.actions.length
  · right
    obtain ⟨planned, hplanned⟩ := h.mapM_plannedAction
      (fun i hi => Finset.mem_range.mp (hgreedy.mem i hi).1)
    refine ⟨not_not.mpr hlen, ⟨planned⟩, ?_⟩
    simp only [Plan.fromConfig, hlists, ok_bind, hok hlen, hplanned]
    rfl
  · left
    obtain ⟨ids, hids⟩ := hcycle hlen
    refine ⟨hlen, ids, ?_⟩
    simp only [Plan.fromConfig, hlists, ok_bind, hids, error_bind]

theorem requires_self {config : BootstrapConfig} {b : Action} (hb : b ∈ config.actions)
    (hself : b.id ∈ b.depends_on) : ∃ i, Relation.TransGen (Requires config) i i := by
  obtain ⟨i, hi⟩ := List.getElem?_of_mem hb
  exact ⟨i, .single ⟨b, b, hi, hi, Or.inl hself⟩⟩

/-- The order of a plan, and when a plan reports a cycle. -/
theorem plan_order_is_least_or_cycle (config : BootstrapConfig) :
    (∀ plan, Plan.fromConfig config = .ok plan →
      ∃ order, DependencyOrder config order ∧
        plan.actions.map (fun p => (p.id, p.phase)) = order.map (fun a => (a.id, a.phase)) ∧
        plan.actions.Pairwise (fun p q => p.phase.rank ≤ q.phase.rank) ∧
        LeastOrder config order) ∧
    (config.validate = .ok () → DependenciesDeclared config → PhasesRespected config →
      SpecialsUnique config → IdentityResolved config →
      ((∃ ids, Plan.fromConfig config = .error (.Model (.DependencyCycle ids))) ↔
        ∃ i, Relation.TransGen (Requires config) i i)) := by
  constructor
  · intro plan hplan
    obtain ⟨order, horder, hfrom, hsorted, hleast⟩ := fromConfig_order hplan
    have hmap := map_plannedFrom hfrom
    refine ⟨order, horder, hmap, ?_, hleast⟩
    have hranks := congrArg (List.map fun entry => entry.2.rank) hmap
    rw [List.map_map, List.map_map] at hranks
    exact List.pairwise_map.mp (hranks.symm ▸ hsorted)
  · intro hvalid hdecl hphases hone hres
    by_cases hself : NoSelfDependency config
    · have h : Plannable config := ⟨hvalid, hone, hdecl, hself, hres, hphases⟩
      rcases h.fromConfig_cases with ⟨hcycle, hids⟩ | ⟨hno, plan, hplan⟩
      · exact iff_of_true hids hcycle
      · refine iff_of_false ?_ hno
        rintro ⟨ids, hids⟩
        rw [hplan] at hids
        cases hids
    · obtain ⟨ids, hids⟩ := planDependencies_self hvalid hone hdecl hres hself
      unfold NoSelfDependency at hself
      push Not at hself
      obtain ⟨b, hb, hbself⟩ := hself
      refine iff_of_true ⟨ids, ?_⟩ (requires_self hb hbself)
      simp only [Plan.fromConfig, hids, error_bind]

def imageOrigin : Origin := { profile := "image", source := .ImageProfile, location := none }

/-- Two actions that wait for each other. -/
def waitingPair (first second : ActionKind) : BootstrapConfig where
  workspace_root := "/w"
  identity := {}
  handoff := { runtime := "/bin/sh" }
  actions := [
    { id := "a", kind := first, run_as := .Root, depends_on := ["b"], origin := imageOrigin,
      path := some "/x", mode := some "0755" },
    { id := "b", kind := second, run_as := .Root, depends_on := ["a"], origin := imageOrigin,
      path := some "/y", mode := some "0755" }]

theorem waitingPair_cycle (first second : ActionKind) :
    ∃ i, Relation.TransGen (Requires (waitingPair first second)) i i :=
  ⟨0, .head (b := 1) ⟨_, _, rfl, rfl, Or.inl (by simp)⟩
    (.single ⟨_, _, rfl, rfl, Or.inl (by simp)⟩)⟩

/-- A declared handoff before the actions it needs. -/
def reversedHandoff : BootstrapConfig where
  workspace_root := "/w"
  identity := {}
  handoff := { runtime := "/bin/sh" }
  actions := [
    { id := "handoff", kind := .HandoffExec, origin := imageOrigin },
    { id := "drop", kind := .ProcessDropPrivileges, run_as := .Root, origin := imageOrigin },
    { id := "resolve", kind := .IdentityResolve, run_as := .Root, origin := imageOrigin }]

theorem plan_order_of_reversed_and_waiting :
    (∃ plan, Plan.fromConfig reversedHandoff = .ok plan ∧
      ∃ order, DependencyOrder reversedHandoff order ∧ LeastOrder reversedHandoff order ∧
        plan.actions.map (·.id) = ["resolve", "drop", "handoff"]) ∧
    ∃ ids, Plan.fromConfig (waitingPair .FilesystemEnsureDir .FilesystemEnsureDir) =
      .error (.Model (.DependencyCycle ids)) := by
  constructor
  · obtain ⟨plan, hplan, hids⟩ : ∃ plan, Plan.fromConfig reversedHandoff = .ok plan ∧
        plan.actions.map (·.id) = ["resolve", "drop", "handoff"] := by
      have hsome : (Plan.fromConfig reversedHandoff).toOption.map
          (fun plan => plan.actions.map (·.id)) = some ["resolve", "drop", "handoff"] := by
        decide
      cases hplan : Plan.fromConfig reversedHandoff with
      | ok plan => exact ⟨plan, rfl, by simpa [hplan, Except.toOption] using hsome⟩
      | error e => simp [hplan, Except.toOption] at hsome
    obtain ⟨order, horder, _, _, hleast⟩ :=
      (plan_order_is_least_or_cycle reversedHandoff).1 plan hplan
    exact ⟨plan, hplan, order, horder, hleast, hids⟩
  · exact ((plan_order_is_least_or_cycle _).2 (by decide) (by decide)
      (by decide) ⟨by decide, by decide, by decide⟩
      (by decide)).mpr (waitingPair_cycle _ _)

/-- A cycle is not reported when an action of it reads an identity that nothing resolves. -/
theorem cycle_behind_missing_resolve :
    let config := waitingPair .IdentityMapUser .IdentityEnsureHome
    config.validate = .ok () ∧ DependenciesDeclared config ∧ PhasesRespected config ∧
      SpecialsUnique config ∧ (∃ i, Relation.TransGen (Requires config) i i) ∧
      ¬ ∃ ids, Plan.fromConfig config = .error (.Model (.DependencyCycle ids)) := by
  refine ⟨by decide, by decide, by decide,
    ⟨by decide, by decide, by decide⟩, waitingPair_cycle _ _, ?_⟩
  have hplan : Plan.fromConfig (waitingPair .IdentityMapUser .IdentityEnsureHome) =
      .error (.Model (.MissingIdentityResolve "a")) := by decide
  rintro ⟨ids, hids⟩
  rw [hplan] at hids
  cases hids

end bootstrap_model
