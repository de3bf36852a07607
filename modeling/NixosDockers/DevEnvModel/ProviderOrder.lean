-- The order of the providers (`config.rs`): a depth-first search with a stack, made once to
-- check the graph and once for the order.
import NixosDockers.DevEnvModel.Resolved
import NixosDockers.Lib.Cycles
import NixosDockers.Lib.Results

open depth_first results

namespace dev_env_model

abbrev Providers := Std.ExtTreeMap String ProviderConfig

/-! ## The search -/

inductive VisitState where
  | Visiting
  | Done
  deriving DecidableEq, Repr

/-- What `visit_provider` changes. -/
structure Visit where
  state : Std.ExtTreeMap String VisitState := ∅
  stack : List String := []
  result : List String := []

/-- The providers of the cycle that an id on the stack closes. -/
def cycleProviders (stack : List String) (id : String) : List String :=
  let start := (stack.findIdx? (· = id)).getD 0
  stack.drop start ++ [id]

/-- The loop over ids. There is no result when a visit does not end. -/
def visitAll (visitOne : String → Visit → Option (Except ModelError Visit)) :
    List String → Visit → Option (Except ModelError Visit)
  | [], visit => some (.ok visit)
  | id :: ids, visit =>
    match visitOne id visit with
    | none => none
    | some (.error error) => some (.error error)
    | some (.ok next) => visitAll visitOne ids next

/-- `visit_provider`, with the depth of the recursion. -/
def visitProvider (providers : Providers) :
    Nat → String → Visit → Option (Except ModelError Visit)
  | 0, _, _ => none
  | depth + 1, id, visit =>
    match visit.state[id]? with
    | some .Done => some (.ok visit)
    | some .Visiting =>
      some (.error (.ProviderDependencyCycle (cycleProviders visit.stack id)))
    | none =>
      match providers[id]? with
      | none => some (.error (.MissingProviderDependency id id))
      | some provider =>
        match visitAll (visitProvider providers depth) provider.depends_on
            { visit with
              state := visit.state.insert id .Visiting
              stack := visit.stack ++ [id] } with
        | none => none
        | some (.error error) => some (.error error)
        | some (.ok left) =>
          some (.ok {
            state := left.state.insert id .Done
            stack := left.stack.dropLast
            result := left.result ++ [id] })

/-- The first dependency that is not there, provider by provider. -/
def missingDependency (providers : Providers) : Option ModelError :=
  providers.toList.findSome? fun (id, provider) =>
    (provider.depends_on.find? fun dependency => !providers.contains dependency).map
      fun dependency => .MissingProviderDependency id dependency

/-- A search from every provider. No stack is longer than there are providers. -/
def visitProviders (providers : Providers) : Option (Except ModelError Visit) :=
  visitAll (visitProvider providers (providers.size + 1)) providers.keys {}

/-- `validate_provider_graph`. -/
def validateProviderGraph (providers : Providers) : Option (Except ModelError Unit) :=
  match missingDependency providers with
  | some error => some (.error error)
  | none => (visitProviders providers).map fun result => result.map fun _ => ()

/-- `ResolvedConfig::provider_order`. -/
def ResolvedConfig.providerOrder (config : ResolvedConfig) :
    Option (Except ModelError (List String)) :=
  match validateProviderGraph config.providers with
  | none => none
  | some (.error error) => some (.error error)
  | some (.ok ()) => (visitProviders config.providers).map fun result => result.map Visit.result

/-! ## What a visit does -/

def dependenciesOf (providers : Providers) (id : String) : List String :=
  (providers[id]?.map ProviderConfig.depends_on).getD []

/-- The marks say where a provider stands. -/
structure Consistent (visit : Visit) : Prop where
  done : ∀ id, visit.state[id]? = some .Done ↔ id ∈ visit.result
  visiting : ∀ id, visit.state[id]? = some .Visiting ↔ id ∈ visit.stack

/-- A visit that ends well has searched on from the result, and left the stack as it was. -/
structure Searched (providers : Providers) (todo : List String) (visit left : Visit) : Prop where
  consistent : Consistent left
  stack : left.stack = visit.stack
  search : Search (dependenciesOf providers) visit.result todo left.result

/-- What is wrong with the graph. -/
inductive Genuine (providers : Providers) : ModelError → Prop
  | missing {id dependency : String} {provider : ProviderConfig} (hid : providers[id]? = some provider)
      (hin : dependency ∈ provider.depends_on) (hmissing : providers[dependency]? = none) :
      Genuine providers (.MissingProviderDependency id dependency)
  | cycle {ids : List String} (hcycle : IsCycle (dependenciesOf providers) ids) :
      Genuine providers (.ProviderDependencyCycle ids)

/-- The two ways in which a visit ends. -/
inductive VisitOutcome (providers : Providers) (todo : List String) (visit : Visit) :
    Except ModelError Visit → Prop
  | done {left : Visit} (h : Searched providers todo visit left) :
      VisitOutcome providers todo visit (.ok left)
  | refused {error : ModelError} (h : Genuine providers error) :
      VisitOutcome providers todo visit (.error error)

section visits

variable {providers : Providers}

theorem dependenciesOf_some {id : String} {provider : ProviderConfig}
    (h : providers[id]? = some provider) : dependenciesOf providers id = provider.depends_on := by
  unfold dependenciesOf
  rw [h]
  rfl

theorem cycleProviders_eq {stack : List String} {id : String} (hin : id ∈ stack) :
    cycleProviders stack id = stack.drop (stack.idxOf id) ++ [id] := by
  have hfind : stack.findIdx? (· = id) = some (stack.idxOf id) := by
    rw [List.findIdx?_eq_some_iff_findIdx_eq]
    exact ⟨List.idxOf_lt_length_of_mem hin, rfl⟩
  unfold cycleProviders
  rw [hfind]
  rfl

theorem visitAll_outcome (visitOne : String → Visit → Option (Except ModelError Visit))
    (ids : List String) {visit : Visit} (hvisit : Consistent visit)
    (hone : ∀ id ∈ ids, ∀ next, Consistent next → next.stack = visit.stack →
      ∃ result, visitOne id next = some result ∧ VisitOutcome providers [id] next result) :
    ∃ result, visitAll visitOne ids visit = some result ∧
      VisitOutcome providers ids visit result := by
  induction ids generalizing visit with
  | nil => exact ⟨_, rfl, .done ⟨hvisit, rfl, .nil⟩⟩
  | cons id ids ih =>
    obtain ⟨result, hresult, houtcome⟩ := hone id List.mem_cons_self visit hvisit rfl
    unfold visitAll
    rw [hresult]
    cases houtcome with
    | refused herror => exact ⟨_, rfl, .refused herror⟩
    | done hnext =>
      rename_i next
      obtain ⟨result, hresult, houtcome⟩ := ih hnext.consistent fun other hother after hafter
        hstack => hone other (List.mem_cons_of_mem _ hother) after hafter (hstack.trans hnext.stack)
      refine ⟨result, hresult, ?_⟩
      cases houtcome with
      | refused herror => exact .refused herror
      | done hleft =>
        exact .done ⟨hleft.consistent, hleft.stack.trans hnext.stack,
          hnext.search.append hleft.search⟩

/-- The id is entered. -/
theorem Consistent.enter {visit : Visit} (h : Consistent visit) {id : String}
    (hnew : visit.state[id]? = none) :
    Consistent { visit with
      state := visit.state.insert id .Visiting
      stack := visit.stack ++ [id] } where
  done := by
    intro other
    dsimp only
    rw [Std.ExtTreeMap.getElem?_insert]
    split_ifs with hid
    · obtain rfl := Std.LawfulEqOrd.eq_of_compare hid
      have hout := (h.done id).not.mp (by rw [hnew]; exact nofun)
      exact iff_of_false nofun hout
    · exact h.done other
  visiting := by
    intro other
    dsimp only
    rw [Std.ExtTreeMap.getElem?_insert, List.mem_append, List.mem_singleton]
    split_ifs with hid
    · obtain rfl := Std.LawfulEqOrd.eq_of_compare hid
      exact iff_of_true rfl (Or.inr rfl)
    · rw [h.visiting other]
      refine (or_iff_left ?_).symm
      rintro rfl
      exact hid Std.ReflCmp.compare_self

/-- The id is left, and the stack is what it was before. -/
theorem Consistent.leave {left : Visit} (h : Consistent left) {id : String} {stack : List String}
    (hstack : left.stack = stack ++ [id]) (hnew : id ∉ stack) :
    Consistent {
      state := left.state.insert id .Done
      stack := left.stack.dropLast
      result := left.result ++ [id] } where
  done := by
    intro other
    dsimp only
    rw [Std.ExtTreeMap.getElem?_insert, List.mem_append, List.mem_singleton]
    split_ifs with hid
    · obtain rfl := Std.LawfulEqOrd.eq_of_compare hid
      exact iff_of_true rfl (Or.inr rfl)
    · rw [h.done other]
      refine (or_iff_left ?_).symm
      rintro rfl
      exact hid Std.ReflCmp.compare_self
  visiting := by
    intro other
    dsimp only
    rw [Std.ExtTreeMap.getElem?_insert, hstack, List.dropLast_concat]
    split_ifs with hid
    · obtain rfl := Std.LawfulEqOrd.eq_of_compare hid
      exact iff_of_false nofun hnew
    · rw [h.visiting other, hstack, List.mem_append, List.mem_singleton]
      refine or_iff_left ?_
      rintro rfl
      exact hid Std.ReflCmp.compare_self

/-- All dependencies are providers. -/
def Closed (providers : Providers) : Prop :=
  ∀ (id : String) (provider : ProviderConfig), providers[id]? = some provider →
    ∀ dependency ∈ provider.depends_on, dependency ∈ providers

/-- One visit ends: with the nodes below the id done, or with a cycle. -/
theorem visitProvider_outcome (hclosed : Closed providers) {depth : Nat} {id : String}
    {visit : Visit} (hvisit : Consistent visit)
    (hstack : Stacked (dependenciesOf providers) visit.stack id)
    (hpresent : ∀ other ∈ visit.stack, other ∈ providers) (hid : id ∈ providers)
    (hroom : providers.size < depth + visit.stack.length) :
    ∃ result, visitProvider providers depth id visit = some result ∧
      VisitOutcome providers [id] visit result := by
  induction depth generalizing id visit with
  | zero =>
    have hsubset : visit.stack ⊆ providers.keys :=
      fun other hother => Std.ExtTreeMap.mem_keys.mpr (hpresent other hother)
    have hlength := hstack.nodup.length_le_of_subset hsubset
    rw [Std.ExtTreeMap.length_keys] at hlength
    omega
  | succ depth ih =>
    unfold visitProvider
    cases hstate : visit.state[id]? with
    | some mark =>
      cases mark with
      | Done =>
        have hdone := (hvisit.done id).mp hstate
        exact ⟨_, rfl, .done ⟨hvisit, rfl, .skip hdone .nil⟩⟩
      | Visiting =>
        have hin := (hvisit.visiting id).mp hstate
        refine ⟨_, rfl, .refused ?_⟩
        rw [cycleProviders_eq hin]
        exact .cycle (hstack.cycle hin)
    | none =>
      have hout : id ∉ visit.result := (hvisit.done id).not.mp (by rw [hstate]; exact nofun)
      have hnew : id ∉ visit.stack := (hvisit.visiting id).not.mp (by rw [hstate]; exact nofun)
      obtain ⟨provider, hprovider⟩ : ∃ provider, providers[id]? = some provider :=
        ⟨_, Std.ExtTreeMap.getElem?_eq_some_getElem hid⟩
      dsimp only
      rw [hprovider]
      dsimp only
      obtain ⟨result, hresult, houtcome⟩ := visitAll_outcome
        (visitProvider providers depth) provider.depends_on (hvisit.enter hstate) (by
          intro dependency hdependency next hnext hsame
          have hedge : dependency ∈ dependenciesOf providers id := by
            rw [dependenciesOf_some hprovider]
            exact hdependency
          refine ih hnext ?_ ?_ (hclosed id provider hprovider dependency hdependency) ?_
          · rw [hsame]
            exact hstack.push hnew hedge
          · rw [hsame]
            intro other hother
            rcases List.mem_append.mp hother with hother | hother
            · exact hpresent other hother
            · exact List.mem_singleton.mp hother ▸ hid
          · rw [hsame, List.length_append, List.length_singleton]
            omega)
      rw [hresult]
      cases houtcome with
      | refused herror => exact ⟨_, rfl, .refused herror⟩
      | done hleft =>
        rename_i left
        refine ⟨_, rfl, .done ⟨hleft.consistent.leave hleft.stack hnew, ?_, ?_⟩⟩
        · dsimp only
          rw [hleft.stack, List.dropLast_concat]
        · refine .visit hout ?_ ?_ .nil
          · rw [dependenciesOf_some hprovider]
            exact hleft.search
          · have hvisiting : left.state[id]? = some .Visiting := by
              rw [hleft.consistent.visiting, hleft.stack]
              simp
            intro hin
            rw [(hleft.consistent.done id).mpr hin] at hvisiting
            cases hvisiting

/-! ## The order -/

theorem mem_of_dependency {id dependency : String}
    (h : dependency ∈ dependenciesOf providers id) :
    ∃ provider, providers[id]? = some provider ∧ dependency ∈ provider.depends_on := by
  unfold dependenciesOf at h
  cases hid : providers[id]? with
  | none =>
    rw [hid] at h
    cases h
  | some provider =>
    rw [hid] at h
    exact ⟨provider, rfl, h⟩

theorem Closed.reaches (hclosed : Closed providers) {id other : String} (hid : id ∈ providers)
    (h : Reaches (dependenciesOf providers) id other) : other ∈ providers := by
  induction h with
  | refl => exact hid
  | tail _ hedge _ =>
    obtain ⟨provider, hprovider, hin⟩ := mem_of_dependency hedge
    exact hclosed _ provider hprovider _ hin

theorem missingDependency_some {error : ModelError}
    (h : missingDependency providers = some error) :
    Genuine providers error ∧ ¬ Closed providers := by
  unfold missingDependency at h
  obtain ⟨⟨id, provider⟩, hmem, hmissing⟩ := List.exists_of_findSome?_eq_some h
  obtain ⟨dependency, hfind, rfl⟩ := Option.map_eq_some_iff.mp hmissing
  have hid := Std.ExtTreeMap.mem_toList_iff_getElem?_eq_some.mp hmem
  have hin := List.mem_of_find?_eq_some hfind
  have hout : dependency ∉ providers := by
    have hfalse := List.find?_some hfind
    rw [Bool.not_eq_true'] at hfalse
    rw [← Std.ExtTreeMap.contains_iff_mem, hfalse]
    exact Bool.false_ne_true
  refine ⟨.missing hid hin (Std.ExtTreeMap.getElem?_eq_none hout), fun hclosed => ?_⟩
  exact hout (hclosed id provider hid dependency hin)

theorem missingDependency_none (h : missingDependency providers = none) : Closed providers := by
  intro id provider hid dependency hin
  unfold missingDependency at h
  have hmem := Std.ExtTreeMap.mem_toList_iff_getElem?_eq_some.mpr hid
  have hnone := List.findSome?_eq_none_iff.mp h (id, provider) hmem
  have hfind := List.find?_eq_none.mp (Option.map_eq_none_iff.mp hnone) dependency hin
  simpa using hfind

theorem visitProviders_outcome (hclosed : Closed providers) :
    ∃ result, visitProviders providers = some result ∧
      VisitOutcome providers providers.keys {} result := by
  have hstart : Consistent {} := by
    constructor <;> intro id <;> simp
  unfold visitProviders
  refine visitAll_outcome _ _ hstart fun id hid next hnext hstack => ?_
  have hempty : next.stack = [] := hstack
  refine visitProvider_outcome hclosed hnext ?_ ?_ (Std.ExtTreeMap.mem_keys.mp hid) ?_
  · rw [hempty]
    exact stacked_nil _ id
  · rw [hempty]
    intro other hother
    cases hother
  · rw [hempty, List.length_nil]
    omega

/-- A search from all providers leaves each of them once, after its dependencies. -/
theorem Searched.order (hclosed : Closed providers) {left : Visit}
    (h : Searched providers providers.keys {} left) :
    left.result.Perm providers.keys ∧ Ordered (dependenciesOf providers) left.result ∧
      left.result.Nodup := by
  have hnodup := h.search.nodup List.nodup_nil
  refine ⟨?_, h.search.ordered Ordered.nil, hnodup⟩
  rw [List.perm_ext_iff_of_nodup hnodup Std.ExtTreeMap.nodup_keys]
  intro id
  constructor
  · intro hid
    rcases h.search.reached id hid with hnone | ⟨root, hroot, hreaches⟩
    · cases hnone
    · exact Std.ExtTreeMap.mem_keys.mpr (hclosed.reaches (Std.ExtTreeMap.mem_keys.mp hroot) hreaches)
  · intro hid
    exact h.search.todo_subset hid

/-- The ways in which `provider_order` ends. -/
theorem providerOrder_cases (config : ResolvedConfig) :
    (∃ left, config.providerOrder = some (.ok left.result) ∧ Closed config.providers ∧
        Searched config.providers config.providers.keys {} left) ∨
      ∃ error, config.providerOrder = some (.error error) ∧ Genuine config.providers error := by
  unfold ResolvedConfig.providerOrder validateProviderGraph
  cases hmissing : missingDependency config.providers with
  | some error => exact Or.inr ⟨error, rfl, (missingDependency_some hmissing).1⟩
  | none =>
    have hclosed := missingDependency_none hmissing
    obtain ⟨result, hresult, houtcome⟩ := visitProviders_outcome hclosed
    dsimp only
    rw [hresult]
    cases houtcome with
    | refused herror => exact Or.inr ⟨_, rfl, herror⟩
    | done hleft => exact Or.inl ⟨_, rfl, hclosed, hleft⟩

end visits

/-- `provider_order` always ends. It gives an order exactly when all dependencies are there and
none is on a cycle: the order of a depth-first search that leaves every provider once, after its
dependencies. Otherwise its error names a dependency that is missing or a cycle. -/
theorem provider_order_is_postorder (config : ResolvedConfig) :
    config.providerOrder ≠ none ∧
      ((∃ order, config.providerOrder = some (.ok order)) ↔
        Closed config.providers ∧ ∀ id, ¬ OnCycle (dependenciesOf config.providers) id) ∧
      (∀ order, config.providerOrder = some (.ok order) →
        order.Perm config.providers.keys ∧ Ordered (dependenciesOf config.providers) order ∧
        Search (dependenciesOf config.providers) [] config.providers.keys order) ∧
      ∀ error, config.providerOrder = some (.error error) → Genuine config.providers error := by
  obtain ⟨left, horder, hclosed, hleft⟩ | ⟨error, herror, hgenuine⟩ := providerOrder_cases config
  · obtain ⟨hperm, hordered, hnodup⟩ := hleft.order hclosed
    rw [horder]
    refine ⟨nofun, iff_of_true ⟨_, rfl⟩ ⟨hclosed, fun id hcycle => ?_⟩, ?_, nofun⟩
    · -- the first edge of the cycle is one of a provider
      have hid : id ∈ config.providers := by
        obtain ⟨next, hedge, -⟩ := Relation.TransGen.head'_iff.mp hcycle
        obtain ⟨provider, hprovider, -⟩ := mem_of_dependency hedge
        exact Std.ExtTreeMap.mem_iff_isSome_getElem?.mpr (by rw [hprovider]; rfl)
      have hin := hperm.mem_iff.mpr (Std.ExtTreeMap.mem_keys.mpr hid)
      exact hordered.no_cycle hnodup hin hcycle
    · intro order hsame
      obtain rfl := Except.ok.inj (Option.some.inj hsame)
      exact ⟨hperm, hordered, hleft.search⟩
  · rw [herror]
    refine ⟨nofun, iff_of_false ?_ ?_, nofun, ?_⟩
    · rintro ⟨order, horder⟩
      cases horder
    · rintro ⟨hclosed, hacyclic⟩
      cases hgenuine with
      | missing hid hin hmissing =>
        have hthere := hclosed _ _ hid _ hin
        rw [Std.ExtTreeMap.mem_iff_isSome_getElem?, hmissing] at hthere
        cases hthere
      | cycle hcycle =>
        obtain ⟨id, hid⟩ := hcycle.onCycle
        exact hacyclic id hid
    · intro other hsame
      obtain rfl := Except.error.inj (Option.some.inj hsame)
      exact hgenuine

end dev_env_model
