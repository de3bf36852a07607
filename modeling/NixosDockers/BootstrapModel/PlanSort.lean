-- The loop of `stable_topological_order` takes the greedy order of
-- `topo_order`: it never panics, and it places every action it can.
import NixosDockers.BootstrapModel.Plan
import NixosDockers.Lib.Results
import NixosDockers.Lib.TopoOrder

open results

namespace bootstrap_model

/-- What the sort may rely on: a list for every action, and every name is one action. -/
structure SortInput (actions : List Action) (dependencies : List (List String)) : Prop where
  length : dependencies.length = actions.length
  nodup : ∀ names ∈ dependencies, names.Nodup
  found : ∀ names ∈ dependencies, ∀ name ∈ names,
    ∃ i < actions.length, (indexById actions)[name]? = some i
  inj : ∀ (name other : String) (i : Nat), (indexById actions)[name]? = some i →
    (indexById actions)[other]? = some i → name = other

/-- The places an action depends on. -/
def depIndexes (actions : List Action) (dependencies : List (List String)) (j : Nat) : Finset Nat :=
  ((dependencies[j]?.getD []).filterMap ((indexById actions)[·]?)).toFinset

variable {actions : List Action} {dependencies : List (List String)}

theorem mem_depIndexes {i j : Nat} :
    i ∈ depIndexes actions dependencies j ↔
      ∃ names, dependencies[j]? = some names ∧
        ∃ name ∈ names, (indexById actions)[name]? = some i := by
  unfold depIndexes
  cases hj : dependencies[j]? with
  | none => simp
  | some names => simp

theorem depIndexes_subset (h : SortInput actions dependencies) (j : Nat) :
    depIndexes actions dependencies j ⊆ Finset.range actions.length := by
  intro i hi
  obtain ⟨names, hnames, name, hn, hname⟩ := mem_depIndexes.mp hi
  obtain ⟨k, hk, hk'⟩ := h.found names (List.mem_of_getElem? hnames) name hn
  obtain rfl := Option.some.inj (hname.symm.trans hk')
  exact Finset.mem_range.mpr hk

/-- A list is as long as the set of places it stands for. -/
theorem card_depIndexes (h : SortInput actions dependencies) {j : Nat} {names : List String}
    (hnames : dependencies[j]? = some names) :
    (depIndexes actions dependencies j).card = names.length := by
  have hmem := List.mem_of_getElem? hnames
  have hnodup : (names.filterMap ((indexById actions)[·]?)).Nodup :=
    (h.nodup names hmem).filterMap fun name other i hi hi' => h.inj name other i hi hi'
  have hlength : (names.filterMap ((indexById actions)[·]?)).length = names.length := by
    rw [List.length_filterMap_eq_countP, List.countP_eq_length]
    intro name hn
    obtain ⟨i, _, hi⟩ := h.found names hmem name hn
    simp [hi]
  simp only [depIndexes, hnames, Option.getD_some]
  rw [List.toFinset_card_of_nodup hnodup, hlength]

/-! ## The vector of the dependents -/

theorem mem_dependentsOf {i j : Nat} :
    j ∈ dependentsOf (indexById actions) dependencies i ↔
      i ∈ depIndexes actions dependencies j := by
  rw [mem_depIndexes]
  simp only [dependentsOf, List.mem_flatMap, List.mem_map, List.mem_filter, decide_eq_true_eq,
    Prod.exists, List.mk_mem_zipIdx_iff_getElem?]
  constructor
  · rintro ⟨names, k, hk, name, hn, rfl⟩
    exact ⟨names, hk, name, hn⟩
  · rintro ⟨names, hj, name, hn⟩
    exact ⟨names, j, hj, name, hn, rfl⟩

theorem dependentsOf_nodup (h : SortInput actions dependencies) (i : Nat) :
    (dependentsOf (indexById actions) dependencies i).Nodup := by
  unfold dependentsOf
  refine List.nodup_flatMap.mpr ⟨?_, ?_⟩
  · -- One list names the action at most once.
    rintro ⟨names, j⟩ hj
    have hnames := List.mk_mem_zipIdx_iff_getElem?.mp hj
    refine List.Nodup.map_on ?_ ((h.nodup names (List.mem_of_getElem? hnames)).filter _)
    intro name hn other ho _
    simp only [List.mem_filter, decide_eq_true_eq] at hn ho
    exact h.inj name other i hn.2 ho.2
  · -- Different lists give different places.
    have hsnd : (dependencies.zipIdx.map Prod.snd).Nodup := by
      rw [List.zipIdx_map_snd]
      exact List.nodup_range'
    refine (List.pairwise_map.mp hsnd).imp ?_
    rintro ⟨names, j⟩ ⟨others, k⟩ hne
    intro x hx hy
    simp only [List.mem_map] at hx hy
    obtain ⟨_, _, rfl⟩ := hx
    obtain ⟨_, _, hjk⟩ := hy
    exact hne hjk.symm

/-! ## The inner loop -/

/-- The inner loop takes one from the count of each dependent, and adds the dependents
that come to zero to the ready set. -/
theorem foldlM_release {dependents : List Nat} (hnodup : dependents.Nodup) (state : SortState)
    (hpos : ∀ j ∈ dependents, ∃ degree, state.indegree[j]? = some (degree + 1)) :
    ∃ next, dependents.foldlM (release actions) state = .ok next ∧ next.order = state.order ∧
      (∀ j, next.indegree[j]? =
        if j ∈ dependents then state.indegree[j]?.map (· - 1) else state.indegree[j]?) ∧
      ∀ x, x ∈ next.ready ↔ x ∈ state.ready ∨
        ∃ j ∈ dependents, state.indegree[j]? = some 1 ∧ x = readyKey actions j := by
  induction dependents generalizing state with
  | nil => exact ⟨state, rfl, rfl, by simp, by simp⟩
  | cons d dependents ih =>
    obtain ⟨hd, hrest⟩ := List.nodup_cons.mp hnodup
    obtain ⟨degree, hdegree⟩ := hpos d (by simp)
    have hlt : d < state.indegree.length := (List.getElem?_eq_some_iff.mp hdegree).1
    let after : SortState := { state with
      indegree := state.indegree.set d degree
      ready := if degree = 0 then insert (readyKey actions d) state.ready else state.ready }
    have hrelease : release actions state d = .ok after := by
      simp only [release, hdegree, after]
    have hother : ∀ j, j ≠ d → after.indegree[j]? = state.indegree[j]? := by
      intro j hj
      exact List.getElem?_set_ne (Ne.symm hj)
    have hset : ∀ j ∈ dependents, after.indegree[j]? = state.indegree[j]? := by
      rintro j hj
      exact hother j fun he => hd (he ▸ hj)
    obtain ⟨next, hnext, horder, hin, hready⟩ := ih hrest after (fun j hj => by
      obtain ⟨k, hk⟩ := hpos j (by simp [hj])
      exact ⟨k, (hset j hj).trans hk⟩)
    refine ⟨next, ?_, horder, fun j => ?_, fun x => ?_⟩
    · rw [List.foldlM_cons, hrelease, ok_bind]
      exact hnext
    · rw [hin j]
      by_cases hjd : j = d
      · subst hjd
        have hself : after.indegree[j]? = some degree := by
          simp [after, hlt]
        simp [hd, hdegree, hself]
      · by_cases hj : j ∈ dependents
        · simp [hj, hset j hj]
        · simp [hj, hjd, hother j hjd]
    · rw [hready x]
      constructor
      · rintro (hx | ⟨j, hj, hone, rfl⟩)
        · simp only [after] at hx
          split at hx
          · rename_i hzero
            rcases Finset.mem_insert.mp hx with rfl | hx
            · exact Or.inr ⟨d, by simp, by rw [hdegree, hzero], rfl⟩
            · exact Or.inl hx
          · exact Or.inl hx
        · exact Or.inr ⟨j, by simp [hj], (hset j hj).symm.trans hone, rfl⟩
      · rintro (hx | ⟨j, hj, hone, rfl⟩)
        · left
          simp only [after]
          split
          · exact Finset.mem_insert_of_mem hx
          · exact hx
        · rcases List.mem_cons.mp hj with rfl | hj
          · left
            have hzero : degree = 0 := by
              rw [hdegree] at hone
              simpa using hone
            simp only [after, if_pos hzero]
            exact Finset.mem_insert_self _ _
          · exact Or.inr ⟨j, hj, (hset j hj).trans hone, rfl⟩

/-! ## The outer loop -/

/-- The state of the sort after the actions of `placed`: the counts are the dependencies that
are still open, and the ready set is the one of the greedy run. -/
structure Tracks (actions : List Action) (dependencies : List (List String))
    (placed : Finset Nat) (state : SortState) : Prop where
  inside : placed ⊆ Finset.range actions.length
  closed : ∀ j ∈ placed, depIndexes actions dependencies j ⊆ placed
  indegree : ∀ j < actions.length,
    state.indegree[j]? = some (depIndexes actions dependencies j \ placed).card
  ready : ∀ x, x ∈ state.ready ↔ ∃ j ∈ topo_order.ready (Finset.range actions.length)
    (depIndexes actions dependencies) placed, x = readyKey actions j

theorem readyKey_injective (actions : List Action) : Function.Injective (readyKey actions) := by
  intro i j hij
  exact congrArg (fun x => (ofLex x).2) hij

theorem startState_tracks (h : SortInput actions dependencies) :
    Tracks actions dependencies ∅ (startState actions dependencies) := by
  have hin : ∀ j < actions.length, (startState actions dependencies).indegree[j]? =
      some (depIndexes actions dependencies j \ ∅).card := by
    intro j hj
    have hj' : j < dependencies.length := h.length ▸ hj
    rw [Finset.sdiff_empty, card_depIndexes h (List.getElem?_eq_getElem hj')]
    simp [startState, hj']
  refine ⟨by simp, by simp, hin, fun x => ?_⟩
  have hzero : ∀ j < actions.length,
      ((startState actions dependencies).indegree[j]? = some 0 ↔
        depIndexes actions dependencies j ⊆ ∅) := by
    intro j hj
    rw [hin j hj, Option.some.injEq, Finset.card_eq_zero, Finset.sdiff_empty, Finset.subset_empty]
  simp only [startState, Finset.mem_image, List.mem_toFinset, List.mem_filter, List.mem_range,
    decide_eq_true_eq, topo_order.mem_ready, Finset.mem_range]
  constructor
  · rintro ⟨j, ⟨hj, hdeg⟩, rfl⟩
    exact ⟨j, ⟨hj, by simp, (hzero j hj).mp hdeg⟩, rfl⟩
  · rintro ⟨j, ⟨hj, _, hsub⟩, rfl⟩
    exact ⟨j, ⟨hj, (hzero j hj).mpr hsub⟩, rfl⟩

/-- One turn of the loop: the least ready action is placed, and the state tracks the
larger set. -/
theorem Tracks.next (h : SortInput actions dependencies) {placed : Finset Nat} {state : SortState}
    (ht : Tracks actions dependencies placed state) {a : Nat}
    (ha : a ∈ topo_order.ready (Finset.range actions.length) (depIndexes actions dependencies)
      placed) :
    ∃ next, (dependentsOf (indexById actions) dependencies a).foldlM (release actions)
        { state with
          ready := state.ready.erase (readyKey actions a), order := state.order ++ [a] } =
          .ok next ∧ next.order = state.order ++ [a] ∧
      Tracks actions dependencies (insert a placed) next := by
  obtain ⟨hrange, hfresh, hsub⟩ := topo_order.mem_ready.mp ha
  have hdependent : ∀ j, a ∈ depIndexes actions dependencies j → j < actions.length := by
    intro j hj
    obtain ⟨names, hnames, _⟩ := mem_depIndexes.mp hj
    rw [← h.length]
    exact (List.getElem?_eq_some_iff.mp hnames).1
  -- Placing `a` closes one dependency of exactly the actions that depend on it.
  have hcard : ∀ j, a ∈ depIndexes actions dependencies j →
      (depIndexes actions dependencies j \ placed).card =
        (depIndexes actions dependencies j \ insert a placed).card + 1 := by
    intro j hj
    rw [Finset.sdiff_insert, Finset.card_erase_add_one]
    exact Finset.mem_sdiff.mpr ⟨hj, hfresh⟩
  obtain ⟨next, hnext, horder, hin, hready⟩ := foldlM_release
    (dependentsOf_nodup h a)
    { state with ready := state.ready.erase (readyKey actions a), order := state.order ++ [a] }
    (fun j hj => by
      have hj := mem_dependentsOf.mp hj
      exact ⟨_, (ht.indegree j (hdependent j hj)).trans (congrArg some (hcard j hj))⟩)
  refine ⟨next, hnext, horder, ?_, ?_, fun j hj => ?_, fun x => ?_⟩
  · exact Finset.insert_subset hrange ht.inside
  · intro j hj
    rcases Finset.mem_insert.mp hj with rfl | hj
    · exact hsub.trans (Finset.subset_insert _ _)
    · exact (ht.closed j hj).trans (Finset.subset_insert _ _)
  · rw [hin j, ht.indegree j hj]
    split
    · rename_i hja
      simp [hcard j (mem_dependentsOf.mp hja)]
    · rename_i hja
      rw [Finset.sdiff_insert_of_notMem (fun hm => hja (mem_dependentsOf.mpr hm))]
  · rw [hready x]
    simp only [Finset.mem_erase, ht.ready, mem_dependentsOf]
    constructor
    · rintro (⟨hne, j, hj, rfl⟩ | ⟨j, hja, hone, rfl⟩)
      · obtain ⟨hjr, hjp, hjd⟩ := topo_order.mem_ready.mp hj
        refine ⟨j, topo_order.mem_ready.mpr ⟨hjr, ?_, hjd.trans (Finset.subset_insert _ _)⟩, rfl⟩
        rw [Finset.mem_insert]
        rintro (rfl | hjp')
        · exact hne rfl
        · exact hjp hjp'
      · have hjlt := hdependent j hja
        rw [ht.indegree j hjlt, Option.some.injEq, hcard j hja, Nat.add_eq_right,
          Finset.card_eq_zero, Finset.sdiff_eq_empty_iff_subset] at hone
        refine ⟨j, topo_order.mem_ready.mpr ⟨Finset.mem_range.mpr hjlt, ?_, hone⟩, rfl⟩
        rw [Finset.mem_insert]
        rintro (rfl | hjp)
        · exact hfresh (hsub hja)
        · exact hfresh (ht.closed j hjp hja)
    · rintro ⟨j, hj, rfl⟩
      obtain ⟨hjr, hjp, hjd⟩ := topo_order.mem_ready.mp hj
      rw [Finset.mem_insert, not_or] at hjp
      by_cases hja : a ∈ depIndexes actions dependencies j
      · right
        refine ⟨j, hja, ?_, rfl⟩
        rw [ht.indegree j (hdependent j hja), hcard j hja,
          Finset.sdiff_eq_empty_iff_subset.mpr hjd, Finset.card_empty]
      · left
        refine ⟨fun he => hjp.1 (readyKey_injective actions he), j, ?_, rfl⟩
        exact topo_order.mem_ready.mpr
          ⟨hjr, hjp.2, (Finset.subset_insert_iff_of_notMem hja).mp hjd⟩

/-- The loop ends, and what it places is the greedy order. -/
theorem sortLoop_greedy (h : SortInput actions dependencies) {fuel : Nat} {placed : Finset Nat}
    {state : SortState} (ht : Tracks actions dependencies placed state)
    (hfuel : actions.length ≤ fuel + placed.card) :
    ∃ final l, sortLoop actions (dependentsOf (indexById actions) dependencies) fuel state =
        .ok final ∧ final.order = state.order ++ l ∧
      topo_order.Greedy (Finset.range actions.length) (depIndexes actions dependencies)
        (readyKey actions) placed l := by
  induction fuel generalizing placed state with
  | zero =>
    have hall : Finset.range actions.length ⊆ placed := by
      refine (Finset.eq_of_subset_of_card_le ht.inside ?_).ge
      simpa using hfuel
    refine ⟨state, [], rfl, by simp, .stop ?_⟩
    refine Finset.eq_empty_of_forall_notMem fun a ha => ?_
    obtain ⟨hr, hp, _⟩ := topo_order.mem_ready.mp ha
    exact hp (hall hr)
  | succ fuel ih =>
    by_cases hne : state.ready.Nonempty
    · obtain ⟨a, ha, hmin⟩ := (ht.ready _).mp (state.ready.min'_mem hne)
      have hleast : ∀ b ∈ topo_order.ready (Finset.range actions.length)
          (depIndexes actions dependencies) placed, readyKey actions a ≤ readyKey actions b := by
        intro b hb
        rw [← hmin]
        exact state.ready.min'_le _ ((ht.ready _).mpr ⟨b, hb, rfl⟩)
      obtain ⟨next, hnext, horder, htn⟩ := ht.next h ha
      have hcard : (insert a placed).card = placed.card + 1 :=
        Finset.card_insert_of_notMem (topo_order.mem_ready.mp ha).2.1
      obtain ⟨final, l, hfinal, hfo, hgreedy⟩ := ih htn (by omega)
      refine ⟨final, a :: l, ?_, ?_, .next ha hleast hgreedy⟩
      · have hindex : (ofLex (readyKey actions a)).2 = a := rfl
        simp only [sortLoop, hne, dif_pos, hmin, hindex]
        rw [hnext, ok_bind]
        exact hfinal
      · rw [hfo, horder, List.append_assoc, List.singleton_append]
    · refine ⟨state, [], ?_, by simp, .stop ?_⟩
      · simp only [sortLoop, hne, dif_neg, not_false_iff]
      · refine Finset.eq_empty_of_forall_notMem fun a ha => ?_
        exact hne ⟨_, (ht.ready _).mpr ⟨a, ha, rfl⟩⟩

/-- The sort gives the greedy order when that is complete, and reports a cycle otherwise. -/
theorem stableTopologicalOrder_greedy (h : SortInput actions dependencies) :
    ∃ order, topo_order.Greedy (Finset.range actions.length) (depIndexes actions dependencies)
        (readyKey actions) ∅ order ∧
      (order.length = actions.length →
        stableTopologicalOrder actions dependencies = .ok order) ∧
      (order.length ≠ actions.length → ∃ ids, stableTopologicalOrder actions dependencies =
        .error (.Model (.DependencyCycle ids))) := by
  have hfuel : actions.length ≤ actions.length + (∅ : Finset Nat).card := by simp
  obtain ⟨final, order, hfinal, horder, hgreedy⟩ := sortLoop_greedy h (startState_tracks h) hfuel
  have horder : final.order = order := by simpa [startState] using horder
  have hfound : ¬ (dependencies.any fun names => names.any fun name =>
      !(indexById actions).contains name) = true := by
    simp only [List.any_eq_true, Bool.not_eq_true', not_exists, not_and, Bool.not_eq_false]
    intro names hnames name hn
    obtain ⟨i, _, hi⟩ := h.found names hnames name hn
    rw [Std.ExtTreeMap.contains_eq_isSome_getElem?, hi, Option.isSome_some]
  refine ⟨order, hgreedy, fun hlen => ?_, fun hlen => ?_⟩
  · unfold stableTopologicalOrder
    simp only [hfound, hfinal, ok_bind, horder, hlen, if_false, ne_eq, not_true]
    rfl
  · unfold stableTopologicalOrder
    simp only [hfound, hfinal, ok_bind, horder, hlen, ne_eq, not_false_iff, if_true,
      throw_bind]
    exact ⟨_, rfl⟩

end bootstrap_model
