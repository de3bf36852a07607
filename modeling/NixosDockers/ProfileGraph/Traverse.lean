-- The traversal of a finite profile graph ends. It applies the reachable
-- profiles in depth-first post-order, or names what is wrong with the graph.
import NixosDockers.Lib.DepthFirst
import NixosDockers.Lib.Results
import NixosDockers.ProfileGraph.Graph

open depth_first results

namespace profile_graph

variable {τ σ ε : Type}

/-! ## The graph -/

/-- The profiles with their data and their parents. -/
abbrev Graph (τ : Type) := String → Option (τ × List String)

def parentsOf (graph : Graph τ) (id : String) : List String :=
  match graph id with
  | some (_, parents) => parents
  | none => []

theorem parentsOf_some {graph : Graph τ} {id : String} {value : τ} {parents : List String}
    (h : graph id = some (value, parents)) : parentsOf graph id = parents := by
  unfold parentsOf
  rw [h]

/-- Parents that the checks accept. -/
structure GoodParents (parents : List String) : Prop where
  valid : ∀ parent ∈ parents, (validateProfileId parent).isOk = true
  nodup : parents.Nodup

theorem validateExtendsFrom_ok_iff {profile : String} {seen parents : List String} :
    validateExtendsFrom profile seen parents = .ok () ↔
      GoodParents parents ∧ ∀ parent ∈ parents, parent ∉ seen := by
  induction parents generalizing seen with
  | nil =>
    refine iff_of_true rfl ⟨⟨by simp, List.nodup_nil⟩, by simp⟩
  | cons parent parents ih =>
    have hid : validateProfileId parent = .ok () ↔ (validateProfileId parent).isOk = true := by
      cases validateProfileId parent with
      | error error => exact iff_of_false (by simp) (by simp [Except.isOk, Except.toBool])
      | ok _ => exact iff_of_true rfl rfl
    simp only [validateExtendsFrom, throw_bind, ite_error_ok_iff, bind_ok_iff, ih]
    constructor
    · rintro ⟨_, hparent, hnew, ⟨hvalid, hnodup⟩, hfresh⟩
      refine ⟨⟨?_, ?_⟩, ?_⟩
      · exact List.forall_mem_cons.mpr ⟨hid.mp hparent, hvalid⟩
      · exact List.nodup_cons.mpr ⟨fun hin => (hfresh parent hin) List.mem_cons_self, hnodup⟩
      · exact List.forall_mem_cons.mpr ⟨hnew, fun other hother hseen =>
          hfresh other hother (List.mem_cons_of_mem _ hseen)⟩
    · rintro ⟨⟨hvalid, hnodup⟩, hfresh⟩
      obtain ⟨hparent, hvalid⟩ := List.forall_mem_cons.mp hvalid
      obtain ⟨hnot, hnodup⟩ := List.nodup_cons.mp hnodup
      obtain ⟨hnew, hfresh⟩ := List.forall_mem_cons.mp hfresh
      refine ⟨(), hid.mpr hparent, hnew, ⟨hvalid, hnodup⟩, fun other hother hseen => ?_⟩
      rcases List.mem_cons.mp hseen with rfl | hseen
      · exact hnot hother
      · exact hfresh other hother hseen

/-- The parents are accepted exactly when all ids are valid and none is repeated. -/
theorem validateExtends_ok_iff {profile : String} {parents : List String} :
    validateExtends profile parents = .ok () ↔ GoodParents parents := by
  unfold validateExtends
  rw [validateExtendsFrom_ok_iff]
  simp

/-! ## What a visit tells -/

/-- Each profile extends the one that follows it. -/
def IsChain (graph : Graph τ) (path : List String) : Prop :=
  path.IsChain fun child parent => parent ∈ parentsOf graph child

/-- A path of at least one edge that ends where it begins. -/
structure IsCycle (graph : Graph τ) (cycle : List String) : Prop where
  chain : IsChain graph cycle
  length : 2 ≤ cycle.length
  closed : cycle.head? = cycle.getLast?

/-- The error names something that is wrong with a profile that the start reaches. -/
def Explains (graph : Graph τ) (start : String) : ProfileGraphError → Prop
  | .Cycle cycle => IsCycle graph cycle ∧ ∃ id ∈ cycle, Reaches (parentsOf graph) start id
  | .MissingProfile id | .MissingParent _ id =>
    Reaches (parentsOf graph) start id ∧ graph id = none
  | .InvalidId invalid => ∃ id value parents, Reaches (parentsOf graph) start id ∧
      graph id = some (value, parents) ∧ validateExtends id parents = .error (.InvalidId invalid)
  | .DuplicateParent profile parent => ∃ id value parents, Reaches (parentsOf graph) start id ∧
      graph id = some (value, parents) ∧
      validateExtends id parents = .error (.DuplicateParent profile parent)
  | .InheritanceDepthExceeded _ => False

/-- Apply the profiles of an order, one after the other. -/
def applyAll (graph : Graph τ) (apply : String → τ → σ → Except ε σ) (order : List String)
    (start : σ) : Except ε σ :=
  order.foldlM (fun applied id => match graph id with
    | some (value, _) => apply id value applied
    | none => .ok applied) start

/-- What is left when a list of profiles was visited: the search went on to them, and their new
profiles were applied. -/
structure Left (graph : Graph τ) (apply : String → τ → σ → Except ε σ) (done todo : List String)
    (state left : VisitState σ) (order : List String) : Prop where
  search : Search (parentsOf graph) done todo order
  visited : ∀ id, id ∈ left.visited ↔ id ∈ order
  visiting : left.visiting = state.visiting
  applied : ∃ new, order = done ++ new ∧
    applyAll graph apply new state.applied = .ok left.applied
  loaded : ∀ id ∈ order, id ∈ done ∨
    (∃ value, graph id = some (value, parentsOf graph id)) ∧ GoodParents (parentsOf graph id) ∧
      id ∉ state.visiting

/-- How a visit of some profiles ends. -/
inductive Outcome (graph : Graph τ) (apply : String → τ → σ → Except ε σ)
    (done todo : List String) (state : VisitState σ) :
    Option (Except (TraverseError ε) (VisitState σ)) → Prop
  | Endless : Outcome graph apply done todo state none
  | Done {left : VisitState σ} {order : List String}
      (h : Left graph apply done todo state left order) :
      Outcome graph apply done todo state (some (.ok left))
  | Graph {error : ProfileGraphError} (h : ∃ id ∈ todo, Explains graph id error) :
      Outcome graph apply done todo state (some (.error (.Graph error)))
  | Source {error : ε} (h : ∃ id value applied, apply id value applied = .error error) :
      Outcome graph apply done todo state (some (.error (.Source error)))

section outcomes

variable {graph : Graph τ} {apply : String → τ → σ → Except ε σ}

theorem Explains.of_reaches {start next : String} {error : ProfileGraphError}
    (h : Explains graph next error) (hreaches : Reaches (parentsOf graph) start next) :
    Explains graph start error := by
  cases error with
  | Cycle cycle =>
    obtain ⟨hcycle, id, hin, hid⟩ := h
    exact ⟨hcycle, id, hin, hreaches.trans hid⟩
  | MissingProfile id => exact ⟨hreaches.trans h.1, h.2⟩
  | MissingParent profile id => exact ⟨hreaches.trans h.1, h.2⟩
  | InvalidId invalid =>
    obtain ⟨id, value, parents, hid, hrest⟩ := h
    exact ⟨id, value, parents, hreaches.trans hid, hrest⟩
  | DuplicateParent profile parent =>
    obtain ⟨id, value, parents, hid, hrest⟩ := h
    exact ⟨id, value, parents, hreaches.trans hid, hrest⟩
  | InheritanceDepthExceeded limit => exact h

theorem applyAll_append {first second : List String} {start middle last : σ}
    (h₁ : applyAll graph apply first start = .ok middle)
    (h₂ : applyAll graph apply second middle = .ok last) :
    applyAll graph apply (first ++ second) start = .ok last := by
  unfold applyAll at h₁ h₂ ⊢
  rw [List.foldlM_append]
  exact bind_ok_iff.mpr ⟨middle, h₁, h₂⟩

theorem Left.nil {done : List String} {state : VisitState σ}
    (hvisited : ∀ id, id ∈ state.visited ↔ id ∈ done) :
    Left graph apply done [] state state done where
  search := .nil
  visited := hvisited
  visiting := rfl
  applied := ⟨[], by simp, rfl⟩
  loaded := fun _ hid => Or.inl hid

theorem Left.append {done first second middle order : List String}
    {state next left : VisitState σ} (h₁ : Left graph apply done first state next middle)
    (h₂ : Left graph apply middle second next left order) :
    Left graph apply done (first ++ second) state left order where
  search := h₁.search.append h₂.search
  visited := h₂.visited
  visiting := h₂.visiting.trans h₁.visiting
  applied := by
    obtain ⟨new₁, rfl, happlied₁⟩ := h₁.applied
    obtain ⟨new₂, rfl, happlied₂⟩ := h₂.applied
    exact ⟨new₁ ++ new₂, by simp, applyAll_append happlied₁ happlied₂⟩
  loaded := by
    intro id hid
    rcases h₂.loaded id hid with hmiddle | ⟨hloaded, hgood, hout⟩
    · exact h₁.loaded id hmiddle
    · rw [h₁.visiting] at hout
      exact Or.inr ⟨hloaded, hgood, hout⟩

/-- The loop over the parents tells what the visits of the parents tell. -/
theorem visitParents_outcome
    {visitOne : String → VisitState σ → Option (Except (TraverseError ε) (VisitState σ))}
    {parents : List String} {done : List String} {state : VisitState σ}
    (hone : ∀ parent ∈ parents, ∀ done next, next.visiting = state.visiting →
      (∀ id, id ∈ next.visited ↔ id ∈ done) →
      Outcome graph apply done [parent] next (visitOne parent next))
    (hvisited : ∀ id, id ∈ state.visited ↔ id ∈ done) :
    Outcome graph apply done parents state (visitParents visitOne parents state) := by
  induction parents generalizing done state with
  | nil => exact .Done (.nil hvisited)
  | cons parent parents ih =>
    have hfirst := hone parent List.mem_cons_self done state rfl hvisited
    unfold visitParents
    generalize visitOne parent state = result at hfirst
    cases hfirst with
    | Endless => exact .Endless
    | @Graph error h =>
      obtain ⟨id, hid, hexplains⟩ := h
      rw [List.mem_singleton] at hid
      exact .Graph ⟨parent, List.mem_cons_self, hid ▸ hexplains⟩
    | Source h => exact .Source h
    | @Done next middle h =>
      have hrest : Outcome graph apply middle parents next (visitParents visitOne parents next) :=
        ih (fun other hother done after hafter => hone other (List.mem_cons_of_mem _ hother) done
          after (hafter.trans h.visiting)) h.visited
      dsimp only
      generalize visitParents visitOne parents next = result at hrest
      cases hrest with
      | Endless => exact .Endless
      | Graph hgraph =>
        obtain ⟨id, hid, hexplains⟩ := hgraph
        exact .Graph ⟨id, List.mem_cons_of_mem _ hid, hexplains⟩
      | Source hsource => exact .Source hsource
      | Done hleft => exact .Done (h.append hleft)

end outcomes

/-! ## The stack -/

/-- The profiles on the stack extend one another down to the next one, and all are there. -/
structure Stacked (graph : Graph τ) (visiting : List String) (id : String) : Prop where
  chain : IsChain graph (visiting ++ [id])
  nodup : visiting.Nodup
  present : ∀ id ∈ visiting, (graph id).isSome = true

section stack

variable {graph : Graph τ} {visiting : List String} {id : String}

theorem stacked_root (graph : Graph τ) (root : String) : Stacked graph [] root where
  chain := by simp [IsChain]
  nodup := List.nodup_nil
  present := by simp

theorem Stacked.push (h : Stacked graph visiting id) (hnew : id ∉ visiting) {value : τ}
    {parents : List String} (hsome : graph id = some (value, parents)) {parent : String}
    (hparent : parent ∈ parents) : Stacked graph (visiting ++ [id]) parent where
  chain := by
    unfold IsChain
    refine List.isChain_append.mpr ⟨h.chain, by simp, ?_⟩
    intro child hchild next hnext
    simp only [List.getLast?_append, List.getLast?_singleton, Option.some_or,
      Option.mem_def, Option.some.injEq, List.head?_cons] at hchild hnext
    rw [← hchild, ← hnext, parentsOf_some hsome]
    exact hparent
  nodup := by
    refine List.nodup_append.mpr ⟨h.nodup, List.nodup_singleton id, ?_⟩
    intro a ha b hb
    rw [List.mem_singleton] at hb
    rintro rfl
    exact hnew (hb ▸ ha)
  present := by
    intro other hother
    rcases List.mem_append.mp hother with hother | hother
    · exact h.present other hother
    · rw [List.mem_singleton] at hother
      rw [hother, hsome]
      rfl

/-- The profile that comes up again closes a cycle. -/
theorem Stacked.cycle (h : Stacked graph visiting id) (hin : id ∈ visiting) :
    IsCycle graph (cycleOf visiting id) where
  chain := by
    have hle := (List.idxOf_lt_length_of_mem hin).le
    have hdrop : cycleOf visiting id = (visiting ++ [id]).drop (visiting.idxOf id) := by
      unfold cycleOf
      rw [List.drop_append_of_le_length hle]
    rw [hdrop]
    exact h.chain.drop _
  length := by
    have hlt := List.idxOf_lt_length_of_mem hin
    unfold cycleOf
    rw [List.length_append, List.length_drop, List.length_singleton]
    omega
  closed := by
    have hlt := List.idxOf_lt_length_of_mem hin
    unfold cycleOf
    rw [List.getLast?_append, List.getLast?_singleton, Option.some_or,
      List.drop_eq_getElem_cons hlt, List.getElem_idxOf]
    rfl

end stack

/-! ## One visit -/

section visits

variable {graph : Graph τ} {apply : String → τ → σ → Except ε σ}

theorem validateExtendsFrom_error {profile : String} {seen parents : List String}
    {error : ProfileGraphError} (h : validateExtendsFrom profile seen parents = .error error) :
    (∃ invalid, error = .InvalidId invalid) ∨
      ∃ parent, error = .DuplicateParent profile parent := by
  induction parents generalizing seen with
  | nil => cases h
  | cons parent parents ih =>
    simp only [validateExtendsFrom] at h
    rcases bind_error_iff.mp h with hid | ⟨_, _, h⟩
    · unfold validateProfileId at hid
      split_ifs at hid
      obtain rfl := Except.error.inj hid
      exact Or.inl ⟨parent, rfl⟩
    · split_ifs at h
      · obtain rfl := Except.error.inj h
        exact Or.inr ⟨parent, rfl⟩
      · exact ih h

theorem explains_of_extends {id : String} {value : τ} {parents : List String}
    {error : ProfileGraphError} (hgraph : graph id = some (value, parents))
    (h : validateExtends id parents = .error error) : Explains graph id error := by
  rcases validateExtendsFrom_error h with ⟨invalid, rfl⟩ | ⟨parent, rfl⟩
  · exact ⟨id, value, parents, .refl, hgraph, h⟩
  · exact ⟨id, value, parents, .refl, hgraph, h⟩

/-- A profile that is left is applied after its parents. -/
theorem Left.leave {done order : List String} {id : String} {value : τ} {parents : List String}
    {state left : VisitState σ} {applied : σ} (hgraph : graph id = some (value, parents))
    (hgood : GoodParents parents) (hin : id ∉ state.visiting) (hdone : id ∉ done)
    (h : Left graph apply done parents { state with visiting := state.visiting ++ [id] } left order)
    (happly : apply id value left.applied = .ok applied) :
    Left graph apply done [id] state
      { visiting := left.visiting.dropLast, visited := left.visited.insert id, applied }
      (order ++ [id]) where
  search := by
    have hbelow := h.search
    rw [← parentsOf_some hgraph] at hbelow
    refine .visit hdone hbelow (fun horder => ?_) .nil
    rcases h.loaded id horder with hbefore | ⟨_, _, hout⟩
    · exact hdone hbefore
    · exact hout (by simp)
  visited := by
    intro other
    rw [Std.ExtTreeSet.mem_insert, List.mem_append, h.visited, List.mem_singleton, or_comm,
      Std.LawfulEqOrd.compare_eq_iff_eq, eq_comm]
  visiting := by simp [h.visiting]
  applied := by
    obtain ⟨new, rfl, happlied⟩ := h.applied
    refine ⟨new ++ [id], by simp, applyAll_append happlied ?_⟩
    simp only [applyAll, List.foldlM_cons, List.foldlM_nil, hgraph, happly]
    rfl
  loaded := by
    intro other hother
    rcases List.mem_append.mp hother with hother | hother
    · refine (h.loaded other hother).imp_right ?_
      rintro ⟨hloaded, hvalid, hout⟩
      exact ⟨hloaded, hvalid, fun hstack => hout (List.mem_append_left _ hstack)⟩
    · rw [List.mem_singleton] at hother
      subst hother
      refine Or.inr ⟨⟨value, ?_⟩, ?_, hin⟩
      · rw [parentsOf_some hgraph, hgraph]
      · rw [parentsOf_some hgraph]
        exact hgood

/-- What a visit tells, by the depth of the recursion. -/
theorem visit_outcome {depth : Nat} {id : String} {parent : Option String} {done : List String}
    {state : VisitState σ} (hstack : Stacked graph state.visiting id)
    (hvisited : ∀ id, id ∈ state.visited ↔ id ∈ done) :
    Outcome graph apply done [id] state
      (visit none (fun id => .ok (graph id)) apply depth id parent state) := by
  induction depth generalizing id parent done state with
  | zero => exact .Endless
  | succ depth ih =>
    unfold visit
    simp only [Option.any_none, Bool.false_eq_true, if_false]
    by_cases hin : id ∈ state.visiting
    · rw [if_pos hin]
      refine .Graph ⟨id, List.mem_singleton_self id, hstack.cycle hin, id, ?_, .refl⟩
      simp [cycleOf]
    rw [if_neg hin]
    by_cases hdone : id ∈ state.visited
    · rw [if_pos hdone]
      have hnothing : Left graph apply done [] state state done := .nil hvisited
      exact .Done { hnothing with search := .skip ((hvisited id).mp hdone) .nil }
    rw [if_neg hdone]
    cases hgraph : graph id with
    | none =>
      refine .Graph ⟨id, List.mem_singleton_self id, ?_⟩
      cases parent with
      | none => exact ⟨.refl, hgraph⟩
      | some profile => exact ⟨.refl, hgraph⟩
    | some node =>
      obtain ⟨value, parents⟩ := node
      dsimp only
      cases hextends : validateExtends id parents with
      | error error =>
        exact .Graph ⟨id, List.mem_singleton_self id, explains_of_extends hgraph hextends⟩
      | ok _ =>
        have hloop : Outcome graph apply done parents
            { state with visiting := state.visiting ++ [id] }
            (visitParents (fun parent => visit none (fun id => .ok (graph id)) apply depth parent
              (some id)) parents { state with visiting := state.visiting ++ [id] }) := by
          refine visitParents_outcome (fun parent hparent done next hnext hafter => ?_) hvisited
          refine ih ?_ hafter
          rw [hnext]
          exact hstack.push hin hgraph hparent
        dsimp only
        generalize visitParents (fun parent => visit none (fun id => .ok (graph id)) apply depth
          parent (some id)) parents { state with visiting := state.visiting ++ [id] } = result
          at hloop
        cases hloop with
        | Endless => exact .Endless
        | Source h => exact .Source h
        | @Graph error h =>
          obtain ⟨below, hbelow, hexplains⟩ := h
          refine .Graph ⟨id, List.mem_singleton_self id, hexplains.of_reaches (.single ?_)⟩
          rw [parentsOf_some hgraph]
          exact hbelow
        | @Done left order h =>
          dsimp only
          cases happly : apply id value left.applied with
          | error error => exact .Source ⟨id, value, left.applied, happly⟩
          | ok applied =>
            have hnew : id ∉ done := fun hbefore => hdone ((hvisited id).mpr hbefore)
            exact .Done (h.leave hgraph (validateExtends_ok_iff.mp hextends) hin hnew happly)

end visits

/-! ## The end of the recursion -/

section ends

variable {graph : Graph τ} {apply : String → τ → σ → Except ε σ}

/-- A visit leaves the stack as it found it. -/
theorem visit_visiting {depth : Nat} {id : String} {parent : Option String}
    {state left : VisitState σ} (hstack : Stacked graph state.visiting id)
    (h : visit none (fun id => .ok (graph id)) apply depth id parent state = some (.ok left)) :
    left.visiting = state.visiting := by
  have houtcome : Outcome graph apply state.visited.toList [id] state
      (visit none (fun id => .ok (graph id)) apply depth id parent state) :=
    visit_outcome hstack (by simp)
  rw [h] at houtcome
  cases houtcome with
  | Done hleft => exact hleft.visiting

theorem visitParents_ends
    {visitOne : String → VisitState σ → Option (Except (TraverseError ε) (VisitState σ))}
    {parents : List String} {state : VisitState σ}
    (hone : ∀ parent ∈ parents, ∀ next, next.visiting = state.visiting →
      visitOne parent next ≠ none ∧
        ∀ left, visitOne parent next = some (.ok left) → left.visiting = state.visiting) :
    visitParents visitOne parents state ≠ none := by
  induction parents generalizing state with
  | nil => simp [visitParents]
  | cons parent parents ih =>
    obtain ⟨hends, hvisiting⟩ := hone parent List.mem_cons_self state rfl
    unfold visitParents
    cases hresult : visitOne parent state with
    | none => exact absurd hresult hends
    | some result =>
      cases result with
      | error error => simp
      | ok next =>
        have hnext := hvisiting next hresult
        refine ih fun other hother after hafter => ?_
        have hother := hone other (List.mem_cons_of_mem _ hother) after (hafter.trans hnext)
        rw [hnext]
        exact hother

/-- The stack holds different profiles of the graph, so the recursion is not deeper than there
are profiles. -/
theorem visit_ends (present : Finset String) (hpresent : ∀ id, (graph id).isSome = true →
      id ∈ present) {depth : Nat} {id : String} {parent : Option String} {state : VisitState σ}
    (hstack : Stacked graph state.visiting id)
    (hroom : present.card < depth + state.visiting.length) :
    visit none (fun id => .ok (graph id)) apply depth id parent state ≠ none := by
  induction depth generalizing id parent state with
  | zero =>
    have hsubset : state.visiting.toFinset ⊆ present := fun other hother =>
      hpresent other (hstack.present other (List.mem_toFinset.mp hother))
    have hcard := Finset.card_le_card hsubset
    rw [List.toFinset_card_of_nodup hstack.nodup] at hcard
    omega
  | succ depth ih =>
    unfold visit
    simp only [Option.any_none, Bool.false_eq_true, if_false]
    split_ifs with hin hdone
    · simp
    · simp
    · cases hgraph : graph id with
      | none => simp
      | some node =>
        obtain ⟨value, parents⟩ := node
        dsimp only
        cases validateExtends id parents with
        | error error => simp
        | ok _ =>
          have hloop : visitParents (fun parent => visit none (fun id => .ok (graph id)) apply depth
              parent (some id)) parents { state with visiting := state.visiting ++ [id] } ≠ none := by
            refine visitParents_ends fun parent hparent next hnext => ?_
            have hpushed : Stacked graph next.visiting parent := by
              rw [hnext]
              exact hstack.push hin hgraph hparent
            refine ⟨ih hpushed ?_, fun left hleft => ?_⟩
            · rw [hnext, List.length_append, List.length_singleton]
              omega
            · exact (visit_visiting hpushed hleft).trans hnext
          dsimp only
          split
          · contradiction
          · simp
          · split <;> simp

theorem visitParents_more
    {visitOne visitMore : String → VisitState σ →
      Option (Except (TraverseError ε) (VisitState σ))}
    (hmore : ∀ parent state result, visitOne parent state = some result →
      visitMore parent state = some result)
    {parents : List String} {state : VisitState σ}
    {result : Except (TraverseError ε) (VisitState σ)}
    (h : visitParents visitOne parents state = some result) :
    visitParents visitMore parents state = some result := by
  induction parents generalizing state with
  | nil => exact h
  | cons parent parents ih =>
    unfold visitParents at h ⊢
    cases hfirst : visitOne parent state with
    | none => simp [hfirst] at h
    | some first =>
      rw [hmore parent state first hfirst]
      rw [hfirst] at h
      cases first with
      | error error => exact h
      | ok next => exact ih h

/-- A visit that ends does so with every greater depth, and with the same result. -/
theorem visit_more {max_depth : Option Nat} {load : String → Except ε (Option (τ × List String))}
    {depth more : Nat} (hle : depth ≤ more) {id : String} {parent : Option String}
    {state : VisitState σ} {result : Except (TraverseError ε) (VisitState σ)}
    (h : visit max_depth load apply depth id parent state = some result) :
    visit max_depth load apply more id parent state = some result := by
  induction depth generalizing more id parent state result with
  | zero => cases h
  | succ depth ih =>
    obtain ⟨more, rfl⟩ : ∃ rest, more = rest + 1 := ⟨more - 1, by omega⟩
    unfold visit at h ⊢
    split_ifs at h ⊢
    · exact h
    · exact h
    · exact h
    · cases hload : load id with
      | error error =>
        rw [hload] at h
        exact h
      | ok node =>
        rw [hload] at h
        cases node with
        | none => exact h
        | some node =>
          obtain ⟨value, parents⟩ := node
          dsimp only at h ⊢
          cases hextends : validateExtends id parents with
          | error error =>
            rw [hextends] at h
            exact h
          | ok _ =>
            rw [hextends] at h
            dsimp only at h ⊢
            cases hloop : visitParents (fun parent => visit max_depth load apply depth parent
                (some id)) parents { state with visiting := state.visiting ++ [id] } with
            | none => simp [hloop] at h
            | some looped =>
              have hagain := visitParents_more (fun parent state result hresult =>
                ih (by omega : depth ≤ more) hresult) hloop
              rw [hagain]
              rw [hloop] at h
              exact h

theorem traverse_more {load : String → Except ε (Option (τ × List String))} {depth more : Nat}
    (hle : depth ≤ more) {root : String} {start : σ} {result : Except (TraverseError ε) σ}
    (h : traverse depth load apply root start = some result) :
    traverse more load apply root start = some result := by
  unfold traverse traverseWithMaxDepth at h ⊢
  obtain ⟨visited, hvisited, hresult⟩ := Option.map_eq_some_iff.mp h
  rw [visit_more hle hvisited, ← hresult]
  rfl

end ends

/-! ## The traversal -/

/-- What is wrong with a profile: it is missing, its parents are refused, or it reaches a
cycle. -/
def Broken (graph : Graph τ) (id : String) : Prop :=
  graph id = none ∨
    (∃ value parents, graph id = some (value, parents) ∧ ¬ GoodParents parents) ∨
    ∃ other, Reaches (parentsOf graph) id other ∧ OnCycle (parentsOf graph) other

section traversal

variable {graph : Graph τ} {apply : String → τ → σ → Except ε σ}

theorem IsChain.reaches_last {path : List String} (h : IsChain graph path) {id last : String}
    (hid : id ∈ path) (hlast : path.getLast? = some last) : Reaches (parentsOf graph) id last := by
  induction path generalizing id with
  | nil => cases hid
  | cons first rest ih =>
    cases rest with
    | nil =>
      simp only [List.getLast?_singleton, Option.some.injEq] at hlast
      rw [List.mem_singleton] at hid
      rw [hid, hlast]
      exact .refl
    | cons second rest =>
      obtain ⟨hedge, hrest⟩ := List.isChain_cons_cons.mp h
      rw [List.getLast?_cons_cons] at hlast
      rcases List.mem_cons.mp hid with rfl | hid
      · exact .head hedge (ih hrest List.mem_cons_self hlast)
      · exact ih hrest hid hlast

/-- Every profile of a cycle reaches one that lies on it. -/
theorem IsCycle.onCycle {cycle : List String} (h : IsCycle graph cycle) {id : String}
    (hid : id ∈ cycle) :
    ∃ other, Reaches (parentsOf graph) id other ∧ OnCycle (parentsOf graph) other := by
  obtain ⟨hchain, hlength, hclosed⟩ := h
  match cycle with
  | [] => cases hid
  | [_] => simp at hlength
  | first :: second :: rest =>
    have hlast : (first :: second :: rest).getLast? = some first := hclosed.symm
    refine ⟨first, hchain.reaches_last hid hlast, ?_⟩
    obtain ⟨hedge, hrest⟩ := List.isChain_cons_cons.mp hchain
    have hback : Reaches (parentsOf graph) second first :=
      IsChain.reaches_last hrest List.mem_cons_self (by rwa [List.getLast?_cons_cons] at hlast)
    exact .head' hedge hback

theorem Explains.broken {root : String} {error : ProfileGraphError}
    (h : Explains graph root error) :
    ∃ id, Reaches (parentsOf graph) root id ∧ Broken graph id := by
  cases error with
  | Cycle cycle =>
    obtain ⟨hcycle, id, hin, hreaches⟩ := h
    exact ⟨id, hreaches, Or.inr (Or.inr (hcycle.onCycle hin))⟩
  | MissingProfile id => exact ⟨id, h.1, Or.inl h.2⟩
  | MissingParent profile id => exact ⟨id, h.1, Or.inl h.2⟩
  | InvalidId invalid =>
    obtain ⟨id, value, parents, hreaches, hgraph, herror⟩ := h
    refine ⟨id, hreaches, Or.inr (Or.inl ⟨value, parents, hgraph, fun hgood => ?_⟩)⟩
    cases herror.symm.trans (validateExtends_ok_iff.mpr hgood)
  | DuplicateParent profile parent =>
    obtain ⟨id, value, parents, hreaches, hgraph, herror⟩ := h
    refine ⟨id, hreaches, Or.inr (Or.inl ⟨value, parents, hgraph, fun hgood => ?_⟩)⟩
    cases herror.symm.trans (validateExtends_ok_iff.mpr hgood)
  | InheritanceDepthExceeded limit => exact h.elim

/-- What was left from the root on has nothing wrong with it. -/
theorem Left.not_broken {root : String} {state left : VisitState σ} {order : List String}
    (h : Left graph apply [] [root] state left order) {id : String}
    (hreaches : Reaches (parentsOf graph) root id) : ¬ Broken graph id := by
  have hin := h.search.mem_iff.mpr hreaches
  have hloaded : ∀ other ∈ order, (∃ value, graph other = some (value, parentsOf graph other)) ∧
      GoodParents (parentsOf graph other) := by
    intro other hother
    rcases h.loaded other hother with hnone | ⟨hsome, hgood, _⟩
    · cases hnone
    · exact ⟨hsome, hgood⟩
  obtain ⟨⟨value, hgraph⟩, hgood⟩ := hloaded id hin
  rintro (hnone | ⟨_, parents, hsome, hbad⟩ | ⟨other, hother, hcycle⟩)
  · rw [hgraph] at hnone
    cases hnone
  · rw [parentsOf_some hsome] at hgood
    exact hbad hgood
  · have hlater := h.search.mem_iff.mpr (hreaches.trans hother)
    exact (h.search.ordered .nil).no_cycle (h.search.nodup List.nodup_nil) hlater hcycle

/-- The traversal of a finite graph ends, whatever `apply` does. When it succeeds, it has applied
the profiles that the root reaches, each once, after its parents and in depth-first post-order.
When it reports a cycle, the extends edges form it. It fails exactly when a reachable profile is
missing, has parents that are refused, or reaches a cycle, or when `apply` itself fails. -/
theorem profile_traversal_is_postorder (graph : Graph τ)
    (hfinite : {id | (graph id).isSome = true}.Finite) (apply : String → τ → σ → Except ε σ)
    (root : String) (start : σ) :
    ∃ result,
      (∃ enough, ∀ depth, enough ≤ depth →
        traverse depth (fun id => .ok (graph id)) apply root start = some result) ∧
      (∀ final, result = .ok final →
        ∃ order, applyAll graph apply order start = .ok final ∧
          Search (parentsOf graph) [] [root] order ∧ order.Nodup ∧
          (∀ id, id ∈ order ↔ Reaches (parentsOf graph) root id) ∧
          Ordered (parentsOf graph) order ∧
          ∀ id ∈ order, ∃ value, graph id = some (value, parentsOf graph id)) ∧
      (∀ cycle, result = .error (.Graph (.Cycle cycle)) → IsCycle graph cycle) ∧
      ((∃ error, result = .error error) ↔
        (∃ id, Reaches (parentsOf graph) root id ∧ Broken graph id) ∨
          ∃ id value applied error, apply id value applied = .error error ∧
            result = .error (.Source error)) := by
  have hroot : Stacked graph (VisitState.visiting { applied := start }) root := stacked_root graph root
  -- one level more than there are profiles is deep enough
  have hends : visit none (fun id => .ok (graph id)) apply (hfinite.toFinset.card + 1) root none
      { applied := start } ≠ none :=
    visit_ends hfinite.toFinset (by simp) hroot (by simp)
  obtain ⟨visited, hvisited⟩ := Option.ne_none_iff_exists'.mp hends
  have houtcome : Outcome graph apply [] [root] { applied := start } (some visited) := by
    rw [← hvisited]
    exact visit_outcome hroot (by simp)
  refine ⟨visited.map (·.applied),
    ⟨hfinite.toFinset.card + 1, fun depth hdepth => traverse_more hdepth ?_⟩, ?_⟩
  · unfold traverse traverseWithMaxDepth
    rw [hvisited]
    rfl
  cases houtcome with
  | @Done left order h =>
    obtain ⟨new, hnew, happlied⟩ := h.applied
    obtain rfl : order = new := hnew
    refine ⟨fun final hfinal => ?_, fun cycle hcycle => (by cases hcycle), ?_⟩
    · obtain rfl := Except.ok.inj hfinal
      refine ⟨order, happlied, h.search, h.search.nodup List.nodup_nil,
        fun id => h.search.mem_iff, h.search.ordered .nil, fun id hid => ?_⟩
      rcases h.loaded id hid with hnone | ⟨hsome, _⟩
      · cases hnone
      · exact hsome
    · refine iff_of_false ?_ ?_
      · rintro ⟨error, herror⟩
        cases herror
      · rintro (⟨id, hreaches, hbroken⟩ | ⟨_, _, _, error, _, herror⟩)
        · exact h.not_broken hreaches hbroken
        · cases herror
  | @Graph error h =>
    obtain ⟨id, hid, hexplains⟩ := h
    rw [List.mem_singleton] at hid
    subst hid
    refine ⟨fun final hfinal => (by cases hfinal), fun cycle hcycle => ?_, ?_⟩
    · obtain rfl := TraverseError.Graph.inj (Except.error.inj hcycle)
      exact hexplains.1
    · exact iff_of_true ⟨_, rfl⟩ (Or.inl hexplains.broken)
  | @Source error h =>
    obtain ⟨id, value, applied, herror⟩ := h
    refine ⟨fun final hfinal => (by cases hfinal), fun cycle hcycle => (by cases hcycle), ?_⟩
    exact iff_of_true ⟨_, rfl⟩ (Or.inr ⟨id, value, applied, error, herror, rfl⟩)

end traversal

/-- A profile with two parents, one of which extends the other. -/
def layered (id : String) : Option (Unit × List String) :=
  if id = "dev" then some ((), ["base", "tools"])
  else if id = "tools" then some ((), ["base"])
  else if id = "base" then some ((), [])
  else none

theorem layered_finite : {id | (layered id).isSome = true}.Finite := by
  refine Set.Finite.subset (Set.toFinite {"dev", "tools", "base"}) fun id hid => ?_
  change (layered id).isSome = true at hid
  unfold layered at hid
  split_ifs at hid with hdev htools hbase
  · exact Or.inl hdev
  · exact Or.inr (Or.inl htools)
  · exact Or.inr (Or.inr hbase)
  · cases hid

/-- Collect the profiles in the order in which they are applied. -/
def collect (id : String) (_ : Unit) (order : List String) : Except Empty (List String) :=
  .ok (order ++ [id])

theorem layered_is_in_postorder :
    ∃ order, applyAll layered collect order [] = .ok ["base", "tools", "dev"] ∧
      Search (parentsOf layered) [] ["dev"] order ∧ Ordered (parentsOf layered) order := by
  obtain ⟨result, ⟨enough, hends⟩, hok, -⟩ :=
    profile_traversal_is_postorder layered layered_finite collect "dev" []
  have hrun : traverse 4 (fun id => .ok (layered id)) collect "dev" [] =
      some (.ok ["base", "tools", "dev"]) := by rfl
  have hresult : result = .ok ["base", "tools", "dev"] := by
    have hmore := traverse_more (by omega : 4 ≤ enough + 4) hrun
    rw [hends (enough + 4) (by omega)] at hmore
    exact Option.some.inj hmore
  obtain ⟨order, happlied, hsearch, -, -, hordered, -⟩ := hok _ hresult
  exact ⟨order, happlied, hsearch, hordered⟩

end profile_graph
