-- Where a traversal fails because applying a profile does: which profile it
-- comes to apply, and to what the profiles before it have made.
import NixosDockers.ProfileGraph.Graph
import NixosDockers.Lib.Results

open results

namespace profile_graph

variable {τ σ ε : Type} {load : String → Except ε (Option (τ × List String))}
  {apply : String → τ → σ → Except ε σ} {meets : String → τ → σ → Prop} {bad : ε → Prop}

/-- The loop over the parents comes to a visit that meets something. -/
def ParentsMeet
    (visitOne : String → VisitState σ → Option (Except (TraverseError ε) (VisitState σ)))
    (meetOne : String → VisitState σ → Prop) : List String → VisitState σ → Prop
  | [], _ => False
  | parent :: parents, state =>
    meetOne parent state ∨
      ∃ next, visitOne parent state = some (.ok next) ∧ ParentsMeet visitOne meetOne parents next

/-- A visit comes to apply a profile that meets something, in one of the visits of its parents or
after them. -/
def VisitMeets (load : String → Except ε (Option (τ × List String)))
    (apply : String → τ → σ → Except ε σ) (meets : String → τ → σ → Prop) :
    ℕ → String → VisitState σ → Prop
  | 0, _, _ => False
  | depth + 1, id, state =>
    id ∉ state.visiting ∧ id ∉ state.visited ∧ ∃ value parents,
      load id = .ok (some (value, parents)) ∧ validateExtends id parents = .ok () ∧
      (ParentsMeet (fun parent => visit none load apply depth parent (some id))
          (VisitMeets load apply meets depth) parents
          { state with visiting := state.visiting ++ [id] } ∨
        ∃ left, visitParents (fun parent => visit none load apply depth parent (some id)) parents
            { state with visiting := state.visiting ++ [id] } = some (.ok left) ∧
          meets id value left.applied)

/-- A traversal comes to apply a profile that meets something. -/
def TraverseMeets (load : String → Except ε (Option (τ × List String)))
    (apply : String → τ → σ → Except ε σ) (meets : String → τ → σ → Prop) (depth : ℕ)
    (root : String) (start : σ) : Prop :=
  VisitMeets load apply meets depth root { applied := start }

/-- It ended in an error of a source, of a kind. -/
def FailsInSource {α : Type} (bad : ε → Prop) (x : Option (Except (TraverseError ε) α)) : Prop :=
  ∃ e, x = some (.error (.Source e)) ∧ bad e

theorem not_failsInSource_none {α : Type} :
    ¬ FailsInSource bad (none : Option (Except (TraverseError ε) α)) := by
  rintro ⟨_, heq, _⟩
  cases heq

theorem not_failsInSource_graph {α : Type} {error : ProfileGraphError} :
    ¬ FailsInSource bad (some (.error (.Graph error)) : Option (Except (TraverseError ε) α)) := by
  rintro ⟨_, heq, _⟩
  cases heq

theorem not_failsInSource_ok {α : Type} {a : α} :
    ¬ FailsInSource bad (some (.ok a) : Option (Except (TraverseError ε) α)) := by
  rintro ⟨_, heq, _⟩
  cases heq

theorem failsInSource_source_iff {α : Type} {error : ε} :
    FailsInSource bad (some (.error (.Source error)) : Option (Except (TraverseError ε) α)) ↔
      bad error := by
  constructor
  · rintro ⟨e, heq, hbad⟩
    obtain rfl := TraverseError.Source.inj (Except.error.inj (Option.some.inj heq))
    exact hbad
  · exact fun hbad => ⟨error, rfl, hbad⟩

theorem visitParents_fails_iff
    {visitOne : String → VisitState σ → Option (Except (TraverseError ε) (VisitState σ))}
    {meetOne : String → VisitState σ → Prop}
    (h : ∀ parent state, FailsInSource bad (visitOne parent state) ↔ meetOne parent state)
    {parents : List String} {state : VisitState σ} :
    FailsInSource bad (visitParents visitOne parents state) ↔
      ParentsMeet visitOne meetOne parents state := by
  induction parents generalizing state with
  | nil =>
    unfold visitParents ParentsMeet
    exact iff_of_false not_failsInSource_ok id
  | cons parent parents ih =>
    unfold visitParents ParentsMeet
    rw [← h]
    cases hvisit : visitOne parent state with
    | none =>
      refine iff_of_false not_failsInSource_none ?_
      rintro (⟨_, heq, _⟩ | ⟨_, heq, _⟩) <;> cases heq
    | some result =>
      cases result with
      | error error =>
        refine ⟨fun ⟨e, heq, hbad⟩ => Or.inl ⟨e, heq, hbad⟩, ?_⟩
        rintro (hfails | ⟨_, heq, _⟩)
        · exact hfails
        · cases heq
      | ok next =>
        simp only [ih]
        constructor
        · intro hmeets
          exact Or.inr ⟨next, rfl, hmeets⟩
        · rintro (⟨_, heq, _⟩ | ⟨_, heq, hmeets⟩)
          · cases heq
          · obtain rfl := Except.ok.inj (Option.some.inj heq)
            exact hmeets

/-- A visit ends in such an error of a source exactly when it comes to apply a profile that fails so.
The induction is on the depth of the recursion. -/
theorem visit_fails_iff (hload : ∀ id, ¬ Fails bad (load id))
    (happly : ∀ id value applied, Fails bad (apply id value applied) ↔ meets id value applied)
    {depth : ℕ} {id : String} {parent : Option String} {state : VisitState σ} :
    FailsInSource bad (visit none load apply depth id parent state) ↔
      VisitMeets load apply meets depth id state := by
  induction depth generalizing id parent state with
  | zero => exact iff_of_false not_failsInSource_none fun h => h
  | succ depth ih =>
    unfold visit VisitMeets
    by_cases hvisiting : id ∈ state.visiting
    · rw [if_pos hvisiting]
      exact iff_of_false not_failsInSource_graph fun h => h.1 hvisiting
    rw [if_neg hvisiting]
    simp only [Option.any_none, Bool.false_eq_true, if_false]
    by_cases hvisited : id ∈ state.visited
    · rw [if_pos hvisited]
      exact iff_of_false not_failsInSource_ok fun h => h.2.1 hvisited
    rw [if_neg hvisited]
    simp only [hvisiting, hvisited, not_false_eq_true, true_and]
    cases hfound : load id with
    | error error =>
      refine iff_of_false (fun hfails => ?_) fun ⟨_, _, heq, _⟩ => nomatch heq
      exact hload id ⟨error, hfound, failsInSource_source_iff.mp hfails⟩
    | ok found =>
      cases found with
      | none =>
        refine iff_of_false not_failsInSource_graph ?_
        rintro ⟨_, _, heq, _⟩
        cases heq
      | some entry =>
        obtain ⟨value, parents⟩ := entry
        simp only
        cases hextends : validateExtends id parents with
        | error error =>
          refine iff_of_false not_failsInSource_graph ?_
          rintro ⟨_, _, heq, hok, _⟩
          obtain ⟨_, rfl⟩ := Prod.mk.inj (Option.some.inj (Except.ok.inj heq))
          rw [hextends] at hok
          cases hok
        | ok =>
          have hparents := @visitParents_fails_iff σ ε bad
            (fun parent => visit none load apply depth parent (some id))
            (VisitMeets load apply meets depth) (fun _ _ => ih) parents
            { state with visiting := state.visiting ++ [id] }
          have hright : ∀ P : τ → List String → Prop,
              (∃ value' parents', (Except.ok (some (value, parents)) : Except ε _) =
                .ok (some (value', parents')) ∧ validateExtends id parents' = .ok () ∧
                P value' parents') ↔ P value parents := by
            intro P
            constructor
            · rintro ⟨_, _, heq, _, hp⟩
              obtain ⟨rfl, rfl⟩ := Prod.mk.inj (Option.some.inj (Except.ok.inj heq))
              exact hp
            · exact fun hp => ⟨value, parents, rfl, hextends, hp⟩
          simp only
          rw [hright fun value parents => _, ← hparents]
          generalize visitParents (fun parent => visit none load apply depth parent (some id)) parents
            { state with visiting := state.visiting ++ [id] } = result
          cases result with
          | none =>
            refine iff_of_false not_failsInSource_none ?_
            rintro (⟨_, heq, _⟩ | ⟨_, heq, _⟩) <;> cases heq
          | some result =>
            cases result with
            | error error =>
              refine ⟨fun ⟨e, heq, hbad⟩ => Or.inl ⟨e, heq, hbad⟩, ?_⟩
              rintro (hfails | ⟨_, heq, _⟩)
              · exact hfails
              · cases heq
            | ok left =>
              have hleft : ∀ P : VisitState σ → Prop, (∃ left', some (Except.ok left) =
                  (some (.ok left') : Option (Except (TraverseError ε) _)) ∧ P left') ↔ P left := by
                intro P
                constructor
                · rintro ⟨_, heq, hp⟩
                  obtain rfl := Except.ok.inj (Option.some.inj heq)
                  exact hp
                · exact fun hp => ⟨left, rfl, hp⟩
              rw [hleft, ← happly]
              simp only
              cases happlied : apply id value left.applied with
              | ok applied =>
                refine iff_of_false not_failsInSource_ok ?_
                rintro (hfails | hfails)
                · exact not_failsInSource_ok hfails
                · exact not_fails_ok applied hfails
              | error error =>
                rw [fails_error_iff, failsInSource_source_iff]
                exact (or_iff_right not_failsInSource_ok).symm

theorem traverse_fails_iff (hload : ∀ id, ¬ Fails bad (load id))
    (happly : ∀ id value applied, Fails bad (apply id value applied) ↔ meets id value applied)
    {depth : ℕ} {root : String} {start : σ} :
    FailsInSource bad (traverse depth load apply root start) ↔
      TraverseMeets load apply meets depth root start := by
  unfold TraverseMeets
  rw [← visit_fails_iff hload happly]
  unfold traverse traverseWithMaxDepth FailsInSource
  generalize visit none load apply depth root none { applied := start } = result
  cases result with
  | none => simp
  | some result => cases result <;> simp [Except.map]

/-- A traversal keeps what every apply of a profile that it reaches keeps, and fails in no source
when none of them does. The induction is on the depth of the recursion. -/
theorem visit_keeps {reached : String → Prop} {kept : σ → Prop}
    (hload : ∀ id, ¬ Fails bad (load id))
    (hparents : ∀ id value parents, reached id → load id = .ok (some (value, parents)) →
      ∀ parent ∈ parents, reached parent)
    (happly : ∀ id value parents applied, reached id → load id = .ok (some (value, parents)) →
      kept applied → ¬ Fails bad (apply id value applied) ∧
        ∀ next, apply id value applied = .ok next → kept next)
    {depth : ℕ} {id : String} {parent : Option String} {state : VisitState σ} (hid : reached id)
    (h : kept state.applied) :
    ¬ FailsInSource bad (visit none load apply depth id parent state) ∧
      ∀ next, visit none load apply depth id parent state = some (.ok next) →
        kept next.applied := by
  induction depth generalizing id parent state with
  | zero => exact ⟨not_failsInSource_none, fun _ hnext => (by cases hnext)⟩
  | succ depth ih =>
    have hloop : ∀ (parents : List String), (∀ parent ∈ parents, reached parent) →
        ∀ state : VisitState σ, kept state.applied →
        ¬ FailsInSource bad (visitParents
            (fun parent => visit none load apply depth parent (some id)) parents state) ∧
          ∀ next, visitParents (fun parent => visit none load apply depth parent (some id)) parents
            state = some (.ok next) → kept next.applied := by
      intro parents hreached
      induction parents with
      | nil =>
        intro state h
        refine ⟨not_failsInSource_ok, fun next hnext => ?_⟩
        cases hnext
        exact h
      | cons parent parents ihparents =>
        intro state h
        obtain ⟨hfails, hkept⟩ := @ih parent (some id) state (hreached parent List.mem_cons_self) h
        unfold visitParents
        cases hvisit : visit none load apply depth parent (some id) state with
        | none => exact ⟨not_failsInSource_none, fun _ hnext => (by cases hnext)⟩
        | some result =>
          cases result with
          | error error =>
            rw [hvisit] at hfails
            refine ⟨fun ⟨e, heq, hbad⟩ => hfails ⟨e, ?_, hbad⟩, fun _ hnext => (by cases hnext)⟩
            rw [Except.error.inj (Option.some.inj heq)]
          | ok next =>
            have hothers := fun other hother => hreached other (List.mem_cons_of_mem _ hother)
            exact ihparents hothers next (hkept next hvisit)
    unfold visit
    split_ifs
    · exact ⟨not_failsInSource_graph, fun _ hnext => (by cases hnext)⟩
    · exact ⟨not_failsInSource_graph, fun _ hnext => (by cases hnext)⟩
    · refine ⟨not_failsInSource_ok, fun next hnext => ?_⟩
      cases hnext
      exact h
    · cases hfound : load id with
      | error error =>
        refine ⟨fun hfails => hload id ⟨error, hfound, failsInSource_source_iff.mp hfails⟩,
          fun _ hnext => (by cases hnext)⟩
      | ok found =>
        cases found with
        | none => exact ⟨not_failsInSource_graph, fun _ hnext => (by cases hnext)⟩
        | some entry =>
          obtain ⟨value, parents⟩ := entry
          simp only
          cases validateExtends id parents with
          | error error => exact ⟨not_failsInSource_graph, fun _ hnext => (by cases hnext)⟩
          | ok =>
            obtain ⟨hfails, hkept⟩ := hloop parents (hparents id value parents hid hfound)
              { state with visiting := state.visiting ++ [id] } h
            simp only
            cases hleft : visitParents (fun parent => visit none load apply depth parent (some id))
                parents { state with visiting := state.visiting ++ [id] } with
            | none => exact ⟨not_failsInSource_none, fun _ hnext => (by cases hnext)⟩
            | some result =>
              cases result with
              | error error =>
                rw [hleft] at hfails
                refine ⟨fun ⟨e, heq, hbad⟩ => hfails ⟨e, ?_, hbad⟩, fun _ hnext => (by cases hnext)⟩
                rw [Except.error.inj (Option.some.inj heq)]
              | ok left =>
                obtain ⟨hsafe, hnext⟩ := happly id value parents left.applied hid hfound
                  (hkept left hleft)
                simp only
                cases happlied : apply id value left.applied with
                | error error =>
                  refine ⟨fun hfails => hsafe ⟨error, happlied, failsInSource_source_iff.mp hfails⟩,
                    fun _ hnext => (by cases hnext)⟩
                | ok applied =>
                  refine ⟨not_failsInSource_ok, fun next heq => ?_⟩
                  cases heq
                  exact hnext applied happlied

theorem traverse_keeps {reached : String → Prop} {kept : σ → Prop}
    (hload : ∀ id, ¬ Fails bad (load id))
    (hparents : ∀ id value parents, reached id → load id = .ok (some (value, parents)) →
      ∀ parent ∈ parents, reached parent)
    (happly : ∀ id value parents applied, reached id → load id = .ok (some (value, parents)) →
      kept applied → ¬ Fails bad (apply id value applied) ∧
        ∀ next, apply id value applied = .ok next → kept next)
    {depth : ℕ} {root : String} {start : σ} (hroot : reached root) (h : kept start) :
    ¬ FailsInSource bad (traverse depth load apply root start) ∧
      ∀ final, traverse depth load apply root start = some (.ok final) → kept final := by
  obtain ⟨hfails, hkept⟩ := @visit_keeps τ σ ε load apply bad reached kept hload hparents happly
    depth root none { applied := start } hroot h
  unfold traverse traverseWithMaxDepth
  cases hvisit : visit none load apply depth root none { applied := start } with
  | none => exact ⟨not_failsInSource_none, fun _ hfinal => (by cases hfinal)⟩
  | some result =>
    cases result with
    | error error =>
      rw [hvisit] at hfails
      refine ⟨fun ⟨e, heq, hbad⟩ => hfails ⟨e, ?_, hbad⟩, fun _ hfinal => (by cases hfinal)⟩
      rw [Except.error.inj (Option.some.inj heq)]
    | ok next =>
      refine ⟨not_failsInSource_ok, fun final hfinal => ?_⟩
      cases hfinal
      exact hkept next hvisit

end profile_graph
