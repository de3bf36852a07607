-- The depth limit of a traversal: it is compared with the paths by which the
-- traversal comes to profiles, and not with all chains of extends edges.
import NixosDockers.Lib.FirstPaths
import NixosDockers.ProfileGraph.Traverse

open depth_first results

namespace profile_graph

variable {τ σ ε : Type} {graph : Graph τ} {apply : String → τ → σ → Except ε σ}

/-! ## Visits with and without a limit -/

theorem visitParents_of_ok
    {visitOne visitOther : String → VisitState σ →
      Option (Except (TraverseError ε) (VisitState σ))}
    (hone : ∀ parent state left, visitOne parent state = some (.ok left) →
      visitOther parent state = some (.ok left))
    {parents : List String} {state left : VisitState σ}
    (h : visitParents visitOne parents state = some (.ok left)) :
    visitParents visitOther parents state = some (.ok left) := by
  induction parents generalizing state with
  | nil => exact h
  | cons parent parents ih =>
    unfold visitParents at h ⊢
    cases hfirst : visitOne parent state with
    | none => simp [hfirst] at h
    | some first =>
      rw [hfirst] at h
      cases first with
      | error error => cases h
      | ok next =>
        rw [hone parent state next hfirst]
        exact ih h

/-- A visit of a profile that was not visited before succeeds: its parents are visited, then it is
applied. -/
structure Entry (max_depth : Option Nat) (load : String → Except ε (Option (τ × List String)))
    (apply : String → τ → σ → Except ε σ) (depth : Nat) (id : String) (state left : VisitState σ)
    (value : τ) (parents : List String) (looped : VisitState σ) (applied : σ) : Prop where
  loaded : load id = .ok (some (value, parents))
  valid : validateExtends id parents = .ok ()
  ascends : visitParents (fun parent => visit max_depth load apply depth parent (some id)) parents
    { state with visiting := state.visiting ++ [id] } = some (.ok looped)
  applies : apply id value looped.applied = .ok applied
  leaves : left = {
    visiting := looped.visiting.dropLast
    visited := looped.visited.insert id
    applied }

theorem visit_ok_iff {max_depth : Option Nat}
    {load : String → Except ε (Option (τ × List String))} {depth : Nat} {id : String}
    {parent : Option String} {state left : VisitState σ} :
    visit max_depth load apply (depth + 1) id parent state = some (.ok left) ↔
      id ∉ state.visiting ∧ (∀ limit ∈ max_depth, state.visiting.length < limit) ∧
        (id ∈ state.visited ∧ left = state ∨
          id ∉ state.visited ∧ ∃ value parents looped applied,
            Entry max_depth load apply depth id state left value parents looped applied) := by
  have hlong : max_depth.any (fun limit => state.visiting.length ≥ limit) = true ↔
      ¬ ∀ limit ∈ max_depth, state.visiting.length < limit := by
    cases max_depth <;> simp
  unfold visit
  by_cases hin : id ∈ state.visiting
  · rw [if_pos hin]
    exact iff_of_false (by simp) (fun h => h.1 hin)
  rw [if_neg hin]
  by_cases hlimit : ∀ limit ∈ max_depth, state.visiting.length < limit
  swap
  · rw [if_pos (hlong.mpr hlimit)]
    exact iff_of_false (by simp) (fun h => hlimit h.2.1)
  rw [if_neg (fun h => hlong.mp h hlimit)]
  by_cases hvisited : id ∈ state.visited
  · rw [if_pos hvisited]
    constructor
    · intro h
      exact ⟨hin, hlimit, Or.inl ⟨hvisited, (Except.ok.inj (Option.some.inj h)).symm⟩⟩
    · rintro ⟨-, -, ⟨-, rfl⟩ | ⟨hnot, -⟩⟩
      · rfl
      · exact absurd hvisited hnot
  rw [if_neg hvisited]
  constructor
  · intro h
    refine ⟨hin, hlimit, Or.inr ⟨hvisited, ?_⟩⟩
    split at h
    · cases h
    · cases h
    · rename_i value parents hload
      split at h
      · cases h
      · rename_i hvalid
        dsimp only at h
        split at h
        · cases h
        · cases h
        · rename_i looped hlooped
          split at h
          · cases h
          · rename_i applied happlied
            exact ⟨value, parents, looped, applied, hload, hvalid, hlooped, happlied,
              (Except.ok.inj (Option.some.inj h)).symm⟩
  · rintro ⟨-, -, ⟨hdone, -⟩ | ⟨-, value, parents, looped, applied, h⟩⟩
    · exact absurd hdone hvisited
    · rw [h.loaded]
      dsimp only
      rw [h.valid]
      dsimp only
      rw [h.ascends]
      dsimp only
      rw [h.applies, h.leaves]

/-- A visit that succeeds under a limit goes as without one. -/
theorem visit_unlimited {limit : Nat} {load : String → Except ε (Option (τ × List String))}
    {depth : Nat} {id : String} {parent : Option String} {state left : VisitState σ}
    (h : visit (some limit) load apply depth id parent state = some (.ok left)) :
    visit none load apply depth id parent state = some (.ok left) := by
  induction depth generalizing id parent state left with
  | zero => cases h
  | succ depth ih =>
    rw [visit_ok_iff] at h ⊢
    obtain ⟨hin, -, hvisited | ⟨hnew, value, parents, looped, applied, hentry⟩⟩ := h
    · exact ⟨hin, by simp, Or.inl hvisited⟩
    · refine ⟨hin, by simp, Or.inr ⟨hnew, value, parents, looped, applied, hentry.loaded,
        hentry.valid, ?_, hentry.applies, hentry.leaves⟩⟩
      exact visitParents_of_ok (fun parent state left hparent => ih hparent) hentry.ascends

/-- What a visit without a limit leaves: the stack as it was, and its profile and all that this
reaches added to the visited profiles. -/
theorem visit_leaves {depth : Nat} {id : String} {parent : Option String}
    {state left : VisitState σ} (hstack : Stacked graph state.visiting id)
    (hclosed : ∀ a ∈ state.visited, ∀ b ∈ parentsOf graph a, b ∈ state.visited)
    (h : visit none (fun id => .ok (graph id)) apply depth id parent state = some (.ok left)) :
    left.visiting = state.visiting ∧
      ∀ other, other ∈ left.visited ↔ other ∈ state.visited ∨ Reaches (parentsOf graph) id other := by
  have houtcome : Outcome graph apply state.visited.toList [id] state
      (visit none (fun id => .ok (graph id)) apply depth id parent state) :=
    visit_outcome hstack (by simp)
  rw [h] at houtcome
  cases houtcome with
  | Done hleft =>
    refine ⟨hleft.visiting, fun other => ?_⟩
    rw [hleft.visited, hleft.search.mem_iff_reached (by simpa using hclosed)]
    simp

/-! ## The paths that the limit is compared with -/

theorem takeWhile_parents {parents before rest : List String} {parent : String}
    (hnodup : parents.Nodup) (hparents : parents = before ++ parent :: rest) :
    parents.takeWhile (· ≠ parent) = before := by
  rw [hparents] at hnodup ⊢
  have hnew : ∀ other ∈ before, other ≠ parent := by
    rintro other hother rfl
    exact (List.nodup_append.mp hnodup).2.2 other hother other List.mem_cons_self rfl
  rw [List.takeWhile_append_of_pos (by simpa using hnew), List.takeWhile_cons]
  simp

theorem visitParents_cons_ok_iff
    {visitOne : String → VisitState σ → Option (Except (TraverseError ε) (VisitState σ))}
    {parent : String} {parents : List String} {state left : VisitState σ} :
    visitParents visitOne (parent :: parents) state = some (.ok left) ↔
      ∃ next, visitOne parent state = some (.ok next) ∧
        visitParents visitOne parents next = some (.ok left) := by
  rw [visitParents]
  rcases visitOne parent state with _ | error | next <;> simp

/-- A visit that goes through without a limit leaves the stack and the visited profiles so, and
goes through under the limit exactly when the paths that it comes by are within it. -/
structure UnderLimit (graph : Graph τ) (apply : String → τ → σ → Except ε σ) (limit depth : Nat)
    (id : String) (parent : Option String) (state left : VisitState σ) : Prop where
  limited : visit (some limit) (fun id => .ok (graph id)) apply depth id parent state =
      some (.ok left) ↔
    ∀ path, Entered (parentsOf graph) (state.visiting ++ [id]) path → path.length ≤ limit
  visiting : left.visiting = state.visiting
  visited : ∀ other, other ∈ left.visited ↔
    other ∈ state.visited ∨ Reaches (parentsOf graph) id other

section limit

variable {limit depth : Nat}

/-- The parents of a profile, with what a visit of one of them does under a limit. -/
theorem visitParents_limited_iff {path parents : List String} {profile : String}
    (hlast : path.getLast? = some profile) (hnodup : (parentsOf graph profile).Nodup)
    (hone : ∀ parent ∈ parents, ∀ state left : VisitState σ, state.visiting = path →
      (∀ other, other ∈ state.visited ↔ SeenBefore (parentsOf graph) (path ++ [parent]) other) →
      visit none (fun id => .ok (graph id)) apply depth parent (some profile) state =
        some (.ok left) →
      UnderLimit graph apply limit depth parent (some profile) state left)
    {before : List String} (hparents : parentsOf graph profile = before ++ parents)
    {state left : VisitState σ} (hstate : state.visiting = path)
    (hseen : ∀ other, other ∈ state.visited ↔ SeenBefore (parentsOf graph) path other ∨
      ∃ parent ∈ before, Reaches (parentsOf graph) parent other)
    (h : visitParents (fun parent => visit none (fun id => .ok (graph id)) apply depth parent
      (some profile)) parents state = some (.ok left)) :
    visitParents (fun parent => visit (some limit) (fun id => .ok (graph id)) apply depth parent
        (some profile)) parents state = some (.ok left) ↔
      ∀ parent ∈ parents, ∀ entered, Entered (parentsOf graph) (path ++ [parent]) entered →
        entered.length ≤ limit := by
  induction parents generalizing before state with
  | nil => exact iff_of_true h (by simp)
  | cons parent parents ih =>
    obtain ⟨next, hnext, hrest⟩ := visitParents_cons_ok_iff.mp h
    have hfirst : ∀ other, other ∈ state.visited ↔
        SeenBefore (parentsOf graph) (path ++ [parent]) other := by
      intro other
      rw [seenBefore_snoc hlast, takeWhile_parents hnodup hparents, hseen]
    have hunder := hone parent List.mem_cons_self state next hstate hfirst hnext
    have hlimited := hunder.limited
    rw [hstate] at hlimited
    have hafter : ∀ other, other ∈ next.visited ↔ SeenBefore (parentsOf graph) path other ∨
        ∃ done ∈ before ++ [parent], Reaches (parentsOf graph) done other := by
      intro other
      rw [hunder.visited, hseen, or_assoc]
      simp only [List.mem_append, List.mem_singleton, or_and_right, exists_or, exists_eq_left]
    have hsplit : parentsOf graph profile = (before ++ [parent]) ++ parents := by
      rw [hparents, List.append_assoc, List.singleton_append]
    have hothers := ih (fun other hother => hone other (List.mem_cons_of_mem _ hother)) hsplit
      (hunder.visiting.trans hstate) hafter hrest
    rw [List.forall_mem_cons, ← hlimited, ← hothers, visitParents_cons_ok_iff]
    constructor
    · rintro ⟨middle, hmiddle, hlater⟩
      have hsame := visit_unlimited hmiddle
      rw [hnext] at hsame
      obtain rfl := Except.ok.inj (Option.some.inj hsame)
      exact ⟨hmiddle, hlater⟩
    · rintro ⟨hmiddle, hlater⟩
      exact ⟨next, hmiddle, hlater⟩

/-- A visit under a limit, from a state in which exactly the profiles are visited that were seen
before the path. -/
theorem visit_under_limit {id : String} {parent : Option String} {state left : VisitState σ}
    (hstack : Stacked graph state.visiting id)
    (hseen : ∀ other, other ∈ state.visited ↔
      SeenBefore (parentsOf graph) (state.visiting ++ [id]) other)
    (h : visit none (fun id => .ok (graph id)) apply depth id parent state = some (.ok left)) :
    UnderLimit graph apply limit depth id parent state left := by
  induction depth generalizing id parent state left with
  | zero => cases h
  | succ depth ih =>
    have hclosed : ∀ a ∈ state.visited, ∀ b ∈ parentsOf graph a, b ∈ state.visited := by
      intro a ha b hb
      rw [hseen] at ha ⊢
      exact ha.trans (.single hb)
    obtain ⟨hvisiting, hvisited⟩ := visit_leaves hstack hclosed h
    refine ⟨?_, hvisiting, hvisited⟩
    have hlast : (state.visiting ++ [id]).getLast? = some id := List.getLast?_concat ..
    have hlength : (∀ bound ∈ some limit, state.visiting.length < bound) ↔
        (state.visiting ++ [id]).length ≤ limit := by
      rw [List.length_append, List.length_singleton]
      simp only [Option.mem_def, Option.some.injEq, forall_eq', Nat.lt_iff_add_one_le]
    rw [visit_ok_iff, hlength]
    simp only [entered_iff hlast, ← hseen]
    obtain ⟨hin, -, ⟨hdone, rfl⟩ | ⟨hnew, value, parents, looped, applied, hentry⟩⟩ :=
      visit_ok_iff.mp h
    · constructor
      · rintro ⟨-, hlimit, -⟩ path (rfl | ⟨hnew, -⟩)
        · exact hlimit
        · exact absurd hdone hnew
      · intro hall
        exact ⟨hin, hall _ (Or.inl rfl), Or.inl ⟨hdone, rfl⟩⟩
    · have hgraph : graph id = some (value, parents) := Except.ok.inj hentry.loaded
      have hparents : parentsOf graph id = parents := parentsOf_some hgraph
      have hgood := validateExtends_ok_iff.mp hentry.valid
      have hloop : visitParents (fun parent => visit (some limit) (fun id => .ok (graph id)) apply
          depth parent (some id)) parents { state with visiting := state.visiting ++ [id] } =
            some (.ok looped) ↔
          ∀ parent ∈ parents, ∀ entered,
            Entered (parentsOf graph) (state.visiting ++ [id] ++ [parent]) entered →
              entered.length ≤ limit := by
        refine visitParents_limited_iff hlast (hparents ▸ hgood.nodup) ?_
          (hparents.trans (List.nil_append _).symm) rfl (by simpa using hseen) hentry.ascends
        intro other hother inner after hinner hfirst hone
        exact ih (hinner ▸ hstack.push hin hgraph hother) (hinner ▸ hfirst) hone
      constructor
      · rintro ⟨-, hlimit, ⟨hdone, -⟩ | ⟨-, value', parents', looped', applied', hentry'⟩⟩
        · exact absurd hdone hnew
        · have hnode := hentry'.loaded
          rw [hentry.loaded] at hnode
          cases hnode
          have hsame := visitParents_of_ok
            (fun parent state left hparent => visit_unlimited hparent) hentry'.ascends
          rw [hentry.ascends] at hsame
          cases hsame
          rintro path (rfl | ⟨-, other, hother, hentered⟩)
          · exact hlimit
          · exact hloop.mp hentry'.ascends other (hparents ▸ hother) path hentered
      · intro hall
        refine ⟨hin, hall _ (Or.inl rfl), Or.inr ⟨hnew, value, parents, looped, applied,
          hentry.loaded, hentry.valid, hloop.mpr ?_, hentry.applies, hentry.leaves⟩⟩
        intro other hother entered hentered
        exact hall entered (Or.inr ⟨hnew, other, hparents ▸ hother, hentered⟩)

end limit

/-! ## The limit of a traversal -/

/-- A chain of extends edges from the root. -/
def ChainFrom (graph : Graph τ) (root : String) (path : List String) : Prop :=
  IsChain graph path ∧ path.head? = some root

/-- The traversals of the graph that succeed under the limit have no chain beyond it. -/
def KeepsDepth (σ ε : Type) (graph : Graph τ) (root : String) (limit : Nat) : Prop :=
  ∀ (depth : Nat) (apply : String → τ → σ → Except ε σ) (start final : σ),
    traverseWithMaxDepth depth (some limit) (fun id => .ok (graph id)) apply root start =
      some (.ok final) →
    ∀ path, ChainFrom graph root path → path.length ≤ limit

/-- The traversal meets its limit: at the root, or where it goes on from a profile to a parent, by
the first chain that leads to the profile. -/
def LimitMet (graph : Graph τ) (root : String) (limit : Nat) : Prop :=
  limit = 0 ∨ ∃ path profile, FirstPath (parentsOf graph) root path ∧
    path.getLast? = some profile ∧ parentsOf graph profile ≠ [] ∧ limit ≤ path.length

theorem limitMet_iff {root : String} {limit : Nat} :
    LimitMet graph root limit ↔
      ¬ ∀ path, Entered (parentsOf graph) [root] path → path.length ≤ limit := by
  simp only [not_forall, not_le, entered_root_iff, LimitMet]
  constructor
  · rintro (rfl | ⟨path, profile, hfirst, hlast, hparents, hlong⟩)
    · exact ⟨[root], Or.inl rfl, by simp⟩
    · obtain ⟨parent, hparent⟩ := List.exists_mem_of_ne_nil _ hparents
      refine ⟨path ++ [parent], Or.inr ⟨path, profile, parent, rfl, hfirst, hlast, hparent⟩, ?_⟩
      rw [List.length_append, List.length_singleton]
      omega
  · rintro ⟨path, rfl | ⟨before, profile, parent, rfl, hfirst, hlast, hparent⟩, hlong⟩
    · left
      simpa using hlong
    · right
      refine ⟨before, profile, hfirst, hlast, List.ne_nil_of_mem hparent, ?_⟩
      rw [List.length_append, List.length_singleton] at hlong
      omega

theorem traverse_ok_iff {max_depth : Option Nat}
    {load : String → Except ε (Option (τ × List String))} {root : String} {depth : Nat}
    {start final : σ} :
    traverseWithMaxDepth depth max_depth load apply root start = some (.ok final) ↔
      ∃ left, visit max_depth load apply depth root none { applied := start } = some (.ok left) ∧
        left.applied = final := by
  unfold traverseWithMaxDepth
  rcases visit max_depth load apply depth root none { applied := start } with _ | error | left
  · simp
  · simp [Except.map]
  · simp [Except.map]

/-- A traversal that succeeds without a limit succeeds under one exactly when it does not meet
it. -/
theorem traverse_limited_iff {root : String} {limit depth : Nat} {start final : σ} :
    traverseWithMaxDepth depth (some limit) (fun id => .ok (graph id)) apply root start =
        some (.ok final) ↔
      traverseWithMaxDepth depth none (fun id => .ok (graph id)) apply root start =
        some (.ok final) ∧ ¬ LimitMet graph root limit := by
  have hunder : ∀ left, visit none (fun id => .ok (graph id)) apply depth root none
      { applied := start } = some (.ok left) →
        UnderLimit graph apply limit depth root none { applied := start } left :=
    fun left h => visit_under_limit (stacked_root graph root)
      (by simp [not_seenBefore_single]) h
  rw [traverse_ok_iff, traverse_ok_iff, limitMet_iff, not_not]
  constructor
  · rintro ⟨left, h, hfinal⟩
    have hfree := visit_unlimited h
    exact ⟨⟨left, hfree, hfinal⟩, (hunder left hfree).limited.mp h⟩
  · rintro ⟨⟨left, hfree, hfinal⟩, hpaths⟩
    exact ⟨left, (hunder left hfree).limited.mpr hpaths, hfinal⟩

theorem traverse_succeeds (hfinite : {id | (graph id).isSome = true}.Finite) {root : String}
    (hbroken : ¬ ∃ id, Reaches (parentsOf graph) root id ∧ Broken graph id)
    (happly : ∀ id value applied, ∃ next, apply id value applied = .ok next) (start : σ) :
    ∃ depth final, traverseWithMaxDepth depth none (fun id => .ok (graph id)) apply root start =
      some (.ok final) := by
  have hroot : Stacked graph (VisitState.visiting { applied := start }) root := stacked_root graph root
  have hends : visit none (fun id => .ok (graph id)) apply (hfinite.toFinset.card + 1) root none
      { applied := start } ≠ none :=
    visit_ends hfinite.toFinset (by simp) hroot (by simp)
  obtain ⟨visited, hvisited⟩ := Option.ne_none_iff_exists'.mp hends
  have houtcome : Outcome graph apply [] [root] { applied := start } (some visited) := by
    rw [← hvisited]
    exact visit_outcome hroot (by simp)
  cases houtcome with
  | @Done left order h =>
    exact ⟨hfinite.toFinset.card + 1, left.applied, traverse_ok_iff.mpr ⟨left, hvisited, rfl⟩⟩
  | @Graph error h =>
    obtain ⟨id, hid, hexplains⟩ := h
    obtain rfl := List.mem_singleton.mp hid
    exact absurd hexplains.broken hbroken
  | @Source error h =>
    obtain ⟨id, value, applied, herror⟩ := h
    obtain ⟨next, hnext⟩ := happly id value applied
    rw [hnext] at herror
    cases herror

theorem not_broken_of_traverse {root : String} {depth : Nat} {start final : σ}
    (h : traverseWithMaxDepth depth none (fun id => .ok (graph id)) apply root start =
      some (.ok final)) {id : String} (hreaches : Reaches (parentsOf graph) root id) :
    ¬ Broken graph id := by
  obtain ⟨left, hvisit, -⟩ := traverse_ok_iff.mp h
  have houtcome : Outcome graph apply [] [root] { applied := start }
      (visit none (fun id => .ok (graph id)) apply depth root none { applied := start }) :=
    visit_outcome (stacked_root graph root) (by simp)
  rw [hvisit] at houtcome
  cases houtcome with
  | Done hleft => exact hleft.not_broken hreaches

/-- The depth limit holds of the chains of extends edges exactly when the traversal finds the graph
broken, or when it meets the limit on its own way in case that some chain is beyond it. -/
theorem depth_limit_holds_iff [Inhabited σ] (graph : Graph τ)
    (hfinite : {id | (graph id).isSome = true}.Finite) (root : String) (limit : Nat) :
    KeepsDepth σ ε graph root limit ↔
      (∃ id, Reaches (parentsOf graph) root id ∧ Broken graph id) ∨
        ((∃ path, ChainFrom graph root path ∧ limit < path.length) → LimitMet graph root limit) := by
  constructor
  · intro hkeeps
    by_cases hbroken : ∃ id, Reaches (parentsOf graph) root id ∧ Broken graph id
    · exact Or.inl hbroken
    refine Or.inr fun ⟨path, hchain, hlong⟩ => ?_
    by_contra hlimit
    obtain ⟨depth, final, hfree⟩ := traverse_succeeds (ε := ε) hfinite hbroken
      (fun _ _ applied => ⟨applied, rfl⟩) (default : σ)
    have hwithin := hkeeps depth _ _ final (traverse_limited_iff.mpr ⟨hfree, hlimit⟩) path hchain
    omega
  · rintro h depth apply start final hok path hchain
    obtain ⟨hfree, hlimit⟩ := traverse_limited_iff.mp hok
    rcases h with ⟨id, hreaches, hbroken⟩ | h
    · exact absurd hbroken (not_broken_of_traverse hfree hreaches)
    · by_contra hlong
      exact hlimit (h ⟨path, hchain, not_le.mp hlong⟩)

/-- A profile with two parents that it lists in some order, one of which extends the other. -/
def diamond (parents : List String) (id : String) : Option (Unit × List String) :=
  if id = "dev" then some ((), parents)
  else if id = "tools" then some ((), ["base"])
  else if id = "base" then some ((), ["core"])
  else if id = "core" then some ((), [])
  else none

theorem diamond_finite (parents : List String) :
    {id | (diamond parents id).isSome = true}.Finite := by
  refine Set.Finite.subset (Set.toFinite {"dev", "tools", "base", "core"}) fun id hid => ?_
  change (diamond parents id).isSome = true at hid
  unfold diamond at hid
  split_ifs at hid with hdev htools hbase hcore
  · exact Or.inl hdev
  · exact Or.inr (Or.inl htools)
  · exact Or.inr (Or.inr (Or.inl hbase))
  · exact Or.inr (Or.inr (Or.inr hcore))
  · cases hid

theorem diamond_chain : ChainFrom (diamond ["base", "tools"]) "dev" ["dev", "tools", "base", "core"] := by
  refine ⟨?_, rfl⟩
  unfold IsChain
  decide

/-- Under a limit of three, the order of the parents decides whether a chain of four profiles is
found. -/
theorem diamond_exceeds_limit :
    ¬ KeepsDepth (List String) Empty (diamond ["base", "tools"]) "dev" 3 ∧
      traverseWithMaxDepth 5 (some 3) (fun id => .ok (diamond ["base", "tools"] id)) collect "dev"
        [] = some (.ok ["core", "base", "tools", "dev"]) ∧
      traverseWithMaxDepth 5 (some 3) (fun id => .ok (diamond ["tools", "base"] id)) collect "dev"
        [] = some (.error (.Graph (.InheritanceDepthExceeded 3))) := by
  have hrun : traverseWithMaxDepth 5 (some 3) (fun id => .ok (diamond ["base", "tools"] id)) collect
      "dev" [] = some (.ok ["core", "base", "tools", "dev"]) := by
    rfl
  refine ⟨fun h => ?_, hrun, by rfl⟩
  have hwithin := h 5 collect [] _ hrun _ diamond_chain
  exact absurd hwithin (by decide)

theorem depth_limit_holds_of_diamond :
    KeepsDepth (List String) Empty (diamond ["tools", "base"]) "dev" 3 := by
  refine (depth_limit_holds_iff _ (diamond_finite _) "dev" 3).mpr (Or.inr fun _ => Or.inr ?_)
  have hfirst : FirstPath (parentsOf (diamond ["tools", "base"])) "dev" ["dev", "tools", "base"] := by
    refine ⟨by decide, rfl, fun last hlast => ?_⟩
    obtain rfl := Option.some.inj hlast
    simp [SeenBefore, parentsOf, diamond]
  exact ⟨_, "base", hfirst, rfl, by decide, by decide⟩

end profile_graph
