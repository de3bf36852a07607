-- Where an action mentions the identity, and where the plan resolves it before:
-- `references_identity` reads the paths, the owner and the user, but neither the
-- content nor the condition.
import NixosDockers.BootstrapModel.PlanOrder

open rust_text results

namespace bootstrap_model

/-! ## Mentions -/

def ConditionValue.mentionsIdentity : ConditionValue → Bool
  | .Reference reference => startsWith reference "identity."
  | _ => false

/-- The condition compares with the identity, or asks for a path of it. -/
def Condition.mentionsIdentity : Condition → Bool
  | .Equal left right | .NotEqual left right => left.mentionsIdentity || right.mentionsIdentity
  | .Exists path | .Writable path => hasText path.text Action.identityMark
  | .And parts | .Or parts => anyMentions parts
  | .Not part => part.mentionsIdentity
  | .Always | .Boolean _ | .ContextPathExistsOrCreate | .InputSet _ | .Feature _ => false
where
  anyMentions : List Condition → Bool
  | [] => false
  | part :: parts => part.mentionsIdentity || anyMentions parts

namespace Action

/-- The texts of an action in which an identity reference can stand. -/
def identityTexts (action : Action) : List (Option String) :=
  [action.path, action.link, action.target, action.owner, action.user, action.shell,
    action.host_key_dir, action.authorized_keys_dir, action.authorized_keys_source,
    action.runtime_dir, action.subgroup, action.shadow_path, action.mode, action.content]

def conditionMentionsIdentity (action : Action) : Bool :=
  match action.condition with
  | .ok condition => condition.mentionsIdentity
  | .error _ => false

/-- The action mentions the identity in a text, as its owner or user, or in its condition. -/
def mentionsIdentity (action : Action) : Bool :=
  action.identityTexts.reduceOption.any (hasText · identityMark) ||
    action.owner = some "identity.target" || action.user = some "identity.target" ||
    action.conditionMentionsIdentity

end Action

/-! ## The plan -/

/-- Every planned action that mentions the identity comes behind an `identity.resolve`. -/
def ResolvesBeforeMentions (config : BootstrapConfig) (plan : Plan) : Prop :=
  ∀ before p after, plan.actions = before ++ p :: after →
    ∀ action ∈ config.actions, action.id = p.id → action.mentionsIdentity = true →
      ∃ q ∈ before, q.kind = .IdentityResolve

/-- What `references_identity` misses is not there: the identity is mentioned only by other actions
than `identity.resolve`, and in the content and the condition only where it is resolved. -/
def MentionsSeen (config : BootstrapConfig) : Prop :=
  ∀ action ∈ config.actions, action.mentionsIdentity = true →
    action.kind ≠ .IdentityResolve ∧
      (action.referencesIdentity = true ∨ ∃ a ∈ config.actions, a.kind = .IdentityResolve)

instance (config : BootstrapConfig) : Decidable (MentionsSeen config) :=
  inferInstanceAs (Decidable (∀ action ∈ config.actions, action.mentionsIdentity = true →
    action.kind ≠ .IdentityResolve ∧
      (action.referencesIdentity = true ∨ ∃ a ∈ config.actions, a.kind = .IdentityResolve)))

/-- Each declared action has its place in the plan. -/
theorem exists_planned {config : BootstrapConfig} {plan : Plan}
    (hplan : Plan.fromConfig config = .ok plan) {action : Action} (haction : action ∈ config.actions) :
    ∃ p ∈ plan.actions, PlannedFrom config p action := by
  obtain ⟨order, horder, hfrom, _⟩ := fromConfig_order hplan
  exact forall₂_mem_left hfrom (horder.perm.mem_iff.mpr haction)

/-- The identity is resolved before each mention of it just when no mention is missed. -/
theorem resolves_before_mentions_iff (config : BootstrapConfig) (plan : Plan)
    (hplan : Plan.fromConfig config = .ok plan) :
    ResolvesBeforeMentions config plan ↔ MentionsSeen config := by
  obtain ⟨hconfig, _⟩ := fromConfig_ok hplan
  constructor
  · intro h action haction hmentions
    obtain ⟨p, hp, hfrom⟩ := exists_planned hplan haction
    obtain ⟨before, after, hsplit⟩ := List.append_of_mem hp
    obtain ⟨q, hq, hkind⟩ := h before p after hsplit action haction hfrom.id.symm hmentions
    have hqplan : q ∈ plan.actions := by
      rw [hsplit]
      exact List.mem_append_left _ hq
    obtain ⟨resolve, hresolve, hqfrom⟩ := plan_action_declared hplan hqplan
    have hrkind : resolve.kind = .IdentityResolve := by rw [← hqfrom.kind, hkind]
    refine ⟨?_, Or.inr ⟨resolve, hresolve, hrkind⟩⟩
    intro hakind
    -- the only `identity.resolve` would stand before itself
    have hsame : resolve = action := by
      have hfirst := (head?_ofKind hconfig.unique.resolve).mpr ⟨hresolve, hrkind⟩
      have hsecond := (head?_ofKind hconfig.unique.resolve).mpr ⟨haction, hakind⟩
      exact Option.some.inj (hfirst.symm.trans hsecond)
    have hnodup := plan_ids_nodup hplan
    rw [hsplit, List.map_append, List.map_cons, List.nodup_append] at hnodup
    refine hnodup.2.2 q.id (List.mem_map_of_mem hq) p.id List.mem_cons_self ?_
    rw [hqfrom.id, hfrom.id, hsame]
  · intro h before p after hsplit action haction hid hmentions
    obtain ⟨hkind, hseen⟩ := h action haction hmentions
    obtain ⟨resolve, hresolve, hrkind⟩ : ∃ a ∈ config.actions, a.kind = .IdentityResolve := by
      rcases hseen with href | hthere
      · exact hconfig.resolved action haction hkind href
      · exact hthere
    have hp : p ∈ plan.actions := by
      rw [hsplit]
      simp
    obtain ⟨declared, hdeclared, hfrom⟩ := plan_action_declared hplan hp
    obtain rfl := eq_of_same_id hconfig.ids hdeclared haction (by rw [← hfrom.id, hid])
    have hdepends : resolve.id ∈ p.depends_on :=
      (hfrom.depends_on _).mpr ⟨resolve, hresolve, rfl, Or.inr (Or.inl ⟨hrkind, hkind⟩)⟩
    obtain ⟨q, hq, hqid⟩ := plan_dependency_before hplan hsplit hdepends
    have hqplan : q ∈ plan.actions := by
      rw [hsplit]
      exact List.mem_append_left _ hq
    obtain ⟨other, hother, hqfrom⟩ := plan_action_declared hplan hqplan
    obtain rfl := eq_of_same_id hconfig.ids hother hresolve (by rw [← hqfrom.id, hqid])
    exact ⟨q, hq, by rw [hqfrom.kind, hrkind]⟩

/-- A handoff for the user 0 alone, behind the actions given. -/
def guardedHandoff (actions : List Action) : BootstrapConfig where
  workspace_root := "/w"
  identity := {}
  handoff := { runtime := "/bin/sh" }
  actions := actions ++
    [{ id := "handoff", kind := .HandoffExec, when := some "identity.uid == 0", origin := imageOrigin }]

/-- The ids of a plan that is built. -/
theorem exists_plan_ids (config : BootstrapConfig) (ids : List String)
    (h : (Plan.fromConfig config).toOption.map (fun plan => plan.actions.map (·.id)) = some ids) :
    ∃ plan, Plan.fromConfig config = .ok plan ∧ plan.actions.map (·.id) = ids := by
  cases hplan : Plan.fromConfig config with
  | ok plan => exact ⟨plan, rfl, by simpa [hplan, Except.toOption] using h⟩
  | error e => simp [hplan, Except.toOption] at h

theorem guarded_handoff_is_resolved :
    let config := guardedHandoff
      [{ id := "resolve", kind := .IdentityResolve, run_as := .Root, origin := imageOrigin }]
    ∃ plan, Plan.fromConfig config = .ok plan ∧ ResolvesBeforeMentions config plan := by
  intro config
  obtain ⟨plan, hplan, _⟩ := exists_plan_ids config ["resolve", "handoff"]
    (by decide +kernel)
  exact ⟨plan, hplan, (resolves_before_mentions_iff config plan hplan).mpr (by decide +kernel)⟩

/-- Without an `identity.resolve`, a condition on the identity is planned all the same. -/
theorem condition_without_resolve :
    ¬ ∀ config plan, Plan.fromConfig config = .ok plan → ResolvesBeforeMentions config plan := by
  intro h
  obtain ⟨plan, hplan, hids⟩ := exists_plan_ids (guardedHandoff []) ["handoff"]
    (by decide +kernel)
  obtain ⟨p, hactions, hid⟩ := List.map_eq_singleton_iff.mp hids
  obtain ⟨q, hq, _⟩ := h _ plan hplan [] p [] hactions _ List.mem_cons_self hid.symm
    (by decide +kernel)
  cases hq

end bootstrap_model
