-- Environment values must be there when they are read: an evaluation that comes
-- to a name with no value fails and tells the name, so every environment value
-- that is read shows in the result.
import NixosDockers.BootstrapModel.PathTemplates
import NixosDockers.Core.Reads

open bootstrap_model rust_text queries

namespace init_core

/-- The environment name that is asked for. -/
def Ask.environmentName : Ask → Option String
  | .Reference reference | .Interpolation reference => stripStart reference "env."
  | .InputSet _ => none

/-! ## The name in an error -/

def unsetMessage (reference : String) : String :=
  "ambient environment value " ++ debugText reference ++ " is not set"

def missingMessage (reference : String) : String :=
  "missing path interpolation value " ++ debugText reference

theorem unsetMessage_injective : Function.Injective unsetMessage := by
  intro first second h
  unfold unsetMessage at h
  have hlists := congrArg String.toList h
  simp only [String.toList_append, List.append_cancel_left_eq, List.append_cancel_right_eq] at hlists
  exact debugText_injective (String.toList_inj.mp hlists)

theorem missingMessage_injective : Function.Injective missingMessage := by
  intro first second h
  unfold missingMessage at h
  exact debugText_injective (append_injective "missing path interpolation value " h)

theorem head_append {start : String} {c : Char} (h : start.toList.head? = some c) (rest : String) :
    (start ++ rest).toList.head? = some c := by
  rw [String.toList_append, List.head?_append, h]
  rfl

theorem unsetMessage_head (reference : String) : (unsetMessage reference).toList.head? = some 'a' := by
  unfold unsetMessage
  rw [String.append_assoc]
  exact head_append (by decide) _

theorem missingMessage_head (reference : String) :
    (missingMessage reference).toList.head? = some 'm' :=
  head_append (by decide) _

theorem unsetMessage_ne_missingMessage (first second : String) :
    unsetMessage first ≠ missingMessage second := by
  intro h
  have hhead := unsetMessage_head first
  rw [h, missingMessage_head] at hhead
  cases hhead

open Classical in
/-- The environment name that a message tells. -/
noncomputable def unsetName (message : String) : Option String :=
  if h : ∃ name, message = unsetMessage ("env." ++ name) ∨ message = missingMessage ("env." ++ name)
    then some h.choose
  else none

theorem unsetName_unset (name : String) : unsetName (unsetMessage ("env." ++ name)) = some name := by
  have h : ∃ other, unsetMessage ("env." ++ name) = unsetMessage ("env." ++ other) ∨
      unsetMessage ("env." ++ name) = missingMessage ("env." ++ other) := ⟨name, Or.inl rfl⟩
  unfold unsetName
  rw [dif_pos h, Option.some.injEq]
  rcases h.choose_spec with hsame | hsame
  · exact (append_injective _ (unsetMessage_injective hsame)).symm
  · exact absurd hsame (unsetMessage_ne_missingMessage _ _)

theorem unsetName_missing (name : String) :
    unsetName (missingMessage ("env." ++ name)) = some name := by
  have h : ∃ other, missingMessage ("env." ++ name) = unsetMessage ("env." ++ other) ∨
      missingMessage ("env." ++ name) = missingMessage ("env." ++ other) := ⟨name, Or.inr rfl⟩
  unfold unsetName
  rw [dif_pos h, Option.some.injEq]
  rcases h.choose_spec with hsame | hsame
  · exact absurd hsame.symm (unsetMessage_ne_missingMessage _ _)
  · exact (append_injective _ (missingMessage_injective hsame)).symm

/-- A value that is no environment value tells no environment name. -/
theorem unsetName_missing_other {reference : String} (h : stripStart reference "env." = none) :
    unsetName (missingMessage reference) = none := by
  unfold unsetName
  rw [dif_neg]
  rintro ⟨name, hsame | hsame⟩
  · exact unsetMessage_ne_missingMessage _ _ hsame.symm
  · rw [missingMessage_injective hsame, stripStart_eq_none_iff] at h
    simp [startsWith] at h

theorem unsetName_of_head {message : String} {c : Char} (h : message.toList.head? = some c)
    (hunset : c ≠ 'a') (hmissing : c ≠ 'm') : unsetName message = none := by
  unfold unsetName
  rw [dif_neg]
  rintro ⟨name, rfl | rfl⟩
  · rw [unsetMessage_head] at h
    exact hunset (Option.some.inj h).symm
  · rw [missingMessage_head] at h
    exact hmissing (Option.some.inj h).symm

noncomputable def blame : CoreError → Option String
  | .Invalid _ message => unsetName message
  | .Annotated _ _ source => blame source
  | _ => none

noncomputable def runBlame : RunFailure → Option String
  | .Core error => blame error
  | .Panic _ => none

/-! ## The computations tell the names -/

theorem valueQuery_strict (value : ConditionValue) :
    (valueQuery value).Strict Ask.environmentName blame := by
  cases value with
  | Literal text => trivial
  | Boolean value => trivial
  | Reference reference =>
    refine ⟨?_, fun _ => trivial⟩
    dsimp only [Ask.environmentName]
    cases henv : stripStart reference "env." with
    | some name =>
      obtain rfl := stripStart_eq_some_iff.mp henv
      refine ⟨_, rfl, ?_⟩
      have hinput : stripStart ("env." ++ name) "input." = none := by
        rw [stripStart_eq_none_iff]
        simp [startsWith, List.isPrefixOf]
      unfold referenceError
      rw [hinput, henv]
      exact unsetName_unset name
    | none =>
      change blame (referenceError reference) = none
      unfold referenceError
      rw [henv]
      cases stripStart reference "input." with
      | some name =>
        dsimp only
        rw [String.append_assoc]
        exact unsetName_of_head (head_append (c := 'r') (by decide) _) (by decide) (by decide)
      | none =>
        dsimp only
        rw [String.append_assoc]
        exact unsetName_of_head (head_append (c := 'r') (by decide) _) (by decide) (by decide)

section render

variable {ε : Type} {fail : String → ε} {blameNext : ε → Option String}

theorem expandQuery_strict (hfail : ∀ message, blameNext (fail message) = unsetName message)
    (fuel : Nat) (rest : List Char) :
    (expandQuery fail fuel rest).Strict Ask.environmentName blameNext := by
  induction fuel generalizing rest with
  | zero => trivial
  | succ fuel ih =>
    unfold expandQuery
    rcases splitOnce ['$', '\x7b'] rest with _ | ⟨literal, afterStart⟩
    · trivial
    · dsimp only
      rcases splitOnce ['\x7d'] afterStart with _ | ⟨text, after⟩
      · exact (hfail _).trans (unsetName_of_head (c := 'u') (by decide) (by decide) (by decide))
      · refine ⟨?_, fun value => Query.strict_andThen (ih after) fun _ => trivial⟩
        dsimp only [Ask.environmentName]
        cases henv : stripStart (String.ofList text) "env." with
        | some name =>
          refine ⟨_, rfl, (hfail _).trans ?_⟩
          rw [stripStart_eq_some_iff.mp henv]
          exact unsetName_missing name
        | none => exact (hfail _).trans (unsetName_missing_other henv)

theorem renderQuery_strict (hfail : ∀ message, blameNext (fail message) = unsetName message)
    (text : String) : (renderQuery fail text).Strict Ask.environmentName blameNext := by
  refine Query.strict_andThen (expandQuery_strict hfail _ _) fun output => ?_
  cases hrendered : validateRendered (String.ofList output) with
  | ok _ => trivial
  | error message =>
    exact (hfail message).trans
      (unsetName_of_head (validateRendered_head hrendered) (by decide) (by decide))

end render

theorem conditionQuery_strict (features : Std.ExtTreeSet String) (files : FileView)
    (condition : Condition) :
    (conditionQuery features files condition).Strict Ask.environmentName blame := by
  have hrender : ∀ text, (renderQuery ConditionContext.invalid text).Strict
      Ask.environmentName blame := renderQuery_strict fun _ => rfl
  induction condition using condition_induction with
  | always => simp [conditionQuery, Query.Strict]
  | boolean value => simp [conditionQuery, Query.Strict]
  | pathExists => simp [conditionQuery, Query.Strict]
  | feature name => simp [conditionQuery, Query.Strict]
  | exist path =>
    rw [conditionQuery]
    exact Query.strict_andThen (hrender _) fun _ => trivial
  | writable path =>
    rw [conditionQuery]
    exact Query.strict_andThen (hrender _) fun _ => trivial
  | inputSet name =>
    rw [conditionQuery]
    exact ⟨trivial, fun _ => trivial⟩
  | equal left right =>
    rw [conditionQuery]
    refine Query.strict_andThen (valueQuery_strict left) fun _ => ?_
    exact Query.strict_andThen (valueQuery_strict right) fun _ => trivial
  | notEqual left right =>
    rw [conditionQuery]
    refine Query.strict_andThen (valueQuery_strict left) fun _ => ?_
    exact Query.strict_andThen (valueQuery_strict right) fun _ => trivial
  | all parts ih =>
    rw [conditionQuery]
    induction parts with
    | nil => simp [conditionQuery.allQuery, Query.Strict]
    | cons part parts ihParts =>
      rw [conditionQuery.allQuery]
      refine Query.strict_andThen (ih part (by simp)) fun value => ?_
      have hrest := ihParts fun other hother => ih other (by simp [hother])
      split_ifs
      · trivial
      · exact hrest
  | any parts ih =>
    rw [conditionQuery]
    induction parts with
    | nil => simp [conditionQuery.anyQuery, Query.Strict]
    | cons part parts ihParts =>
      rw [conditionQuery.anyQuery]
      refine Query.strict_andThen (ih part (by simp)) fun value => ?_
      have hrest := ihParts fun other hother => ih other (by simp [hother])
      split_ifs
      · trivial
      · exact hrest
  | negation part ih =>
    rw [conditionQuery]
    exact Query.strict_andThen ih fun _ => trivial

/-! ## The actions tell the names -/

theorem holdsQuery_strict (features : Std.ExtTreeSet String) (files : FileView) (action : Action) :
    (holdsQuery features files action).Strict Ask.environmentName blame := by
  unfold holdsQuery
  split
  · rfl
  · exact Query.strict_mapError (fun _ => rfl) (conditionQuery_strict features files _)

theorem renderPathQuery_strict (action field value : String) :
    (renderPathQuery action field value).Strict Ask.environmentName blame := by
  unfold renderPathQuery
  split
  · rfl
  · apply renderQuery_strict
    intro message
    rfl

theorem requiredPathQuery_strict (action : Action) (field : String) (value : Option String) :
    (requiredPathQuery action field value).Strict Ask.environmentName blame := by
  unfold requiredPathQuery
  split
  · exact renderPathQuery_strict _ _ _
  · exact unsetName_of_head (c := 'f') (by decide) (by decide) (by decide)

theorem expectField_strict {α : Type} (value : Option String) (message : String) (f : String → α) :
    (Query.Done ((expectField value message).map f) :
      Query Ask String (Except RunFailure α)).Strict Ask.environmentName runBlame := by
  cases value with
  | none => rfl
  | some value => trivial

theorem effectQuery_strict (identity : ResolvedIdentity) (options : ExecutionOptions)
    (action : Action) :
    (effectQuery identity options action).Strict Ask.environmentName runBlame := by
  have hrequired : ∀ field value, ((requiredPathQuery action field value).mapError
      RunFailure.Core).Strict Ask.environmentName runBlame := fun field value =>
    Query.strict_mapError (fun _ => rfl) (requiredPathQuery_strict action field value)
  have hrender : ∀ field value, ((renderPathQuery action.id field value).mapError
      RunFailure.Core).Strict Ask.environmentName runBlame := fun field value =>
    Query.strict_mapError (fun _ => rfl) (renderPathQuery_strict action.id field value)
  unfold effectQuery
  cases action.kind with
  | IdentityEnsureHome =>
    dsimp only
    refine Query.strict_andThen ?_ fun _ => trivial
    cases action.path with
    | none => trivial
    | some path => exact hrender "path" path
  | FilesystemEnsureDir | FilesystemEnsureFile =>
    exact Query.strict_andThen (hrequired _ _) fun _ => trivial
  | FilesystemEnsureSymlink =>
    refine Query.strict_andThen (hrequired _ _) fun _ => ?_
    exact Query.strict_andThen (hrequired _ _) fun _ => trivial
  | FilesystemChown | FilesystemChmod =>
    exact Query.strict_andThen (hrequired _ _) fun _ => expectField_strict _ _ _
  | ProcessSetUserShell =>
    refine Query.strict_andThen ?_ fun named => ?_
    · cases action.shell <;> cases action.user <;>
        simp only [expectField, bind, Except.bind, pure, Except.pure] <;> split_ifs <;> trivial
    · exact Query.strict_andThen (hrender _ _) fun _ => trivial
  | ServiceSshPrepare =>
    dsimp only
    split_ifs
    · trivial
    · rfl
  | _ => trivial

theorem actionPathQuery_strict (action : Action) :
    (actionPathQuery action).Strict Ask.environmentName blame := by
  unfold actionPathQuery
  split
  · trivial
  · exact Query.strict_andThen (renderPathQuery_strict _ _ _) fun _ => trivial

end init_core
