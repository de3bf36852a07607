-- The containment of requests in the workspace: both normalisations of paths
-- come to the lexical normal form, so that the coordinator and the key of a
-- materialization accept the same directories.
import Mathlib.Logic.Relation
import NixosDockers.DevEnv.KeyComplete
import NixosDockers.Lib.Results

open rust_text results

namespace dev_env

/-! ## Lexical normal forms -/

/-- One step on the way to the normal form: a dot goes, a component goes with the parent after it,
and the root is its own parent. -/
inductive Reduces : List String → List String → Prop
  | Dot (front rest : List String) : Reduces (front ++ "." :: rest) (front ++ rest)
  | Parent (front rest : List String) (part : String) (plain : Plain part) (h : part ≠ "..") :
      Reduces (front ++ part :: ".." :: rest) (front ++ rest)
  | Root (rest : List String) : Reduces ("/" :: ".." :: rest) ("/" :: rest)

/-- The lexical normal form of a path: its components reduced until no dots are left. -/
def LexicalForm (path : String) (form : List String) : Prop :=
  Relation.ReflTransGen Reduces (components path) form ∧
    ∀ part ∈ form, part ≠ "." ∧ part ≠ ".."

/-! ## The two loops -/

variable {output parts form : List String} {component path cwd workspace : String}

/-- Only the root ends in the root. -/
theorem Normal.getLast?_root (h : Normal output) :
    output.getLast? = some "/" ↔ output = ["/"] := by
  constructor
  · intro hlast
    cases h with
    | Relative h => exact absurd rfl (h "/" (List.mem_of_getLast? hlast)).1.ne_root
    | Absolute h =>
      rename_i parts
      by_cases hparts : parts = []
      · rw [hparts]
      · rw [List.getLast?_cons, List.getLast?_eq_some_getLast hparts] at hlast
        have hroot : "/" ∈ parts := Option.some.inj hlast ▸ List.getLast_mem hparts
        exact absurd rfl (h "/" hroot).1.ne_root
  · rintro rfl
    rfl

/-- A pop that fails and a guard of the root come to the same. -/
theorem normalizeAbsoluteStep_eq (h : Normal output) :
    normalizeAbsoluteStep output component = normalizeStep output component := by
  unfold normalizeAbsoluteStep normalizeStep
  by_cases hdot : component = "."
  · rw [if_pos hdot, if_pos hdot]
  · rw [if_neg hdot, if_neg hdot]
    by_cases hparent : component = ".."
    · rw [if_pos hparent, if_pos hparent]
      have hroot := h.getLast?_root
      cases hlast : output.getLast? with
      | none =>
        rw [List.getLast?_eq_none_iff.mp hlast]
        rfl
      | some last =>
        rw [hlast] at hroot
        by_cases hslash : last = "/"
        · rw [if_pos (hroot.mp (congrArg some hslash)), if_neg]
          simp [hslash]
        · rw [if_neg fun heq => hslash (Option.some.inj (hroot.mpr heq)), if_pos]
          simp [hslash]
    · rw [if_neg hparent, if_neg hparent]

theorem foldl_normalizeAbsoluteStep_eq (h : Normal output) (hparts : ∀ part ∈ parts, Plain part) :
    parts.foldl normalizeAbsoluteStep output = parts.foldl normalizeStep output := by
  induction parts generalizing output with
  | nil => rfl
  | cons part rest ih =>
    rw [List.foldl_cons, List.foldl_cons, normalizeAbsoluteStep_eq h]
    exact ih (h.normalizeStep (hparts part List.mem_cons_self)) fun other hother =>
      hparts other (List.mem_cons_of_mem _ hother)

theorem normalizeAbsolutePath_eq_normalizePath (path : String) :
    normalizeAbsolutePath path = normalizePath path := by
  have hplain : ∀ part ∈ normalComponents path, Plain part := fun _ => plain_of_mem_normalComponents
  have hnil : Normal [] := .Relative fun _ hpart => by cases hpart
  have hroot : Normal ["/"] := .Absolute fun _ hpart => by cases hpart
  rw [normalizePath_eq, normalizeAbsolutePath_eq]
  unfold components
  split_ifs
  · rw [List.foldl_cons, List.foldl_cons]
    exact congrArg joinComponents (foldl_normalizeAbsoluteStep_eq hroot hplain)
  · have hdot : normalizeStep [] "." = [] := if_pos rfl
    have hdot' : normalizeAbsoluteStep [] "." = [] := if_pos rfl
    rw [List.foldl_cons, List.foldl_cons, hdot, hdot', foldl_normalizeAbsoluteStep_eq hnil hplain]
  · exact congrArg joinComponents (foldl_normalizeAbsoluteStep_eq hnil hplain)

theorem normalizePath_normalizePath (path : String) :
    normalizePath (normalizePath path) = normalizePath path := by
  rw [← normalizeAbsolutePath_eq_normalizePath (normalizePath path)]
  exact normalizeAbsolutePath_normalizePath path

theorem components_normalizePath (path : String) :
    components (normalizePath path) = (components path).foldl normalizeStep [] :=
  components_joinComponents (normal_components path)

theorem isAbsolute_normalizePath (h : isAbsolute path = true) :
    isAbsolute (normalizePath path) = true := by
  have hparts : components path = "/" :: normalComponents path := if_pos h
  have hfirst : normalizeStep [] "/" = ["/"] := rfl
  obtain ⟨rest, hrest⟩ := foldl_normalizeStep_root (normalComponents path) []
  rw [normalizePath_eq, hparts, List.foldl_cons, hfirst, hrest]
  exact startsWith_iff.mpr ⟨_, rfl⟩

/-- A workspace without parents keeps its components. -/
theorem components_of_free (habsolute : isAbsolute workspace = true)
    (hfree : ".." ∉ components workspace) :
    components (normalizeAbsolutePath workspace) = components workspace := by
  have hparts : components workspace = "/" :: normalComponents workspace := if_pos habsolute
  have hnormal : Normal (components workspace) := by
    rw [hparts] at hfree ⊢
    refine .Absolute fun part hpart => ⟨plain_of_mem_normalComponents hpart, ?_⟩
    rintro rfl
    exact hfree (List.mem_cons_of_mem _ hpart)
  rw [normalizeAbsolutePath_eq, foldl_normalizeAbsoluteStep hnormal.free, List.nil_append,
    components_joinComponents hnormal]

/-! ## The normal form of a path -/

/-- A step of the reduction does not change what the loop computes. -/
theorem Reduces.foldl {left right : List String} (h : Reduces left right) :
    left.foldl normalizeStep [] = right.foldl normalizeStep [] := by
  cases h with
  | Dot front rest =>
    have hdot (output : List String) : normalizeStep output "." = output := if_pos rfl
    rw [List.foldl_append, List.foldl_cons, hdot, List.foldl_append]
  | Parent front rest part plain hpart =>
    rw [List.foldl_append, List.foldl_cons, List.foldl_cons, List.foldl_append]
    generalize front.foldl normalizeStep [] = output
    have hpushed : normalizeStep output part = output ++ [part] := by
      unfold normalizeStep
      rw [if_neg plain.dot, if_neg hpart]
    have hroot : output ++ [part] ≠ ["/"] := by
      intro heq
      have hlast : (output ++ [part]).getLast? = some "/" := by rw [heq]; rfl
      rw [List.getLast?_concat] at hlast
      exact plain.ne_root (Option.some.inj hlast)
    have hpopped : normalizeStep (output ++ [part]) ".." = output := by
      unfold normalizeStep
      rw [if_neg (by decide), if_pos rfl, if_neg hroot, List.dropLast_concat]
    rw [hpushed, hpopped]
  | Root rest => rfl

theorem foldl_of_reduces {left right : List String} (h : Relation.ReflTransGen Reduces left right) :
    left.foldl normalizeStep [] = right.foldl normalizeStep [] := by
  induction h with
  | refl => rfl
  | tail _ hstep ih => exact ih.trans hstep.foldl

/-- A path has one normal form, which is what the loop computes. -/
theorem LexicalForm.eq (h : LexicalForm path form) :
    form = (components path).foldl normalizeStep [] := by
  obtain ⟨hsteps, hfree⟩ := h
  rw [foldl_of_reduces hsteps, foldl_normalizeStep hfree, List.nil_append]

/-- The loop reduces the components that it has pushed, with those that are left. -/
theorem reduces_foldl {rest : List String} (hrest : ∀ part ∈ rest, Plain part ∧ part ≠ "..")
    (hparts : ∀ part ∈ parts, Plain part) :
    Relation.ReflTransGen Reduces ("/" :: rest ++ parts)
      (parts.foldl normalizeStep ("/" :: rest)) := by
  induction parts generalizing rest with
  | nil =>
    rw [List.append_nil]
    exact .refl
  | cons part parts ih =>
    have hpart : Plain part := hparts part List.mem_cons_self
    have hothers : ∀ other ∈ parts, Plain other := fun other hother =>
      hparts other (List.mem_cons_of_mem _ hother)
    rw [List.foldl_cons]
    unfold normalizeStep
    rw [if_neg hpart.dot]
    by_cases hparent : part = ".."
    · subst hparent
      rw [if_pos rfl]
      rcases List.eq_nil_or_concat' rest with rfl | ⟨front, last, rfl⟩
      · rw [if_pos rfl]
        exact .head (Reduces.Root parts) (ih hrest hothers)
      · obtain ⟨hlast, hlastParent⟩ := hrest last (List.mem_append_right _ List.mem_cons_self)
        have hroot : "/" :: (front ++ [last]) ≠ ["/"] := by simp
        have hfront : ∀ other ∈ front, Plain other ∧ other ≠ ".." := fun other hother =>
          hrest other (List.mem_append_left _ hother)
        have hstep : Reduces ("/" :: (front ++ [last]) ++ ".." :: parts)
            ("/" :: front ++ parts) := by
          have hreduced := Reduces.Parent ("/" :: front) parts last hlast hlastParent
          rwa [List.cons_append, List.append_assoc, List.singleton_append]
        rw [if_neg hroot, ← List.cons_append, List.dropLast_concat]
        exact .head hstep (ih hfront hothers)
    · have happended : ∀ other ∈ rest ++ [part], Plain other ∧ other ≠ ".." := by
        intro other hother
        rcases List.mem_append.mp hother with hold | hnew
        · exact hrest other hold
        · rw [List.mem_singleton.mp hnew]
          exact ⟨hpart, hparent⟩
      have hreduced := ih happended hothers
      rw [List.cons_append, List.append_assoc, List.singleton_append] at hreduced
      rwa [if_neg hparent]

theorem lexicalForm_foldl (h : isAbsolute path = true) :
    LexicalForm path ((components path).foldl normalizeStep []) := by
  have hparts : components path = "/" :: normalComponents path := if_pos h
  have hfirst : normalizeStep [] "/" = ["/"] := rfl
  refine ⟨?_, (normal_components path).free⟩
  rw [hparts, List.foldl_cons, hfirst]
  have hnone : ∀ part ∈ ([] : List String), Plain part ∧ part ≠ ".." := by
    intro part hpart
    cases hpart
  exact reduces_foldl hnone fun _ => plain_of_mem_normalComponents

theorem mem_of_mem_foldl {part : String} (h : part ∈ parts.foldl normalizeStep output) :
    part ∈ output ∨ part ∈ parts := by
  induction parts generalizing output with
  | nil => exact .inl h
  | cons first rest ih =>
    rcases ih h with hstep | hrest
    · unfold normalizeStep at hstep
      split_ifs at hstep
      · exact .inl hstep
      · exact .inl hstep
      · exact .inl (List.dropLast_subset _ hstep)
      · rcases List.mem_append.mp hstep with hold | hnew
        · exact .inl hold
        · rw [List.mem_singleton.mp hnew]
          exact .inr List.mem_cons_self
    · exact .inr (List.mem_cons_of_mem _ hrest)

/-- The root of a normalised path is the root of the path. -/
theorem isAbsolute_of_mem (h : "/" ∈ (components path).foldl normalizeStep []) :
    isAbsolute path = true := by
  by_contra hrelative
  have hplain : "/" ∉ normalComponents path := fun hroot =>
    (plain_of_mem_normalComponents hroot).ne_root rfl
  rcases mem_of_mem_foldl h with hnil | hroot
  · cases hnil
  · unfold components at hroot
    rw [if_neg hrelative] at hroot
    split_ifs at hroot
    · rcases List.mem_cons.mp hroot with hdot | hrest
      · exact absurd hdot (by decide)
      · exact hplain hrest
    · exact hplain hroot

/-! ## The test of the coordinator and the test of the key -/

/-- Both tests compare the same components. -/
theorem pathStartsWith_normalised (habsolute : isAbsolute workspace = true)
    (hfree : ".." ∉ components workspace) :
    pathStartsWith (normalizeAbsolutePath (normalizePath cwd)) (normalizeAbsolutePath workspace) =
      pathStartsWith (normalizePath cwd) workspace := by
  unfold pathStartsWith
  rw [normalizeAbsolutePath_normalizePath, components_of_free habsolute hfree]

theorem validateEntries_inside (entries : List (String × String)) :
    validateEntries entries ≠ .error .CwdOutsideWorkspace := by
  induction entries with
  | nil => exact fun h => by cases h
  | cons entry entries ih =>
    obtain ⟨name, value⟩ := entry
    unfold validateEntries
    by_cases hname : isKeyName name = true
    · by_cases hvalue : hasChar value nul = true
      · simp [hname, hvalue, throw_eq, error_bind]
      · simpa [hname, hvalue] using ih
    · simp [hname, throw_eq, error_bind]

/-- When the validation of a key gets to its test of containment, and fails there. -/
theorem MaterializationKey.validate_outside (key : MaterializationKey) :
    key.validate = .error .CwdOutsideWorkspace ↔
      validateAbsolute "workspace" key.workspace = .ok () ∧
        validateAbsolute "cwd" key.cwd = .ok () ∧
        pathStartsWith key.cwd key.workspace = false := by
  have hpath (name path : String) :
      validateAbsolute name path = .ok () ∨
        validateAbsolute name path = .error (.InvalidPath name path) := by
    unfold validateAbsolute
    split_ifs
    · exact .inr rfl
    · exact .inl rfl
  unfold MaterializationKey.validate
  rcases hpath "workspace" key.workspace with hworkspace | hworkspace
  · rcases hpath "cwd" key.cwd with hcwd | hcwd
    · cases hinside : pathStartsWith key.cwd key.workspace with
      | false => simp [hworkspace, hcwd, throw_eq, error_bind, ok_bind]
      | true =>
        have hvalues (values : Std.ExtTreeMap String String) :
            validateValues values ≠ .error .CwdOutsideWorkspace := validateEntries_inside _
        by_cases hshell : key.shell = "" ∨ hasChar key.shell nul = true
        · simp [hworkspace, hcwd, hshell, throw_eq, error_bind, ok_bind]
        · cases hidentity : key.identity.validate with
          | error source =>
            simp [hworkspace, hcwd, hshell, throw_eq, error_bind, ok_bind]
          | ok =>
            cases hinputs : validateValues key.runtime_inputs with
            | error error =>
              have hother := hvalues key.runtime_inputs
              rw [hinputs] at hother
              simpa [hworkspace, hcwd, hshell, hidentity, hinputs, error_bind, ok_bind] using hother
            | ok =>
              simpa [hworkspace, hcwd, hshell, hidentity, hinputs, ok_bind] using
                hvalues key.ambient_environment
    · simp [hworkspace, hcwd, error_bind, ok_bind]
  · simp [hworkspace, error_bind]

theorem prepareTarget_inside {host : Host} {state : BackendState} {request_id : String}
    {context : RequestContext} {peer : IdentityPeer} {target : BackendState.PrepareTarget}
    (h : state.prepareTarget host request_id context peer = .ok target) :
    pathStartsWith (normalizePath context.cwd) state.snapshot.workspace_root = true := by
  unfold BackendState.prepareTarget at h
  cases hrefusal : BackendState.refusal state.control_plane with
  | some refused =>
    rw [hrefusal] at h
    cases h
  | none =>
    simp only [hrefusal, throw_eq, error_bind, bind_ok_iff, ite_error_ok_iff] at h
    simpa using h.1

/-- The two normalisations of a path are one, its result is a normal form, and so the coordinator
and the key of a materialization accept the same directories: those whose normal form lies under
the workspace. -/
theorem normalisation_agrees (host : Host) (state : BackendState) (request_id : String)
    (context : RequestContext) (peer : IdentityPeer) (identity : EffectiveIdentity)
    (path shell : String) (hpath : isAbsolute path = true)
    (hworkspace : isAbsolute state.snapshot.workspace_root = true)
    (hfree : ".." ∉ components state.snapshot.workspace_root) :
    (normalizeAbsolutePath path = normalizePath path ∧
      isAbsolute (normalizePath path) = true ∧
      (∀ part ∈ components (normalizePath path), part ≠ "." ∧ part ≠ "..") ∧
      normalizePath (normalizePath path) = normalizePath path ∧
      normalizeAbsolutePath (normalizePath path) = normalizePath path) ∧
    (∀ key, key = (MaterializationKeyBuilder.new state.snapshot.generation
          state.snapshot.workspace_root (normalizePath context.cwd) shell identity).key →
        pathStartsWith key.cwd key.workspace =
          pathStartsWith (normalizePath context.cwd) state.snapshot.workspace_root ∧
        (key.validate = .error .CwdOutsideWorkspace ↔
          validateAbsolute "workspace" key.workspace = .ok () ∧
          validateAbsolute "cwd" key.cwd = .ok () ∧
          pathStartsWith (normalizePath context.cwd) state.snapshot.workspace_root = false)) ∧
    (∀ target, state.prepareTarget host request_id context peer = .ok target →
        isAbsolute context.cwd = true ∧
        ∃ form, (∀ other, LexicalForm context.cwd other ↔ other = form) ∧
          components state.snapshot.workspace_root <+: form) := by
  refine ⟨⟨normalizeAbsolutePath_eq_normalizePath path, isAbsolute_normalizePath hpath, ?_,
    normalizePath_normalizePath path, normalizeAbsolutePath_normalizePath path⟩, ?_, ?_⟩
  · rw [components_normalizePath]
    exact (normal_components path).free
  · rintro key rfl
    have htest : pathStartsWith (normalizeAbsolutePath (normalizePath context.cwd))
          (normalizeAbsolutePath state.snapshot.workspace_root) =
        pathStartsWith (normalizePath context.cwd) state.snapshot.workspace_root :=
      pathStartsWith_normalised hworkspace hfree
    refine ⟨htest, ?_⟩
    rw [MaterializationKey.validate_outside]
    exact and_congr_right fun _ => and_congr_right fun _ => iff_of_eq (congrArg (· = false) htest)
  · intro target htarget
    have hunder : components state.snapshot.workspace_root <+:
        components (normalizePath context.cwd) :=
      List.isPrefixOf_iff_prefix.mp (prepareTarget_inside htarget)
    rw [components_normalizePath] at hunder
    have hcwd : isAbsolute context.cwd = true := by
      refine isAbsolute_of_mem (hunder.subset ?_)
      unfold components
      rw [if_pos hworkspace]
      exact List.mem_cons_self
    refine ⟨hcwd, _, fun other => ⟨LexicalForm.eq, ?_⟩, hunder⟩
    rintro rfl
    exact lexicalForm_foldl hcwd

/-- A request from a directory that is written with a parent. -/
theorem written_parent_is_inside :
    normalizeAbsolutePath "/../workspace/./app/.." = "/workspace" ∧
      ∃ form, (∀ other, LexicalForm "/workspace/app/../app" other ↔ other = form) ∧
        ["/", "workspace"] <+: form := by
  obtain ⟨target, htarget⟩ := exists_of_isOk
    (by decide +kernel : (devTarget devHost "prepare").isOk = true)
  have hworkspace : components devSnapshot.workspace_root = ["/", "workspace"] := by decide
  obtain ⟨hpath, -, haccepted⟩ := normalisation_agrees devHost (.new devConfig) "prepare" devContext
    { pid := 30, uid := 1000, gid := 1000 }
    { uid := 1000, gid := 1000, user := "dev", home := "/home/dev" }
    "/../workspace/./app/.." "bash" (by decide) (by decide)
    (by decide : ".." ∉ components devSnapshot.workspace_root)
  obtain ⟨-, form, hform, hinside⟩ := haccepted target htarget
  rw [show (BackendState.new devConfig).snapshot = devSnapshot from rfl, hworkspace] at hinside
  exact ⟨hpath.1.trans (by decide), form, hform, hinside⟩

end dev_env
