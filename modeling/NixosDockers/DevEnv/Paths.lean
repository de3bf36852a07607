-- The normalised paths of the dev-env backend: a path that was normalised once
-- stays as it is when the key of a materialization normalises it again.
import NixosDockers.DevEnv.Snapshot

open rust_text

namespace dev_env

/-! ## Plain components -/

/-- A component that is neither the root nor a dot. -/
structure Plain (part : String) : Prop where
  nonempty : part ≠ ""
  dot : part ≠ "."
  free : '/' ∉ part.toList

/-- The components of a path without dots. -/
inductive Normal : List String → Prop
  | Relative {parts : List String} (h : ∀ part ∈ parts, Plain part ∧ part ≠ "..") : Normal parts
  | Absolute {parts : List String} (h : ∀ part ∈ parts, Plain part ∧ part ≠ "..") :
      Normal ("/" :: parts)

theorem Plain.ne_root {part : String} (h : Plain part) : part ≠ "/" := by
  rintro rfl
  exact h.free (by decide)

theorem plain_of_mem_normalComponents {path part : String} (h : part ∈ normalComponents path) :
    Plain part := by
  unfold normalComponents at h
  obtain ⟨hsplit, hkept⟩ := List.mem_filter.mp h
  rw [Bool.and_eq_true, bne_iff_ne, bne_iff_ne] at hkept
  exact ⟨hkept.1, hkept.2, free_of_mem_splitChar hsplit⟩

theorem filter_plain {parts : List String} (h : ∀ part ∈ parts, Plain part) :
    (parts.filter fun part => part != "" && part != ".") = parts := by
  refine List.filter_eq_self.mpr fun part hpart => ?_
  rw [Bool.and_eq_true, bne_iff_ne, bne_iff_ne]
  exact ⟨(h part hpart).nonempty, (h part hpart).dot⟩

theorem normalComponents_intercalate {parts : List String} (h : ∀ part ∈ parts, Plain part) :
    normalComponents (String.intercalate "/" parts) = parts := by
  unfold normalComponents
  by_cases hparts : parts = []
  · subst hparts
    decide
  · have hsplit : splitChar '/' (String.intercalate "/" parts) = parts :=
      splitChar_intercalate hparts fun part hpart => (h part hpart).free
    rw [hsplit, filter_plain h]

/-- The parts of a path that was joined are its components again. -/
theorem components_relative {parts : List String} (h : ∀ part ∈ parts, Plain part) :
    components (String.intercalate "/" parts) = parts := by
  cases parts with
  | nil => decide
  | cons part rest =>
    have hsplit : splitChar '/' (String.intercalate "/" (part :: rest)) = part :: rest :=
      splitChar_intercalate (List.cons_ne_nil _ _) fun part hpart => (h part hpart).free
    have hpart : Plain part := h part List.mem_cons_self
    unfold components
    rw [if_neg, if_neg, normalComponents_intercalate h]
    · intro hdot
      rw [Bool.or_eq_true, decide_eq_true_eq] at hdot
      rcases hdot with hdot | hdot
      · rw [hdot] at hsplit
        exact hpart.dot (List.head_eq_of_cons_eq (hsplit.symm.trans (by decide : _ = ["."])))
      · obtain ⟨tail, htail⟩ := startsWith_iff.mp hdot
        rw [htail] at hsplit
        have hfirst : splitChar '/' ("./" ++ tail) = "." :: splitChar '/' tail :=
          splitChar_append '/' "." tail
        exact hpart.dot (List.head_eq_of_cons_eq (hsplit.symm.trans hfirst))
    · intro habsolute
      obtain ⟨tail, htail⟩ := startsWith_iff.mp habsolute
      rw [htail] at hsplit
      have hfirst : splitChar '/' ("/" ++ tail) = "" :: splitChar '/' tail :=
        splitChar_append '/' "" tail
      exact hpart.nonempty (List.head_eq_of_cons_eq (hsplit.symm.trans hfirst))

theorem components_absolute {parts : List String} (h : ∀ part ∈ parts, Plain part) :
    components ("/" ++ String.intercalate "/" parts) = "/" :: parts := by
  have hsplit : splitChar '/' ("/" ++ String.intercalate "/" parts) =
      "" :: splitChar '/' (String.intercalate "/" parts) := splitChar_append '/' "" _
  have hrest := normalComponents_intercalate h
  unfold normalComponents at hrest
  have habsolute : isAbsolute ("/" ++ String.intercalate "/" parts) = true :=
    startsWith_iff.mpr ⟨_, rfl⟩
  unfold components
  rw [if_pos habsolute]
  unfold normalComponents
  rw [hsplit, List.filter_cons_of_neg (by decide), hrest]

theorem components_joinComponents {parts : List String} (h : Normal parts) :
    components (joinComponents parts) = parts := by
  cases h with
  | Absolute h => exact components_absolute fun part hpart => (h part hpart).1
  | Relative h =>
    have hjoined : joinComponents parts = String.intercalate "/" parts := by
      unfold joinComponents
      split
      · exact absurd rfl (h _ List.mem_cons_self).1.ne_root
      · rfl
    rw [hjoined]
    exact components_relative fun part hpart => (h part hpart).1

/-! ## Normalising -/

/-- How `normalize_path` takes one component. -/
def normalizeStep (output : List String) (component : String) : List String :=
  if component = "." then output
  else if component = ".." then (if output = ["/"] then output else output.dropLast)
  else output ++ [component]

/-- How `normalize_absolute_path` takes one component. -/
def normalizeAbsoluteStep (normalized : List String) (component : String) : List String :=
  if component = "." then normalized
  else if component = ".." then
    (if normalized.getLast?.any (· ≠ "/") then normalized.dropLast else normalized)
  else normalized ++ [component]

theorem normalizePath_eq (path : String) :
    normalizePath path = joinComponents ((components path).foldl normalizeStep []) := rfl

theorem normalizeAbsolutePath_eq (path : String) :
    normalizeAbsolutePath path = joinComponents ((components path).foldl normalizeAbsoluteStep []) :=
  rfl

theorem Normal.normalizeStep {output : List String} (h : Normal output) {component : String}
    (hcomponent : Plain component) : Normal (normalizeStep output component) := by
  unfold dev_env.normalizeStep
  rw [if_neg hcomponent.dot]
  split_ifs with hparent hroot
  · exact h
  · cases h with
    | Relative h => exact .Relative fun part hpart => h part (List.dropLast_subset _ hpart)
    | Absolute h =>
      rename_i parts
      have hparts : parts ≠ [] := by
        rintro rfl
        exact hroot rfl
      rw [List.dropLast_cons_of_ne_nil hparts]
      exact .Absolute fun part hpart => h part (List.dropLast_subset _ hpart)
  · have happended {parts : List String} (h : ∀ part ∈ parts, Plain part ∧ part ≠ "..") :
        ∀ part ∈ parts ++ [component], Plain part ∧ part ≠ ".." := by
      intro part hpart
      rcases List.mem_append.mp hpart with hold | hnew
      · exact h part hold
      · rw [List.mem_singleton.mp hnew]
        exact ⟨hcomponent, hparent⟩
    cases h with
    | Relative h => exact .Relative (happended h)
    | Absolute h => exact .Absolute (happended h)

theorem Normal.foldl {output : List String} (h : Normal output) {parts : List String}
    (hparts : ∀ part ∈ parts, Plain part) : Normal (parts.foldl dev_env.normalizeStep output) := by
  induction parts generalizing output with
  | nil => exact h
  | cons part rest ih =>
    exact ih (h.normalizeStep (hparts part List.mem_cons_self)) fun other hother =>
      hparts other (List.mem_cons_of_mem _ hother)

/-- A normalised path has no dots among its components. -/
theorem normal_components (path : String) : Normal ((components path).foldl normalizeStep []) := by
  have hplain : ∀ part ∈ normalComponents path, Plain part := fun _ => plain_of_mem_normalComponents
  have hnil : Normal [] := .Relative fun _ hpart => by cases hpart
  have hroot : Normal ["/"] := .Absolute fun _ hpart => by cases hpart
  unfold components
  split_ifs
  · exact hroot.foldl hplain
  · have hdot : normalizeStep [] "." = [] := if_pos rfl
    rw [List.foldl_cons, hdot]
    exact hnil.foldl hplain
  · exact hnil.foldl hplain

theorem Normal.plain {output : List String} (h : Normal output) :
    ∀ part ∈ output, part = "/" ∨ Plain part ∧ part ≠ ".." := by
  cases h with
  | Relative h => exact fun part hpart => .inr (h part hpart)
  | Absolute h =>
    intro part hpart
    rcases List.mem_cons.mp hpart with hroot | hrest
    · exact .inl hroot
    · exact .inr (h part hrest)

theorem Normal.free {output : List String} (h : Normal output) :
    ∀ part ∈ output, part ≠ "." ∧ part ≠ ".." := by
  intro part hpart
  rcases h.plain part hpart with rfl | ⟨hplain, hparent⟩
  · decide
  · exact ⟨hplain.dot, hparent⟩

/-- The root stays where it is. -/
theorem foldl_normalizeStep_root (parts rest : List String) :
    ∃ rest', parts.foldl normalizeStep ("/" :: rest) = "/" :: rest' := by
  induction parts generalizing rest with
  | nil => exact ⟨rest, rfl⟩
  | cons part parts ih =>
    rw [List.foldl_cons]
    unfold normalizeStep
    split_ifs with hdot hparent hroot
    · exact ih rest
    · exact ih rest
    · have hrest : rest ≠ [] := by
        rintro rfl
        exact hroot rfl
      rw [List.dropLast_cons_of_ne_nil hrest]
      exact ih rest.dropLast
    · exact ih (rest ++ [part])

theorem foldl_normalizeStep {output parts : List String}
    (hparts : ∀ part ∈ parts, part ≠ "." ∧ part ≠ "..") :
    parts.foldl normalizeStep output = output ++ parts := by
  induction parts generalizing output with
  | nil => exact (List.append_nil _).symm
  | cons part rest ih =>
    obtain ⟨hdot, hparent⟩ := hparts part List.mem_cons_self
    rw [List.foldl_cons, ih fun other hother => hparts other (List.mem_cons_of_mem _ hother)]
    unfold normalizeStep
    rw [if_neg hdot, if_neg hparent, List.append_assoc, List.singleton_append]

theorem foldl_normalizeAbsoluteStep {parts : List String}
    (hparts : ∀ part ∈ parts, part ≠ "." ∧ part ≠ "..") (normalized : List String) :
    parts.foldl normalizeAbsoluteStep normalized = normalized ++ parts := by
  induction parts generalizing normalized with
  | nil => exact (List.append_nil _).symm
  | cons part rest ih =>
    obtain ⟨hdot, hparent⟩ := hparts part List.mem_cons_self
    rw [List.foldl_cons, ih fun other hother => hparts other (List.mem_cons_of_mem _ hother)]
    unfold normalizeAbsoluteStep
    rw [if_neg hdot, if_neg hparent, List.append_assoc, List.singleton_append]

/-- Normalising a normalised path again changes nothing. -/
theorem normalizeAbsolutePath_normalizePath (path : String) :
    normalizeAbsolutePath (normalizePath path) = normalizePath path := by
  have hnormal : Normal ((components path).foldl normalizeStep []) := normal_components path
  rw [normalizePath_eq, normalizeAbsolutePath_eq, components_joinComponents hnormal]
  rw [foldl_normalizeAbsoluteStep hnormal.free, List.nil_append]

end dev_env
