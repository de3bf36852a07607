-- The structured PATH of a configuration (`environment.rs`).
import NixosDockers.DevEnvModel.Resolved
import NixosDockers.Lib.Occurrences
import NixosDockers.Lib.Results

open results

namespace dev_env_model

/-- The check of the entries of one kind. -/
def validateEntriesOf (kind : String) (entries : List String) : Except ModelError Unit :=
  entries.zipIdx.forM fun (entry, index) =>
    validateConcretePath entry ("environment.path." ++ kind ++ "[" ++ toString index ++ "]")

/-- `EnvironmentPath::validate`. -/
def EnvironmentPath.validate (path : EnvironmentPath) : Except ModelError Unit := do
  validateEntriesOf "prepend" path.prepend
  validateEntriesOf "append" path.append
  validateEntriesOf "remove" path.remove

/-- `EnvironmentPath::resolve`. -/
def EnvironmentPath.resolve (path : EnvironmentPath) (inherited : List String) :
    Except ModelError (List String) := do
  path.validate
  return (path.prepend ++ inherited ++ path.append).foldl (fun result entry =>
    if path.remove.contains entry || result.any (· = entry) then result else result ++ [entry]) []

/-- What the documentation promises: prepended, inherited and appended entries without the
removed ones, each at its first place. -/
def EnvironmentPath.entries (path : EnvironmentPath) (inherited : List String) : List String :=
  ((path.prepend ++ inherited ++ path.append).filter (· ∉ path.remove)).eraseDups

/-- A loop that skips the removed entries is the loop over the others. -/
theorem foldl_unless_removed (removed l kept : List String) :
    l.foldl (fun result entry =>
        if removed.contains entry || result.any (· = entry) then result else result ++ [entry]) kept =
      (l.filter (· ∉ removed)).foldl occurrences.push kept := by
  induction l generalizing kept with
  | nil => rfl
  | cons entry l ih =>
    rw [List.foldl_cons, ih, List.filter_cons]
    by_cases hremoved : entry ∈ removed
    · simp [hremoved]
    · by_cases hkept : entry ∈ kept
      · simp [hremoved, hkept, occurrences.push]
      · simp [hremoved, hkept, occurrences.push]

theorem EnvironmentPath.resolve_eq {path : EnvironmentPath} (h : path.validate = .ok ())
    (inherited : List String) : path.resolve inherited = .ok (path.entries inherited) := by
  unfold EnvironmentPath.resolve
  rw [h, ok_bind, foldl_unless_removed, occurrences.foldl_push_nil]
  rfl

/-- Resolving again adds and moves nothing. -/
theorem EnvironmentPath.entries_entries (path : EnvironmentPath) (inherited : List String) :
    path.entries (path.entries inherited) = path.entries inherited := by
  have hkept : (path.entries inherited).filter (· ∉ path.remove) = path.entries inherited := by
    rw [List.filter_eq_self]
    intro entry hentry
    unfold EnvironmentPath.entries at hentry
    rw [List.mem_eraseDups, List.mem_filter] at hentry
    exact hentry.2
  have happended : ∀ entry ∈ path.append.filter (· ∉ path.remove),
      entry ∈ path.prepend.filter (· ∉ path.remove) ++ path.entries inherited := by
    intro entry hentry
    apply List.mem_append_right
    unfold EnvironmentPath.entries
    rw [List.mem_eraseDups, List.filter_append]
    exact List.mem_append_right _ hentry
  calc path.entries (path.entries inherited)
      = (path.prepend.filter (· ∉ path.remove) ++ path.entries inherited ++
          path.append.filter (· ∉ path.remove)).eraseDups := by
        rw [EnvironmentPath.entries, List.filter_append, List.filter_append, hkept]
    _ = (path.prepend.filter (· ∉ path.remove) ++ path.entries inherited).eraseDups :=
        occurrences.eraseDups_append_of_subset happended
    _ = path.entries inherited := by
        unfold EnvironmentPath.entries
        rw [List.append_assoc, List.filter_append]
        exact occurrences.eraseDups_prepend _ _

end dev_env_model
