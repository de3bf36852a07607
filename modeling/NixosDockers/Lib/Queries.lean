-- Computations that ask for values by key: what they read, when two of their
-- runs give the same result, and when a value that they read shows in the result.
import Mathlib

namespace queries

/-- A computation that asks for values by key, one after the other. -/
inductive Query (κ ν ρ : Type) where
  | Done (result : ρ)
  | Ask (key : κ) (next : Option ν → Query κ ν ρ)

namespace Query

variable {κ ν ρ σ ε α β χ : Type}

def run (values : κ → Option ν) : Query κ ν ρ → ρ
  | .Done result => result
  | .Ask key next => (next (values key)).run values

/-- The keys that a run asks for. -/
def reads (values : κ → Option ν) : Query κ ν ρ → List κ
  | .Done _ => []
  | .Ask key next => key :: (next (values key)).reads values

/-- The computation asks only for keys of `S`, whatever the answers are. -/
def AsksIn (S : κ → Prop) : Query κ ν ρ → Prop
  | .Done _ => True
  | .Ask key next => S key ∧ ∀ value, (next value).AsksIn S

def bind (query : Query κ ν ρ) (f : ρ → Query κ ν σ) : Query κ ν σ :=
  match query with
  | .Done result => f result
  | .Ask key next => .Ask key fun value => (next value).bind f

/-- Go on with a value, or end with the error. -/
def andThen (query : Query κ ν (Except ε α)) (f : α → Query κ ν (Except ε β)) :
    Query κ ν (Except ε β) :=
  query.bind fun
    | .ok value => f value
    | .error error => .Done (.error error)

/-- The same computation with other errors. -/
def mapError {φ : Type} (f : ε → φ) (query : Query κ ν (Except ε α)) : Query κ ν (Except φ α) :=
  query.bind fun result => .Done (result.mapError f)

theorem run_bind (values : κ → Option ν) (query : Query κ ν ρ) (f : ρ → Query κ ν σ) :
    (query.bind f).run values = (f (query.run values)).run values := by
  induction query with
  | Done result => rfl
  | Ask key next ih => exact ih (values key)

theorem reads_bind (values : κ → Option ν) (query : Query κ ν ρ) (f : ρ → Query κ ν σ) :
    (query.bind f).reads values = query.reads values ++ (f (query.run values)).reads values := by
  induction query with
  | Done result => rfl
  | Ask key next ih => exact congrArg (key :: ·) (ih (values key))

theorem run_andThen (values : κ → Option ν) (query : Query κ ν (Except ε α))
    (f : α → Query κ ν (Except ε β)) :
    (query.andThen f).run values = query.run values >>= fun value => (f value).run values := by
  unfold andThen
  rw [run_bind]
  cases query.run values <;> rfl

theorem run_mapError {φ : Type} (values : κ → Option ν) (f : ε → φ)
    (query : Query κ ν (Except ε α)) :
    (query.mapError f).run values = (query.run values).mapError f :=
  run_bind values query _

theorem asksIn_bind {S : κ → Prop} {query : Query κ ν ρ} {f : ρ → Query κ ν σ}
    (hquery : query.AsksIn S) (hf : ∀ result, (f result).AsksIn S) : (query.bind f).AsksIn S := by
  induction query with
  | Done result => exact hf result
  | Ask key next ih => exact ⟨hquery.1, fun value => ih value (hquery.2 value)⟩

theorem asksIn_andThen {S : κ → Prop} {query : Query κ ν (Except ε α)}
    {f : α → Query κ ν (Except ε β)} (hquery : query.AsksIn S)
    (hf : ∀ value, (f value).AsksIn S) : (query.andThen f).AsksIn S := by
  apply asksIn_bind hquery
  rintro (error | value)
  · trivial
  · exact hf value

theorem mem_of_asksIn {S : κ → Prop} {query : Query κ ν ρ} (h : query.AsksIn S)
    {values : κ → Option ν} {key : κ} (hkey : key ∈ query.reads values) : S key := by
  induction query with
  | Done result => cases hkey
  | Ask first next ih =>
    rcases List.mem_cons.mp hkey with rfl | hkey
    · exact h.1
    · exact ih _ (h.2 _) hkey

/-- Two runs whose values agree on what the first one reads are the same. -/
theorem run_congr {values others : κ → Option ν} {query : Query κ ν ρ}
    (h : ∀ key ∈ query.reads values, others key = values key) :
    query.run others = query.run values ∧ query.reads others = query.reads values := by
  induction query with
  | Done result => exact ⟨rfl, rfl⟩
  | Ask key next ih =>
    have hkey : others key = values key := h key (by simp [reads])
    unfold run reads
    rw [hkey]
    obtain ⟨hrun, hreads⟩ := ih (values key) fun other hother =>
      h other (by simp [reads, hother])
    exact ⟨hrun, by rw [hreads]⟩

/-! ## Values that must be there -/

/-- The keys with a name are those whose values must be there: without one the computation ends
with an error that tells the name, and no other error tells a name. -/
def Strict (name : κ → Option χ) (blame : ε → Option χ) : Query κ ν (Except ε α) → Prop
  | .Done (.ok _) => True
  | .Done (.error error) => blame error = none
  | .Ask key next =>
    (match name key with
      | some x => ∃ error, next none = .Done (.error error) ∧ blame error = some x
      | none => (next none).Strict name blame) ∧
    ∀ value, (next (some value)).Strict name blame

variable {name : κ → Option χ} {blame : ε → Option χ}

theorem strict_andThen {query : Query κ ν (Except ε α)} {f : α → Query κ ν (Except ε β)}
    (hquery : query.Strict name blame) (hf : ∀ value, (f value).Strict name blame) :
    (query.andThen f).Strict name blame := by
  induction query with
  | Done result =>
    cases result with
    | ok value => exact hf value
    | error error => exact hquery
  | Ask key next ih =>
    obtain ⟨hnone, hsome⟩ := hquery
    refine ⟨?_, fun value => ih _ (hsome value)⟩
    cases hname : name key with
    | none =>
      rw [hname] at hnone
      exact ih none hnone
    | some x =>
      rw [hname] at hnone
      obtain ⟨error, hnext, hblame⟩ := hnone
      refine ⟨error, ?_, hblame⟩
      dsimp only
      rw [hnext]
      rfl

theorem strict_mapError {φ : Type} {blameNext : φ → Option χ} {f : ε → φ}
    (hf : ∀ error, blameNext (f error) = blame error) {query : Query κ ν (Except ε α)}
    (hquery : query.Strict name blame) : (query.mapError f).Strict name blameNext := by
  induction query with
  | Done result =>
    cases result with
    | ok value => trivial
    | error error => exact (hf error).trans hquery
  | Ask key next ih =>
    obtain ⟨hnone, hsome⟩ := hquery
    refine ⟨?_, fun value => ih _ (hsome value)⟩
    cases hname : name key with
    | none =>
      rw [hname] at hnone
      exact ih none hnone
    | some x =>
      rw [hname] at hnone
      obtain ⟨error, hnext, hblame⟩ := hnone
      refine ⟨f error, ?_, (hf error).trans hblame⟩
      dsimp only
      rw [hnext]
      rfl

/-- An error that tells a name comes from a key with that name and no value. -/
theorem Strict.of_blame {query : Query κ ν (Except ε α)} (h : query.Strict name blame)
    {values : κ → Option ν} {error : ε} {x : χ} (hrun : query.run values = .error error)
    (hblame : blame error = some x) : ∃ key, name key = some x ∧ values key = none := by
  induction query with
  | Done result =>
    cases hrun
    rw [Strict, hblame] at h
    cases h
  | Ask key next ih =>
    obtain ⟨hnone, hsome⟩ := h
    rw [run] at hrun
    cases hvalue : values key with
    | some value =>
      rw [hvalue] at hrun
      exact ih _ (hsome value) hrun
    | none =>
      rw [hvalue] at hrun
      cases hname : name key with
      | none =>
        rw [hname] at hnone
        exact ih none hnone hrun
      | some y =>
        rw [hname] at hnone
        obtain ⟨error', hnext, hblame'⟩ := hnone
        rw [hnext] at hrun
        cases hrun
        obtain rfl := Option.some.inj (hblame.symm.trans hblame')
        exact ⟨key, hname, hvalue⟩

/-- A key with a name that is read and has no value ends the run with its name. -/
theorem Strict.blamed {query : Query κ ν (Except ε α)} (h : query.Strict name blame)
    {values : κ → Option ν} {key : κ} {x : χ} (hkey : key ∈ query.reads values)
    (hname : name key = some x) (hvalue : values key = none) :
    ∃ error, query.run values = .error error ∧ blame error = some x := by
  induction query with
  | Done result => cases hkey
  | Ask first next ih =>
    obtain ⟨hnone, hsome⟩ := h
    rw [reads, List.mem_cons] at hkey
    rw [run]
    cases hfirst : values first with
    | some value =>
      rcases hkey with rfl | hkey
      · rw [hvalue] at hfirst
        cases hfirst
      · rw [hfirst] at hkey
        exact ih _ (hsome value) hkey
    | none =>
      cases hnamed : name first with
      | none =>
        rw [hnamed] at hnone
        rcases hkey with rfl | hkey
        · rw [hname] at hnamed
          cases hnamed
        · rw [hfirst] at hkey
          exact ih none hnone hkey
      | some y =>
        rw [hnamed] at hnone
        obtain ⟨error, hnext, hblame⟩ := hnone
        rw [hnext]
        refine ⟨error, rfl, ?_⟩
        rcases hkey with rfl | hkey
        · exact hblame.trans (hnamed.symm.trans hname)
        · rw [hfirst, hnext] at hkey
          cases hkey

/-- The values of a name are taken away, or given where there were none, and nothing else
changes. -/
structure Toggled (name : κ → Option χ) (x : χ) (values others : κ → Option ν) : Prop where
  same : ∀ key, name key ≠ some x → others key = values key
  toggled : (∀ key, name key = some x → values key = none ∧ others key ≠ none) ∨
    ∀ key, name key = some x → values key ≠ none ∧ others key = none

/-- A named value that is read shows in the result. -/
theorem Strict.run_ne_of_toggled {query : Query κ ν (Except ε α)} (h : query.Strict name blame)
    {values others : κ → Option ν} {x : χ} (htoggled : Toggled name x values others) {key : κ}
    (hkey : key ∈ query.reads values) (hname : name key = some x) :
    query.run others ≠ query.run values := by
  intro hsame
  rcases htoggled.toggled with hgiven | htaken
  · obtain ⟨error, hrun, hblame⟩ := h.blamed hkey hname (hgiven key hname).1
    obtain ⟨other, hother, hnone⟩ := h.of_blame (hsame.trans hrun) hblame
    exact (hgiven other hother).2 hnone
  · by_cases hread : ∃ other ∈ query.reads others, name other = some x
    · obtain ⟨other, hother, hothername⟩ := hread
      obtain ⟨error, hrun, hblame⟩ := h.blamed hother hothername (htaken other hothername).2
      obtain ⟨third, hthird, hnone⟩ := h.of_blame (hsame.symm.trans hrun) hblame
      exact (htaken third hthird).1 hnone
    · -- without the name in what the other run reads, both runs read the same
      have hreads := (run_congr fun other hother =>
        (htoggled.same other fun he => hread ⟨other, hother, he⟩).symm).2
      exact hread ⟨key, hreads ▸ hkey, hname⟩

end Query

end queries
