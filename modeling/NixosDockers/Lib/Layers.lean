-- Layers of writes: what a layer does to one name, which write is the last, and what a run of
-- steps leaves at a name when each of them touches a name of its own.
import Mathlib

namespace layers

variable {κ α β σ ε : Type}

/-! ## Writes -/

/-- What a layer does to one name. -/
inductive Write (β : Type) where
  | keep
  | set (value : β)
  | unset
  deriving DecidableEq, Repr

/-- What a write leaves of the current value. -/
def Write.on : Write β → Option β → Option β
  | .keep, current => current
  | .set value, _ => some value
  | .unset, _ => none

/-- The last write that does not keep what was there. -/
def last : List (Write β) → Write β
  | [] => .keep
  | write :: writes =>
    match last writes with
    | .keep => write
    | later => later

variable {writes before after : List (Write β)} {current : Option β}

theorem last_append : last (before ++ after) =
    match last after with
    | .keep => last before
    | later => later := by
  induction before with
  | nil => cases hlast : last after <;> simp [last, hlast]
  | cons write before ih =>
    rw [List.cons_append, last, ih, last]
    cases last after <;> rfl

/-- Writes one after another come to the last of them. -/
theorem foldl_on : writes.foldl (fun current write => write.on current) current =
    (last writes).on current := by
  induction writes generalizing current with
  | nil => rfl
  | cons write writes ih =>
    rw [List.foldl_cons, ih, last]
    cases last writes <;> rfl

theorem on_append : (last (before ++ after)).on current =
    (last after).on ((last before).on current) := by
  rw [last_append]
  cases last after <;> rfl

theorem on_pair {first second : Write β} :
    (last [first, second]).on current = second.on (first.on current) :=
  foldl_on.symm

/-! ## Steps with names of their own -/

/-- A step leaves all names but its own as they were. -/
def Local (step : σ → α → Except ε σ) (key : α → κ) (view : σ → κ → Option β) : Prop :=
  ∀ state a next, step state a = .ok next → ∀ name ≠ key a, view next name = view state name

variable {step : σ → α → Except ε σ} {key : α → κ} {view : σ → κ → Option β} {state final : σ}
  {a : α} {done todo steps : List α} {name : κ}

/-- A run leaves a name that is of no step as it was. -/
theorem Local.of_notMem (h : Local step key view) (hrun : steps.foldlM step state = .ok final)
    (hname : name ∉ steps.map key) : view final name = view state name := by
  induction steps generalizing state with
  | nil =>
    obtain rfl := Except.ok.inj hrun
    rfl
  | cons a steps ih =>
    rw [List.map_cons, List.mem_cons, not_or] at hname
    rw [List.foldlM_cons] at hrun
    cases hstep : step state a with
    | error error =>
      rw [hstep] at hrun
      exact absurd hrun nofun
    | ok next =>
      rw [hstep] at hrun
      rw [ih hrun hname.2, h state a next hstep name hname.1]

/-- A run leaves at a name what the step of the name does, on what was there before the run. -/
theorem Local.of_mem (h : Local step key view)
    (hrun : (done ++ a :: todo).foldlM step state = .ok final) (hdone : key a ∉ done.map key)
    (htodo : key a ∉ todo.map key) :
    ∃ middle next, done.foldlM step state = .ok middle ∧ step middle a = .ok next ∧
      view middle (key a) = view state (key a) ∧ view final (key a) = view next (key a) := by
  rw [List.foldlM_append] at hrun
  cases hmiddle : done.foldlM step state with
  | error error =>
    rw [hmiddle] at hrun
    exact absurd hrun nofun
  | ok middle =>
    rw [hmiddle] at hrun
    have hrest : (a :: todo).foldlM step middle = .ok final := hrun
    rw [List.foldlM_cons] at hrest
    cases hstep : step middle a with
    | error error =>
      rw [hstep] at hrest
      exact absurd hrest nofun
    | ok next =>
      rw [hstep] at hrest
      exact ⟨middle, next, rfl, hstep, h.of_notMem hmiddle hdone, h.of_notMem hrest htodo⟩

end layers
