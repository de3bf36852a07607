-- Partial maps that agree where both are defined, and what they have together.
import Mathlib

namespace agreement

variable {κ : Type*} {V : κ → Type*}

/-- Two partial maps have the same value wherever both have one. -/
def Agrees (f g : (k : κ) → Option (V k)) : Prop :=
  ∀ k a b, f k = some a → g k = some b → a = b

/-- What the first map has, and beside it what the second has. -/
def join (f g : (k : κ) → Option (V k)) (k : κ) : Option (V k) := (f k).or (g k)

variable {f g h : (k : κ) → Option (V k)}

theorem Agrees.symm (hagrees : Agrees f g) : Agrees g f :=
  fun k a b hg hf => (hagrees k b a hf hg).symm

/-- Maps that agree can be joined in both orders. -/
theorem Agrees.join_comm (hagrees : Agrees f g) : join f g = join g f := by
  funext k
  unfold join
  cases hf : f k with
  | none => rw [Option.none_or, Option.or_none]
  | some a =>
    cases hg : g k with
    | none => rfl
    | some b => rw [hagrees k a b hf hg]

theorem join_assoc : join (join f g) h = join f (join g h) := by
  funext k
  exact Option.or_assoc

/-- A map agrees with two maps together when it agrees with each of them. -/
theorem Agrees.join_iff (hagrees : Agrees f g) :
    Agrees (join f g) h ↔ Agrees f h ∧ Agrees g h := by
  constructor
  · intro hjoin
    constructor
    · intro k a b hf hh
      apply hjoin k a b _ hh
      unfold join
      rw [hf]
      rfl
    · intro k a b hg hh
      apply hjoin k a b _ hh
      rw [hagrees.join_comm]
      unfold join
      rw [hg]
      rfl
  · rintro ⟨hfh, hgh⟩ k a b hjoin hh
    unfold join at hjoin
    rcases Option.or_eq_some_iff.mp hjoin with hf | ⟨-, hg⟩
    · exact hfh k a b hf hh
    · exact hgh k a b hg hh

/-- One map after another can be joined to a third when all agree with each other, so the order
does not matter. -/
theorem agrees_swap :
    Agrees f g ∧ Agrees (join f g) h ↔ Agrees f h ∧ Agrees (join f h) g := by
  constructor
  · rintro ⟨hfg, hjoin⟩
    obtain ⟨hfh, hgh⟩ := hfg.join_iff.mp hjoin
    exact ⟨hfh, hfh.join_iff.mpr ⟨hfg, hgh.symm⟩⟩
  · rintro ⟨hfh, hjoin⟩
    obtain ⟨hfg, hhg⟩ := hfh.join_iff.mp hjoin
    exact ⟨hfg, hfg.join_iff.mpr ⟨hfh, hhg.symm⟩⟩

theorem join_swap (hfg : Agrees f g) (hjoin : Agrees (join f g) h) :
    join (join f g) h = join (join f h) g := by
  have hgh := (hfg.join_iff.mp hjoin).2
  calc join (join f g) h = join f (join g h) := join_assoc
    _ = join f (join h g) := by rw [hgh.join_comm]
    _ = join (join f h) g := join_assoc.symm

end agreement
