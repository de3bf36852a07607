-- Fallible code: how a computation in `Except` that succeeds comes apart into
-- its steps, and how the loops of the list library do.
import Mathlib

namespace results

universe u v

variable {ε : Type u} {α β σ : Type v}

theorem bind_ok_iff {x : Except ε α} {f : α → Except ε β} {b : β} :
    x >>= f = .ok b ↔ ∃ a, x = .ok a ∧ f a = .ok b := by
  cases x <;> simp [bind, Except.bind]

/-- The same first step, and a second one that also succeeds. -/
theorem bind_error_iff {x : Except ε α} {f : α → Except ε β} {e : ε} :
    x >>= f = .error e ↔ x = .error e ∨ ∃ a, x = .ok a ∧ f a = .error e := by
  cases x with
  | error e' =>
    constructor
    · intro h
      obtain rfl := Except.error.inj h
      exact Or.inl rfl
    · rintro (h | ⟨a, ha, _⟩)
      · obtain rfl := Except.error.inj h
        rfl
      · cases ha
  | ok a =>
    constructor
    · intro h
      exact Or.inr ⟨a, rfl, h⟩
    · rintro (h | ⟨a', ha, hf⟩)
      · cases h
      · obtain rfl := Except.ok.inj ha
        exact hf

theorem bind_ok_mono {x : Except ε α} {f g : α → Except ε β} {b : β} (h : x >>= f = .ok b)
    (hfg : ∀ a, f a = .ok b → g a = .ok b) : x >>= g = .ok b := by
  obtain ⟨a, ha, hf⟩ := bind_ok_iff.mp h
  exact bind_ok_iff.mpr ⟨a, ha, hfg a hf⟩

theorem ok_bind (a : α) (f : α → Except ε β) : (Except.ok a : Except ε α) >>= f = f a := rfl

theorem error_bind (e : ε) (f : α → Except ε β) :
    (Except.error e : Except ε α) >>= f = .error e := rfl

theorem throw_bind (e : ε) (f : α → Except ε β) :
    (throw e : Except ε α) >>= f = .error e := rfl

theorem throw_eq (e : ε) : (throw e : Except ε α) = .error e := rfl

theorem pure_ok_iff {a b : α} : (pure a : Except ε α) = .ok b ↔ a = b := by
  simp [pure, Except.pure]

/-- A check that passes. -/
theorem ite_error_ok_iff {c : Prop} [Decidable c] {e : ε} {x : Except ε α} {a : α} :
    (if c then .error e else x) = .ok a ↔ ¬ c ∧ x = .ok a := by
  split <;> simp_all

theorem map_ok_iff {x : Except ε α} {f : α → β} {b : β} :
    x.map f = .ok b ↔ ∃ a, x = .ok a ∧ f a = b := by
  cases x <;> simp [Except.map]

theorem mapError_ok_iff {ε' : Type u} {x : Except ε α} {f : ε → ε'} {a : α} :
    x.mapError f = .ok a ↔ x = .ok a := by
  cases x <;> simp [Except.mapError]

theorem mapError_error_iff {ε' : Type u} {x : Except ε α} {f : ε → ε'} {e : ε'} :
    x.mapError f = .error e ↔ ∃ e', x = .error e' ∧ f e' = e := by
  cases x <;> simp [Except.mapError]

theorem exists_of_isOk {x : Except ε α} (h : x.isOk = true) : ∃ a, x = .ok a := by
  cases x with
  | ok a => exact ⟨a, rfl⟩
  | error _ => cases h

theorem ok_of_toOption {x : Except ε α} {a : α} (h : x.toOption = some a) : x = .ok a := by
  cases x with
  | ok b => exact congrArg _ (Option.some.inj h)
  | error _ => cases h

/-! ## Loops -/

theorem forM_ok_iff {l : List α} {f : α → Except ε PUnit} :
    l.forM f = .ok ⟨⟩ ↔ ∀ a ∈ l, f a = .ok ⟨⟩ := by
  rw [List.forM_eq_forM]
  induction l with
  | nil => simp [pure, Except.pure]
  | cons a l ih =>
    rw [List.forM_cons, bind_ok_iff, List.forall_mem_cons, ← ih]
    exact ⟨fun ⟨_, h⟩ => h, fun h => ⟨⟨⟩, h⟩⟩

theorem mapM_ok_iff {l : List α} {f : α → Except ε β} {bs : List β} :
    l.mapM f = .ok bs ↔ List.Forall₂ (fun a b => f a = .ok b) l bs := by
  induction l generalizing bs with
  | nil =>
    rw [List.mapM_nil, pure_ok_iff, List.forall₂_nil_left_iff]
    exact eq_comm
  | cons a l ih =>
    simp only [List.mapM_cons, bind_ok_iff, pure_ok_iff, ih]
    constructor
    · rintro ⟨b, hb, bs', hbs, rfl⟩
      exact .cons hb hbs
    · rintro ⟨⟩
      exact ⟨_, ‹_›, _, ‹_›, rfl⟩

theorem mapM_congr {l : List α} {f g : α → Except ε β} (h : ∀ a ∈ l, f a = g a) :
    l.mapM f = l.mapM g := by
  induction l with
  | nil => rfl
  | cons a l ih =>
    rw [List.mapM_cons, List.mapM_cons, h a (by simp), ih fun b hb => h b (by simp [hb])]

/-- The results of a loop, taken apart at one of its elements. -/
theorem forall₂_split {R : α → β → Prop} {l₁ l₂ : List α} {a : α} {bs : List β}
    (h : List.Forall₂ R (l₁ ++ a :: l₂) bs) :
    ∃ bs₁ b bs₂, bs = bs₁ ++ b :: bs₂ ∧ List.Forall₂ R l₁ bs₁ ∧ R a b ∧ List.Forall₂ R l₂ bs₂ := by
  induction l₁ generalizing bs with
  | nil =>
    obtain ⟨b, bs₂, hab, hrest, rfl⟩ := List.forall₂_cons_left_iff.mp h
    exact ⟨[], b, bs₂, rfl, .nil, hab, hrest⟩
  | cons c l₁ ih =>
    obtain ⟨b', rest, hcb, hrest, rfl⟩ := List.forall₂_cons_left_iff.mp h
    obtain ⟨bs₁, b, bs₂, rfl, h₁, hab, h₂⟩ := ih hrest
    exact ⟨b' :: bs₁, b, bs₂, rfl, .cons hcb h₁, hab, h₂⟩

theorem map_eq_of_forall₂ {γ : Type*} {f : α → γ} {g : β → γ} {l : List α} {bs : List β}
    (h : List.Forall₂ (fun a b => f a = g b) l bs) : l.map f = bs.map g := by
  induction h with
  | nil => rfl
  | cons hab _ ih => rw [List.map_cons, List.map_cons, hab, ih]

theorem forall₂_mem_left {R : α → β → Prop} {l : List α} {bs : List β}
    (h : List.Forall₂ R l bs) {b : β} (hb : b ∈ bs) : ∃ a ∈ l, R a b := by
  induction h with
  | nil => cases hb
  | cons hab _ ih =>
    rcases List.mem_cons.mp hb with rfl | hb
    · exact ⟨_, by simp, hab⟩
    · obtain ⟨a, ha, hab⟩ := ih hb
      exact ⟨a, by simp [ha], hab⟩

/-- A loop that fails fails at one of its elements. -/
theorem forM_error {l : List α} {f : α → Except ε PUnit} {e : ε} (h : l.forM f = .error e) :
    ∃ a ∈ l, f a = .error e := by
  rw [List.forM_eq_forM] at h
  induction l with
  | nil => cases h
  | cons a l ih =>
    rw [List.forM_cons] at h
    cases ha : f a with
    | error e' =>
      rw [ha, error_bind] at h
      cases h
      exact ⟨a, by simp, ha⟩
    | ok _ =>
      rw [ha, ok_bind] at h
      obtain ⟨b, hb, he⟩ := ih h
      exact ⟨b, by simp [hb], he⟩

theorem mapM_error {l : List α} {f : α → Except ε β} {e : ε} (h : l.mapM f = .error e) :
    ∃ a ∈ l, f a = .error e := by
  induction l with
  | nil => cases h
  | cons a l ih =>
    rw [List.mapM_cons] at h
    cases ha : f a with
    | error e' =>
      rw [ha, error_bind] at h
      cases h
      exact ⟨a, by simp, ha⟩
    | ok b =>
      rw [ha, ok_bind] at h
      cases hl : l.mapM f with
      | error e' =>
        rw [hl, error_bind] at h
        cases h
        obtain ⟨c, hc, he⟩ := ih hl
        exact ⟨c, by simp [hc], he⟩
      | ok bs =>
        rw [hl, ok_bind] at h
        cases h

/-- A loop over a list keeps what each of its turns keeps. -/
theorem foldlM_invariant {I : σ → Prop} {f : σ → α → Except ε σ} {l : List α}
    (hstep : ∀ s a s', a ∈ l → I s → f s a = .ok s' → I s') {s s' : σ} (hs : I s)
    (h : l.foldlM f s = .ok s') : I s' := by
  induction l generalizing s with
  | nil =>
    rw [List.foldlM_nil, pure_ok_iff] at h
    exact h ▸ hs
  | cons a l ih =>
    rw [List.foldlM_cons, bind_ok_iff] at h
    obtain ⟨s₁, h₁, h⟩ := h
    exact ih (fun s a s' ha => hstep s a s' (by simp [ha])) (hstep s a s₁ (by simp) hs h₁) h

/-! ## Loops over keys -/

section slots

variable {κ : Type*} {V : κ → Type*} {f : σ → α → Except ε σ} (key : α → κ)
  (slot : (k : κ) → σ → V k) {I : σ → Prop} {R : (a : α) → V (key a) → V (key a) → Prop}

/-- A loop in which each turn touches only the slot of its own key: a key that no turn has keeps
its slot, and with one turn for each key the slot of a turn goes its one step. -/
theorem foldlM_slots (hkeep : ∀ s a s', I s → f s a = .ok s' → I s')
    (hown : ∀ s a s', I s → f s a = .ok s' → R a (slot (key a) s) (slot (key a) s'))
    (hother : ∀ s a s', I s → f s a = .ok s' → ∀ k ≠ key a, slot k s' = slot k s) {l : List α}
    (hkeys : (l.map key).Nodup) {s s' : σ} (hs : I s) (h : l.foldlM f s = .ok s') :
    (∀ a ∈ l, R a (slot (key a) s) (slot (key a) s')) ∧
      ∀ k ∉ l.map key, slot k s' = slot k s := by
  induction l generalizing s with
  | nil =>
    rw [List.foldlM_nil, pure_ok_iff] at h
    simp [h]
  | cons a l ih =>
    rw [List.foldlM_cons, bind_ok_iff] at h
    obtain ⟨s₁, h₁, h⟩ := h
    rw [List.map_cons, List.nodup_cons] at hkeys
    obtain ⟨hturns, hrest⟩ := ih hkeys.2 (hkeep s a s₁ hs h₁) h
    constructor
    · intro b hb
      rcases List.mem_cons.mp hb with rfl | hb
      · -- the later turns have other keys
        rw [hrest _ hkeys.1]
        exact hown s b s₁ hs h₁
      · have hne : key b ≠ key a := by
          intro he
          exact hkeys.1 (he ▸ List.mem_map_of_mem hb)
        rw [← hother s a s₁ hs h₁ _ hne]
        exact hturns b hb
    · intro k hk
      rw [List.map_cons, List.mem_cons, not_or] at hk
      rw [hrest k hk.2, hother s a s₁ hs h₁ k hk.1]

end slots

/-! ## Failing in one way -/

section Fails

variable {bad : ε → Prop} {step : α → σ → Except ε σ} {meets : α → σ → Prop}

/-- The computation ends in an error of a kind. -/
def Fails (bad : ε → Prop) (x : Except ε α) : Prop := ∃ e, x = .error e ∧ bad e

theorem not_fails_ok (a : α) : ¬ Fails bad (Except.ok a : Except ε α) := fun ⟨_, h, _⟩ => nomatch h

theorem fails_error_iff {e : ε} : Fails bad (Except.error e : Except ε α) ↔ bad e := by
  constructor
  · rintro ⟨_, h, hbad⟩
    rwa [Except.error.inj h]
  · intro hbad
    exact ⟨e, rfl, hbad⟩

/-- What the computation has made when it succeeds. -/
def After (x : Except ε α) (made : α → Prop) : Prop := ∃ a, x = .ok a ∧ made a

theorem fails_bind_iff {x : Except ε α} {f : α → Except ε β} :
    Fails bad (x >>= f) ↔ Fails bad x ∨ After x fun a => Fails bad (f a) := by
  cases x with
  | error e =>
    rw [error_bind, fails_error_iff, fails_error_iff]
    exact ⟨Or.inl, fun h => h.resolve_right fun ⟨_, heq, _⟩ => nomatch heq⟩
  | ok a =>
    rw [ok_bind]
    constructor
    · intro h
      exact Or.inr ⟨a, rfl, h⟩
    · rintro (h | ⟨_, heq, h⟩)
      · exact absurd h (not_fails_ok a)
      · rwa [Except.ok.inj heq]

/-- A loop comes to a step that meets something in the state before it. -/
def LoopMeets (step : α → σ → Except ε σ) (meets : α → σ → Prop) : List α → σ → Prop
  | [], _ => False
  | a :: rest, s => meets a s ∨ After (step a s) (LoopMeets step meets rest)

theorem not_fails_foldlM (h : ∀ a s, ¬ Fails bad (step a s)) {l : List α} {s : σ} :
    ¬ Fails bad (l.foldlM (fun s a => step a s) s) := by
  induction l generalizing s with
  | nil => exact not_fails_ok s
  | cons a rest ih =>
    rw [List.foldlM_cons, fails_bind_iff, not_or]
    exact ⟨h a s, fun ⟨_, _, hfails⟩ => ih hfails⟩

theorem fails_mapError_iff {ε' : Type u} {bad' : ε' → Prop} {f : ε → ε'} {x : Except ε α} :
    Fails bad' (x.mapError f) ↔ Fails (fun e => bad' (f e)) x := by
  cases x with
  | ok a => exact iff_of_false (not_fails_ok a) (not_fails_ok a)
  | error e =>
    rw [fails_error_iff]
    exact fails_error_iff

theorem fails_map_iff {f : α → β} {x : Except ε α} : Fails bad (x.map f) ↔ Fails bad x := by
  cases x with
  | ok a => exact iff_of_false (not_fails_ok (f a)) (not_fails_ok a)
  | error e => exact fails_error_iff.trans fails_error_iff.symm

theorem after_ok_iff {a : α} {made : α → Prop} :
    After (.ok a : Except ε α) made ↔ made a := by
  constructor
  · rintro ⟨_, h, hmade⟩
    rwa [Except.ok.inj h]
  · intro hmade
    exact ⟨a, rfl, hmade⟩

theorem after_congr {x : Except ε α} {made made' : α → Prop}
    (h : ∀ a, made a ↔ made' a) : After x made ↔ After x made' := by
  unfold After
  simp only [h]

theorem after_const_iff {x : Except ε α} {p : Prop} :
    (After x fun _ => p) ↔ (∃ a, x = .ok a) ∧ p := by
  constructor
  · rintro ⟨a, h, hp⟩
    exact ⟨⟨a, h⟩, hp⟩
  · rintro ⟨⟨a, h⟩, hp⟩
    exact ⟨a, h, hp⟩

theorem after_unit_iff {x : Except ε Unit} {made : Unit → Prop} :
    After x made ↔ x = .ok () ∧ made () :=
  ⟨fun ⟨_, h, hmade⟩ => ⟨h, hmade⟩, fun ⟨h, hmade⟩ => ⟨(), h, hmade⟩⟩

/-- A loop that is written as a recursion fails in a way exactly when it comes to a step that
does. -/
theorem fails_loop_iff (loop : List α → σ → Except ε σ) {l : List α} {s : σ}
    (hnil : ∀ s, loop [] s = .ok s)
    (hcons : ∀ a rest s, loop (a :: rest) s = step a s >>= loop rest)
    (h : ∀ a ∈ l, ∀ s, Fails bad (step a s) ↔ meets a s) :
    Fails bad (loop l s) ↔ LoopMeets step meets l s := by
  induction l generalizing s with
  | nil =>
    rw [hnil]
    exact iff_of_false (not_fails_ok s) id
  | cons a rest ih =>
    have hrest := fun s => @ih s fun b hb => h b (List.mem_cons_of_mem a hb)
    rw [hcons, fails_bind_iff, h a List.mem_cons_self, LoopMeets]
    simp only [hrest]

end Fails

end results
