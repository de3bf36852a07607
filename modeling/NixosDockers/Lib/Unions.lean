-- Steps that add partial maps to what a state shows, each only when it fits what is
-- there: a run of them succeeds when the maps fit each other, and ends with all together.
import NixosDockers.Lib.Agreement

open agreement

namespace unions

variable {κ V σ ε : Type*} {R : V → V → Prop} {f g h : κ → Option V} {l l' : List (κ → Option V)}

/-! ## Maps that fit -/

/-- Where both maps have a value, the values are related. -/
def Fits (R : V → V → Prop) (f g : κ → Option V) : Prop :=
  ∀ k a b, f k = some a → g k = some b → R a b

theorem Fits.symm [Std.Symm R] (hfits : Fits R f g) : Fits R g f :=
  fun k a b hg hf => Std.Symm.symm _ _ (hfits k b a hf hg)

/-- What some maps have together: the first of them that has a value decides. -/
def together : List (κ → Option V) → κ → Option V
  | [] => fun _ => none
  | f :: rest => join f (together rest)

theorem together_append : together (l ++ l') = join (together l) (together l') := by
  induction l with
  | nil => rfl
  | cons f rest ih =>
    rw [List.cons_append, together, together, ih, join_assoc]

theorem together_eq_some {k : κ} {a : V} (hsome : together l k = some a) :
    ∃ f ∈ l, f k = some a := by
  induction l with
  | nil => cases hsome
  | cons f rest ih =>
    rcases Option.or_eq_some_iff.mp hsome with hf | ⟨-, hrest⟩
    · exact ⟨f, List.mem_cons_self, hf⟩
    · obtain ⟨g, hg, hsome⟩ := ih hrest
      exact ⟨g, List.mem_cons_of_mem _ hg, hsome⟩

theorem together_eq_none {k : κ} (hnone : ∀ f ∈ l, f k = none) : together l k = none := by
  cases hsome : together l k with
  | none => rfl
  | some a =>
    obtain ⟨f, hf, ha⟩ := together_eq_some hsome
    rw [hnone f hf] at ha
    cases ha

theorem exists_together {k : κ} {b : V} (hf : f ∈ l) (hsome : f k = some b) :
    ∃ a, together l k = some a := by
  induction l with
  | nil => cases hf
  | cons g rest ih =>
    cases hg : g k with
    | some a => exact ⟨a, Option.or_eq_some_iff.mpr (.inl hg)⟩
    | none =>
      have hrest : f ∈ rest := by
        refine (List.mem_cons.mp hf).resolve_left ?_
        rintro rfl
        rw [hg] at hsome
        cases hsome
      obtain ⟨a, ha⟩ := ih hrest
      exact ⟨a, Option.or_eq_some_iff.mpr (.inr ⟨hg, ha⟩)⟩

/-- Where maps that fit have a value together, it is related to the value of each, or taken from
that map. -/
theorem together_related (hpairs : l.Pairwise (Fits R)) {k : κ} {a b : V}
    (hf : f ∈ l) (hsome : f k = some b) (hall : together l k = some a) : a = b ∨ R a b := by
  induction l with
  | nil => cases hf
  | cons g rest ih =>
    obtain ⟨hfirst, hrest⟩ := List.pairwise_cons.mp hpairs
    rcases Option.or_eq_some_iff.mp hall with hg | ⟨hg, hall⟩
    · rcases List.mem_cons.mp hf with rfl | hf
      · rw [hsome] at hg
        exact .inl (Option.some.inj hg).symm
      · exact .inr (hfirst f hf k a b hg hsome)
    · have hmem : f ∈ rest := by
        refine (List.mem_cons.mp hf).resolve_left ?_
        rintro rfl
        rw [hg] at hsome
        cases hsome
      exact ih hrest hmem hall

theorem together_flatMap {α : Type*} (F : α → List (κ → Option V)) (parts : List α) :
    together (parts.flatMap F) = together (parts.map fun a => together (F a)) := by
  induction parts with
  | nil => rfl
  | cons a rest ih =>
    rw [List.flatMap_cons, together_append, ih]
    rfl

/-- Where only one map has a value, all together have that one. -/
theorem together_eq_of_apart {k : κ} (hf : f ∈ l) (hapart : ∀ g ∈ l, g ≠ f → g k = none) :
    together l k = f k := by
  cases hall : together l k with
  | none =>
    cases hsome : f k with
    | none => rfl
    | some b =>
      obtain ⟨a, ha⟩ := exists_together hf hsome
      cases hall.symm.trans ha
  | some a =>
    obtain ⟨g, hg, hsome⟩ := together_eq_some hall
    by_cases hgf : g = f
    · rw [← hgf, hsome]
    · rw [hapart g hg hgf] at hsome
      cases hsome

/-- A map that has nothing new adds nothing. -/
theorem join_eq_left (hold : ∀ k b, g k = some b → ∃ a, f k = some a) : join f g = f := by
  funext k
  rw [join]
  cases hg : g k with
  | none => exact Option.or_none
  | some b =>
    obtain ⟨a, ha⟩ := hold k b hg
    rw [ha, Option.some_or]

/-- A map fits what some maps have together when it fits each of them. -/
theorem together_fits_iff [Std.Symm R] [IsTrans V R] (hpairs : l.Pairwise (Fits R)) :
    Fits R (together l) g ↔ ∀ f ∈ l, Fits R f g := by
  constructor
  · intro hfits f hf k a b ha hb
    obtain ⟨first, hfirst⟩ := exists_together hf ha
    have hrelated := hfits k first b hfirst hb
    rcases together_related hpairs hf ha hfirst with rfl | hsame
    · exact hrelated
    · exact IsTrans.trans _ _ _ (Std.Symm.symm _ _ hsame) hrelated
  · intro hfits k a b ha hb
    obtain ⟨f, hf, hsome⟩ := together_eq_some ha
    exact hfits f hf k a b hsome hb

theorem fits_together_iff [Std.Symm R] [IsTrans V R] (hpairs : l.Pairwise (Fits R)) :
    Fits R g (together l) ↔ ∀ f ∈ l, Fits R g f := by
  constructor
  · exact fun hfits f hf => ((together_fits_iff hpairs).mp hfits.symm f hf).symm
  · exact fun hfits => ((together_fits_iff hpairs).mpr fun f hf => (hfits f hf).symm).symm

/-! ## Runs that add maps -/

variable {view : σ → κ → Option V} {s : σ} {made : Except ε σ}

/-- Some maps are added to a state: that succeeds when all fit, and the state then shows them
together. -/
def Adds (R : V → V → Prop) (view : σ → κ → Option V) (s : σ) (l : List (κ → Option V))
    (made : Except ε σ) : Prop :=
  ((view s :: l).Pairwise (Fits R) ∧ ∃ s', made = .ok s' ∧ view s' = together (view s :: l)) ∨
    ¬ (view s :: l).Pairwise (Fits R) ∧ ∃ e, made = .error e

theorem adds_nil : Adds R view s [] (.ok s : Except ε σ) := by
  refine .inl ⟨List.pairwise_singleton _ _, s, rfl, ?_⟩
  funext k
  exact (Option.or_none).symm

theorem Adds.ok_iff (hadds : Adds R view s l made) :
    (∃ s', made = .ok s') ↔ (view s :: l).Pairwise (Fits R) := by
  rcases hadds with ⟨hpairs, s', hmade, -⟩ | ⟨hpairs, e, hmade⟩
  · exact ⟨fun _ => hpairs, fun _ => ⟨s', hmade⟩⟩
  · refine ⟨?_, fun h => absurd h hpairs⟩
    rintro ⟨s', hok⟩
    cases hmade.symm.trans hok

theorem Adds.view_eq (hadds : Adds R view s l made) {s' : σ} (hok : made = .ok s') :
    view s' = together (view s :: l) := by
  rcases hadds with ⟨-, s'', hmade, hview⟩ | ⟨-, e, hmade⟩
  · obtain rfl := Except.ok.inj (hmade.symm.trans hok)
    exact hview
  · cases hmade.symm.trans hok

/-- One addition after another. -/
theorem Adds.bind [Std.Symm R] [IsTrans V R] {next : σ → Except ε σ}
    (hadds : Adds R view s l made)
    (hnext : ∀ s', made = .ok s' → view s' = together (view s :: l) →
      Adds R view s' l' (next s')) :
    Adds R view s (l ++ l') (made >>= next) := by
  have hsplit : (view s :: (l ++ l')).Pairwise (Fits R) ↔
      (view s :: l).Pairwise (Fits R) ∧ l'.Pairwise (Fits R) ∧
        ∀ f ∈ view s :: l, ∀ g ∈ l', Fits R f g := by
    rw [← List.cons_append, List.pairwise_append]
  rcases hadds with ⟨hpairs, s', rfl, hview⟩ | ⟨hpairs, e, rfl⟩
  · have hwhole : (view s :: (l ++ l')).Pairwise (Fits R) ↔
        (view s' :: l').Pairwise (Fits R) := by
      rw [hsplit, List.pairwise_cons (a := view s'), hview]
      constructor
      · rintro ⟨-, hrest, hcross⟩
        exact ⟨fun g hg => (together_fits_iff hpairs).mpr fun f hf =>
          hcross f hf g hg, hrest⟩
      · rintro ⟨hcross, hrest⟩
        exact ⟨hpairs, hrest, fun f hf g hg =>
          (together_fits_iff hpairs).mp (hcross g hg) f hf⟩
    rcases hnext s' rfl hview with ⟨hfit, last, hlast, hview'⟩ | ⟨hfit, e, hfailed⟩
    · refine .inl ⟨hwhole.mpr hfit, last, hlast, ?_⟩
      rw [hview', together, hview, ← together_append]
      rfl
    · exact .inr ⟨fun h => hfit (hwhole.mp h), e, hfailed⟩
  · exact .inr ⟨fun h => hpairs (hsplit.mp h).1, e, rfl⟩

/-- Maps may be replaced by others that fit the same and have the same together. -/
theorem Adds.congr (hadds : Adds R view s l made)
    (hpairs : (view s :: l).Pairwise (Fits R) ↔ (view s :: l').Pairwise (Fits R))
    (htogether : together (view s :: l) = together (view s :: l')) : Adds R view s l' made := by
  rcases hadds with ⟨h, s', hmade, hview⟩ | ⟨h, e, hmade⟩
  · exact .inl ⟨hpairs.mp h, s', hmade, hview.trans htogether⟩
  · exact .inr ⟨fun h' => h (hpairs.mpr h'), e, hmade⟩

end unions
