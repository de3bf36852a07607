-- Strict merging of trusted profiles without overrides: when it is the deep union of what they
-- declare, and when a key with a dot makes it something else.
import NixosDockers.DevEnvLoader.Visits

open rust_text results documents agreement unions dev_env_model

namespace dev_env_loader

/-! ## Runs -/

/-- Profiles with where they come from, in the order in which they are merged. -/
abbrev Profiles := List (RawProfile × ProfileSource)

/-- One of two profiles has no key with a dot in a table that both declare. -/
def DotsApart (profile other : RawProfile) : Prop :=
  ∀ keys key, other.declared keys = some .Table → profile.declared keys = some .Table →
    (profile.declared (keys ++ [key])).isSome = true → '.' ∉ key.toList

/-- No two profiles both declare a table in which one of them has a key with a dot. -/
def NoSharedDots (profiles : Profiles) : Prop :=
  profiles.Pairwise fun p q => DotsApart p.1 q.1 ∧ DotsApart q.1 p.1

namespace MergedConfig

theorem mergeProfiles_adds {profiles : Profiles} {merged : MergedConfig}
    (hplain : ∀ p ∈ profiles, Plain p.1 p.2) (hpolicy : StrictPolicy merged.shapes)
    (hdots : ∀ p ∈ profiles, p.1.Undotted merged.shapes) (hshared : NoSharedDots profiles) :
    Adds ShapesAgree shapes merged (profiles.flatMap fun p => p.1.maps)
      (mergeProfiles profiles merged) := by
  induction profiles generalizing merged with
  | nil => exact adds_nil
  | cons p rest ih =>
    obtain ⟨hfirst, hrest⟩ := List.forall_mem_cons.mp hplain
    obtain ⟨hfirstDots, hrestDots⟩ := List.forall_mem_cons.mp hdots
    obtain ⟨hpairs, hshared⟩ := List.pairwise_cons.mp hshared
    rw [List.flatMap_cons]
    refine Adds.bind (mergeProfile_adds hfirst hpolicy hfirstDots) fun middle _ hview => ?_
    have hshapes : middle.shapes = join merged.shapes p.1.declared := hview
    refine ih hrest ?_ (fun q hq => ?_) hshared
    · rw [hview]
      exact StrictPolicy.together (List.forall_mem_cons.mpr ⟨hpolicy, hfirst.maps_strict⟩)
    · rw [hshapes]
      intro name front table hsection htable entry hentry
      exact (hrestDots q hq name front table hsection htable entry hentry).of_both
        (RawProfile.undotted_of_declared (hrest q hq) (hpairs q hq).2 name front table hsection
          htable entry hentry)

end MergedConfig

/-! ## The deep union -/

/-- No two profiles declare different values, or a value and a table, at the same keys. -/
def NoClash (profiles : Profiles) : Prop :=
  profiles.Pairwise fun p q => Fits ShapesAgree p.1.declared q.1.declared

/-- Merging the profiles is the deep union of what they declare. -/
structure DeepUnion (profiles : Profiles) : Prop where
  succeeds : (∃ merged, MergedConfig.mergeProfiles profiles .default = .ok merged) ↔
    NoClash profiles
  declared : ∀ merged, MergedConfig.mergeProfiles profiles .default = .ok merged →
    ∀ p ∈ profiles, ∀ keys shape, p.1.declared keys = some shape →
      ∃ found, merged.shapes keys = some found ∧ Stands found shape
  nothing_else : ∀ merged, MergedConfig.mergeProfiles profiles .default = .ok merged →
    ∀ keys found, merged.shapes keys = some found → ∃ p ∈ profiles, p.1.declared keys = some found
  any_order : ∀ other, profiles.Perm other →
    ((∃ merged, MergedConfig.mergeProfiles profiles .default = .ok merged) ↔
      ∃ merged, MergedConfig.mergeProfiles other .default = .ok merged) ∧
    ∀ merged merged', MergedConfig.mergeProfiles profiles .default = .ok merged →
      MergedConfig.mergeProfiles other .default = .ok merged' →
      ∀ keys, Option.Rel Stands (merged.shapes keys) (merged'.shapes keys)

section

variable {profiles other : Profiles}

theorem default_shapes : MergedConfig.default.shapes = fun _ => none := by
  funext keys
  unfold MergedConfig.shapes Doc.look
  exact congrArg _ Doc.lookup_nil_entries

theorem strictPolicy_default : StrictPolicy MergedConfig.default.shapes := by
  rw [default_shapes]
  exact ⟨fun doc hdoc => (nomatch hdoc), fun name shape hshape => (nomatch hshape)⟩

/-- All maps of the profiles fit when the profiles do. -/
theorem noClash_iff (hplain : ∀ p ∈ profiles, Plain p.1 p.2) :
    (MergedConfig.default.shapes :: profiles.flatMap fun p => p.1.maps).Pairwise
      (Fits ShapesAgree) ↔ NoClash profiles := by
  rw [default_shapes, List.pairwise_cons, List.pairwise_flatMap]
  constructor
  · rintro ⟨-, -, hpairs⟩
    refine hpairs.imp_of_mem fun hp hq h => ?_
    exact (RawProfile.declared_fit_iff (hplain _ hp) (hplain _ hq)).mpr h
  · intro h
    refine ⟨fun g _ keys a b ha => (nomatch ha), fun p hp => RawProfile.maps_fit (hplain p hp), ?_⟩
    refine h.imp_of_mem fun hp hq h => ?_
    exact (RawProfile.declared_fit_iff (hplain _ hp) (hplain _ hq)).mp h

/-- What a run of profiles without a shared dotted key comes to. -/
theorem run_of_apart (hplain : ∀ p ∈ profiles, Plain p.1 p.2) (hshared : NoSharedDots profiles) :
    ((∃ merged, MergedConfig.mergeProfiles profiles .default = .ok merged) ↔ NoClash profiles) ∧
      ∀ merged, MergedConfig.mergeProfiles profiles .default = .ok merged →
        merged.shapes = together (profiles.map fun p => p.1.declared) := by
  have hadds := MergedConfig.mergeProfiles_adds hplain strictPolicy_default (fun p hp =>
    RawProfile.undotted_of_declared (hplain p hp) fun keys key hthere => by
      rw [default_shapes] at hthere
      cases hthere) hshared
  refine ⟨hadds.ok_iff.trans (noClash_iff hplain), fun merged hok => ?_⟩
  rw [hadds.view_eq hok, together, default_shapes, together_flatMap]
  rfl

theorem NoClash.perm (h : NoClash profiles) (hperm : profiles.Perm other) : NoClash other :=
  (hperm.pairwise_iff fun h => h.symm).mp h

theorem NoSharedDots.perm (h : NoSharedDots profiles) (hperm : profiles.Perm other) :
    NoSharedDots other :=
  (hperm.pairwise_iff And.symm).mp h

theorem declared_of_apart (hplain : ∀ p ∈ profiles, Plain p.1 p.2)
    (hshared : NoSharedDots profiles) {merged : MergedConfig}
    (hmerged : MergedConfig.mergeProfiles profiles .default = .ok merged) :
    ∀ p ∈ profiles, ∀ keys shape, p.1.declared keys = some shape →
      ∃ found, merged.shapes keys = some found ∧ Stands found shape := by
  intro p hp keys shape hshape
  obtain ⟨hok, hview⟩ := run_of_apart hplain hshared
  have hmem : p.1.declared ∈ profiles.map fun p => p.1.declared := List.mem_map.mpr ⟨p, hp, rfl⟩
  obtain ⟨found, hfound⟩ := exists_together hmem hshape
  refine ⟨found, hview merged hmerged ▸ hfound, ?_⟩
  exact together_related (List.pairwise_map.mpr (hok.mp ⟨merged, hmerged⟩)) hmem hshape hfound

theorem nothing_else_of_apart (hplain : ∀ p ∈ profiles, Plain p.1 p.2)
    (hshared : NoSharedDots profiles) {merged : MergedConfig}
    (hmerged : MergedConfig.mergeProfiles profiles .default = .ok merged) :
    ∀ keys found, merged.shapes keys = some found →
      ∃ p ∈ profiles, p.1.declared keys = some found := by
  intro keys found hfound
  rw [(run_of_apart hplain hshared).2 merged hmerged] at hfound
  obtain ⟨f, hf, hsome⟩ := together_eq_some hfound
  obtain ⟨p, hp, rfl⟩ := List.mem_map.mp hf
  exact ⟨p, hp, hsome⟩

/-- Where no dotted key is in a shared table, merging is the deep union. -/
theorem deepUnion_of_apart (hplain : ∀ p ∈ profiles, Plain p.1 p.2)
    (hshared : NoSharedDots profiles) : DeepUnion profiles := by
  have hok := (run_of_apart hplain hshared).1
  refine ⟨hok, fun _ => declared_of_apart hplain hshared,
    fun _ => nothing_else_of_apart hplain hshared, fun other hperm => ?_⟩
  have hplain' : ∀ p ∈ other, Plain p.1 p.2 := fun p hp => hplain p (hperm.mem_iff.mpr hp)
  have hshared' := hshared.perm hperm
  have hok' := (run_of_apart hplain' hshared').1
  refine ⟨hok.trans (Iff.trans ⟨fun h => h.perm hperm, fun h => h.perm hperm.symm⟩ hok'.symm), ?_⟩
  intro merged merged' hmerged hmerged' keys
  cases hfound : merged.shapes keys with
  | some found =>
    obtain ⟨p, hp, hdeclared⟩ := nothing_else_of_apart hplain hshared hmerged keys found hfound
    obtain ⟨found', hfound', hstands⟩ :=
      declared_of_apart hplain' hshared' hmerged' p (hperm.mem_iff.mp hp) keys found hdeclared
    rw [hfound']
    exact .some hstands.symm
  | none =>
    cases hfound' : merged'.shapes keys with
    | none => exact .none
    | some found' =>
      obtain ⟨p, hp, hdeclared⟩ :=
        nothing_else_of_apart hplain' hshared' hmerged' keys found' hfound'
      obtain ⟨found, hsome, -⟩ :=
        declared_of_apart hplain hshared hmerged p (hperm.mem_iff.mpr hp) keys found' hdeclared
      cases hfound.symm.trans hsome

/-! ## Runs that need no condition -/

/-- A run of profiles, with its first one apart. -/
theorem mergeProfiles_cons {p : RawProfile × ProfileSource} {merged final : MergedConfig}
    (h : MergedConfig.mergeProfiles (p :: profiles) merged = .ok final) :
    ∃ middle, merged.mergeProfile p.1 p.2 = .ok middle ∧
      MergedConfig.mergeProfiles profiles middle = .ok final :=
  bind_ok_iff.mp h

theorem mergeProfiles_grows (hplain : ∀ p ∈ profiles, Plain p.1 p.2) {merged final : MergedConfig}
    (hpolicy : StrictPolicy merged.shapes)
    (h : MergedConfig.mergeProfiles profiles merged = .ok final) :
    MergedConfig.Grows merged final := by
  induction profiles generalizing merged with
  | nil =>
    obtain rfl := Except.ok.inj h
    exact .refl _
  | cons p rest ih =>
    obtain ⟨hfirst, hrest⟩ := List.forall_mem_cons.mp hplain
    obtain ⟨middle, hmiddle, h⟩ := mergeProfiles_cons h
    exact (MergedConfig.mergeProfile_grows hfirst hpolicy hmiddle).trans
      (ih hrest (MergedConfig.strict_after hfirst hpolicy hmiddle) h)

/-- The profiles of a run that succeeds fit what was there before, at keys without dots. -/
theorem mergeProfiles_agree (hplain : ∀ p ∈ profiles, Plain p.1 p.2) {merged final : MergedConfig}
    (hpolicy : StrictPolicy merged.shapes)
    (h : MergedConfig.mergeProfiles profiles merged = .ok final) {q : RawProfile × ProfileSource}
    (hq : q ∈ profiles) {keys : List String} (hdots : ∀ key ∈ keys, '.' ∉ key.toList)
    {there shape : Shape String TomlScalar} (hthere : merged.shapes keys = some there)
    (hshape : q.1.declared keys = some shape) : ShapesAgree there shape := by
  induction profiles generalizing merged with
  | nil => cases hq
  | cons p rest ih =>
    obtain ⟨hfirst, hrest⟩ := List.forall_mem_cons.mp hplain
    obtain ⟨middle, hmiddle, h⟩ := mergeProfiles_cons h
    rcases List.mem_cons.mp hq with rfl | hq
    · exact (MergedConfig.mergeProfile_shows hfirst hpolicy hmiddle hdots hshape).1 there hthere
    · exact ih hrest (MergedConfig.strict_after hfirst hpolicy hmiddle) h hq
        ((MergedConfig.mergeProfile_grows hfirst hpolicy hmiddle).kept _ _ hthere)

/-- Two profiles do not clash at keys without dots. -/
def FitAtPlainKeys (profile other : RawProfile) : Prop :=
  ∀ keys, (∀ key ∈ keys, '.' ∉ key.toList) → ∀ a b, profile.declared keys = some a →
    other.declared keys = some b → ShapesAgree a b

/-- No run succeeds with profiles that clash at keys without dots. -/
theorem fit_of_ok (hplain : ∀ p ∈ profiles, Plain p.1 p.2) {merged final : MergedConfig}
    (hpolicy : StrictPolicy merged.shapes)
    (h : MergedConfig.mergeProfiles profiles merged = .ok final) :
    profiles.Pairwise fun p q => FitAtPlainKeys p.1 q.1 := by
  induction profiles generalizing merged with
  | nil => exact .nil
  | cons p rest ih =>
    obtain ⟨hfirst, hrest⟩ := List.forall_mem_cons.mp hplain
    obtain ⟨middle, hmiddle, h⟩ := mergeProfiles_cons h
    have hpolicy' := MergedConfig.strict_after hfirst hpolicy hmiddle
    refine List.pairwise_cons.mpr ⟨fun q hq keys hdots a b ha hb => ?_, ih hrest hpolicy' h⟩
    obtain ⟨-, found, hfound, hstands⟩ :=
      MergedConfig.mergeProfile_shows hfirst hpolicy hmiddle hdots ha
    have hagree := mergeProfiles_agree hrest hpolicy' h hq hdots hfound hb
    rcases hstands with rfl | hsame
    · exact hagree
    · exact IsTrans.trans _ _ _ (Std.Symm.symm _ _ hsame) hagree

/-- Profiles that clash at keys without dots fail in every order, as the deep union does. -/
theorem deepUnion_of_plain_clash (hplain : ∀ p ∈ profiles, Plain p.1 p.2)
    (hclash : ¬ profiles.Pairwise fun p q => FitAtPlainKeys p.1 q.1) : DeepUnion profiles := by
  have hsymm : ∀ {p q : RawProfile × ProfileSource}, FitAtPlainKeys p.1 q.1 →
      FitAtPlainKeys q.1 p.1 := fun h keys hdots a b ha hb =>
    Std.Symm.symm _ _ (h keys hdots b a hb ha)
  have hfails : ∀ other, profiles.Perm other →
      ¬ ∃ merged, MergedConfig.mergeProfiles other .default = .ok merged := by
    rintro other hperm ⟨merged, h⟩
    exact hclash ((hperm.pairwise_iff hsymm).mpr
      (fit_of_ok (fun p hp => hplain p (hperm.mem_iff.mpr hp)) strictPolicy_default h))
  have hnever : ∀ merged, MergedConfig.mergeProfiles profiles .default ≠ .ok merged :=
    fun merged h => hfails profiles (.refl _) ⟨merged, h⟩
  refine ⟨⟨fun h => absurd h (hfails profiles (.refl _)), fun h => absurd ?_ hclash⟩,
    fun merged h => absurd h (hnever merged), fun merged h => absurd h (hnever merged),
    fun other hperm => ⟨⟨fun h => absurd h (hfails profiles (.refl _)),
      fun h => absurd h (hfails other hperm)⟩, fun merged _ h => absurd h (hnever merged)⟩⟩
  exact h.imp fun hfits keys _ a b ha hb => hfits keys a b ha hb

/-! ## Shared tables with dotted keys -/

/-- The profile does not declare a key with a dot and something at the keys it splits to. -/
def RawProfile.Unambiguous (profile : RawProfile) : Prop :=
  ∀ keys key, '.' ∈ key.toList → (profile.declared (keys ++ [key])).isSome = true →
    profile.declared (keys ++ splitChar '.' key) = none

/-- Profiles that merge to their deep union do so in any order. -/
theorem DeepUnion.run (h : DeepUnion profiles) (hfit : NoClash profiles)
    (hperm : profiles.Perm other) :
    ∃ merged, MergedConfig.mergeProfiles other .default = .ok merged ∧
      (∀ p ∈ profiles, ∀ keys, (p.1.declared keys).isSome = true →
        (merged.shapes keys).isSome = true) ∧
      ∀ keys, (merged.shapes keys).isSome = true →
        ∃ p ∈ profiles, (p.1.declared keys).isSome = true := by
  obtain ⟨merged, hmerged⟩ := h.succeeds.mpr hfit
  obtain ⟨halike, htrees⟩ := h.any_order other hperm
  obtain ⟨merged', hmerged'⟩ := halike.mp ⟨merged, hmerged⟩
  have hsame : ∀ keys, (merged.shapes keys).isSome = (merged'.shapes keys).isSome := by
    intro keys
    have hrel := htrees merged merged' hmerged hmerged' keys
    generalize merged.shapes keys = found, merged'.shapes keys = found' at hrel ⊢
    cases hrel <;> rfl
  refine ⟨merged', hmerged', fun p hp keys hdeclared => ?_, fun keys hfound => ?_⟩
  · obtain ⟨shape, hshape⟩ := Option.isSome_iff_exists.mp hdeclared
    obtain ⟨found, hfound, -⟩ := h.declared merged hmerged p hp keys shape hshape
    rw [← hsame, hfound]
    rfl
  · rw [← hsame] at hfound
    obtain ⟨found, hsome⟩ := Option.isSome_iff_exists.mp hfound
    obtain ⟨p, hp, hdeclared⟩ := h.nothing_else merged hmerged keys found hsome
    exact ⟨p, hp, hdeclared ▸ rfl⟩

/-- After the first profile, the tree is what it declares. -/
theorem shapes_of_first {p : RawProfile × ProfileSource} (hplain : Plain p.1 p.2)
    {merged : MergedConfig} (h : MergedConfig.default.mergeProfile p.1 p.2 = .ok merged) :
    merged.shapes = p.1.declared := by
  have hadds := MergedConfig.mergeProfile_adds hplain strictPolicy_default
    (RawProfile.undotted_of_declared hplain fun keys key hthere => by
      rw [default_shapes] at hthere
      cases hthere)
  rw [hadds.view_eq h, together, default_shapes]
  rfl

/-- In a deep union, every profile that declares a table has all keys with dots that any of them
has in it. -/
theorem DeepUnion.shares_key (h : DeepUnion profiles) (hplain : ∀ p ∈ profiles, Plain p.1 p.2)
    (hfit : NoClash profiles) {p r : RawProfile × ProfileSource} (hp : p ∈ profiles)
    (hr : r ∈ profiles) {keys : List String} {key : String} (hdot : '.' ∈ key.toList)
    (htable : r.1.declared keys = some .Table)
    (hdeclared : (p.1.declared (keys ++ [key])).isSome = true) :
    (r.1.declared (keys ++ [key])).isSome = true := by
  obtain ⟨before, after, rfl⟩ := List.append_of_mem hr
  obtain ⟨final, hfinal, hall, -⟩ := h.run hfit List.perm_middle
  obtain ⟨middle, hmiddle, hrest⟩ := mergeProfiles_cons hfinal
  have hfirst := shapes_of_first (hplain r hr) hmiddle
  have hothers : ∀ q ∈ before ++ after, Plain q.1 q.2 := fun q hq =>
    hplain q (List.perm_middle.mem_iff.mpr (List.mem_cons_of_mem _ hq))
  have hgrows : MergedConfig.Grows middle final := mergeProfiles_grows hothers
    (MergedConfig.strict_after (hplain r hr) strictPolicy_default hmiddle) hrest
  cases hown : r.1.declared (keys ++ [key]) with
  | some shape => rfl
  | none =>
    have hnone := hgrows.closed keys key hdot (hfirst ▸ htable) (hfirst ▸ hown)
    have hsome := hall p hp _ hdeclared
    rw [hnone] at hsome
    cases hsome

/-- A table of keys without dots, in which one of two profiles has a key with a dot. -/
theorem DeepUnion.undotted (h : DeepUnion profiles) (hplain : ∀ p ∈ profiles, Plain p.1 p.2)
    (hfit : NoClash profiles) (hclear : ∀ p ∈ profiles, p.1.Unambiguous)
    {p q : RawProfile × ProfileSource} {rest : Profiles} (hperm : profiles.Perm (q :: p :: rest))
    {keys : List String} {key : String} (hdots : ∀ key ∈ keys, '.' ∉ key.toList)
    (htable : q.1.declared keys = some .Table)
    (hdeclared : (p.1.declared (keys ++ [key])).isSome = true) : '.' ∉ key.toList := by
  intro hdot
  have hplain' : ∀ r ∈ q :: p :: rest, Plain r.1 r.2 := fun r hr => hplain r (hperm.mem_iff.mpr hr)
  obtain ⟨hq, hothers⟩ := List.forall_mem_cons.mp hplain'
  obtain ⟨hp, hrest⟩ := List.forall_mem_cons.mp hothers
  have hpmem : p ∈ profiles := hperm.mem_iff.mpr (List.mem_cons_of_mem _ List.mem_cons_self)
  obtain ⟨final, hfinal, -, hnothing⟩ := h.run hfit hperm
  obtain ⟨middle, hmiddle, hnext⟩ := mergeProfiles_cons hfinal
  obtain ⟨next, hnext, hlast⟩ := mergeProfiles_cons hnext
  have hpolicy := MergedConfig.strict_after hq strictPolicy_default hmiddle
  obtain ⟨found, hfound⟩ := MergedConfig.mergeProfile_splits hp hpolicy hnext hdots hdot
    (shapes_of_first hq hmiddle ▸ htable) hdeclared
  have hthere := (mergeProfiles_grows hrest (MergedConfig.strict_after hp hpolicy hnext) hlast).kept
    _ _ hfound
  obtain ⟨r, hr, hsplit⟩ := hnothing _ (Option.isSome_iff_exists.mpr ⟨found, hthere⟩)
  obtain ⟨shape, hshape⟩ := Option.isSome_iff_exists.mp hsplit
  have hkeys : keys ≠ [] := by
    rintro rfl
    cases (RawProfile.declared_nil q.1).symm.trans htable
  have hshared := RawProfile.declared_front (hplain r hr) hshape hkeys (splitChar_ne_nil '.' key)
  have hkey := h.shares_key hplain hfit hpmem hr hdot hshared hdeclared
  rw [hclear r hr keys key hdot hkey] at hsplit
  cases hsplit

theorem DeepUnion.apart (h : DeepUnion profiles) (hplain : ∀ p ∈ profiles, Plain p.1 p.2)
    (hfit : NoClash profiles) (hclear : ∀ p ∈ profiles, p.1.Unambiguous)
    {p q : RawProfile × ProfileSource} {rest : Profiles} (hperm : profiles.Perm (q :: p :: rest)) :
    DotsApart p.1 q.1 := by
  have hp : p ∈ profiles := hperm.mem_iff.mpr (List.mem_cons_of_mem _ List.mem_cons_self)
  have hq : q ∈ profiles := hperm.mem_iff.mpr List.mem_cons_self
  have hshared : ∀ keys, q.1.declared keys = some .Table → p.1.declared keys = some .Table →
      ∀ key ∈ keys, '.' ∉ key.toList := by
    intro keys
    induction keys using List.reverseRecOn with
    | nil => exact fun _ _ key hkey => nomatch hkey
    | append_singleton front last ih =>
      intro hqtable hptable
      by_cases hfront : front = []
      · subst hfront
        exact fun key hkey => List.mem_singleton.mp hkey ▸ RawProfile.head_undotted hptable
      · have hlast : [last] ≠ [] := List.cons_ne_nil last []
        have hqfront := RawProfile.declared_front (hplain q hq) hqtable hfront hlast
        have hdots := ih hqfront (RawProfile.declared_front (hplain p hp) hptable hfront hlast)
        intro key hkey
        rcases List.mem_append.mp hkey with hkey | hkey
        · exact hdots key hkey
        · rw [List.mem_singleton.mp hkey]
          exact h.undotted hplain hfit hclear hperm hdots hqfront (hptable ▸ rfl)
  intro keys key hqtable hptable hdeclared
  exact h.undotted hplain hfit hclear hperm (hshared keys hqtable hptable) hqtable hdeclared

/-- Strict merging of trusted profiles without overrides is the deep union of what they declare
when no two of them share a table in which one has a key with a dot, and when two of them clash at
keys without dots. The first is also needed by profiles that do not clash, when none of them declares
a key with a dot beside what it splits to. -/
theorem merging_is_the_deep_union_without_shared_dots (profiles : Profiles)
    (hplain : ∀ p ∈ profiles, Plain p.1 p.2) :
    (NoSharedDots profiles ∨ ¬ profiles.Pairwise (fun p q => FitAtPlainKeys p.1 q.1) →
      DeepUnion profiles) ∧
    (NoClash profiles → (∀ p ∈ profiles, p.1.Unambiguous) →
      (DeepUnion profiles ↔ NoSharedDots profiles)) := by
  refine ⟨fun h => h.elim (deepUnion_of_apart hplain) (deepUnion_of_plain_clash hplain),
    fun hfit hclear => ⟨fun h => List.pairwise_iff_forall_sublist.mpr fun {p q} hsublist => ?_,
      deepUnion_of_apart hplain⟩⟩
  obtain ⟨rest, hperm⟩ := hsublist.exists_perm_append
  exact ⟨h.apart hplain hfit hclear (hperm.trans (List.Perm.swap q p rest)),
    h.apart hplain hfit hclear hperm⟩

end

/-! ### Profiles of a configuration -/

/-- A profile of a configuration alone. -/
def RawProfile.ofConfig (id : String) (config : Table)
    (known : ∀ key ∈ Entries.keys config, key ∈ configFields) : RawProfile where
  id
  parents := []
  overrides := ∅
  root := [("config", .Table config)]
  policy_read := fun _ h => nomatch h
  config_known := fun _ h => ⟨config, (Option.some.inj h).symm, known⟩
  inputs_named := fun _ h => nomatch h
  overrides_checked := by
    intro path spec h
    simp at h

section

variable {id : String} {config : Table} {known : ∀ key ∈ Entries.keys config, key ∈ configFields}

theorem ofConfig_plain {source : ProfileSource} (htrusted : source.source.isTrusted = true)
    (hordered : Ordered (.Table config)) : Plain (RawProfile.ofConfig id config known) source where
  trusted := htrusted
  no_overrides := rfl
  strict := fun _ h => nomatch h
  ordered := .single hordered

/-- Such a profile declares what stands in its configuration. -/
theorem ofConfig_declared (hordered : Ordered (.Table config)) :
    (RawProfile.ofConfig id config known).declared = Doc.look config := by
  have hmaps : (RawProfile.ofConfig id config known).maps = Doc.placedEntries [] config := by
    unfold RawProfile.maps sectionFronts RawProfile.sectionMaps
    exact List.append_nil _
  funext keys
  cases keys with
  | nil => exact RawProfile.declared_nil _
  | cons key below =>
    unfold RawProfile.declared
    rw [hmaps]
    have hlook : together (Doc.placedEntries [] config) ([] ++ key :: below) =
        (Doc.reach below (Entries.get key config)).map Doc.shape :=
      Doc.together_entries_below (nodup_of_ordered hordered)
    exact hlook.trans (congrArg _ Doc.lookup_cons.symm)

end

def bashShell : Value := .Table [("command", Value.text "/bin/bash"), ("kind", Value.text "posix")]

/-- An image with one shell. -/
def bashImage : RawProfile :=
  RawProfile.ofConfig "image" [("shells", .Table [("bash", bashShell)])] (by decide)

/-- A profile with one shell more, whose id has a dot. -/
def bashVariant : RawProfile :=
  RawProfile.ofConfig "variant" [("shells", .Table [("bash.dev", bashShell)])] (by decide)

def variantProfiles : Profiles := [(bashImage, imageSource), (bashVariant, imageSource)]

theorem bashShell_ordered : Ordered bashShell := by
  refine .Table _ (by decide) fun entry hentry => ?_
  simp only [List.mem_cons, List.not_mem_nil, or_false] at hentry
  rcases hentry with rfl | rfl <;> exact .Scalar _

/-- The shell of the second profile comes below that of the first one. -/
theorem dotted_shell_is_split :
    (∀ p ∈ variantProfiles, Plain p.1 p.2) ∧ ¬ DeepUnion variantProfiles := by
  have hordered : ∀ key, Ordered (.Table [("shells", .Table [(key, bashShell)])]) := fun key =>
    .single (.single bashShell_ordered)
  refine ⟨?_, fun h => ?_⟩
  · have himage : Plain bashImage imageSource := ofConfig_plain rfl (hordered _)
    have hvariant : Plain bashVariant imageSource := ofConfig_plain rfl (hordered _)
    exact List.forall_mem_cons.mpr ⟨himage, List.forall_mem_singleton.mpr hvariant⟩
  · have hvalue : (MergedConfig.mergeProfiles variantProfiles .default).map
        (fun merged => Doc.lookup ["shells", "bash.dev"] merged.root) = .ok none := rfl
    obtain ⟨merged, hmerged, hlookup⟩ := map_ok_iff.mp hvalue
    have hdeclared : bashVariant.declared ["shells", "bash.dev"] = some .Table := by
      unfold bashVariant
      rw [ofConfig_declared (hordered _)]
      rfl
    obtain ⟨found, hfound, -⟩ := h.declared merged hmerged (bashVariant, imageSource)
      (List.mem_cons_of_mem _ List.mem_cons_self) _ _ hdeclared
    unfold MergedConfig.shapes Doc.look at hfound
    rw [hlookup] at hfound
    cases hfound

/-- An image with one shell, and a feature whose key has a dot. -/
def themedConfig : Table :=
  [("features", .Table [("editor.theme", Value.text "dark")]),
    ("shells", .Table [("bash", bashShell)])]

def themedImage : RawProfile := RawProfile.ofConfig "image" themedConfig (by decide)

/-- A profile with another shell, whose id has no dot. -/
def loginConfig : Table := [("shells", .Table [("login", bashShell)])]

def loginProfile : RawProfile := RawProfile.ofConfig "login" loginConfig (by decide)

def themedProfiles : Profiles := [(themedImage, imageSource), (loginProfile, imageSource)]

theorem themed_ordered : Ordered (.Table themedConfig) := by
  refine .Table _ (by decide) fun entry hentry => ?_
  simp only [themedConfig, List.mem_cons, List.not_mem_nil, or_false] at hentry
  rcases hentry with rfl | rfl
  · exact .single (.Scalar _)
  · exact .single bashShell_ordered

theorem login_ordered : Ordered (.Table loginConfig) := .single (.single bashShell_ordered)

/-- The two profiles share the table of shells, and only that one. -/
theorem themed_shared {keys : List String} (hlogin : Doc.look loginConfig keys = some .Table)
    (himage : Doc.look themedConfig keys = some .Table) : keys = ["shells"] := by
  unfold loginConfig at hlogin
  unfold themedConfig at himage
  cases keys with
  | nil => cases hlogin
  | cons first rest =>
    rw [Doc.look_cons, Doc.look_nil_entries] at hlogin
    split_ifs at hlogin with hfirst
    subst hfirst
    rw [Doc.look_cons, if_neg (by decide), Doc.look_cons, if_pos rfl] at himage
    cases rest with
    | nil => rfl
    | cons next below =>
      change Doc.look [("login", bashShell)] (next :: below) = _ at hlogin
      change Doc.look [("bash", bashShell)] (next :: below) = _ at himage
      rw [Doc.look_cons, Doc.look_nil_entries] at hlogin himage
      split_ifs at hlogin with hnext
      rw [if_neg (by rw [hnext]; decide)] at himage
      cases himage

theorem shells_key (id : String) {key : String} {config : Table} (hshells : '.' ∉ id.toList)
    (hlook : ∀ key, Doc.look config ["shells", key] = Doc.look [(id, bashShell)] [key])
    (h : (Doc.look config (["shells"] ++ [key])).isSome = true) : '.' ∉ key.toList := by
  rw [List.singleton_append, hlook, Doc.look_cons, Doc.look_nil_entries] at h
  split_ifs at h with hkey
  · exact hkey ▸ hshells
  · cases h

theorem themed_apart : NoSharedDots themedProfiles := by
  have himage : themedImage.declared = Doc.look themedConfig := ofConfig_declared themed_ordered
  have hlogin : loginProfile.declared = Doc.look loginConfig := ofConfig_declared login_ordered
  refine List.pairwise_pair.mpr ⟨fun keys key hother hown hkey => ?_,
    fun keys key hother hown hkey => ?_⟩
  · change loginProfile.declared keys = _ at hother
    change themedImage.declared keys = _ at hown
    change (themedImage.declared (keys ++ [key])).isSome = true at hkey
    rw [hlogin] at hother
    rw [himage] at hown hkey
    obtain rfl := themed_shared hother hown
    exact shells_key "bash" (by decide) (fun _ => rfl) hkey
  · change themedImage.declared keys = _ at hother
    change loginProfile.declared keys = _ at hown
    change (loginProfile.declared (keys ++ [key])).isSome = true at hkey
    rw [himage] at hother
    rw [hlogin] at hown hkey
    obtain rfl := themed_shared hown hother
    exact shells_key "login" (by decide) (fun _ => rfl) hkey

theorem themed_profiles_merge_to_their_union : DeepUnion themedProfiles := by
  have himage : Plain themedImage imageSource := ofConfig_plain rfl themed_ordered
  have hlogin : Plain loginProfile imageSource := ofConfig_plain rfl login_ordered
  exact (merging_is_the_deep_union_without_shared_dots themedProfiles
    (List.forall_mem_cons.mpr ⟨himage, List.forall_mem_singleton.mpr hlogin⟩)).1 (.inl themed_apart)

end dev_env_loader
