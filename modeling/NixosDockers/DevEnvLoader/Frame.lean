-- What an untrusted overlay leaves alone: it adds what is missing, and every
-- leaf that it changes or drops is at or under a path that it may override.
import NixosDockers.DevEnvLoader.Steps

open rust_text documents dev_env_model results

namespace dev_env_loader

/-- A leaf of the tree before that is another one afterwards, or none. -/
def LostLeaf (root root' : Table) (keys : List String) : Prop :=
  ∃ doc, Doc.lookup keys root = some doc ∧ doc.IsLeaf ∧ Doc.lookup keys root' ≠ some doc

theorem LostLeaf.trans {root middle root' : Table} {keys : List String}
    (h : LostLeaf root root' keys) : LostLeaf root middle keys ∨ LostLeaf middle root' keys := by
  obtain ⟨doc, hdoc, hleaf, hlost⟩ := h
  by_cases hmiddle : Doc.lookup keys middle = some doc
  · exact Or.inr ⟨doc, hmiddle, hleaf, hlost⟩
  · exact Or.inl ⟨doc, hdoc, hleaf, hmiddle⟩

theorem not_lostLeaf (root : Table) (keys : List String) : ¬ LostLeaf root root keys :=
  fun ⟨_, hdoc, _, hlost⟩ => hlost hdoc

theorem setPath_ok_iff {root root' : Table} {path : String} {value : Value} :
    setPath root path value = .ok root' ↔ Doc.put value (splitChar '.' path) root = some root' := by
  unfold setPath
  cases Doc.put value (splitChar '.' path) root <;> simp

namespace MergedConfig

variable {context : MergeContext} {within : String → Prop} {merged merged' : MergedConfig}
  {source : ProfileSource} {policy : PolicyConfig} {profile : RawProfile} {path : String}
  {root root' : Table} {keys : List String}

/-! ## Leaves -/

theorem RootChange.lostLeaf (h : RootChange path root root') (hlost : LostLeaf root root' keys) :
    AtOrUnder path keys := by
  obtain ⟨doc, hdoc, hleaf, hlost⟩ := hlost
  by_contra hapart
  cases h with
  | Put value written =>
    exact hlost (Doc.lookup_put_leaf (setPath_ok_iff.mp written) hdoc hleaf hapart)
  | Dropped dropped =>
    rw [dropped] at hlost
    exact hlost (Doc.lookup_drop_leaf hdoc hleaf hapart)
  | Same same =>
    rw [same] at hlost
    exact hlost hdoc

/-- A declaration of an untrusted source loses no leaf. -/
theorem DeclareStep.lostLeaf (h : DeclareStep context within merged merged')
    (huntrusted : context.source.source.isTrusted = false) : ¬ LostLeaf merged.root merged'.root keys := by
  intro hlost
  cases h with
  | Added path incoming path_within provider absent written =>
    have hwritten := write_ok written
    obtain ⟨rest, rfl⟩ := RootChange.lostLeaf (.Put incoming hwritten) hlost
    obtain ⟨doc, hdoc, hleaf, hlost⟩ := hlost
    unfold getPath at absent
    have hfront : splitChar '.' path ≠ [] := splitChar_ne_nil '.' path
    rw [Doc.lookup_append hfront, absent, Doc.reach_none] at hdoc
    cases hdoc
  | Recorded path incoming recorded =>
    rw [recorded] at hlost
    exact not_lostLeaf _ _ hlost
  | Preferred path incoming path_within prefer trusted written =>
    rw [huntrusted] at trusted
    cases trusted

theorem DeclareRun.lostLeaf (h : DeclareRun context within merged merged')
    (huntrusted : context.source.source.isTrusted = false) : ¬ LostLeaf merged.root merged'.root keys := by
  induction h with
  | refl => exact not_lostLeaf _ _
  | tail _ hstep ih =>
    intro hlost
    rcases hlost.trans with hfirst | hlast
    · exact ih hfirst
    · exact hstep.lostLeaf huntrusted hlast

theorem OverrideRun.lostLeaf (h : OverrideRun profile source policy merged merged')
    (hlost : LostLeaf merged.root merged'.root keys) :
    ∃ path, profile.overrides.contains path = true ∧
      validateOverridePermission path source policy profile.id = .ok () ∧ AtOrUnder path keys := by
  induction h with
  | refl => exact absurd hlost (not_lostLeaf _ _)
  | tail _ hstep ih =>
    rcases hlost.trans with hfirst | hlast
    · exact ih hfirst
    · obtain ⟨path, spec, hstep⟩ := hstep
      refine ⟨path, ?_, hstep.permitted, (applyOverride_change hstep.applied).lostLeaf hlast⟩
      rw [Std.ExtTreeMap.contains_eq_isSome_getElem?, hstep.declared]
      rfl

/-! ## Sections -/

theorem get_eq_lookup (key : String) (root : Table) : root.get key = Doc.lookup [key] root := rfl

/-- A change at a path that begins with another key leaves a section as it was. -/
theorem RootChange.section (h : RootChange path root root') {key : String}
    (hkey : ¬ [key] <+: splitChar '.' path) : root'.get key = root.get key := by
  have hbelow : ¬ splitChar '.' path <+: [key] := by
    intro hprefix
    rcases List.prefix_cons_iff.mp hprefix with hnil | ⟨rest, heq, hrest⟩
    · exact splitChar_ne_nil '.' path hnil
    · rw [heq] at hkey
      exact hkey (by simp)
  rw [get_eq_lookup, get_eq_lookup]
  cases h with
  | Put value written => exact Doc.lookup_put_apart (setPath_ok_iff.mp written) hbelow hkey
  | Dropped dropped =>
    rw [dropped]
    exact Doc.lookup_drop_apart hbelow hkey
  | Same same => rw [same]

theorem DeclareRun.section (h : DeclareRun context within merged merged') {key : String}
    (hkey : ∀ path, within path → ¬ [key] <+: splitChar '.' path) :
    merged'.root.get key = merged.root.get key := by
  induction h with
  | refl => rfl
  | tail _ hstep ih =>
    refine Eq.trans ?_ ih
    cases hstep with
    | Added path incoming path_within provider absent written =>
      exact RootChange.section (.Put incoming (write_ok written)) (hkey path path_within)
    | Recorded path incoming recorded => rw [recorded, record]
    | Preferred path incoming path_within prefer trusted written =>
      exact RootChange.section (.Put incoming (write_ok written)) (hkey path path_within)

theorem OverrideRun.section (h : OverrideRun profile source policy merged merged') {key : String}
    (hkey : ∀ path, profile.overrides.contains path = true → ¬ [key] <+: splitChar '.' path) :
    merged'.root.get key = merged.root.get key := by
  induction h with
  | refl => rfl
  | tail _ hstep ih =>
    obtain ⟨path, spec, hstep⟩ := hstep
    refine Eq.trans ((applyOverride_change hstep.applied).section (hkey path ?_)) ih
    rw [Std.ExtTreeMap.contains_eq_isSome_getElem?, hstep.declared]
    rfl

/-- A path that begins with the key of a protected section is a protected path. -/
theorem isProtectedPath_below {key : String} (hkey : key = "policy" ∨ key = "inputs")
    (h : [key] <+: splitChar '.' path) : isProtectedPath path = true := by
  obtain ⟨rest, hrest⟩ := h
  have hpath : path = key ∨ startsWith path (key ++ ".") = true := by
    rcases eq_of_splitChar_cons hrest.symm with ⟨_, heq⟩ | ⟨tail, heq, _⟩
    · exact Or.inl heq
    · exact Or.inr (startsWith_iff.mpr ⟨tail, heq⟩)
  unfold isProtectedPath
  rcases hkey with rfl | rfl
  · rcases hpath with rfl | hstarts
    · rfl
    · simp only [Bool.or_eq_true]
      exact Or.inl (Or.inl (Or.inr hstarts))
  · rcases hpath with rfl | hstarts
    · rfl
    · simp only [Bool.or_eq_true]
      exact Or.inr hstarts

theorem not_protected (h : profile.protectedOverridePath = none)
    (hpath : profile.overrides.contains path = true) : isProtectedPath path = false := by
  unfold RawProfile.protectedOverridePath at h
  rw [List.find?_eq_none] at h
  have hmem : path ∈ profile.overrides.keys := by
    rw [Std.ExtTreeMap.mem_keys]
    exact hpath
  simpa using h path hmem

/-- An untrusted profile leaves the policy and the inputs as they were. -/
theorem mergeProfile_section (huntrusted : source.source.isTrusted = false)
    (h : merged.mergeProfile profile source = .ok merged') {key : String}
    (hkey : key = "policy" ∨ key = "inputs") : merged'.root.get key = merged.root.get key := by
  obtain ⟨hprotected, policy, middle, _, _, hdeclare, hoverride⟩ := mergeProfile_untrusted huntrusted h
  have hfirst : middle.root.get key = merged.root.get key := by
    refine hdeclare.section fun path hpath hprefix => ?_
    obtain ⟨field, hfield, hfieldprefix⟩ := hpath
    obtain ⟨rest, hrest⟩ := hprefix
    rw [← hrest] at hfieldprefix
    obtain rfl : field = key := by simpa using hfieldprefix
    rcases hkey with rfl | rfl <;> exact absurd hfield (by decide)
  refine Eq.trans (hoverride.section fun path hpath hprefix => ?_) hfirst
  have := not_protected hprotected hpath
  rw [isProtectedPath_below hkey hprefix] at this
  cases this

/-! ## What may be changed -/

/-- The untrusted sources that overlays come from. -/
def IsOverlay (source : SourceKind) : Prop := source = .UserOverlay ∨ source = .WorkspaceOverlay

theorem IsOverlay.untrusted {kind : SourceKind} (h : IsOverlay kind) : kind.isTrusted = false := by
  rcases h with rfl | rfl <;> rfl

/-- Only a workspace overlay may override, and only what the policy says. -/
theorem permitted_of_overlay (hoverlay : IsOverlay source.source)
    (h : validateOverridePermission path source policy profile.id = .ok ()) :
    source.source = .WorkspaceOverlay ∧ policy.allowsWorkspaceOverride path = true := by
  unfold validateOverridePermission at h
  rcases hoverlay with hsource | hsource
  · simp only [hsource, SourceKind.isTrusted, Bool.false_eq_true, if_false] at h
    cases h
  · simp only [hsource, SourceKind.isTrusted, Bool.false_eq_true, if_false] at h
    split_ifs at h with hallowed
    exact ⟨hsource, hallowed⟩

/-- What a patch of the command line changes. -/
theorem applyCliPatch_ok {spec : OverrideSpec} (h : merged.applyCliPatch path spec = .ok merged') :
    ∃ policy, merged.policy = .ok policy ∧ policy.allowsCliOverride path = true ∧
      RootChange path merged.root merged'.root := by
  unfold applyCliPatch at h
  obtain ⟨_, _, h⟩ := bind_ok_iff.mp h
  obtain ⟨policy, hpolicy, h⟩ := bind_ok_iff.mp h
  simp only [throw_eq, error_bind, ite_error_ok_iff] at h
  exact ⟨policy, hpolicy, by simpa using h.1, applyOverride_change h.2⟩

/-- Every leaf that an untrusted overlay changes or drops is at or under an override that it declares
and the policy permits, none for a user overlay, and the policy and the inputs stay as they were. What
a patch of the command line changes or drops is at or under its path, which the policy permits. -/
theorem overlays_change_only_permitted_paths :
    (∀ merged merged' profile source, IsOverlay source.source →
      mergeProfile merged profile source = .ok merged' →
      (∀ keys, LostLeaf merged.root merged'.root keys → source.source = .WorkspaceOverlay ∧
        ∃ path policy, profile.overrides.contains path = true ∧ merged.policy = .ok policy ∧
          policy.allowsWorkspaceOverride path = true ∧ AtOrUnder path keys) ∧
      merged'.root.get "policy" = merged.root.get "policy" ∧
      merged'.root.get "inputs" = merged.root.get "inputs") ∧
    ∀ merged merged' path spec, applyCliPatch merged path spec = .ok merged' →
      ∃ policy, merged.policy = .ok policy ∧ policy.allowsCliOverride path = true ∧
        ∀ keys, LostLeaf merged.root merged'.root keys → AtOrUnder path keys := by
  constructor
  · intro merged merged' profile source hoverlay h
    have huntrusted := hoverlay.untrusted
    refine ⟨fun keys hlost => ?_, mergeProfile_section huntrusted h (Or.inl rfl),
      mergeProfile_section huntrusted h (Or.inr rfl)⟩
    obtain ⟨_, policy, middle, hpolicy, _, hdeclare, hoverride⟩ := mergeProfile_untrusted huntrusted h
    rcases hlost.trans with hfirst | hlast
    · exact absurd hfirst (hdeclare.lostLeaf huntrusted)
    · obtain ⟨path, hdeclared, hpermitted, hunder⟩ := hoverride.lostLeaf hlast
      obtain ⟨hworkspace, hallowed⟩ := permitted_of_overlay hoverlay hpermitted
      exact ⟨hworkspace, path, policy, hdeclared, hpolicy, hallowed, hunder⟩
  · intro merged merged' path spec h
    obtain ⟨policy, hpolicy, hallowed, hchange⟩ := applyCliPatch_ok h
    exact ⟨policy, hpolicy, hallowed, fun keys hlost => hchange.lostLeaf hlost⟩

end MergedConfig

/-- A profile that only overrides one path. -/
def RawProfile.overriding (id path : String) (spec : OverrideSpec)
    (checked : spec.validate path = .ok ()) : RawProfile where
  id
  parents := []
  overrides := Std.ExtTreeMap.empty.insert path spec
  root := []
  policy_read := (fun _ h => nomatch h)
  config_known := (fun _ h => nomatch h)
  inputs_named := (fun _ h => nomatch h)
  overrides_checked := by
    intro other found h
    rw [Std.ExtTreeMap.getElem?_insert] at h
    split_ifs at h with heq
    · rw [← Std.LawfulEqOrd.eq_of_compare heq, ← Option.some.inj h]
      exact checked
    · simp at h

/-- An override that sets a text. -/
def setText (text reason : String) : OverrideSpec :=
  ⟨.Set, some (.Scalar (.String text)), [], reason⟩

/-- A tree whose policy lets a workspace override the features. -/
def editorConfig : MergedConfig where
  root :=
    [("features", .Table [("editor", Value.text "nano")]),
      ("policy", .Table [("workspace_can_override", .Array [Value.text "features.*"])])]
  origins := ∅
  provenance := ∅

def editorOverlay : RawProfile :=
  RawProfile.overriding "workspace" "features.editor" (setText "vim" "taste") (by decide +kernel)

def workspaceSource : ProfileSource := ⟨"workspace", .WorkspaceOverlay, none⟩

theorem editor_is_overridden : ∃ merged, editorConfig.mergeProfile editorOverlay workspaceSource =
    .ok merged ∧ LostLeaf editorConfig.root merged.root ["features", "editor"] ∧
      merged.root.get "policy" = editorConfig.root.get "policy" := by
  have hvalue : (editorConfig.mergeProfile editorOverlay workspaceSource).map
      (fun merged => Doc.lookup ["features", "editor"] merged.root) =
      .ok (some (Value.text "vim")) := rfl
  obtain ⟨merged, hmerged, hlookup⟩ := map_ok_iff.mp hvalue
  have hframe := MergedConfig.overlays_change_only_permitted_paths.1 _ _ _ _ (Or.inr rfl) hmerged
  refine ⟨merged, hmerged, ⟨Value.text "nano", rfl, trivial, ?_⟩, hframe.2.1⟩
  rw [hlookup]
  intro h
  injection h with hdoc
  injection hdoc with hscalar
  injection hscalar with htext
  exact absurd htext (by decide)

end dev_env_loader
