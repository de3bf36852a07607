-- Which loads can panic at all: the places and ways of the documents, of the runtime values and of
-- the patches of the command line.
import NixosDockers.DevEnvLoader.Clashes
import NixosDockers.DevEnvLoader.Providers
import NixosDockers.Lib.DepthFirst

open rust_text documents dev_env_model profile_graph results
open depth_first (Reaches)

namespace dev_env_loader

/-! ## The documents -/

namespace ProfileLoader

def parentsOf (loader : ProfileLoader) (id : String) : List String :=
  match loader.profiles[id]? with
  | some parsed => parsed.profile.parents
  | none => []

/-- A document that a load may merge: a profile that the loaded one comes from, or an overlay. -/
def Merges (loader : ProfileLoader) (profile_id : String) (overlays : List ParsedSource)
    (parsed : ParsedSource) : Prop :=
  (∃ id, Reaches loader.parentsOf profile_id id ∧ loader.profiles[id]? = some parsed) ∨
    parsed ∈ loader.overlays ∨ parsed ∈ overlays

/-- The places that the documents give to what is no table. -/
def DocumentLeaf (loader : ProfileLoader) (profile_id : String) (overlays : List ParsedSource) :
    Places :=
  fun keys text => ∃ parsed, loader.Merges profile_id overlays parsed ∧
    ProfileLeaf parsed.profile keys text

/-- The ways along which the documents write. -/
def DocumentStep (loader : ProfileLoader) (profile_id : String) (overlays : List ParsedSource)
    (start keys : List String) : Prop :=
  ∃ parsed, loader.Merges profile_id overlays parsed ∧ ProfileStep parsed.profile start keys

end ProfileLoader

variable {places : Places} {goes : List String → List String → Prop} {merged : MergedConfig}
  {schema : ConfigSchema} {defaults : List String → Prop} {loader : ProfileLoader}
  {profile_id : String} {overlays : List ParsedSource} {root : Table}

/-- What a load has merged so far is fine. -/
def FineProgress (places : Places) (made : Except Failure Progress) : Prop :=
  ¬ Fails Failure.IsPanic made ∧ ∀ progress, made = .ok progress → Known places progress.merged.root

theorem mergeSource_fine {parsed : ParsedSource} {progress : Progress}
    (hclash : ¬ Clash places goes) (hknown : Known places progress.merged.root)
    (hplaces : ∀ keys text, ProfileLeaf parsed.profile keys text → places keys text)
    (hgoes : ∀ start keys, ProfileStep parsed.profile start keys → goes start keys) :
    FineProgress places (mergeSource parsed progress) := by
  obtain ⟨hpanics, hmerged⟩ := @MergedConfig.mergeProfile_fine places goes progress.merged
    parsed.source parsed.profile hclash hknown hplaces hgoes
  refine ⟨fun hfails => ?_, fun next hnext => ?_⟩
  · rcases fails_bind_iff.mp hfails with hfails | ⟨_, _, hfails⟩
    · exact hpanics hfails
    · exact not_fails_ok _ hfails
  · obtain ⟨merged, hmerge, hnext⟩ := bind_ok_iff.mp hnext
    obtain rfl := pure_ok_iff.mp hnext
    exact hmerged merged hmerge

theorem applySources_fine {sources : List ParsedSource} {progress : Progress}
    (hclash : ¬ Clash places goes) (hknown : Known places progress.merged.root)
    (hplaces : ∀ parsed ∈ sources, ∀ keys text, ProfileLeaf parsed.profile keys text →
      places keys text)
    (hgoes : ∀ parsed ∈ sources, ∀ start keys, ProfileStep parsed.profile start keys →
      goes start keys) : FineProgress places (applySources sources progress) := by
  induction sources generalizing progress with
  | nil => exact ⟨not_fails_ok _, fun _ h => Except.ok.inj h ▸ hknown⟩
  | cons parsed rest ih =>
    unfold applySources applySource
    split_ifs
    · exact ⟨not_panics_error _, fun _ h => (by cases h)⟩
    · obtain ⟨hpanics, hfirst⟩ := mergeSource_fine hclash hknown (hplaces parsed List.mem_cons_self)
        (hgoes parsed List.mem_cons_self)
      have hrest : ∀ next, mergeSource parsed progress = .ok next →
          FineProgress places (applySources rest next) := fun next hnext =>
        ih (hfirst next hnext) (fun other hother => hplaces other (List.mem_cons_of_mem _ hother))
          fun other hother => hgoes other (List.mem_cons_of_mem _ hother)
      refine ⟨fun hfails => ?_, fun final hfinal => ?_⟩
      · rcases fails_bind_iff.mp hfails with hfails | ⟨next, hnext, hfails⟩
        · exact hpanics hfails
        · exact (hrest next hnext).1 hfails
      · obtain ⟨next, hnext, hfinal⟩ := bind_ok_iff.mp hfinal
        exact (hrest next hnext).2 final hfinal

/-! ## Runtime values -/

/-- What a schema reads is what is written: an input has the target and the name that the document
gives it, unless the whole input is a list of its fields; and a configuration that is written again
has something else than a table where the document had it, or by default. -/
structure ConfigSchema.Faithful (schema : ConfigSchema) (defaults : List String → Prop) : Prop where
  target : ∀ root config (name : String) (input : InputSpec),
    schema.deserialize root = some config → config.inputs[name]? = some input →
    Doc.lookup ["inputs", name, "target"] root = some (Value.text input.target) ∨
      ∃ fields, Doc.lookup ["inputs", name] root = some (.Array fields)
  export_as : ∀ root config (name : String) (input : InputSpec) exported,
    schema.deserialize root = some config → config.inputs[name]? = some input →
    input.export_as = some exported →
    Doc.lookup ["inputs", name, "export_as"] root = some (Value.text exported) ∨
      ∃ fields, Doc.lookup ["inputs", name] root = some (.Array fields)
  serialized : ∀ root config provenance tree, schema.deserialize root = some config →
    schema.serialize { config with provenance } = some tree →
    ∀ keys doc, Doc.lookup keys tree = some doc → doc.IsLeaf →
      defaults keys ∨ ∃ front inner, front <+: keys ∧ Doc.lookup front root = some inner ∧
        inner.IsLeaf

namespace RuntimeInputApplier

variable {environment : RuntimeEnvironment}

/-- A variable names the path to be overridden. -/
def Named (environment : RuntimeEnvironment) (path : String) : Prop :=
  ∃ raw, environment.contains ("DEVENV_OVERRIDE__" ++ raw) = true ∧ namespacePath raw = .ok path

/-- The target of an input that the documents declare and the environment supplies. -/
def InputTarget (places : Places) (environment : RuntimeEnvironment) (target : String) : Prop :=
  ∃ name, places ["inputs", name] none ∨ places ["inputs", name, "target"] (some target) ∧
    (environment.contains name = true ∨
      (∃ exported, places ["inputs", name, "export_as"] (some exported) ∧
        environment.contains exported = true) ∨
      Named environment target)

/-- The places of the documents and of the runtime values. -/
def RuntimeLeaf (places : Places) (environment : RuntimeEnvironment) : Places :=
  fun keys text => places keys text ∨
    ∃ path, (InputTarget places environment path ∨ Named environment path) ∧
      keys = splitChar '.' path

/-- The ways of the runtime values: only the targets of inputs need not be there before. -/
def RuntimeStep (places : Places) (environment : RuntimeEnvironment) (start keys : List String) :
    Prop :=
  start = [] ∧ ∃ target, InputTarget places environment target ∧ keys = splitChar '.' target

theorem lookup_withEnvironment {keys : List String} {doc : Value}
    (h : Doc.lookup keys (MergedConfig.withEnvironment root) = some doc) (hleaf : doc.IsLeaf) :
    Doc.lookup keys root = some doc := by
  unfold MergedConfig.withEnvironment at h
  cases henvironment : root.get "environment" with
  | some => simpa only [henvironment] using h
  | none =>
    simp only [henvironment] at h
    cases keys with
    | nil => cases h
    | cons key rest =>
      rw [Doc.lookup_cons, Entries.get_insert] at h
      rw [Doc.lookup_cons]
      split_ifs at h
      · cases rest with
        | nil =>
          obtain rfl := Option.some.inj h
          exact absurd hleaf id
        | cons next rest =>
          rw [Doc.reach_table (List.cons_ne_nil _ _), Doc.lookup_cons] at h
          cases rest <;> cases h
      · exact h

/-- A configuration that was read is the tree's, with the provenance of the merge. -/
theorem decode_ok {location : String} {config : ResolvedConfig}
    (h : merged.decode schema location = .ok config) :
    ∃ read, schema.deserialize (MergedConfig.withEnvironment merged.root) = some read ∧
      config = { read with provenance := merged.provenance } := by
  unfold MergedConfig.decode at h
  split at h
  · cases h
  · rename_i read hread
    dsimp only at h
    split at h
    · obtain rfl := Except.ok.inj h
      exact ⟨read, hread, rfl⟩
    · cases h

/-- The inputs of a configuration are those of the documents. -/
theorem inputTarget_of_supplied (hschema : schema.Faithful defaults) {config : ResolvedConfig}
    (hconfig : schema.deserialize (MergedConfig.withEnvironment merged.root) = some config)
    (hknown : Known places merged.root) {name : String} {input : InputSpec}
    (hinput : config.inputs[name]? = some input) (hsupplied : Supplied environment name input) :
    InputTarget places environment input.target := by
  have hlist : ∀ fields, Doc.lookup ["inputs", name] (MergedConfig.withEnvironment merged.root) =
      some (.Array fields) → places ["inputs", name] none := fun fields hfields =>
    hknown _ _ (lookup_withEnvironment hfields trivial) trivial
  rcases hschema.target _ config name input hconfig hinput with htarget | ⟨fields, hfields⟩
  · have hplace := hknown _ _ (lookup_withEnvironment htarget trivial) trivial
    rcases hsupplied with ⟨-, candidate, hcandidate, hin⟩ | hnamed
    · rcases List.mem_cons.mp hcandidate with rfl | hexported
      · exact ⟨candidate, .inr ⟨hplace, .inl hin⟩⟩
      · have hexported := Option.mem_toList.mp hexported
        rcases hschema.export_as _ config name input candidate hconfig hinput hexported with
          htext | ⟨fields, hfields⟩
        · have hexport := hknown _ _ (lookup_withEnvironment htext trivial) trivial
          exact ⟨name, .inr ⟨hplace, .inr (.inl ⟨candidate, hexport, hin⟩)⟩⟩
        · exact ⟨name, .inl (hlist fields hfields)⟩
    · exact ⟨name, .inr ⟨hplace, .inr (.inr hnamed)⟩⟩
  · exact ⟨name, .inl (hlist fields hfields)⟩

theorem parsedInputValue_leaf {path : String} {parsed : ParsedInput} {value : Value}
    (h : valueTreeToToml path (parsedInputValue parsed) = .ok value) : value.IsLeaf := by
  cases parsed <;> cases h <;> trivial

/-- A runtime value has one place, which is its path. -/
theorem setRuntimeValue_known {path : String} {parsed : ParsedInput} {origin : Origin}
    {sensitivity : Sensitivity} {next : MergedConfig} (hknown : Known places merged.root)
    (hplace : ∀ text, places (splitChar '.' path) text)
    (h : merged.setRuntimeValue path (parsedInputValue parsed) origin sensitivity = .ok next) :
    Known places next.root := by
  unfold MergedConfig.setRuntimeValue at h
  obtain ⟨value, hvalue, hwrite⟩ := bind_ok_iff.mp h
  refine hknown.put (MergedConfig.write_ok hwrite) fun keys text hleaf => ?_
  obtain ⟨rfl, -⟩ := leafOf_leaf (parsedInputValue_leaf hvalue) hleaf
  exact hplace text

section Apply

variable {documents : Places} (hclash : ¬ Clash (RuntimeLeaf documents environment)
  (RuntimeStep documents environment))
include hclash

theorem target_not_blocked {target : String}
    (hknown : Known (RuntimeLeaf documents environment) merged.root)
    (htarget : InputTarget documents environment target) : ¬ Blocked merged.root target :=
  not_blocked_of_no_clash hclash hknown openTo_nil List.nil_prefix ⟨rfl, target, htarget, rfl⟩

theorem applyInput_fine {name : String} {input : InputSpec}
    (hknown : Known (RuntimeLeaf documents environment) merged.root)
    (hinput : Supplied environment name input → InputTarget documents environment input.target) :
    Fine (RuntimeLeaf documents environment) (applyInput environment name input merged) := by
  have hsupplied : ∀ {found}, input.runtime = true →
      suppliedBy environment name (name :: input.export_as.toList) none = .ok (some found) →
      InputTarget documents environment input.target := fun hruntime hfound =>
    hinput (.inl ⟨hruntime, (suppliedBy_some hfound).resolve_left Bool.false_ne_true⟩)
  refine ⟨applyInput_panics_iff.not.mpr ?_, fun next h => ?_⟩
  · rintro ⟨hruntime, _, _, _, hfound, -, hblocked⟩
    exact target_not_blocked hclash hknown (hsupplied hruntime hfound) hblocked
  · unfold applyInput at h
    split at h
    · obtain rfl := Except.ok.inj h
      exact hknown
    · rename_i hruntime
      obtain ⟨supplied, hfound, h⟩ := bind_ok_iff.mp h
      cases supplied with
      | none =>
        obtain rfl := Except.ok.inj h
        exact hknown
      | some found =>
        obtain ⟨parsed, -, h⟩ := bind_ok_iff.mp h
        have htarget := hsupplied (by simpa using hruntime) hfound
        exact setRuntimeValue_known hknown (fun _ => .inr ⟨_, .inl htarget, rfl⟩) h

theorem applyVariable_fine {config : ResolvedConfig} {name raw_value : String}
    (hin : environment.contains name = true)
    (hknown : Known (RuntimeLeaf documents environment) merged.root)
    (hinputs : ∀ (name : String) (input : InputSpec), config.inputs[name]? = some input →
      Supplied environment name input → InputTarget documents environment input.target) :
    Fine (RuntimeLeaf documents environment) (applyOverride config name raw_value merged) := by
  refine ⟨applyOverride_panics_iff.not.mpr ?_, fun next h => ?_⟩
  · rintro ⟨raw, path, input, _, hraw, hpath, -, hinput, -, hblocked⟩
    obtain ⟨rfl, owner, howner⟩ := inputAt_some hinput
    have hnamed : environment.contains ("DEVENV_OVERRIDE__" ++ raw) = true := by
      rwa [← stripStart_eq_some_iff.mp hraw]
    have htarget := hinputs owner input howner (.inr ⟨raw, hnamed, hpath⟩)
    exact target_not_blocked hclash hknown htarget hblocked
  · unfold applyOverride at h
    split at h
    · obtain rfl := Except.ok.inj h
      exact hknown
    · rename_i raw hraw
      obtain ⟨path, hpath, h⟩ := bind_ok_iff.mp h
      have hnamed : Named environment path := by
        refine ⟨raw, ?_, hpath⟩
        rwa [← stripStart_eq_some_iff.mp hraw]
      have hplace : ∀ text, RuntimeLeaf documents environment (splitChar '.' path) text :=
        fun _ => .inr ⟨path, .inr hnamed, rfl⟩
      split_ifs at h
      · obtain rfl := Except.ok.inj h
        exact hknown
      · obtain ⟨value, hvalue, h⟩ := bind_ok_iff.mp h
        unfold overrideValue at hvalue
        split at hvalue
        · obtain ⟨parsed, -, rfl⟩ := map_ok_iff.mp hvalue
          exact setRuntimeValue_known hknown hplace h
        · split_ifs at hvalue
          · obtain rfl := Except.ok.inj hvalue
            obtain rfl := Except.ok.inj h
            exact hknown
          · obtain rfl := Except.ok.inj hvalue
            have hparsed : (Doc.Scalar (.String raw_value) : ValueTree) =
                parsedInputValue (.String raw_value) := rfl
            simp only [hparsed] at h
            exact setRuntimeValue_known hknown hplace h

/-- The runtime values of a load do not panic when no target of an input clashes with a place. -/
theorem apply_fine (hschema : schema.Faithful defaults) (hknown : Known documents merged.root) :
    Fine (RuntimeLeaf documents environment) (apply schema environment merged) := by
  unfold apply
  refine fine_bind decode_not_panics fun config hconfig => ?_
  obtain ⟨read, hread, hsame⟩ := decode_ok hconfig
  have hinputs : ∀ (name : String) (input : InputSpec), config.inputs[name]? = some input →
      Supplied environment name input → InputTarget documents environment input.target := by
    intro name input hinput
    rw [hsame] at hinput
    exact inputTarget_of_supplied hschema hread hknown hinput
  have hstart : Known (RuntimeLeaf documents environment) merged.root :=
    hknown.mono fun _ _ hplace => .inl hplace
  refine Fine.bind ?_ fun middle hmiddle => ?_
  · refine fine_loop (applyInputs environment) (fun entry => applyInput environment entry.1 entry.2)
      (fun _ => rfl) (fun _ _ _ => rfl) (fun entry hentry merged hknown => ?_) hstart
    have hdeclared := Std.ExtTreeMap.mem_toList_iff_getElem?_eq_some.mp hentry
    exact applyInput_fine hclash hknown (hinputs entry.1 entry.2 hdeclared)
  · refine fine_loop (applyOverrides config) (fun entry => applyOverride config entry.1 entry.2)
      (fun _ => rfl) (fun _ _ _ => rfl) (fun entry hentry merged hknown => ?_) hmiddle
    have hin := Std.ExtTreeMap.mem_toList_iff_getElem?_eq_some.mp hentry
    refine applyVariable_fine hclash ?_ hknown hinputs
    rw [Std.ExtTreeMap.contains_eq_isSome_getElem?, hin]
    rfl

end Apply

end RuntimeInputApplier

/-! ## Patches -/

/-- The places of a configuration that was loaded and written again, and of the patches. -/
def PatchLeaf (loaded : Places) (defaults : List String → Prop) (patches : List CliPatch) :
    Places :=
  fun keys text => (defaults keys ∨ ∃ front found, front <+: keys ∧ loaded front found) ∨
    ∃ patch ∈ patches, OverrideLeaf patch.path patch.spec keys text

def PatchStep (patches : List CliPatch) (start keys : List String) : Prop :=
  start = [] ∧ ∃ patch ∈ patches, Overrides patch.path patch.spec ∧ keys = splitChar '.' patch.path

theorem finish_ok {chain : List LoadedProfile} {loaded : LoadedConfig}
    (h : merged.finish schema chain = .ok loaded) :
    ∃ read, schema.deserialize (MergedConfig.withEnvironment merged.root) = some read ∧
      loaded.config = { read with provenance := merged.provenance } := by
  unfold MergedConfig.finish at h
  split at h
  · cases h
  · obtain ⟨config, hconfig, h⟩ := bind_ok_iff.mp h
    obtain ⟨_, _, h⟩ := bind_ok_iff.mp h
    obtain ⟨_, _, h⟩ := bind_ok_iff.mp h
    obtain rfl := pure_ok_iff.mp h
    exact RuntimeInputApplier.decode_ok hconfig

theorem applyCliPatch_fine {patch : CliPatch} (hclash : ¬ Clash places goes)
    (hknown : Known places merged.root)
    (hplaces : ∀ keys text, OverrideLeaf patch.path patch.spec keys text → places keys text)
    (hgoes : Overrides patch.path patch.spec → goes [] (splitChar '.' patch.path)) :
    Fine places (merged.applyCliPatch patch.path patch.spec) := by
  unfold MergedConfig.applyCliPatch
  have hchecked : ¬ Fails Failure.IsPanic ((patch.spec.validate patch.path).mapError fun source =>
      .Error (.Model (some s!"override.{patch.path}") source)) := by
    rw [fails_mapError_iff]
    rintro ⟨_, _, h⟩
    exact h
  refine fine_bind hchecked fun _ hvalid => ?_
  refine fine_bind MergedConfig.policy_not_panics fun policy _ => ?_
  split_ifs
  · exact fine_error
  · exact MergedConfig.applyOverride_fine hclash hknown (mapError_ok_iff.mp hvalid) hplaces hgoes

/-- The patches of a load do not panic when none of their paths clashes with a place. -/
theorem applyCliPatches_fine {patches : List CliPatch} {loaded : LoadedConfig}
    (hschema : schema.Faithful defaults) (hknown : Known places root)
    (hread : ∃ read provenance, schema.deserialize (MergedConfig.withEnvironment root) = some read ∧
      loaded.config = { read with provenance })
    (hclash : ¬ Clash (PatchLeaf places defaults patches) (PatchStep patches)) :
    ¬ Fails Failure.IsPanic (ProfileLoader.applyCliPatches schema patches loaded) := by
  unfold ProfileLoader.applyCliPatches
  rw [fails_bind_iff, not_or]
  refine ⟨fromConfig_not_panics, ?_⟩
  rintro ⟨start, hstart, hfails⟩
  rw [fails_bind_iff, or_iff_left fun ⟨_, _, h⟩ => finish_not_panics h] at hfails
  have hbefore : Known (PatchLeaf places defaults patches) start.root := by
    obtain ⟨read, provenance, hread, hconfig⟩ := hread
    intro keys doc hdoc hleaf
    unfold MergedConfig.fromConfig at hstart
    rw [hconfig] at hstart
    cases htree : schema.serialize { read with provenance } with
    | none =>
      rw [htree] at hstart
      cases hstart
    | some tree =>
      rw [htree] at hstart
      obtain rfl := Except.ok.inj hstart
      have hwritten := hschema.serialized _ read provenance tree hread htree keys doc hdoc hleaf
      refine .inl (hwritten.imp_right fun ⟨front, inner, hfront, hinner, hleaf⟩ => ?_)
      exact ⟨front, _, hfront, hknown front inner
        (RuntimeInputApplier.lookup_withEnvironment hinner hleaf) hleaf⟩
  refine (fine_loop applyPatches (fun patch merged => merged.applyCliPatch patch.path patch.spec)
    (fun _ => rfl) (fun _ _ _ => rfl) (fun patch hpatch merged hknown => ?_) hbefore).1 hfails
  exact applyCliPatch_fine hclash hknown (fun keys text hleaf => .inr ⟨patch, hpatch, hleaf⟩)
    fun hwrites => ⟨rfl, patch, hpatch, hwrites, rfl⟩

/-! ## Loads -/

namespace ProfileLoader

variable {depth : ℕ} {environment : RuntimeInputApplier.RuntimeEnvironment}
  {patches : List CliPatch}

/-- In a load some path is gone to that leads on behind something else than a table of another
write: of the documents among themselves, of a runtime value and the documents, or of a patch and
the configuration. -/
def LoadClash (loader : ProfileLoader) (defaults : List String → Prop) (profile_id : String)
    (overlays : List ParsedSource) (environment : RuntimeInputApplier.RuntimeEnvironment)
    (patches : List CliPatch) : Prop :=
  let documents := loader.DocumentLeaf profile_id overlays
  let loaded := RuntimeInputApplier.RuntimeLeaf documents environment
  Clash documents (loader.DocumentStep profile_id overlays) ∨
    Clash loaded (RuntimeInputApplier.RuntimeStep documents environment) ∨
    Clash (PatchLeaf loaded defaults patches) (PatchStep patches)

theorem traverse_fine
    (hclash : ¬ Clash (loader.DocumentLeaf profile_id overlays)
      (loader.DocumentStep profile_id overlays)) :
    ¬ FailsInSource Failure.IsPanic
        (traverse depth loader.loadProfile applyProfile profile_id ⟨MergedConfig.default, []⟩) ∧
      ∀ progress, traverse depth loader.loadProfile applyProfile profile_id
          ⟨MergedConfig.default, []⟩ = some (.ok progress) →
        Known (loader.DocumentLeaf profile_id overlays) progress.merged.root := by
  have hloaded : ∀ {id : String} {parsed : ParsedSource} {parents : List String},
      loader.loadProfile id = .ok (some (parsed, parents)) →
      loader.profiles[id]? = some parsed ∧ parents = loader.parentsOf id := by
    intro id parsed parents h
    unfold loadProfile at h
    unfold parentsOf
    split at h
    · cases h
    · rename_i found hfound
      split_ifs at h
      cases h
      rw [hfound]
      exact ⟨rfl, rfl⟩
  refine @traverse_keeps _ _ _ _ _ _ (Reaches loader.parentsOf profile_id)
    (fun progress : Progress =>
      Known (loader.DocumentLeaf profile_id overlays) progress.merged.root)
    loader.loadProfile_not_panics ?_ ?_ _ _ _ .refl known_empty
  · intro id parsed parents hid hload parent hparent
    obtain ⟨-, rfl⟩ := hloaded hload
    exact hid.tail hparent
  · intro id parsed parents progress hid hload hknown
    obtain ⟨hfound, -⟩ := hloaded hload
    have hmerges : loader.Merges profile_id overlays parsed := .inl ⟨id, hid, hfound⟩
    exact mergeSource_fine hclash hknown (fun keys text hleaf => ⟨parsed, hmerges, hleaf⟩)
      fun start keys hstep => ⟨parsed, hmerges, hstep⟩

/-- The configuration that is loaded is read from a tree with known places. -/
theorem loadInternal_fine (hschema : schema.Faithful defaults)
    (hclash : ¬ loader.LoadClash defaults profile_id overlays environment patches) :
    ¬ Panics (loader.loadInternal schema depth profile_id environment overlays) ∧
      ∀ loaded, loader.loadInternal schema depth profile_id environment overlays =
        some (.ok loaded) → ∃ root read provenance,
          Known (RuntimeInputApplier.RuntimeLeaf (loader.DocumentLeaf profile_id overlays)
            environment) root ∧
          schema.deserialize (MergedConfig.withEnvironment root) = some read ∧
          loaded.config = { read with provenance } := by
  obtain ⟨hdocuments, hruntime⟩ := not_or.mp hclash
  obtain ⟨hruntime, -⟩ := not_or.mp hruntime
  obtain ⟨hpanics, hknown⟩ := @traverse_fine loader profile_id overlays depth hdocuments
  unfold loadInternal
  cases htraversed : traverse depth loader.loadProfile applyProfile profile_id
      ⟨MergedConfig.default, []⟩ with
  | none => exact ⟨fun ⟨_, h⟩ => (by cases h), fun _ h => (by cases h)⟩
  | some traversed =>
    rw [htraversed] at hpanics
    simp only [Option.map_some, panics_some_iff]
    cases traversed with
    | error error =>
      refine ⟨fun hfails => ?_, fun loaded h => (by cases h)⟩
      obtain ⟨failure, rfl, hpanic⟩ := mapGraphError_panics_iff.mp (fails_error_iff.mp hfails)
      exact hpanics ⟨failure, rfl, hpanic⟩
    | ok progress =>
      have hsources : ∀ sources, (∀ parsed ∈ sources, loader.Merges profile_id overlays parsed) →
          ∀ progress : Progress,
          Known (loader.DocumentLeaf profile_id overlays) progress.merged.root →
          FineProgress (loader.DocumentLeaf profile_id overlays)
            (applySources sources progress) := by
        intro sources hmerges progress hknown
        exact applySources_fine hdocuments hknown
          (fun parsed hparsed keys text hleaf => ⟨parsed, hmerges parsed hparsed, hleaf⟩)
          fun parsed hparsed start keys hstep => ⟨parsed, hmerges parsed hparsed, hstep⟩
      obtain ⟨hfirst, hnext⟩ := hsources loader.overlays (fun parsed hparsed => .inr (.inl hparsed))
        progress (hknown progress htraversed)
      have hlast := fun next (h : applySources loader.overlays progress = .ok next) =>
        hsources overlays (fun parsed hparsed => .inr (.inr hparsed)) next (hnext next h)
      have happlied := fun {next final : Progress}
          (h : applySources loader.overlays progress = .ok next)
          (hfinal : applySources overlays next = .ok final) =>
        RuntimeInputApplier.apply_fine hruntime hschema ((hlast next h).2 final hfinal)
      change ¬ Fails Failure.IsPanic (applySources loader.overlays progress >>= fun next =>
          applySources overlays next >>= fun final =>
            RuntimeInputApplier.apply schema environment final.merged >>= fun merged =>
              merged.finish schema final.chain) ∧ _
      constructor
      · intro hfails
        rcases fails_bind_iff.mp hfails with hfails | ⟨next, hsources, hfails⟩
        · exact hfirst hfails
        rcases fails_bind_iff.mp hfails with hfails | ⟨final, hoverlays, hfails⟩
        · exact (hlast next hsources).1 hfails
        rcases fails_bind_iff.mp hfails with hfails | ⟨merged, _, hfails⟩
        · exact (happlied hsources hoverlays).1 hfails
        · exact finish_not_panics hfails
      · intro loaded h
        obtain ⟨_, htraverse, h⟩ := bind_ok_iff.mp (Option.some.inj h)
        obtain rfl := Except.ok.inj (mapError_ok_iff.mp htraverse)
        obtain ⟨next, hsources, h⟩ := bind_ok_iff.mp h
        obtain ⟨final, hoverlays, h⟩ := bind_ok_iff.mp h
        obtain ⟨merged, hmerged, h⟩ := bind_ok_iff.mp h
        obtain ⟨read, hread, hconfig⟩ := finish_ok h
        exact ⟨merged.root, read, merged.provenance,
          (happlied hsources hoverlays).2 merged hmerged, hread, hconfig⟩

/-- A load panics only when some path clashes with a place. -/
theorem loadClash_of_panics (hschema : schema.Faithful defaults)
    (h : Panics (loader.loadWithOverlaysRuntimeAndCli schema depth profile_id overlays environment
      patches)) : loader.LoadClash defaults profile_id overlays environment patches := by
  by_contra hclash
  obtain ⟨hpanics, hloaded⟩ := @loadInternal_fine schema defaults loader profile_id overlays depth
    environment patches hschema hclash
  unfold loadWithOverlaysRuntimeAndCli at h
  cases hresult : loader.loadInternal schema depth profile_id environment overlays with
  | none =>
    rw [hresult] at h
    obtain ⟨_, h⟩ := h
    cases h
  | some result =>
    rw [hresult] at h hpanics
    rw [panics_some_iff] at hpanics
    have hfails : Fails Failure.IsPanic (result >>= applyCliPatches schema patches) :=
      panics_some_iff.mp h
    rcases fails_bind_iff.mp hfails with hfails | ⟨loaded, rfl, hfails⟩
    · exact hpanics hfails
    · obtain ⟨root, read, provenance, hknown, hread⟩ := hloaded loaded hresult
      exact applyCliPatches_fine hschema hknown ⟨read, provenance, hread⟩
        (not_or.mp (not_or.mp hclash).2).2 hfails

end ProfileLoader

/-! ## A profile that clashes with itself -/

/-- A trusted profile without parents that only has a configuration, and a first override that goes
on behind something else than a table there. -/
structure OwnClash (parsed : ParsedSource) : Prop where
  trusted : parsed.source.source.isTrusted = true
  alone : parsed.profile.parents = []
  ordered : Ordered (.Table parsed.profile.root)
  no_policy : parsed.profile.root.get "policy" = none
  no_inputs : parsed.profile.root.get "inputs" = none
  clash : ∃ config section_key below doc path spec rest,
    parsed.profile.root.get "config" = some (.Table config) ∧
    Doc.lookup (section_key :: below) config = some doc ∧ doc.IsLeaf ∧
    parsed.profile.overrides.contains section_key = false ∧
    parsed.profile.overrides.toList = (path, spec) :: rest ∧ Overrides path spec ∧
    Above (section_key :: below) (splitChar '.' path)

namespace MergedConfig

variable {context : MergeContext} {source : ProfileSource} {policy : PolicyConfig}

/-- The first configuration is merged as it is, but for the sections that are overridden. -/
theorem mergeTable_first (htrusted : context.source.source.isTrusted = true) {config : Table}
    (hordered : Ordered (.Table config)) (hfields : ∀ key ∈ Entries.keys config, key ∈ configFields)
    (hfirst : ∀ key ∈ Entries.keys config, merged.root.get key = none) :
    ∃ next, mergeTable context config "" merged = .ok next ∧
      ∀ key, context.overrides.contains key = false → ∀ value, config.get key = some value ∨
        config.get key = none ∧ merged.root.get key = some value →
          next.root.get key = some value := by
  induction config generalizing merged with
  | nil =>
    refine ⟨merged, rfl, ?_⟩
    rintro key - value (hvalue | ⟨-, hvalue⟩)
    · cases hvalue
    · exact hvalue
  | cons entry rest ih =>
    obtain ⟨key, value⟩ := entry
    have hkey : splitChar '.' key = [key] := splitChar_of_field key (hfields key List.mem_cons_self)
    have hmissing : merged.root.get key = none := hfirst key List.mem_cons_self
    have hapart := not_mem_keys_of_ordered hordered
    have hfields' : ∀ other ∈ Entries.keys rest, other ∈ configFields :=
      fun other hother => hfields other (List.mem_cons_of_mem _ hother)
    rw [mergeTable, if_pos rfl, mergePath]
    by_cases howned : context.overrides.contains key = true
    · rw [if_pos howned]
      obtain ⟨next, hnext, hkept⟩ := @ih merged (ordered_tail hordered) hfields'
        fun other hother => hfirst other (List.mem_cons_of_mem _ hother)
      refine ⟨next, hnext, fun other hother found hfound => hkept other hother found ?_⟩
      have hne : other ≠ key := by
        rintro rfl
        rw [howned] at hother
        cases hother
      rwa [Entries.get_cons, if_neg hne] at hfound
    · rw [if_neg howned, reject_trusted htrusted]
      have hget : getPath merged.root key = none := by
        rw [getPath, hkey]
        exact hmissing
      have hput : setPath merged.root key value = .ok (merged.root.insert key value) := by
        rw [setPath, hkey]
        rfl
      simp only [hget, write, hput]
      generalize hmiddle : MergedConfig.mk (merged.root.insert key value) _ _ = middle
      have hroot : middle.root = merged.root.insert key value := by rw [← hmiddle]
      obtain ⟨next, hnext, hkept⟩ := @ih middle (ordered_tail hordered) hfields' fun other
          hother => by
        have hne : other ≠ key := fun heq => hapart (heq ▸ hother)
        rw [hroot, Entries.get_insert_ne hne]
        exact hfirst other (List.mem_cons_of_mem _ hother)
      rw [hroot] at hkept
      refine ⟨next, hnext, fun other hother found hfound => hkept other hother found ?_⟩
      by_cases heq : other = key
      · subst heq
        refine .inr ⟨?_, ?_⟩
        · cases hrest : Entries.get other rest with
          | none => rfl
          | some inner => exact absurd (Entries.mem_keys_iff.mpr ⟨inner, hrest⟩) hapart
        · rw [Entries.get_insert_self]
          rcases hfound with hfound | ⟨hfound, -⟩
          · rwa [Entries.get_cons, if_pos rfl] at hfound
          · rw [Entries.get_cons, if_pos rfl] at hfound
            cases hfound
      · rw [Entries.get_cons, if_neg heq] at hfound
        exact hfound.imp_right fun habsent =>
          ⟨habsent.1, (Entries.get_insert_ne heq).trans habsent.2⟩

/-- A profile that clashes with itself panics when it is merged first. -/
theorem mergeProfile_panics {parsed : ParsedSource} (h : OwnClash parsed) :
    Fails Failure.IsPanic (MergedConfig.default.mergeProfile parsed.profile parsed.source) := by
  obtain ⟨config, section_key, below, doc, path, spec, rest, hconfig, hdoc, hleaf, howned,
    hoverrides, hwrites, habove⟩ := h.clash
  obtain ⟨declared, hdeclared, hfields⟩ := parsed.profile.config_known _ hconfig
  obtain rfl := Doc.Table.inj hdeclared
  have hordered : Ordered (.Table config) := ordered_of_mem h.ordered (Entries.mem_of_get hconfig)
  have hpermissions : validateSourcePermissions parsed.profile parsed.source = .ok () := by
    unfold validateSourcePermissions
    dsimp only
    rw [if_pos h.trusted]
  have hpolicy : MergedConfig.default.mergePolicy parsed.profile parsed.source =
      .ok MergedConfig.default := by
    unfold mergePolicy RawProfile.table
    rw [h.no_policy]
  obtain ⟨next, hnext, hkept⟩ := @mergeTable_first MergedConfig.default
    ⟨parsed.source, parsed.profile.overrides, PolicyConfig.default⟩ h.trusted config hordered
    hfields fun _ _ => rfl
  have hsection : mergeSection ⟨parsed.source, parsed.profile.overrides, PolicyConfig.default⟩
      (parsed.profile.table "config") "" MergedConfig.default = .ok next := by
    unfold RawProfile.table
    rw [hconfig]
    exact hnext
  have hinputs : mergeSection ⟨parsed.source, parsed.profile.overrides, PolicyConfig.default⟩
      (parsed.profile.table "inputs") "inputs" next = .ok next := by
    unfold RawProfile.table
    rw [h.no_inputs]
    rfl
  have hblocked : Blocked next.root path := by
    have hplace : Doc.lookup (section_key :: below) next.root = some doc := by
      rw [Doc.lookup_cons] at hdoc ⊢
      cases hvalue : Entries.get section_key config with
      | none =>
        rw [hvalue] at hdoc
        cases below <;> cases hdoc
      | some value =>
        rw [hkept section_key howned value (.inl hvalue), ← hvalue]
        exact hdoc
    intro hpass
    obtain ⟨inner, rfl⟩ := hpass _ (List.cons_ne_nil _ _) habove.1 habove.2 doc hplace
    exact hleaf
  have hdefault : MergedConfig.default.policy = .ok PolicyConfig.default := rfl
  unfold mergeProfile
  rw [hpermissions, ok_bind, hpolicy, ok_bind, hdefault, ok_bind]
  dsimp only
  rw [hsection, ok_bind, hinputs, ok_bind, hoverrides, applyOverrides]
  have hpermitted : validateOverridePermission path parsed.source PolicyConfig.default
      parsed.profile.id = .ok () := by
    unfold validateOverridePermission
    rw [if_pos h.trusted]
  have hspec : parsed.profile.overrides[path]? = some spec :=
    Std.ExtTreeMap.mem_toList_iff_getElem?_eq_some.mp (hoverrides ▸ List.mem_cons_self)
  rw [hpermitted, ok_bind]
  refine fails_bind_iff.mpr (.inl ((applyOverride_panics_iff
    (parsed.profile.overrides_checked path spec hspec)).mpr ?_))
  exact ⟨hwrites.1, hwrites.2.1, hwrites.2.2, hblocked⟩

end MergedConfig

namespace ProfileLoader

variable {depth : ℕ} {environment : RuntimeInputApplier.RuntimeEnvironment}
  {patches : List CliPatch}

/-- Whatever else is loaded with it, a profile that clashes with itself makes its load panic. -/
theorem panics_of_ownClash {parsed : ParsedSource}
    (hfound : loader.profiles[profile_id]? = some parsed) (h : OwnClash parsed) :
    Panics (loader.loadWithOverlaysRuntimeAndCli schema (depth + 1) profile_id overlays
      environment patches) := by
  have hload : loader.loadProfile profile_id = .ok (some (parsed, [])) := by
    unfold loadProfile
    rw [hfound]
    simp only
    rw [if_neg (not_not.mpr (loader.profiles_named _ _ hfound)), h.alone]
  obtain ⟨failure, hmerge, hpanic⟩ := MergedConfig.mergeProfile_panics h
  have htraverse : traverse (depth + 1) loader.loadProfile applyProfile profile_id
      ⟨MergedConfig.default, []⟩ = some (.error (.Source failure)) := by
    have happly : applyProfile profile_id parsed ⟨MergedConfig.default, []⟩ = .error failure := by
      unfold applyProfile mergeSource
      rw [hmerge]
      rfl
    have hextends : validateExtends profile_id [] = .ok () := rfl
    unfold profile_graph.traverse traverseWithMaxDepth visit
    rw [if_neg List.not_mem_nil]
    simp only [Option.any_none, Bool.false_eq_true, if_false]
    rw [if_neg (by simp)]
    simp only [hload, hextends, visitParents, happly]
    rfl
  cases failure with
  | Error => cases hpanic
  | Panic message =>
    unfold loadWithOverlaysRuntimeAndCli loadInternal
    rw [htraverse]
    exact ⟨message, rfl⟩

end ProfileLoader

/-! ## An override below a text -/

section Trees

variable {front : List String} {inner : Table} {value : Value} {key : String}

theorem table_places (h : Known (fun keys text => places (front ++ keys) text) inner)
    (keys : List String) (text : Option String) (hleaf : LeafOf (.Table inner) front keys text) :
    places keys text := by
  obtain ⟨below, doc, rfl, hdoc, hdocleaf, rfl⟩ := hleaf
  by_cases hbelow : below = []
  · subst hbelow
    obtain rfl := Option.some.inj hdoc
    exact absurd hdocleaf id
  · rw [Doc.reach_table hbelow] at hdoc
    exact h below doc hdoc hdocleaf

theorem leaf_places (hvalue : value.IsLeaf) (h : ∀ text, places front text) (keys : List String)
    (text : Option String) (hleaf : LeafOf value front keys text) : places keys text := by
  obtain ⟨rfl, -⟩ := leafOf_leaf hvalue hleaf
  exact h text

theorem known_cons (hvalue : ∀ keys text, LeafOf value [key] keys text → places keys text)
    (hrest : Known places inner) : Known places ((key, value) :: inner) := by
  intro keys doc hdoc hleaf
  cases keys with
  | nil => cases hdoc
  | cons first rest =>
    rw [Doc.lookup_cons, Entries.get_cons] at hdoc
    split_ifs at hdoc with hfirst
    · subst hfirst
      exact hvalue _ _ ⟨rest, doc, rfl, hdoc, hleaf, rfl⟩
    · exact hrest (first :: rest) doc (by rw [Doc.lookup_cons, hdoc]) hleaf

end Trees

/-- The fields that a written configuration of the image has whatever its documents say. -/
def imageDefaults : List (List String) :=
  [["policy", "workspace_can_override"], ["shell", "default"], ["shells", "bash", "command"],
    ["shells", "bash", "kind"], ["workspace", "root"]]

theorem imageSchema_inputs {config : ResolvedConfig}
    (h : imageSchema.deserialize root = some config) : config.inputs = ∅ := by
  unfold imageSchema at h
  dsimp only at h
  split at h
  · obtain ⟨policy, -, rfl⟩ := Option.map_eq_some_iff.mp h
    rfl
  · cases h

theorem imageSchema_faithful : imageSchema.Faithful (· ∈ imageDefaults) where
  target := by
    intro root config name input hconfig hinput
    rw [imageSchema_inputs hconfig] at hinput
    simp at hinput
  export_as := by
    intro root config name input exported hconfig hinput
    rw [imageSchema_inputs hconfig] at hinput
    simp at hinput
  serialized := by
    intro root config provenance tree _ htree keys doc hdoc hleaf
    obtain rfl := Option.some.inj htree
    refine .inl ((?_ : Known (fun keys _ => keys ∈ imageDefaults) _) keys doc hdoc hleaf)
    refine known_cons (table_places known_empty) (known_cons (table_places known_empty) ?_)
    refine known_cons (table_places known_empty) (known_cons (table_places ?_) ?_)
    · exact known_cons (leaf_places trivial fun _ => by decide) known_empty
    refine known_cons (table_places known_empty) (known_cons (table_places ?_) ?_)
    · exact known_cons (leaf_places trivial fun _ => by decide) known_empty
    refine known_cons (table_places ?_) (known_cons (table_places ?_) known_empty)
    · refine known_cons (table_places ?_) known_empty
      refine known_cons (leaf_places trivial fun _ => ?_)
        (known_cons (leaf_places trivial fun _ => ?_) known_empty)
      · decide
      · decide
    · exact known_cons (leaf_places trivial fun _ => by decide) known_empty

/-- An image profile that sets `workspace.root`, and overrides a path below it. -/
def belowText : RawProfile :=
  { RawProfile.overriding "base" "workspace.root.x" (setText "y" "typo") (by decide +kernel) with
    root := [("config", .Table [("workspace", .Table [("root", Value.text "/w")])])]
    policy_read := fun _ h => nomatch h
    config_known := by
      intro value h
      obtain rfl := Option.some.inj h
      exact ⟨_, rfl, by decide⟩
    inputs_named := fun _ h => nomatch h }

def belowTextLoader : ProfileLoader where
  profiles := (∅ : Std.ExtTreeMap String ParsedSource).insert "base"
    ⟨⟨"base", .ImageProfile, none⟩, belowText⟩
  overlays := []
  profiles_named := by
    intro id profile h
    rw [Std.ExtTreeMap.getElem?_insert] at h
    split_ifs at h
    · obtain rfl := Option.some.inj h
      rfl
    · simp at h

def panicMessage {α : Type} : Option (Except Failure α) → Option String
  | some (.error (.Panic message)) => some message
  | _ => none

theorem panics_of_message {α : Type} {result : Option (Except Failure α)} {message : String}
    (h : panicMessage result = some message) : ProfileLoader.Panics result := by
  unfold panicMessage at h
  split at h
  · exact ⟨_, rfl⟩
  · cases h

theorem belowText_ownClash : OwnClash ⟨⟨"base", .ImageProfile, none⟩, belowText⟩ where
  trusted := rfl
  alone := rfl
  ordered := Ordered.single (Ordered.single (Ordered.single (.Scalar _)))
  no_policy := rfl
  no_inputs := rfl
  clash := by
    refine ⟨_, "workspace", ["root"], Value.text "/w", "workspace.root.x", setText "y" "typo",
      [], rfl, rfl, trivial, ?_, ?_, ?_, ?_⟩
    · decide +kernel
    · rfl
    · refine ⟨by decide, by decide, ?_⟩
      exact ⟨_, _, rfl, rfl⟩
    · exact ⟨⟨["x"], by decide +kernel⟩, by decide +kernel⟩

end dev_env_loader
