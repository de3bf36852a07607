-- The user name and the home of a resolved identity: where they are taken from,
-- and when they name root alone and a concrete place.
import NixosDockers.BootstrapModel.PathTemplates
import NixosDockers.Core.IdentityPrecedence
import NixosDockers.Lib.TreeMaps
import NixosDockers.Lib.Trimming

open bootstrap_model rust_text results

namespace init_core

/-! ## The path of an input -/

theorem insertAll_source {entries : List (String × RuntimeInput)} {start : ResolvedInputs}
    {name : String} {input : RuntimeInput}
    (h : (tree_maps.insertAll start entries)[name]? = some input) :
    start[name]? = some input ∨ ∃ entry ∈ entries, entry.2 = input := by
  unfold tree_maps.insertAll at h
  induction entries generalizing start with
  | nil => exact Or.inl h
  | cons entry entries ih =>
    rcases ih h with hstart | ⟨other, hmem, hother⟩
    · rw [Std.ExtTreeMap.getElem?_insert] at hstart
      split_ifs at hstart
      · exact Or.inr ⟨entry, List.mem_cons_self, Option.some.inj hstart⟩
      · exact Or.inl hstart
    · exact Or.inr ⟨other, List.mem_cons_of_mem _ hmem, hother⟩

/-- An input that was resolved was parsed by a declaration. -/
theorem resolveInputs_parsed {config : BootstrapConfig} {context : RuntimeContext}
    {inputs : ResolvedInputs} (h : resolveInputs config context = .ok inputs) {name : String}
    {input : RuntimeInput} (hinput : inputs[name]? = some input) :
    ∃ declaration : BootstrapInput, declaration.parseValue input.raw = .ok input.parsed := by
  simp only [resolveInputs, bind_ok_iff, pure_ok_iff] at h
  obtain ⟨groups, hgroups, rfl⟩ := h
  rcases insertAll_source hinput with hnone | ⟨entry, hmem, rfl⟩
  · simp at hnone
  · obtain ⟨group, hgroup, hentry⟩ := List.mem_flatten.mp hmem
    obtain ⟨⟨declared, declaration⟩, -, hadds⟩ := forall₂_mem_left (mapM_ok_iff.mp hgroups) hgroup
    unfold inputEntries at hadds
    cases hraw : declaredValue declared declaration context with
    | none =>
      rw [hraw] at hadds
      cases hadds
      cases hentry
    | some raw =>
      rw [hraw] at hadds
      simp only [bind_ok_iff, pure_ok_iff] at hadds
      obtain ⟨parsed, hparsed, rfl⟩ := hadds
      obtain ⟨key, -, rfl⟩ := List.mem_map.mp hentry
      refine ⟨declaration, ?_⟩
      cases hvalue : declaration.parseValue raw with
      | error error =>
        rw [hvalue] at hparsed
        cases hparsed
      | ok value =>
        rw [hvalue] at hparsed
        cases hparsed
        rfl

/-- A template begins at the root or with a reference. -/
theorem template_start {location home : String} (h : validateTemplate location home = .ok ()) :
    isAbsolute home = true ∨ startsWith home "$\x7b" = true := by
  unfold validateTemplate at h
  simp only [throw_eq, error_bind, ite_error_ok_iff, bind_ok_iff] at h
  obtain ⟨-, -, -, -, -, -, hstart, -⟩ := h
  simp only [Bool.and_eq_true, Bool.not_eq_true', not_and, Bool.not_eq_false] at hstart
  by_cases habsolute : isAbsolute home = true
  · exact Or.inl habsolute
  · exact Or.inr (hstart (Bool.eq_false_iff.mpr habsolute))

theorem hasText_of_startsWith {text start : String} (hempty : start ≠ "")
    (h : startsWith text start = true) : hasText text start = true := by
  unfold startsWith at h
  unfold hasText containsText
  cases hs : text.toList with
  | nil =>
    rw [hs] at h
    have hstart : start.toList = [] := by simpa using List.isPrefixOf_iff_prefix.mp h
    exact absurd (String.toList_inj.mp hstart) hempty
  | cons c rest =>
    rw [hs] at h
    rw [splitOnce, if_pos h]
    rfl

/-- A path without references. -/
structure ConcretePath (path : String) : Prop where
  template : validateTemplate "bootstrap input" path = .ok ()
  concrete : hasText path "$\x7b" = false

theorem ConcretePath.absolute {path : String} (h : ConcretePath path) : isAbsolute path = true := by
  rcases template_start h.template with habsolute | hstart
  · exact habsolute
  · have htext := hasText_of_startsWith (by decide) hstart
    rw [h.concrete] at htext
    cases htext

/-- The path of an input is concrete. -/
theorem parsedPath_concrete {declaration : BootstrapInput} {raw path : String}
    (h : declaration.parseValue raw = .ok (.Path path)) :
    ConcretePath path := by
  unfold BootstrapInput.parseValue at h
  cases htype : declaration.input_type with
  | Path =>
    rw [htype] at h
    simp only [throw_eq, error_bind, ite_error_ok_iff, bind_ok_iff, pure_ok_iff] at h
    obtain ⟨hconcrete, _, htemplate, hpath⟩ := h
    cases hpath
    exact ⟨htemplate, Bool.eq_false_iff.mpr hconcrete⟩
  | UidPair =>
    rw [htype] at h
    dsimp only at h
    split at h
    · simp only [bind_ok_iff, pure_ok_iff] at h
      obtain ⟨_, _, hnot⟩ := h
      cases hnot
    · simp only [throw_eq, error_bind, ite_error_ok_iff, bind_ok_iff, pure_ok_iff] at h
      obtain ⟨_, _, _, _, _, hnot⟩ := h
      cases hnot
    · simp only [bind_ok_iff, pure_ok_iff] at h
      obtain ⟨_, _, hnot⟩ := h
      cases hnot
  | Gid =>
    rw [htype] at h
    simp only [bind_ok_iff, pure_ok_iff] at h
    obtain ⟨_, _, hnot⟩ := h
    cases hnot
  | Bool =>
    rw [htype] at h
    dsimp only at h
    split_ifs at h <;> cases h

theorem findInput_source {config : BootstrapConfig} {inputs : ResolvedInputs}
    {name : Option String} {input : RuntimeInput} (h : findInput config inputs name = some input) :
    ∃ key : String, inputs[key]? = some input := by
  unfold findInput at h
  obtain ⟨key, -, hfound⟩ := Option.bind_eq_some_iff.mp h
  cases hdirect : inputs[key]? with
  | some value =>
    rw [hdirect] at hfound
    exact ⟨key, hdirect.trans hfound⟩
  | none =>
    rw [hdirect] at hfound
    obtain ⟨entry, -, hentry⟩ := Option.bind_eq_some_iff.mp hfound
    exact ⟨entry.1, hentry⟩

theorem inputHome_concrete {config : BootstrapConfig} {context : RuntimeContext}
    {inputs : ResolvedInputs} (h : resolveInputs config context = .ok inputs)
    {name : Option String} {home : String}
    (hhome : inputHome config inputs name = .ok (some home)) :
    ConcretePath home := by
  unfold inputHome at hhome
  cases hfound : findInput config inputs name with
  | none =>
    rw [hfound] at hhome
    cases hhome
  | some input =>
    rw [hfound] at hhome
    dsimp only at hhome
    obtain ⟨key, hkey⟩ := findInput_source hfound
    obtain ⟨declaration, hparsed⟩ := resolveInputs_parsed h hkey
    cases hform : input.parsed with
    | Path path =>
      rw [hform] at hhome hparsed
      dsimp only at hhome
      split_ifs at hhome
      cases hhome
      exact parsedPath_concrete hparsed
    | UidPair uid gid =>
      rw [hform] at hhome
      cases hhome
    | Gid gid =>
      rw [hform] at hhome
      cases hhome
    | Bool value =>
      rw [hform] at hhome
      cases hhome

/-! ## The name and the home of an account -/

theorem liftIo_ok_iff {α : Type} {result : Except String α} {value : α} :
    liftIo result = .ok value ↔ result = .ok value := by
  cases result <;> simp [liftIo]

theorem chooseUser_ok {identity : IdentityConfig} {uid : UInt32} {uidUser : Option PosixUser}
    {user : String} (h : chooseUser identity uid uidUser = .ok user) :
    (uid = 0 ∧ user = "root") ∨ uid ≠ 0 ∧ (identity.default_user = some user ∨
      identity.default_user = none ∧ ((∃ account, uidUser = some account ∧ account.name = user) ∨
        uidUser = none ∧ user = "uid-" ++ toString uid)) := by
  unfold chooseUser at h
  by_cases huid : uid = 0
  · rcases uidUser with _ | candidate
    · simp only [huid, ne_eq, not_true_eq_false, if_true, if_false, pure_bind, pure_ok_iff] at h
      exact Or.inl ⟨huid, h.symm⟩
    · simp only [huid, ne_eq, not_true_eq_false, if_true, if_false, throw_eq, error_bind, pure_bind,
        ite_error_ok_iff, pure_ok_iff] at h
      exact Or.inl ⟨huid, h.2.symm⟩
  · refine Or.inr ⟨huid, ?_⟩
    rcases hdefault : identity.default_user with _ | configured <;> rcases uidUser with _ | candidate <;>
      simp only [hdefault, huid, ne_eq, not_false_eq_true, if_true, if_false, throw_eq, error_bind,
        pure_bind, ite_error_ok_iff, pure_ok_iff] at h
    · exact Or.inr ⟨rfl, Or.inr ⟨rfl, h.symm⟩⟩
    · exact Or.inr ⟨rfl, Or.inl ⟨candidate, rfl, h.2⟩⟩
    · exact Or.inl (by rw [h.2])
    · exact Or.inl (by rw [h.2.2])

theorem chooseHome_ok {config : BootstrapConfig} {inputs : ResolvedInputs} {fallback home : String}
    (h : chooseHome config inputs fallback = .ok home) :
    ∃ given, inputHome config inputs config.identity.home_input = .ok given ∧
      home = (given <|> config.identity.default_home).getD fallback := by
  simp only [chooseHome, bind_ok_iff, pure_ok_iff] at h
  obtain ⟨given, hgiven, rfl⟩ := h
  exact ⟨given, hgiven, rfl⟩

/-! ## Texts with a reference left in them -/

/-- A `$\x7b...\x7d` stands in the text. -/
def HoldsInterpolation (text : String) : Prop :=
  ∃ before name after, text.toList = before ++ (['$', '\x7b'] ++ (name ++ '\x7d' :: after))

theorem splitOnce_isSome (needle before after : List Char) :
    (splitOnce needle (before ++ (needle ++ after))).isSome = true := by
  induction before with
  | nil =>
    cases hneedle : needle with
    | nil => cases after <;> rfl
    | cons c rest => rw [List.nil_append, List.cons_append, splitOnce, if_pos (by simp)]; rfl
  | cons c before ih =>
    rw [List.cons_append, splitOnce]
    split_ifs with hprefix
    · rfl
    · rw [Option.isSome_map, ih]

theorem ConcretePath.not_holds {path : String} (h : ConcretePath path) :
    ¬ HoldsInterpolation path := by
  rintro ⟨before, name, after, htext⟩
  have hsome := splitOnce_isSome ['$', '\x7b'] before (name ++ '\x7d' :: after)
  rw [← htext] at hsome
  exact absurd (hsome.symm.trans h.concrete) (by decide)

theorem not_holds_of_free {text : String} (h : '$' ∉ text.toList) : ¬ HoldsInterpolation text := by
  rintro ⟨before, name, after, htext⟩
  rw [htext] at h
  exact h (by simp)

/-- A template that does not begin at the root begins with a whole reference. -/
theorem holds_of_template {location home : String} (h : validateTemplate location home = .ok ())
    (habsolute : isAbsolute home ≠ true) : HoldsInterpolation home := by
  have hstart := (template_start h).resolve_left habsolute
  obtain ⟨rest, rfl⟩ := startsWith_iff.mp hstart
  have hvalid := validateTemplate_interpolations h
  have htext : ("$\x7b" ++ rest).toList = '$' :: '\x7b' :: rest.toList := by simp
  have hlength : ("$\x7b" ++ rest).length = (rest.length + 1) + 1 := by
    rw [← String.length_toList, htext]
    simp only [List.length_cons, String.length_toList]
  rw [validateInterpolations, htext, hlength, validateInterpolationsFuel, if_neg (by decide),
    if_neg (by simp)] at hvalid
  cases hcut : splitOnce ['\x7d'] rest.toList with
  | none =>
    rw [List.tail_cons, hcut] at hvalid
    cases hvalid
  | some found =>
    obtain ⟨name, after⟩ := found
    refine ⟨[], name, after, ?_⟩
    rw [htext, splitOnce_eq_append hcut]
    simp

theorem userName_free {location user : String}
    (h : Action.validateUserName location user = .ok ()) : '$' ∉ user.toList := by
  unfold Action.validateUserName at h
  split_ifs at h with hbad
  simp only [Bool.or_eq_true, decide_eq_true_eq, not_or, Bool.not_eq_true', Bool.not_eq_false]
    at hbad
  intro hmem
  have hplain := List.all_eq_true.mp hbad.2 '$' hmem
  exact absurd hplain (by decide)

theorem uidName_free (uid : UInt32) : '$' ∉ ("uid-" ++ toString uid).toList := by
  intro hmem
  rw [String.toList_append, List.mem_append] at hmem
  rcases hmem with hstart | hdigit
  · exact absurd hstart (by decide)
  · have hdigits : '$' ∈ Nat.toDigits 10 uid.toNat := by
      rw [← Nat.toList_repr]
      exact hdigit
    exact absurd (Nat.isDigit_of_mem_toDigits (by decide) (by decide) hdigits) (by decide)

theorem home_free {user : String} (h : '$' ∉ user.toList) : '$' ∉ ("/home/" ++ user).toList := by
  rw [String.toList_append, List.mem_append, not_or]
  exact ⟨by decide, h⟩

/-! ## Root naming and home -/

/-- Only UID 0 is called root, and the home is an absolute path with no reference left in it. -/
structure WellNamed (identity : ResolvedIdentity) : Prop where
  root : identity.uid = 0 ↔ identity.user = "root"
  absolute : isAbsolute identity.home = true
  concrete : ¬ HoldsInterpolation identity.home

/-- Where the name is taken from passwd, the entry of the UID is not called root. -/
def NameFits (posix : PosixSystem) (config : BootstrapConfig) : Option IdSources → Prop
  | none => True
  | some sources => config.identity.default_user = none → sources.documentedUid.1 ≠ 0 →
      ∀ owner, posix.lookup_user_by_uid sources.documentedUid.1 = .ok (some owner) →
        owner.name ≠ "root"

/-- Where the home is taken from passwd, it has no reference in it. -/
def PasswdHomeFits (posix : PosixSystem) (config : BootstrapConfig) : Option IdSources → Prop
  | none => True
  | some sources => sources.documentedUid.1 ≠ 0 → ∀ named owner account,
      namedUser posix config.identity = .ok named →
      posix.lookup_user_by_uid sources.documentedUid.1 = .ok owner →
      (named <|> owner) = some account → ¬ HoldsInterpolation account.home

/-- Without a home input, the default home has no reference in it, and without that the account
file decides. -/
structure HomeFits (posix : PosixSystem) (config : BootstrapConfig) (inputs : ResolvedInputs)
    (requested : Option IdSources) : Prop where
  configured : inputHome config inputs config.identity.home_input = .ok none →
    ∀ home, config.identity.default_home = some home → ¬ HoldsInterpolation home
  account : inputHome config inputs config.identity.home_input = .ok none →
    config.identity.default_home = none → PasswdHomeFits posix config requested

/-- What `resolve` has checked of the configured texts. -/
structure CheckedTexts (identity : IdentityConfig) : Prop where
  user : ∀ user, identity.default_user = some user →
    Action.validateUserName "bootstrap.identity.default_user" user = .ok ()
  home : ∀ home, identity.default_home = some home →
    validateTemplate "bootstrap.identity.default_home" home = .ok ()

theorem checkedTexts_of_validate {config : BootstrapConfig} (h : config.validate = .ok ()) :
    CheckedTexts config.identity := by
  simp only [BootstrapConfig.validate, throw_eq, error_bind, ite_error_ok_iff, bind_ok_iff] at h
  obtain ⟨-, -, _, -, -, _, hidentity, -⟩ := h
  simp only [IdentityConfig.validate, bind_ok_iff] at hidentity
  obtain ⟨_, huser, _, hhome, -⟩ := hidentity
  constructor
  · intro user hsome
    rw [hsome] at huser
    exact huser
  · intro home hsome
    rw [hsome] at hhome
    exact hhome

section homes

variable {posix : PosixSystem} {config : BootstrapConfig} {context : RuntimeContext}
  {inputs : ResolvedInputs} {identity : ResolvedIdentity}

theorem home_concrete_iff (hinputs : resolveInputs config context = .ok inputs)
    {fallback home : String} (h : chooseHome config inputs fallback = .ok home) :
    ¬ HoldsInterpolation home ↔
      (inputHome config inputs config.identity.home_input = .ok none →
        ∀ path, config.identity.default_home = some path → ¬ HoldsInterpolation path) ∧
      (inputHome config inputs config.identity.home_input = .ok none →
        config.identity.default_home = none → ¬ HoldsInterpolation fallback) := by
  obtain ⟨given, hgiven, rfl⟩ := chooseHome_ok h
  rw [hgiven]
  cases given with
  | some path =>
    have hconcrete := (inputHome_concrete hinputs hgiven).not_holds
    exact iff_of_true hconcrete ⟨nofun, nofun⟩
  | none =>
    cases hdefault : config.identity.default_home with
    | some path => simp
    | none => simp

theorem home_absolute (hchecked : CheckedTexts config.identity)
    (hinputs : resolveInputs config context = .ok inputs) {fallback home : String}
    (h : chooseHome config inputs fallback = .ok home) (hfallback : isAbsolute fallback = true)
    (hconcrete : ¬ HoldsInterpolation home) : isAbsolute home = true := by
  obtain ⟨given, hgiven, rfl⟩ := chooseHome_ok h
  cases given with
  | some path => exact (inputHome_concrete hinputs hgiven).absolute
  | none =>
    cases hdefault : config.identity.default_home with
    | none => exact hfallback
    | some path =>
      rw [hdefault] at hconcrete
      by_contra habsolute
      exact hconcrete (holds_of_template (hchecked.home path hdefault) habsolute)

/-- Where the target branch has the name and the home from. -/
structure TargetNames (posix : PosixSystem) (config : BootstrapConfig) (inputs : ResolvedInputs)
    (identity : ResolvedIdentity) (named owner : Option PosixUser) : Prop where
  account : namedUser posix config.identity = .ok named
  uid_owner : posix.lookup_user_by_uid identity.uid = .ok owner
  user : chooseUser config.identity identity.uid owner = .ok identity.user
  home : chooseHome config inputs (fallbackHome identity.uid identity.user named owner) =
    .ok identity.home
  absolute : isAbsolute identity.home = true

theorem resolveTarget_names (h : resolveTarget posix config context inputs = .ok identity) :
    ∃ named owner, TargetNames posix config inputs identity named owner := by
  simp only [resolveTarget, throw_eq, error_bind, ite_error_ok_iff, bind_ok_iff, pure_ok_iff,
    liftIo_ok_iff] at h
  obtain ⟨_, _, _, _, _, _, named, hnamed, _, _, ⟨gid, source⟩, _, owner, howner, user, huser,
    home, hhome, habsolute, rfl⟩ := h
  exact ⟨named, owner, hnamed, howner, huser, hhome, by simpa using habsolute⟩

theorem configured_ne_root {uid : UInt32} {owner : Option PosixUser} {user : String}
    (h : chooseUser config.identity uid owner = .ok user) (hne : uid ≠ 0)
    (hsome : config.identity.default_user = some user) : user ≠ "root" := by
  unfold chooseUser at h
  simp only [hsome, hne, if_false, throw_eq, error_bind, ite_error_ok_iff] at h
  exact h.1

theorem target_root_iff {named owner : Option PosixUser}
    (h : TargetNames posix config inputs identity named owner) {sources : IdSources}
    (huid : identity.uid = sources.documentedUid.1) :
    (identity.uid = 0 ↔ identity.user = "root") ↔ NameFits posix config (some sources) := by
  unfold NameFits
  dsimp only
  rw [← huid, h.uid_owner]
  rcases chooseUser_ok h.user with ⟨hzero, hroot⟩ | ⟨hne, hcases⟩
  · exact iff_of_true (iff_of_true hzero hroot) fun _ hother => absurd hzero hother
  · rw [iff_false_left hne]
    rcases hcases with hsome | ⟨hnone, ⟨account, rfl, hname⟩ | ⟨rfl, huser⟩⟩
    · -- the configured name was checked against root
      refine iff_of_true ?_ fun hnone => ?_
      · exact configured_ne_root h.user hne hsome
      · rw [hsome] at hnone
        cases hnone
    · rw [← hname]
      constructor
      · intro hroot _ _ other hother
        obtain rfl := Option.some.inj (Except.ok.inj hother)
        exact hroot
      · intro hfits
        exact hfits hnone hne account rfl
    · refine iff_of_true ?_ fun _ _ other hother => by cases hother
      intro hroot
      have hhead := congrArg (fun name : String => name.toList.head?) (huser.symm.trans hroot)
      simp [String.toList_append] at hhead

theorem fallbackHome_concrete_iff (hchecked : CheckedTexts config.identity)
    {named owner : Option PosixUser} (h : TargetNames posix config inputs identity named owner)
    {sources : IdSources} (huid : identity.uid = sources.documentedUid.1) :
    ¬ HoldsInterpolation (fallbackHome identity.uid identity.user named owner) ↔
      PasswdHomeFits posix config (some sources) := by
  unfold PasswdHomeFits fallbackHome
  dsimp only
  rw [← huid, h.account, h.uid_owner]
  split_ifs with hzero
  · exact iff_of_true (not_holds_of_free (by decide)) fun hne => absurd hzero hne
  · constructor
    · intro hconcrete _ named' owner' account hnamed howner haccount
      obtain rfl := Except.ok.inj hnamed
      obtain rfl := Except.ok.inj howner
      cases named with
      | some user => cases haccount; exact hconcrete
      | none => obtain rfl : owner = some account := haccount; exact hconcrete
    · intro hfits
      rcases haccount : (named <|> owner) with _ | account
      · -- no account: the home is made of the name
        rcases named with _ | user
        · obtain rfl : owner = none := haccount
          refine not_holds_of_free (home_free ?_)
          rcases chooseUser_ok h.user with ⟨hzero', _⟩ | ⟨_, hsome | ⟨_, ⟨_, hnone, _⟩ | ⟨_, huser⟩⟩⟩
          · exact absurd hzero' hzero
          · exact userName_free (hchecked.user _ hsome)
          · cases hnone
          · rw [huser]
            exact uidName_free _
        · cases haccount
      · have hconcrete := hfits hzero named owner account rfl rfl haccount
        rcases named with _ | user
        · obtain rfl : owner = some account := haccount
          exact hconcrete
        · cases haccount
          exact hconcrete

end homes

/-- An identity is well named exactly when passwd and the default home are. The sources are those
of the precedence, and the UID is the one that they give. -/
theorem identity_wellNamed_iff {posix : PosixSystem} {config : BootstrapConfig}
    {context : RuntimeContext} {identity : ResolvedIdentity}
    (h : resolve posix config context = .ok identity) :
    ∃ inputs requested, resolveInputs config context = .ok inputs ∧
      requestedSources posix config context = .ok requested ∧
      (WellNamed identity ↔
        NameFits posix config requested ∧ HomeFits posix config inputs requested) := by
  have hchecked : CheckedTexts config.identity := by
    obtain ⟨_, hvalid, -⟩ := bind_ok_iff.mp h
    cases hresult : config.validate with
    | ok _ => exact checkedTexts_of_validate hresult
    | error error => rw [hresult] at hvalid; cases hvalid
  obtain ⟨inputs, asked, hinputs, hasked, ⟨rfl, h⟩ | ⟨hother, h⟩⟩ :=
    resolvePrevalidated_ok (resolvePrevalidated_of_resolve h)
  · refine ⟨inputs, none, hinputs, requestedSources_root hinputs hasked, ?_⟩
    simp only [resolveRoot, bind_ok_iff, pure_ok_iff] at h
    obtain ⟨home, hhome, rfl⟩ := h
    have hconcrete := home_concrete_iff hinputs hhome
    constructor
    · intro hnamed
      exact ⟨trivial, (hconcrete.mp hnamed.concrete).1, fun _ _ => trivial⟩
    · rintro ⟨-, hfits⟩
      have hholds := hconcrete.mpr ⟨hfits.configured, fun _ _ => not_holds_of_free (by decide)⟩
      exact ⟨iff_of_true rfl rfl, home_absolute hchecked hinputs hhome (by decide) hholds, hholds⟩
  · obtain ⟨sources, hsources, huid, -⟩ := resolveTarget_ids h
    obtain ⟨named, owner, hnames⟩ := resolveTarget_names h
    have huid : identity.uid = sources.documentedUid.1 := congrArg Prod.fst huid
    have hroot := target_root_iff hnames huid
    have hfallback := fallbackHome_concrete_iff hchecked hnames huid
    have hconcrete := home_concrete_iff hinputs hnames.home
    refine ⟨inputs, some sources, hinputs,
      requestedSources_target hinputs hasked hother hsources, ?_⟩
    constructor
    · intro hnamed
      obtain ⟨hconfigured, haccount⟩ := hconcrete.mp hnamed.concrete
      exact ⟨hroot.mp hnamed.root, hconfigured,
        fun hgiven hdefault => hfallback.mp (haccount hgiven hdefault)⟩
    · rintro ⟨hname, hfits⟩
      refine ⟨hroot.mpr hname, hnames.absolute, hconcrete.mpr ⟨hfits.configured, ?_⟩⟩
      intro hgiven hdefault
      exact hfallback.mpr (hfits.account hgiven hdefault)

/-! ## A second root, and a home that is not expanded -/

/-- A UID input, no default user. -/
def plainTarget : BootstrapConfig where
  workspace_root := "/w"
  identity := { uid_input := some "TARGET_UID", default_gid := some 5 }
  handoff := { runtime := "/bin/sh" }
  inputs := (∅ : Std.ExtTreeMap String BootstrapInput).insert "TARGET_UID"
    { target := "identity.uid", input_type := .UidPair, runtime := true
      namespace_ := some .Container }

/-- The passwd entry `root:x:5:5::/root:/bin/sh`. -/
def strayAccount : PosixUser where
  name := "root"
  uid := 5
  gid := 5
  home := "/root"
  shell := "/bin/sh"

def strayRootSystem : PosixSystem :=
  { bareSystem with
    lookup_user_by_name := fun name => .ok (if name = "root" then some strayAccount else none)
    lookup_user_by_uid := fun uid => .ok (if uid = 5 then some strayAccount else none) }

def strayContext : RuntimeContext where
  cwd := "/w"
  cli_inputs := (∅ : Std.ExtTreeMap String String).insert "TARGET_UID" "5"

def strayRoot : ResolvedIdentity where
  uid := 5
  gid := 5
  user := "root"
  home := "/root"
  run_as_root := false
  uid_source := .ExplicitContainer
  gid_source := .ProfileDefault
  workspace := .NotMounted

/-- A default home that begins with a reference, and a request for root. -/
def templateHome : BootstrapConfig where
  workspace_root := "/w"
  identity := { run_as_root_input := some "RUN_AS_ROOT"
                default_home := some "$\x7bcontext.cwd\x7d/home" }
  handoff := { runtime := "/bin/sh" }
  inputs := (∅ : Std.ExtTreeMap String BootstrapInput).insert "RUN_AS_ROOT"
    { target := "identity.run_as_root", input_type := .Bool, runtime := true }

def rootContext : RuntimeContext where
  cwd := "/w"
  cli_inputs := (∅ : Std.ExtTreeMap String String).insert "RUN_AS_ROOT" "true"

def homelessRoot : ResolvedIdentity where
  uid := 0
  gid := 0
  user := "root"
  home := "$\x7bcontext.cwd\x7d/home"
  run_as_root := true
  uid_source := .RunAsRoot
  gid_source := .RunAsRoot
  workspace := .NotMounted

theorem strayRoot_resolved : resolve strayRootSystem plainTarget strayContext = .ok strayRoot :=
  ok_of_toOption (by decide +kernel)

theorem homelessRoot_resolved : resolve bareSystem templateHome rootContext = .ok homelessRoot :=
  ok_of_toOption (by decide +kernel)

/-- UID 5 is called root, and the home of root is a relative text with a reference in it. -/
theorem identities_not_well_named :
    resolve strayRootSystem plainTarget strayContext = .ok strayRoot ∧
      strayRoot.uid ≠ 0 ∧ strayRoot.user = "root" ∧
      resolve bareSystem templateHome rootContext = .ok homelessRoot ∧
      isAbsolute homelessRoot.home = false ∧ HoldsInterpolation homelessRoot.home ∧
      ¬ WellNamed strayRoot ∧ ¬ WellNamed homelessRoot := by
  have hholds : HoldsInterpolation homelessRoot.home :=
    ⟨[], "context.cwd".toList, "/home".toList, by decide⟩
  have hstray : ¬ WellNamed strayRoot := fun h => absurd (h.root.mpr rfl) (by decide)
  exact ⟨strayRoot_resolved, by decide, rfl, homelessRoot_resolved, by decide, hholds, hstray,
    fun h => h.concrete hholds⟩

theorem identity_wellNamed_iff_stray :
    ∃ inputs requested, resolveInputs plainTarget strayContext = .ok inputs ∧
      requestedSources strayRootSystem plainTarget strayContext = .ok requested ∧
      (WellNamed strayRoot ↔ NameFits strayRootSystem plainTarget requested ∧
        HomeFits strayRootSystem plainTarget inputs requested) :=
  identity_wellNamed_iff strayRoot_resolved

end init_core
