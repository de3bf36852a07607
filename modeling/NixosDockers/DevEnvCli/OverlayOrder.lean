-- The order of the overlays: by directory from the workspace down, the explicit one last;
-- and when a file is applied twice.
import NixosDockers.DevEnvCli.Overlays
import NixosDockers.Lib.Results

open rust_text results dev_env_loader

namespace dev_env_cli

variable {files : Files} {path directory workspace : PathBuf} {source : SourceKind} {id : String}
  {explicit_config : Option PathBuf} {overlay : Overlay} {found overlays : List Overlay}

/-! ## What is read -/

theorem fromOverlayFile_ok (h : fromOverlayFile files path source id = .ok overlay) :
    overlay.path = path ∧ overlay.parsed.source.source = source := by
  unfold fromOverlayFile at h
  cases hread : files.read path id with
  | error failure => rw [hread] at h; cases h
  | ok profile =>
    rw [hread] at h
    obtain rfl := Except.ok.inj h
    exact ⟨rfl, rfl⟩

theorem requiredSource_ok (h : requiredSource files path source id = .ok overlay) :
    files.metadata path = .File ∧ overlay.path = path ∧ overlay.parsed.source.source = source := by
  unfold requiredSource at h
  cases hmetadata : files.metadata path with
  | File => rw [hmetadata] at h; exact ⟨rfl, fromOverlayFile_ok h⟩
  | Other => rw [hmetadata] at h; cases h
  | NotFound error => rw [hmetadata] at h; cases h
  | Failed error => rw [hmetadata] at h; cases h

theorem optionalSource_ok {found : Option Overlay}
    (h : optionalSource files path source id = .ok found) :
    ∀ overlay ∈ found, overlay.parsed.source.source = source := by
  unfold optionalSource at h
  cases hmetadata : files.metadata path with
  | File =>
    rw [hmetadata] at h
    obtain ⟨overlay, hread, rfl⟩ := map_ok_iff.mp h
    intro other hother
    obtain rfl := Option.some.inj hother
    exact (fromOverlayFile_ok hread).2
  | Other => rw [hmetadata] at h; cases h
  | NotFound error =>
    rw [hmetadata] at h
    obtain rfl := Except.ok.inj h
    exact fun _ hother => by cases hother
  | Failed error => rw [hmetadata] at h; cases h

theorem isFile_ok {present : Bool} (h : isFile files path = .ok present) :
    present = decide (files.metadata path = .File) := by
  unfold isFile at h
  cases hmetadata : files.metadata path with
  | File => rw [hmetadata] at h; exact (Except.ok.inj h).symm
  | Other => rw [hmetadata] at h; exact (Except.ok.inj h).symm
  | NotFound error => rw [hmetadata] at h; exact (Except.ok.inj h).symm
  | Failed error => rw [hmetadata] at h; cases h

theorem givenSource_ok {given : Option PathBuf} (h : givenSource files id given = .ok found) :
    found.map (·.path) = given.toList ∧
      (∀ overlay ∈ found, overlay.parsed.source.source = .WorkspaceOverlay) ∧
      ∀ path ∈ given, files.metadata path = .File := by
  cases given with
  | none =>
    obtain rfl := Except.ok.inj h
    exact ⟨rfl, fun _ hother => absurd hother List.not_mem_nil, fun _ hpath => by cases hpath⟩
  | some path =>
    unfold givenSource at h
    rw [bind_ok_iff] at h
    obtain ⟨overlay, hread, h⟩ := h
    obtain rfl := Except.ok.inj h
    obtain ⟨hmetadata, hoverlay, hsource⟩ := requiredSource_ok hread
    refine ⟨congrArg (fun other => [other]) hoverlay, fun other hother => ?_, ?_⟩
    · rw [List.mem_singleton.mp hother]
      exact hsource
    · intro other hother
      rw [← Option.some.inj hother]
      exact hmetadata

/-! ## One directory -/

/-- The files of a directory that are overlays, in their order. -/
def directoryFiles (files : Files) (explicit_config : Option PathBuf) (directory : PathBuf) :
    List PathBuf :=
  (chosenConfig directory explicit_config (decide (files.metadata (conventional directory) = .File))
    (decide (files.metadata (directoryConfig directory) = .File))).toList ++
  if files.metadata (localConfig directory) = .File then [localConfig directory] else []

theorem collectDirectory_ok (h : collectDirectory files explicit_config directory = .ok found) :
    found.map (·.path) = directoryFiles files explicit_config directory ∧
      ∀ overlay ∈ found, overlay.parsed.source.source = .WorkspaceOverlay := by
  unfold collectDirectory at h
  rw [bind_ok_iff] at h
  obtain ⟨conventional_exists, hconventional, h⟩ := h
  rw [bind_ok_iff] at h
  obtain ⟨directory_config_exists, hdirectory, h⟩ := h
  rw [ite_error_ok_iff, bind_ok_iff] at h
  obtain ⟨-, config, hconfig, h⟩ := h
  rw [bind_ok_iff] at h
  obtain ⟨local_exists, hlocal, h⟩ := h
  have hchosen := givenSource_ok hconfig
  unfold directoryFiles
  rw [← isFile_ok hconventional, ← isFile_ok hdirectory, ← hchosen.1]
  rw [isFile_ok hlocal] at h
  by_cases hexists : files.metadata (localConfig directory) = .File
  · rw [if_pos hexists]
    rw [if_pos (decide_eq_true hexists), bind_ok_iff] at h
    obtain ⟨overlay, hread, h⟩ := h
    obtain rfl := Except.ok.inj h
    obtain ⟨-, hoverlay, hsource⟩ := requiredSource_ok hread
    constructor
    · rw [List.map_append, List.map_singleton, hoverlay]
    · intro other hother
      rcases List.mem_append.mp hother with hfirst | hlast
      · exact hchosen.2.1 other hfirst
      · rw [List.mem_singleton.mp hlast]
        exact hsource
  · rw [if_neg hexists, List.append_nil]
    rw [if_neg (by simpa using hexists)] at h
    obtain rfl := Except.ok.inj h
    exact ⟨rfl, hchosen.2.1⟩

theorem collectDirectories_ok {directories : List PathBuf}
    (h : collectDirectories files explicit_config directories = .ok found) :
    found.map (·.path) = directories.flatMap (directoryFiles files explicit_config) ∧
      ∀ overlay ∈ found, overlay.parsed.source.source = .WorkspaceOverlay := by
  induction directories generalizing found with
  | nil =>
    obtain rfl := Except.ok.inj h
    exact ⟨rfl, fun _ hother => absurd hother List.not_mem_nil⟩
  | cons directory directories ih =>
    unfold collectDirectories at h
    rw [bind_ok_iff] at h
    obtain ⟨first, hfirst, h⟩ := h
    rw [bind_ok_iff] at h
    obtain ⟨rest, hrest, h⟩ := h
    obtain rfl := Except.ok.inj h
    obtain ⟨hpaths, hsources⟩ := collectDirectory_ok hfirst
    obtain ⟨hrestPaths, hrestSources⟩ := ih hrest
    constructor
    · rw [List.map_append, List.flatMap_cons, hpaths, hrestPaths]
    · intro overlay hoverlay
      rcases List.mem_append.mp hoverlay with hin | hin
      · exact hsources overlay hin
      · exact hrestSources overlay hin

/-! ## The directories -/

/-- The directories from the workspace down, by what follows the workspace. -/
def levels (workspace rest : PathBuf) : List PathBuf := rest.inits.map (workspace ++ ·)

theorem ancestors_absolute {rest : List String} (h : workspace.head? = some "/") :
    ancestors (workspace ++ rest) =
      (rest.inits.tail.map (workspace ++ ·)).reverse ++ workspace.inits.tail.reverse := by
  have habsolute : (workspace ++ rest).head? = some "/" := by rw [List.head?_append, h]; rfl
  have hinits : workspace.inits ≠ [] := by cases workspace <;> simp
  unfold ancestors
  rw [if_pos habsolute, List.inits_append, List.tail_append_of_ne_nil hinits, List.reverse_append]

/-- The first ancestor of a path is the path. -/
theorem inits_tail_reverse (h : workspace.head? = some "/") :
    ∃ others, workspace.inits.tail.reverse = workspace :: others := by
  rcases List.eq_nil_or_concat' workspace with rfl | ⟨front, last, rfl⟩
  · cases h
  · have hinits : front.inits ≠ [] := by cases front <;> simp
    have hlast : ([last] : List String).inits.tail = [[last]] := rfl
    rw [List.inits_append, hlast, List.tail_append_of_ne_nil hinits, List.reverse_append]
    exact ⟨_, rfl⟩

/-- The workspace is searched, and with an upward search every directory below it to the current
one. -/
theorem searchedDirectories_upward {rest : List String} (h : workspace.head? = some "/") :
    searchedDirectories workspace (workspace ++ rest) .Upward = levels workspace rest := by
  obtain ⟨others, hothers⟩ := inits_tail_reverse h
  have hbelow : ∀ directory ∈ (rest.inits.tail.map (workspace ++ ·)).reverse,
      decide (directory ≠ workspace) = true := by
    intro directory hdirectory
    obtain ⟨below, hmem, rfl⟩ := List.mem_map.mp (List.mem_reverse.mp hdirectory)
    have hnonempty : below ≠ [] := by
      rintro rfl
      cases rest with
      | nil => cases hmem
      | cons first rest => simp at hmem
    rw [decide_eq_true_eq]
    intro heq
    exact hnonempty (List.append_right_eq_self.mp heq)
  have hstop : (workspace.inits.tail.reverse).takeWhile (fun directory => directory ≠ workspace) =
      [] := by
    rw [hothers, List.takeWhile_cons_of_neg (by simp)]
  unfold searchedDirectories levels
  rw [ancestors_absolute h]
  dsimp only
  rw [List.takeWhile_append_of_pos hbelow, hstop, List.append_nil, List.reverse_reverse]
  cases rest with
  | nil => simp
  | cons first rest => simp

/-! ## All overlays -/

variable {original_cwd : String} {options : OverlayOptions} {present : Bool}

/-- The directory that a command works in. -/
def OverlayOptions.currentDirectory (options : OverlayOptions) (original_cwd : String) : PathBuf :=
  resolvePath (options.cwd_source.map components) (components original_cwd)

/-- The workspace of a command. -/
def OverlayOptions.workspaceRoot (options : OverlayOptions) (original_cwd : String) : PathBuf :=
  resolvePath (some (components options.workspace_source)) (components original_cwd)

def OverlayOptions.explicitPath (options : OverlayOptions) : Option PathBuf :=
  options.explicit_config.map components

/-- The directories from the workspace down to the current one, or the workspace only. -/
def OverlayOptions.directories (options : OverlayOptions) (original_cwd : String) : List PathBuf :=
  match options.search with
  | .Fixed => [options.workspaceRoot original_cwd]
  | .Upward => levels (options.workspaceRoot original_cwd)
      ((options.currentDirectory original_cwd).drop (options.workspaceRoot original_cwd).length)

/-- The paths of the overlays of the workspace, in the order in which they are merged. -/
def workspacePaths (overlays : List Overlay) : List PathBuf :=
  (overlays.filter fun overlay => overlay.parsed.source.source = .WorkspaceOverlay).map (·.path)

theorem resolvePath_absolute {path : Option PathBuf} {base : PathBuf} (h : base.head? = some "/") :
    (resolvePath path base).head? = some "/" := by
  have hroot : ∀ parts : PathBuf, parts.head? = some "/" →
      (normalizePath parts).head? = some "/" := by
    intro parts hparts
    cases parts with
    | nil => cases hparts
    | cons first rest =>
      obtain rfl := Option.some.inj hparts
      obtain ⟨rest', hrest⟩ := dev_env.foldl_normalizeStep_root rest []
      have hfirst : dev_env.normalizeStep [] "/" = ["/"] := rfl
      unfold normalizePath
      rw [List.foldl_cons, hfirst, hrest]
      rfl
  unfold resolvePath
  dsimp only
  split_ifs with habsolute
  · exact hroot _ habsolute
  · refine hroot _ ?_
    rw [List.head?_append, h]
    rfl

theorem userSource_ok {given : Option PathBuf} {found : Option Overlay}
    (h : userSource files given = .ok found) :
    ∀ overlay ∈ found, overlay.parsed.source.source = .UserOverlay := by
  cases given with
  | none =>
    obtain rfl := Except.ok.inj h
    exact fun _ hother => by cases hother
  | some path => exact optionalSource_ok h

theorem workspacePaths_append (first second : List Overlay) :
    workspacePaths (first ++ second) = workspacePaths first ++ workspacePaths second := by
  unfold workspacePaths
  rw [List.filter_append, List.map_append]

theorem workspacePaths_of_all
    (h : ∀ overlay ∈ found, overlay.parsed.source.source = .WorkspaceOverlay) :
    workspacePaths found = found.map (·.path) := by
  unfold workspacePaths
  rw [List.filter_eq_self.mpr fun overlay hoverlay => decide_eq_true (h overlay hoverlay)]

theorem workspacePaths_of_other {other : Option Overlay} (hsource : source ≠ .WorkspaceOverlay)
    (h : ∀ overlay ∈ other, overlay.parsed.source.source = source) :
    workspacePaths other.toList = [] := by
  unfold workspacePaths
  rw [List.map_eq_nil_iff, List.filter_eq_nil_iff]
  intro overlay hoverlay
  rw [h overlay (Option.mem_toList.mp hoverlay)]
  simpa using hsource

theorem collectOverlays_ok (hcwd : isAbsolute original_cwd = true)
    (h : collectOverlays files original_cwd options = .ok (overlays, present)) :
    workspacePaths overlays =
        (options.directories original_cwd).flatMap (directoryFiles files options.explicitPath) ++
          options.explicitPath.toList ∧
      ∀ path ∈ options.explicitPath, files.metadata path = .File := by
  have habsolute : (options.workspaceRoot original_cwd).head? = some "/" := by
    refine resolvePath_absolute ?_
    unfold components
    rw [if_pos hcwd]
    rfl
  unfold collectOverlays at h
  dsimp only at h
  rw [ite_error_ok_iff] at h
  obtain ⟨hinside, h⟩ := h
  rw [bind_ok_iff] at h
  obtain ⟨admin, hadmin, h⟩ := h
  rw [bind_ok_iff] at h
  obtain ⟨user, huser, h⟩ := h
  rw [bind_ok_iff] at h
  obtain ⟨⟨workspace_overlays, workspace_config_present⟩, hworkspace, h⟩ := h
  rw [bind_ok_iff] at h
  obtain ⟨explicit, hexplicit, h⟩ := h
  obtain ⟨rfl, -⟩ := Prod.mk.inj (Except.ok.inj h)
  unfold collectWorkspaceOverlays at hworkspace
  rw [bind_ok_iff] at hworkspace
  obtain ⟨found, hfound, hworkspace⟩ := hworkspace
  obtain ⟨rfl, -⟩ := Prod.mk.inj (Except.ok.inj hworkspace)
  obtain ⟨hpaths, hsources⟩ := collectDirectories_ok hfound
  obtain ⟨hexplicitPaths, hexplicitSources, hexists⟩ := givenSource_ok hexplicit
  refine ⟨?_, hexists⟩
  have hadminNone := workspacePaths_of_other (by decide) (optionalSource_ok hadmin)
  have huserNone := workspacePaths_of_other (by decide) (userSource_ok huser)
  have hdirectories : searchedDirectories (options.workspaceRoot original_cwd)
        (options.currentDirectory original_cwd) options.search =
      options.directories original_cwd := by
    unfold OverlayOptions.directories
    cases options.search with
    | Fixed => rfl
    | Upward =>
      obtain ⟨rest, hrest⟩ : options.workspaceRoot original_cwd <+:
          options.currentDirectory original_cwd := by
        rw [Bool.not_eq_true', Bool.not_eq_false] at hinside
        exact List.isPrefixOf_iff_prefix.mp hinside
      rw [← hrest, searchedDirectories_upward habsolute, List.drop_left]
  rw [workspacePaths_append, workspacePaths_append, workspacePaths_append, hadminNone, huserNone,
    workspacePaths_of_all hsources, workspacePaths_of_all hexplicitSources, hpaths, hexplicitPaths]
  rw [← hdirectories]
  rfl

/-! ## What is found in a directory -/

/-- The files that a directory gives: one config and the local file after it, all of which exist,
and all that must be there. -/
structure FilesOf (files : Files) (explicit_config : Option PathBuf) (directory : PathBuf)
    (found : List PathBuf) : Prop where
  in_order : found.Sublist [conventional directory, localConfig directory] ∨
    found.Sublist [directoryConfig directory, localConfig directory]
  exist : ∀ path ∈ found, files.metadata path = .File
  local_found : files.metadata (localConfig directory) = .File → localConfig directory ∈ found
  conventional_found : files.metadata (conventional directory) = .File →
    files.metadata (directoryConfig directory) ≠ .File → conventional directory ∈ found
  directory_found : files.metadata (directoryConfig directory) = .File →
    files.metadata (conventional directory) ≠ .File → directoryConfig directory ∈ found

theorem conventional_ne_directoryConfig (directory other : PathBuf) :
    conventional directory ≠ directoryConfig other := by
  intro h
  have hlast := congrArg List.getLast? h
  unfold conventional directoryConfig at hlast
  simp at hlast

theorem localConfig_ne_conventional (directory other : PathBuf) :
    localConfig directory ≠ conventional other := by
  intro h
  have hlast := congrArg List.getLast? h
  unfold localConfig conventional at hlast
  simp at hlast

theorem localConfig_ne_directoryConfig (directory other : PathBuf) :
    localConfig directory ≠ directoryConfig other := by
  intro h
  have hlast := congrArg List.getLast? h
  unfold localConfig directoryConfig at hlast
  simp at hlast

theorem chosenConfig_eq_some {conventional_exists directory_config_exists : Bool} :
    chosenConfig directory explicit_config conventional_exists directory_config_exists = some path ↔
      (path = conventional directory ∧ conventional_exists = true ∧
        (directory_config_exists = true → explicit_config = some path)) ∨
      (path = directoryConfig directory ∧ directory_config_exists = true ∧
        (conventional_exists = true → explicit_config = some path)) := by
  have hne := conventional_ne_directoryConfig directory directory
  unfold chosenConfig
  cases conventional_exists with
  | false => cases directory_config_exists <;> simp [eq_comm]
  | true =>
    cases directory_config_exists with
    | false => simp [eq_comm]
    | true =>
      cases explicit_config with
      | none => simp
      | some explicit =>
        dsimp only
        by_cases hconventional : explicit = conventional directory
        · rw [Option.bind_some, if_pos hconventional, Option.some.injEq]
          subst hconventional
          constructor
          · rintro rfl
            exact .inl ⟨rfl, rfl, fun _ => rfl⟩
          · rintro (⟨rfl, -, -⟩ | ⟨rfl, -, hpath⟩)
            · rfl
            · exact Option.some.inj (hpath rfl)
        · by_cases hdirectory : explicit = directoryConfig directory
          · rw [Option.bind_some, if_neg hconventional, if_pos hdirectory, Option.some.injEq]
            subst hdirectory
            constructor
            · rintro rfl
              exact .inr ⟨rfl, rfl, fun _ => rfl⟩
            · rintro (⟨rfl, -, hpath⟩ | ⟨rfl, -, -⟩)
              · exact absurd (Option.some.inj (hpath rfl)).symm hne
              · rfl
          · rw [Option.bind_some, if_neg hconventional, if_neg hdirectory]
            constructor
            · intro hpath
              cases hpath
            · rintro (⟨rfl, -, hpath⟩ | ⟨rfl, -, hpath⟩)
              · exact absurd (Option.some.inj (hpath rfl)) hconventional
              · exact absurd (Option.some.inj (hpath rfl)) hdirectory

/-- Which files of a directory are applied. -/
theorem mem_directoryFiles :
    path ∈ directoryFiles files explicit_config directory ↔
      files.metadata path = .File ∧
      (path = localConfig directory ∨
        path = conventional directory ∧
          (files.metadata (directoryConfig directory) = .File → explicit_config = some path) ∨
        path = directoryConfig directory ∧
          (files.metadata (conventional directory) = .File → explicit_config = some path)) := by
  unfold directoryFiles
  rw [List.mem_append, Option.mem_toList, chosenConfig_eq_some, List.mem_ite_nil_right,
    List.mem_singleton, decide_eq_true_eq, decide_eq_true_eq]
  constructor
  · rintro ((⟨rfl, hexists, hother⟩ | ⟨rfl, hexists, hother⟩) | ⟨hexists, rfl⟩)
    · exact ⟨hexists, .inr (.inl ⟨rfl, hother⟩)⟩
    · exact ⟨hexists, .inr (.inr ⟨rfl, hother⟩)⟩
    · exact ⟨hexists, .inl rfl⟩
  · rintro ⟨hexists, rfl | ⟨rfl, hother⟩ | ⟨rfl, hother⟩⟩
    · exact .inr ⟨hexists, rfl⟩
    · exact .inl (.inl ⟨rfl, hexists, hother⟩)
    · exact .inl (.inr ⟨rfl, hexists, hother⟩)

theorem directoryFiles_sublist (files : Files) (explicit_config : Option PathBuf)
    (directory : PathBuf) :
    (directoryFiles files explicit_config directory).Sublist
        [conventional directory, localConfig directory] ∨
      (directoryFiles files explicit_config directory).Sublist
        [directoryConfig directory, localConfig directory] := by
  have hlocal : (if files.metadata (localConfig directory) = .File then [localConfig directory]
      else []).Sublist [localConfig directory] := by
    split_ifs
    · exact .refl _
    · exact List.nil_sublist _
  unfold directoryFiles
  cases hchosen : chosenConfig directory explicit_config
      (decide (files.metadata (conventional directory) = .File))
      (decide (files.metadata (directoryConfig directory) = .File)) with
  | none => exact .inl (hlocal.cons _)
  | some path =>
    rcases chosenConfig_eq_some.mp hchosen with ⟨rfl, -, -⟩ | ⟨rfl, -, -⟩
    · exact .inl (hlocal.cons_cons _)
    · exact .inr (hlocal.cons_cons _)

/-- What the search finds in a directory is what the directory gives. -/
theorem directoryFiles_filesOf (files : Files) (explicit_config : Option PathBuf)
    (directory : PathBuf) :
    FilesOf files explicit_config directory (directoryFiles files explicit_config directory) where
  in_order := directoryFiles_sublist files explicit_config directory
  exist := fun _ hpath => (mem_directoryFiles.mp hpath).1
  local_found := fun hexists => mem_directoryFiles.mpr ⟨hexists, .inl rfl⟩
  conventional_found := fun hexists hother =>
    mem_directoryFiles.mpr ⟨hexists, .inr (.inl ⟨rfl, fun hthere => absurd hthere hother⟩)⟩
  directory_found := fun hexists hother =>
    mem_directoryFiles.mpr ⟨hexists, .inr (.inr ⟨rfl, fun hthere => absurd hthere hother⟩)⟩

/-! ## What is applied twice -/

/-- The file that a path names for a command: the path from the directory in which it was started,
without dots. -/
def namedFile (original_cwd : String) (path : PathBuf) : PathBuf :=
  resolvePath (some path) (components original_cwd)

/-- The explicit path names a file that is found in some directory anyway: the local file, the only
config there is, or the one of two configs that the path spells out. -/
def NamesFound (files : Files) (original_cwd : String) (options : OverlayOptions)
    (explicit : PathBuf) : Prop :=
  ∃ directory ∈ options.directories original_cwd,
    files.metadata (namedFile original_cwd explicit) = .File ∧
    (namedFile original_cwd explicit = localConfig directory ∨
      namedFile original_cwd explicit = conventional directory ∧
        (files.metadata (directoryConfig directory) = .File →
          explicit = conventional directory) ∨
      namedFile original_cwd explicit = directoryConfig directory ∧
        (files.metadata (conventional directory) = .File → explicit = directoryConfig directory))

/-- The overlays of a workspace as they are meant to be: what each directory gives, from the
workspace down, then the explicit file, and no file twice. -/
structure AppliedOnce (files : Files) (original_cwd : String) (options : OverlayOptions)
    (overlays : List Overlay) : Prop where
  in_order : ∃ found : List (List PathBuf),
    List.Forall₂ (FilesOf files options.explicitPath) (options.directories original_cwd) found ∧
      workspacePaths overlays = found.flatten ++ options.explicitPath.toList
  once : ((workspacePaths overlays).map (namedFile original_cwd)).Nodup

/-- A path without dots. -/
def Free (path : PathBuf) : Prop := ∀ part ∈ path, part ≠ "." ∧ part ≠ ".."

theorem free_foldl {parts output : List String} (h : Free output) :
    Free (parts.foldl dev_env.normalizeStep output) := by
  induction parts generalizing output with
  | nil => exact h
  | cons part parts ih =>
    refine ih ?_
    unfold dev_env.normalizeStep
    split_ifs with hdot hparent
    · exact h
    · exact h
    · exact fun other hother => h other (List.dropLast_subset _ hother)
    · intro other hother
      rcases List.mem_append.mp hother with hold | hnew
      · exact h other hold
      · rw [List.mem_singleton.mp hnew]
        exact ⟨hdot, hparent⟩

theorem resolvePath_free (path : Option PathBuf) (base : PathBuf) : Free (resolvePath path base) :=
  free_foldl fun _ hpart => absurd hpart List.not_mem_nil

/-- An absolute path without dots names itself. -/
theorem namedFile_of_free (habsolute : path.head? = some "/") (hfree : Free path) :
    namedFile original_cwd path = path := by
  unfold namedFile resolvePath normalizePath
  dsimp only [Option.getD_some]
  rw [if_pos habsolute]
  exact dev_env.foldl_normalizeStep hfree

theorem inits_nodup (path : PathBuf) : path.inits.Nodup := by
  induction path with
  | nil => exact List.nodup_singleton []
  | cons part path ih =>
    rw [List.inits_cons, List.nodup_cons]
    refine ⟨?_, ih.map (List.cons_injective)⟩
    intro hmem
    obtain ⟨other, -, hother⟩ := List.mem_map.mp hmem
    exact List.cons_ne_nil _ _ hother

/-- The directories are different, absolute, and without dots. -/
theorem directories_spec (hcwd : isAbsolute original_cwd = true) :
    (options.directories original_cwd).Nodup ∧
      ∀ directory ∈ options.directories original_cwd,
        directory.head? = some "/" ∧ Free directory := by
  have hbase : (components original_cwd).head? = some "/" := by
    unfold components
    rw [if_pos hcwd]
    rfl
  have habsolute : (options.workspaceRoot original_cwd).head? = some "/" :=
    resolvePath_absolute hbase
  have hworkspace : Free (options.workspaceRoot original_cwd) := resolvePath_free _ _
  have hcurrent : Free (options.currentDirectory original_cwd) := resolvePath_free _ _
  unfold OverlayOptions.directories
  cases options.search with
  | Fixed =>
    refine ⟨List.nodup_singleton _, fun directory hdirectory => ?_⟩
    rw [List.mem_singleton.mp hdirectory]
    exact ⟨habsolute, hworkspace⟩
  | Upward =>
    refine ⟨(inits_nodup _).map (List.append_right_injective _), fun directory hdirectory => ?_⟩
    obtain ⟨below, hbelow, rfl⟩ := List.mem_map.mp hdirectory
    have hsub : ∀ part ∈ below, part ∈ options.currentDirectory original_cwd := fun part hpart =>
      List.mem_of_mem_drop (((List.mem_inits _ _).mp hbelow).subset hpart)
    constructor
    · rw [List.head?_append, habsolute]
      rfl
    · intro part hpart
      rcases List.mem_append.mp hpart with hroot | hrest
      · exact hworkspace part hroot
      · exact hcurrent part (hsub part hrest)

/-- The files of a directory are its own, absolute, and without dots. -/
theorem directoryFiles_spec (habsolute : directory.head? = some "/") (hfree : Free directory)
    (hpath : path ∈ directoryFiles files explicit_config directory) :
    path.head? = some "/" ∧ Free path := by
  have happended {names : List String} (hnames : Free names) :
      (directory ++ names).head? = some "/" ∧ Free (directory ++ names) := by
    constructor
    · rw [List.head?_append, habsolute]
      rfl
    · intro part hpart
      rcases List.mem_append.mp hpart with hold | hnew
      · exact hfree part hold
      · exact hnames part hnew
  rcases (mem_directoryFiles.mp hpath).2 with rfl | ⟨rfl, -⟩ | ⟨rfl, -⟩
  · exact happended (by simp [Free])
  · exact happended (by simp [Free])
  · exact happended (by simp [Free])

theorem directoryFiles_injective {other : PathBuf}
    (hpath : path ∈ directoryFiles files explicit_config directory)
    (hother : path ∈ directoryFiles files explicit_config other) : directory = other := by
  rcases (mem_directoryFiles.mp hpath).2 with rfl | ⟨rfl, -⟩ | ⟨rfl, -⟩ <;>
    rcases (mem_directoryFiles.mp hother).2 with h | ⟨h, -⟩ | ⟨h, -⟩
  · exact (List.append_inj' h rfl).1
  · exact absurd h (localConfig_ne_conventional _ _)
  · exact absurd h (localConfig_ne_directoryConfig _ _)
  · exact absurd h.symm (localConfig_ne_conventional _ _)
  · exact (List.append_inj' h rfl).1
  · exact absurd h (conventional_ne_directoryConfig _ _)
  · exact absurd h.symm (localConfig_ne_directoryConfig _ _)
  · exact absurd h.symm (conventional_ne_directoryConfig _ _)
  · exact (List.append_inj' h rfl).1

theorem directoryFiles_nodup (files : Files) (explicit_config : Option PathBuf)
    (directory : PathBuf) : (directoryFiles files explicit_config directory).Nodup := by
  rcases directoryFiles_sublist files explicit_config directory with h | h
  · refine h.nodup ?_
    simpa using (localConfig_ne_conventional directory directory).symm
  · refine h.nodup ?_
    simpa using (localConfig_ne_directoryConfig directory directory).symm

/-- The search finds no file twice. -/
theorem found_nodup (hcwd : isAbsolute original_cwd = true) :
    ((options.directories original_cwd).flatMap
      (directoryFiles files options.explicitPath)).Nodup := by
  rw [List.nodup_flatMap]
  refine ⟨fun directory _ => directoryFiles_nodup _ _ directory, ?_⟩
  refine (directories_spec hcwd).1.imp fun {directory other} hne => ?_
  intro path hpath hother
  exact hne (directoryFiles_injective hpath hother)

theorem namesFound_iff {explicit : PathBuf} (h : options.explicitPath = some explicit) :
    NamesFound files original_cwd options explicit ↔
      namedFile original_cwd explicit ∈ (options.directories original_cwd).flatMap
        (directoryFiles files options.explicitPath) := by
  rw [List.mem_flatMap, h]
  unfold NamesFound
  refine exists_congr fun directory => and_congr_right fun _ => ?_
  rw [mem_directoryFiles]
  refine and_congr_right fun _ => or_congr_right (or_congr ?_ ?_)
  · refine and_congr_right fun heq => ?_
    rw [heq, Option.some.injEq]
  · refine and_congr_right fun heq => ?_
    rw [heq, Option.some.injEq]

/-- The loader merges the overlays in the order of their list. -/
theorem applySources_chain {sources : List ParsedSource} {progress after : Progress}
    (h : applySources sources progress = .ok after) :
    after.chain = progress.chain ++ sources.map fun parsed =>
      ⟨parsed.source.id, parsed.source.source, parsed.source.location⟩ := by
  induction sources generalizing progress with
  | nil =>
    obtain rfl := Except.ok.inj h
    exact (List.append_nil _).symm
  | cons parsed sources ih =>
    unfold applySources at h
    rw [bind_ok_iff] at h
    obtain ⟨next, hnext, h⟩ := h
    unfold applySource mergeSource at hnext
    rw [ite_error_ok_iff, bind_ok_iff] at hnext
    obtain ⟨-, merged, -, hnext⟩ := hnext
    obtain rfl := Except.ok.inj hnext
    rw [ih h, List.map_cons, List.append_assoc, List.singleton_append]

/-- The overlays of a workspace are applied once and in their order exactly when the explicit path
does not name one that is found anyway; a load that succeeds has merged each of them in turn. -/
theorem overlays_are_applied_once_iff (files : Files) (original_cwd : String)
    (options : OverlayOptions) (overlays : List Overlay) (present : Bool)
    (hcwd : isAbsolute original_cwd = true)
    (h : collectOverlays files original_cwd options = .ok (overlays, present)) :
    (AppliedOnce files original_cwd options overlays ↔
      ∀ explicit, options.explicitPath = some explicit →
        ¬ NamesFound files original_cwd options explicit) ∧
    ∀ progress after : Progress,
      applySources (overlays.map Overlay.parsed) progress = .ok after →
        after.chain = progress.chain ++ overlays.map fun overlay =>
          ⟨overlay.parsed.source.id, overlay.parsed.source.source,
            overlay.parsed.source.location⟩ := by
  refine ⟨?once, fun progress after happlied => ?merged⟩
  case merged =>
    rw [applySources_chain happlied, List.map_map]
    rfl
  obtain ⟨hpaths, -⟩ := collectOverlays_ok hcwd h
  have hnodup : ((options.directories original_cwd).flatMap
      (directoryFiles files options.explicitPath)).Nodup := found_nodup hcwd
  have hfixed : ∀ path ∈ (options.directories original_cwd).flatMap
      (directoryFiles files options.explicitPath), namedFile original_cwd path = path := by
    intro path hpath
    obtain ⟨directory, hdirectory, hfile⟩ := List.mem_flatMap.mp hpath
    obtain ⟨habsolute, hfree⟩ := (directories_spec hcwd).2 directory hdirectory
    obtain ⟨hroot, hdots⟩ := directoryFiles_spec habsolute hfree hfile
    exact namedFile_of_free hroot hdots
  have hnamed : (workspacePaths overlays).map (namedFile original_cwd) =
      (options.directories original_cwd).flatMap (directoryFiles files options.explicitPath) ++
        options.explicitPath.toList.map (namedFile original_cwd) := by
    rw [hpaths, List.map_append, List.map_congr_left hfixed, List.map_id']
  have honce : ((workspacePaths overlays).map (namedFile original_cwd)).Nodup ↔
      ∀ explicit, options.explicitPath = some explicit →
        ¬ NamesFound files original_cwd options explicit := by
    rw [hnamed, List.nodup_append']
    constructor
    · intro hall explicit hexplicit hfound
      have hmem := (namesFound_iff hexplicit).mp hfound
      refine hall.2.2 hmem (List.mem_map.mpr ⟨explicit, ?_, rfl⟩)
      rw [hexplicit]
      exact List.mem_singleton_self explicit
    · intro hall
      refine ⟨hnodup, ?_, ?_⟩
      · cases options.explicitPath with
        | none => exact List.nodup_nil
        | some explicit => exact List.nodup_singleton _
      · intro path hpath hexplicit
        obtain ⟨explicit, hgiven, rfl⟩ := List.mem_map.mp hexplicit
        have heq := Option.mem_toList.mp hgiven
        exact hall explicit heq ((namesFound_iff heq).mpr hpath)
  constructor
  · exact fun happlied => honce.mp happlied.once
  · intro hall
    refine ⟨⟨(options.directories original_cwd).map (directoryFiles files options.explicitPath),
      ?_, ?_⟩, honce.mpr hall⟩
    · rw [List.forall₂_map_right_iff]
      exact List.forall₂_same.mpr fun directory _ => directoryFiles_filesOf files _ directory
    · rw [hpaths, List.flatMap_def]

/-! ## Two configs in one directory -/

theorem no_overrides (path : String) (spec : dev_env_model.OverrideSpec)
    (h : (∅ : Std.ExtTreeMap String dev_env_model.OverrideSpec)[path]? = some spec) :
    spec.validate path = .ok () := by
  simp at h

theorem no_policy (value : dev_env_model.Value) (h : documents.Entries.get "policy" ([] : dev_env_model.Table) = some value) :
    (dev_env_model.PolicyConfig.ofValue value).isSome := by
  cases h

theorem no_config (value : dev_env_model.Value) (h : documents.Entries.get "config" ([] : dev_env_model.Table) = some value) :
    ∃ table, value = .Table table ∧ ∀ key ∈ documents.Entries.keys table, key ∈ configFields := by
  cases h

theorem no_inputs (value : dev_env_model.Value) (h : documents.Entries.get "inputs" ([] : dev_env_model.Table) = some value) :
    ∃ table, value = .Table table ∧ ∀ key ∈ documents.Entries.keys table, dev_env_model.isEnvName key := by
  cases h

/-- A document with nothing but an id. -/
def emptyDocument (id : String) : RawProfile where
  id
  parents := []
  overrides := ∅
  root := []
  policy_read := no_policy
  config_known := no_config
  inputs_named := no_inputs
  overrides_checked := no_overrides

/-- Files that exist, and nothing else. All of them hold an empty document. -/
def filesAt (paths : List PathBuf) : Files where
  metadata := fun path => if path ∈ paths then .File else .NotFound "No such file or directory"
  read := fun _ id => .ok (emptyDocument id)

/-- A command that selects one config of a workspace. -/
def selectConfig (path : String) : OverlayOptions where
  workspace_source := "/workspace"
  search := .Fixed
  admin_config := "/etc/dev-env/config.toml"
  explicit_config := some path

def twoConfigs : Files :=
  filesAt [["/", "workspace", ".dev-env.toml"], ["/", "workspace", ".dev-env", "config.toml"],
    ["/", "extra.toml"]]

/-- A config that lies elsewhere is applied once, after what the workspace holds. -/
theorem extra_config_is_applied_once :
    ∃ overlays present, collectOverlays twoConfigs "/workspace" (selectConfig "/extra.toml") =
        .ok (overlays, present) ∧
      AppliedOnce twoConfigs "/workspace" (selectConfig "/extra.toml") overlays := by
  obtain ⟨⟨overlays, present⟩, h⟩ := exists_of_isOk (by decide :
    (collectOverlays twoConfigs "/workspace" (selectConfig "/extra.toml")).isOk = true)
  refine ⟨overlays, present, h, (overlays_are_applied_once_iff _ _ _ _ _ (by decide) h).1.mpr ?_⟩
  rintro explicit hexplicit ⟨directory, hdirectory, -, hnames⟩
  have hpath : (selectConfig "/extra.toml").explicitPath = some ["/", "extra.toml"] := by
    decide
  have hroot : (selectConfig "/extra.toml").directories "/workspace" = [["/", "workspace"]] := by
    decide
  have hnamed : namedFile "/workspace" ["/", "extra.toml"] = ["/", "extra.toml"] := by
    decide
  obtain rfl := Option.some.inj (hpath.symm.trans hexplicit)
  rw [hroot] at hdirectory
  obtain rfl := List.mem_singleton.mp hdirectory
  rw [hnamed] at hnames
  exact absurd hnames (by decide)

/-- The config that is selected of two is applied in its directory and again at the end. -/
theorem selected_config_is_applied_twice :
    ¬ ∀ (files : Files) (original_cwd : String) (options : OverlayOptions) (overlays : List Overlay)
        (present : Bool), isAbsolute original_cwd = true →
      collectOverlays files original_cwd options = .ok (overlays, present) →
        AppliedOnce files original_cwd options overlays := by
  intro hall
  obtain ⟨⟨overlays, present⟩, h⟩ := exists_of_isOk (by decide : (collectOverlays twoConfigs
    "/workspace" (selectConfig "/workspace/.dev-env/config.toml")).isOk = true)
  have honce := (hall _ _ _ _ _ (by decide) h).once
  obtain ⟨hpaths, -⟩ := collectOverlays_ok (by decide) h
  have htwice : ((selectConfig "/workspace/.dev-env/config.toml").directories "/workspace").flatMap
        (directoryFiles twoConfigs (selectConfig "/workspace/.dev-env/config.toml").explicitPath) ++
      (selectConfig "/workspace/.dev-env/config.toml").explicitPath.toList =
        [["/", "workspace", ".dev-env", "config.toml"],
          ["/", "workspace", ".dev-env", "config.toml"]] := by
    decide
  rw [hpaths, htwice, List.map_cons, List.map_singleton, List.nodup_cons] at honce
  exact honce.1 List.mem_cons_self

end dev_env_cli
