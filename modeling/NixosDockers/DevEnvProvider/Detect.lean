-- The detection of files in a workspace (`detect.rs`): literal patterns that
-- all name a file, or else a walk through the workspace.
import NixosDockers.DevEnvModel.Values
import NixosDockers.DevEnvProvider.Glob
import NixosDockers.Lib.FileTrees
import NixosDockers.Lib.Results

open rust_text file_trees dev_env_model results

namespace dev_env_provider

/-! ## Patterns -/

/-- `str::validate_glob`. -/
def validateGlob (pattern location : String) : Except ModelError Unit := do
  validateNonemptyText pattern location false
  if startsWith pattern "/" || (splitChar '/' pattern).any (· = "..") then
    throw (.InvalidPath location .InvalidPath)
  if hasText pattern "$(" || [backtick, ';', '|', '&', '>', '<'].any (hasChar pattern) then
    throw (.InvalidPath location .ShellMetacharacter)

/-! ## Files -/

/-- A tree from the root on, and the directory that relative paths begin at. -/
structure FileSystem where
  root : Node
  well_formed : WellFormed root
  working_directory : List String

/-- The most links that a path may lead through. -/
def maxLinks : ℕ := 40

namespace FileSystem

/-- What a path leads to, and the pieces below it. Links are followed. -/
def leadsTo (system : FileSystem) (path : String) (below : List String) : Option Node :=
  (system.root.resolve maxLinks (if isAbsolute path then [] else system.working_directory)
    (splitChar '/' path ++ below)).bind system.root.find

/-- `workspace.join(pattern).is_file()`. -/
def isFile (system : FileSystem) (workspace pattern : String) : Bool :=
  match if isAbsolute pattern then system.leadsTo pattern []
    else system.leadsTo workspace (splitChar '/' pattern) with
  | some .File => true
  | _ => false

end FileSystem

/-- `workspace.join(pattern)`, by the components that paths are compared by. -/
def joined (workspace pattern : String) : List String :=
  if isAbsolute pattern then components pattern else components workspace ++ normalComponents pattern

inductive DetectionError where
  | ReadWorkspace (path : String)
  | LocateExecutable (executable : String)
  deriving DecidableEq, Repr

/-- Paths in order, each of them once. -/
def sortedPaths (paths : List (List String)) : List (List String) :=
  (paths.insertionSort (· ≤ ·)).dedup

/-- `walk_workspace`: the paths of the regular files, each with its names below the workspace. -/
def walkWorkspace (system : FileSystem) (workspace : String) :
    Except DetectionError (List (List String)) :=
  match system.leadsTo workspace [] with
  | some (.Directory entries) => .ok (Node.walk entries)
  | _ => .error (.ReadWorkspace workspace)

/-- `detect_files`. -/
def detectFiles (system : FileSystem) (workspace : String) (patterns : List String) :
    Except DetectionError (List (List String)) :=
  if patterns = [] then .ok []
  else if (system.leadsTo workspace []).isNone then .ok []
  else
    let candidates := (patterns.filter fun pattern =>
      !hasGlobMagic pattern && system.isFile workspace pattern).map (joined workspace)
    if candidates.length = patterns.length then .ok (sortedPaths candidates)
    else
      (walkWorkspace system workspace).map fun paths =>
        ((sortedPaths paths).filter fun relative => patterns.any fun pattern =>
          globMatches pattern (String.intercalate "/" relative) = some true).map
            (components workspace ++ ·)

@[simp] theorem mem_sortedPaths {path : List String} {paths : List (List String)} :
    path ∈ sortedPaths paths ↔ path ∈ paths := by
  unfold sortedPaths
  rw [List.mem_dedup, List.mem_insertionSort]

/-! ## What is detected -/

variable {system : FileSystem} {workspace pattern : String} {patterns : List String}
  {entries : List (String × Node)} {path relative : List String}

/-- A literal pattern that names a file, through links or not. -/
def NamesFile (system : FileSystem) (workspace pattern : String) : Prop :=
  hasGlobMagic pattern = false ∧ system.isFile workspace pattern = true

/-- A pattern matches the names of a file below the workspace. -/
def MatchesBelow (pattern : String) (relative : List String) : Prop :=
  globMatches pattern (String.intercalate "/" relative) = some true

theorem matchesBelow_iff (hne : relative ≠ []) (hnames : ∀ name ∈ relative, IsName name) :
    MatchesBelow pattern relative ↔ GlobMatches (splitChar '/' pattern) relative := by
  have hsplit : splitChar '/' (String.intercalate "/" relative) = relative :=
    splitChar_intercalate hne fun name hname => (hnames name hname).2.2.2
  obtain ⟨answer, hanswer, hiff⟩ := globComponents_answers (splitChar '/' pattern) relative
  unfold MatchesBelow globMatches
  rw [hsplit, hanswer, Option.some.injEq]
  exact hiff

/-- A literal pattern matches its own pieces only. -/
theorem matchesBelow_literal (hmagic : hasGlobMagic pattern = false) (hne : relative ≠ [])
    (hnames : ∀ name ∈ relative, IsName name) :
    MatchesBelow pattern relative ↔ relative = splitChar '/' pattern := by
  rw [matchesBelow_iff hne hnames, globMatches_literal hmagic]

theorem relative_of_valid {location : String} (h : validateGlob pattern location = .ok ()) :
    isAbsolute pattern = false := by
  unfold validateGlob at h
  obtain ⟨_, -, h⟩ := bind_ok_iff.mp h
  by_contra habsolute
  have hstart : startsWith pattern "/" = true := Bool.not_eq_false _ |>.mp habsolute
  rw [hstart, Bool.true_or] at h
  cases h

/-- The names of a file below the workspace lead to it. -/
theorem leadsTo_of_walk (hworkspace : system.leadsTo workspace [] = some (.Directory entries))
    (h : relative ∈ Node.walk entries) : system.leadsTo workspace relative = some .File := by
  unfold FileSystem.leadsTo at hworkspace ⊢
  obtain ⟨there, hthere, hnode⟩ := Option.bind_eq_some_iff.mp hworkspace
  rw [List.append_nil] at hthere
  have hwell : WellFormed (.Directory entries) := Node.wellFormed_find system.well_formed hnode
  obtain ⟨-, hfile, hnames⟩ := Node.find_of_mem_walk hwell h
  rw [Node.resolve_append hthere fun links => Node.resolve_names hnode hfile hnames,
    Option.bind_some, Node.find_append, hnode, Option.bind_some, hfile]

/-- A file that a literal pattern matches below the workspace is the one that it names. -/
theorem namesFile_of_matches (hworkspace : system.leadsTo workspace [] = some (.Directory entries))
    (hrelative : isAbsolute pattern = false) (hmagic : hasGlobMagic pattern = false)
    (hwalk : relative ∈ Node.walk entries) (h : MatchesBelow pattern relative) :
    NamesFile system workspace pattern ∧
      components workspace ++ relative = joined workspace pattern := by
  have hwell : WellFormed (.Directory entries) := by
    unfold FileSystem.leadsTo at hworkspace
    obtain ⟨there, -, hnode⟩ := Option.bind_eq_some_iff.mp hworkspace
    exact Node.wellFormed_find system.well_formed hnode
  obtain ⟨hne, -, hnames⟩ := Node.find_of_mem_walk hwell hwalk
  have hpieces := (matchesBelow_literal hmagic hne hnames).mp h
  refine ⟨⟨hmagic, ?_⟩, ?_⟩
  · unfold FileSystem.isFile
    rw [hrelative, if_neg Bool.false_ne_true, ← hpieces, leadsTo_of_walk hworkspace hwalk]
  · unfold joined normalComponents
    rw [hrelative, if_neg Bool.false_ne_true, ← hpieces, List.filter_eq_self.mpr]
    intro name hname
    obtain ⟨hempty, hdot, -⟩ := hnames name hname
    simp [hempty, hdot]

/-- What is detected: the named files when every pattern names one, else the files below the
workspace that some pattern matches. -/
theorem mem_detectFiles (patterns : List String)
    (hworkspace : system.leadsTo workspace [] = some (.Directory entries)) :
    ∃ files, detectFiles system workspace patterns = .ok files ∧ ∀ path, path ∈ files ↔
      ((∀ pattern ∈ patterns, NamesFile system workspace pattern) ∧
          ∃ pattern ∈ patterns, path = joined workspace pattern) ∨
        (¬ (∀ pattern ∈ patterns, NamesFile system workspace pattern) ∧
          ∃ relative ∈ Node.walk entries, path = components workspace ++ relative ∧
            ∃ pattern ∈ patterns, MatchesBelow pattern relative) := by
  have hnames : ∀ pattern, (!hasGlobMagic pattern && system.isFile workspace pattern) = true ↔
      NamesFile system workspace pattern := by
    intro pattern
    rw [Bool.and_eq_true, Bool.not_eq_true']
    rfl
  unfold detectFiles walkWorkspace
  rw [hworkspace]
  dsimp only [Option.isNone_some]
  by_cases hnone : patterns = []
  · subst hnone
    exact ⟨[], if_pos rfl, by simp⟩
  · rw [if_neg hnone, if_neg Bool.false_ne_true]
    by_cases hall : ∀ pattern ∈ patterns, NamesFile system workspace pattern
    · have hfilter : (patterns.filter fun pattern =>
          !hasGlobMagic pattern && system.isFile workspace pattern) = patterns :=
        List.filter_eq_self.mpr fun pattern hpattern => (hnames pattern).mpr (hall pattern hpattern)
      rw [hfilter, List.length_map, if_pos rfl]
      refine ⟨_, rfl, fun path => ?_⟩
      rw [mem_sortedPaths, List.mem_map]
      constructor
      · rintro ⟨pattern, hpattern, rfl⟩
        exact Or.inl ⟨hall, pattern, hpattern, rfl⟩
      · rintro (⟨-, pattern, hpattern, rfl⟩ | ⟨hnot, -⟩)
        · exact ⟨pattern, hpattern, rfl⟩
        · exact absurd hall hnot
    · have hlength : ((patterns.filter fun pattern =>
          !hasGlobMagic pattern && system.isFile workspace pattern).map
            (joined workspace)).length ≠ patterns.length := by
        rw [List.length_map]
        intro h
        refine hall fun pattern hpattern => (hnames pattern).mp ?_
        exact List.length_filter_eq_length_iff.mp h pattern hpattern
      rw [if_neg hlength]
      refine ⟨_, rfl, fun path => ?_⟩
      have hany : ∀ relative, (patterns.any fun pattern =>
          globMatches pattern (String.intercalate "/" relative) = some true) = true ↔
          ∃ pattern ∈ patterns, MatchesBelow pattern relative := by
        intro relative
        simp [MatchesBelow]
      simp only [List.mem_map, List.mem_filter, mem_sortedPaths, hany]
      constructor
      · rintro ⟨relative, ⟨hwalk, hmatch⟩, rfl⟩
        exact Or.inr ⟨hall, relative, hwalk, rfl, hmatch⟩
      · rintro (⟨hnot, -⟩ | ⟨-, relative, hwalk, rfl, hmatch⟩)
        · exact absurd hnot hall
        · exact ⟨relative, ⟨hwalk, hmatch⟩, rfl⟩

/-- Either every pattern names a file, or every file that one names is found by a walk, under a path
that some pattern matches. -/
def DetectsTogether (system : FileSystem) (workspace : String) (entries : List (String × Node))
    (patterns : List String) : Prop :=
  (∀ pattern ∈ patterns, NamesFile system workspace pattern) ∨
    ∀ pattern ∈ patterns, NamesFile system workspace pattern → ∃ relative ∈ Node.walk entries,
      components workspace ++ relative = joined workspace pattern ∧
        ∃ other ∈ patterns, MatchesBelow other relative

/-- What a pattern detects alone. -/
theorem mem_detectFiles_single {files : List (List String)} (path : List String)
    (hworkspace : system.leadsTo workspace [] = some (.Directory entries))
    (h : detectFiles system workspace [pattern] = .ok files) : path ∈ files ↔
      (NamesFile system workspace pattern ∧ path = joined workspace pattern) ∨
        (¬ NamesFile system workspace pattern ∧ ∃ relative ∈ Node.walk entries,
          path = components workspace ++ relative ∧ MatchesBelow pattern relative) := by
  obtain ⟨found, hfound, hmem⟩ := mem_detectFiles [pattern] hworkspace
  obtain rfl := Except.ok.inj (hfound.symm.trans h)
  rw [hmem]
  simp

/-- Exactly then the patterns of a list detect together what they detect one by one. -/
theorem patterns_are_independent_iff {location : String}
    (hworkspace : system.leadsTo workspace [] = some (.Directory entries))
    (hvalid : ∀ pattern ∈ patterns, validateGlob pattern location = .ok ()) :
    ∃ (files : List (List String)) (alone : String → List (List String)),
      detectFiles system workspace patterns = .ok files ∧
      (∀ pattern, detectFiles system workspace [pattern] = .ok (alone pattern)) ∧
      ((∀ path, path ∈ files ↔ ∃ pattern ∈ patterns, path ∈ alone pattern) ↔
        DetectsTogether system workspace entries patterns) := by
  obtain ⟨files, hfiles, hmem⟩ := mem_detectFiles patterns hworkspace
  have hsingle : ∀ pattern, ∃ found, detectFiles system workspace [pattern] = .ok found :=
    fun pattern => (mem_detectFiles [pattern] hworkspace).imp fun _ h => h.1
  choose alone halone using hsingle
  have hone := fun pattern path => mem_detectFiles_single path hworkspace (halone pattern)
  refine ⟨files, alone, hfiles, halone, ?_⟩
  by_cases hall : ∀ pattern ∈ patterns, NamesFile system workspace pattern
  · refine iff_of_true (fun path => ?_) (Or.inl hall)
    rw [hmem]
    constructor
    · rintro (⟨-, pattern, hpattern, rfl⟩ | ⟨hnot, -⟩)
      · exact ⟨pattern, hpattern, (hone _ _).mpr (Or.inl ⟨hall pattern hpattern, rfl⟩)⟩
      · exact absurd hall hnot
    · rintro ⟨pattern, hpattern, hpath⟩
      obtain ⟨-, rfl⟩ | ⟨hnot, -⟩ := (hone _ _).mp hpath
      · exact Or.inl ⟨hall, pattern, hpattern, rfl⟩
      · exact absurd (hall pattern hpattern) hnot
  · have hfound : ∀ path, path ∈ files ↔ ∃ relative ∈ Node.walk entries,
        path = components workspace ++ relative ∧ ∃ pattern ∈ patterns,
          MatchesBelow pattern relative := by
      intro path
      rw [hmem, or_iff_right fun h => hall h.1, and_iff_right hall]
    constructor
    · intro hunion
      refine Or.inr fun pattern hpattern hnames => ?_
      have hmember := (hunion _).mpr
        ⟨pattern, hpattern, (hone _ _).mpr (Or.inl ⟨hnames, rfl⟩)⟩
      obtain ⟨relative, hwalk, hpath, hmatch⟩ := (hfound _).mp hmember
      exact ⟨relative, hwalk, hpath.symm, hmatch⟩
    · rintro (htogether | htogether) path
      · exact absurd htogether hall
      · rw [hfound]
        constructor
        · rintro ⟨relative, hwalk, rfl, pattern, hpattern, hmatch⟩
          refine ⟨pattern, hpattern, (hone _ _).mpr ?_⟩
          by_cases hnames : NamesFile system workspace pattern
          · have hrelative := relative_of_valid (hvalid pattern hpattern)
            exact Or.inl ⟨hnames,
              (namesFile_of_matches hworkspace hrelative hnames.1 hwalk hmatch).2⟩
          · exact Or.inr ⟨hnames, relative, hwalk, rfl, hmatch⟩
        · rintro ⟨pattern, hpattern, hpath⟩
          obtain ⟨hnames, rfl⟩ | ⟨-, relative, hwalk, rfl, hmatch⟩ := (hone _ _).mp hpath
          · obtain ⟨relative, hwalk, hjoined, hmatch⟩ := htogether pattern hpattern hnames
            exact ⟨relative, hwalk, hjoined.symm, hmatch⟩
          · exact ⟨relative, hwalk, rfl, pattern, hpattern, hmatch⟩

/-! ### A workspace with a link -/

def linkedEntries : List (String × Node) :=
  [("link.json", .Link "target.json"), ("target.json", .File)]

theorem wellFormed_linked : WellFormed (.Directory [("ws", .Directory linkedEntries)]) := by
  have hname : ∀ name ∈ ["ws", "link.json", "target.json"], IsName name := by
    unfold IsName
    decide
  refine .Directory _ (by decide) (fun entry hentry => ?_) fun entry hentry => ?_
  · rw [List.mem_singleton.mp hentry]
    exact hname "ws" (by decide)
  · rw [List.mem_singleton.mp hentry]
    refine .Directory _ (by decide) (fun entry hentry => ?_) fun entry hentry => ?_
    · refine hname entry.1 (List.mem_cons_of_mem _ ?_)
      exact List.mem_map_of_mem hentry
    · obtain rfl | hentry := List.mem_cons.mp hentry
      · exact .Link _
      · rw [List.mem_singleton.mp hentry]
        exact .File

def linkedSystem : FileSystem where
  root := .Directory [("ws", .Directory linkedEntries)]
  well_formed := wellFormed_linked
  working_directory := []

theorem linked_workspace : linkedSystem.leadsTo "/ws" [] = some (.Directory linkedEntries) := by
  rfl

theorem file_is_detected_beside_a_missing_one :
    ∃ (files : List (List String)) (alone : String → List (List String)),
      detectFiles linkedSystem "/ws" ["target.json", "missing.json"] = .ok files ∧
      (∀ pattern, detectFiles linkedSystem "/ws" [pattern] = .ok (alone pattern)) ∧
      ∀ path, path ∈ files ↔ ∃ pattern ∈ ["target.json", "missing.json"], path ∈ alone pattern := by
  have hvalid : ∀ pattern ∈ ["target.json", "missing.json"],
      validateGlob pattern "providers.tool.detect_files" = .ok () := by decide
  obtain ⟨files, alone, hfiles, halone, hiff⟩ :=
    patterns_are_independent_iff linked_workspace hvalid
  have htarget : MatchesBelow "target.json" ["target.json"] := by
    rw [matchesBelow_literal (by decide) (List.cons_ne_nil _ _)
      (fun name hname => by rw [List.mem_singleton.mp hname]; unfold IsName; decide)]
    decide
  refine ⟨files, alone, hfiles, halone, hiff.mpr (Or.inr fun pattern hpattern hnames => ?_)⟩
  obtain rfl | hpattern := List.mem_cons.mp hpattern
  · exact ⟨["target.json"], List.mem_singleton_self _, by decide, "target.json",
      List.mem_cons_self, htarget⟩
  · rw [List.mem_singleton.mp hpattern] at hnames
    exact absurd hnames.2 (by decide)

/-- A link to a file is detected alone, and not beside a pattern that matches nothing. -/
theorem link_is_lost_beside_a_missing_file : ∃ alone together,
    detectFiles linkedSystem "/ws" ["link.json"] = .ok alone ∧
    detectFiles linkedSystem "/ws" ["missing.json"] = .ok [] ∧
    detectFiles linkedSystem "/ws" ["link.json", "missing.json"] = .ok together ∧
    ["/", "ws", "link.json"] ∈ alone ∧ ["/", "ws", "link.json"] ∉ together := by
  have hlink : NamesFile linkedSystem "/ws" "link.json" :=
    ⟨by decide, by decide⟩
  have hmissing : ¬ NamesFile linkedSystem "/ws" "missing.json" :=
    fun h => absurd h.2 (by decide)
  have hwalk : Node.walk linkedEntries = [["target.json"]] := rfl
  have hname : ∀ name ∈ ["target.json"], IsName name := by
    unfold IsName
    decide
  have hnone : ¬ MatchesBelow "missing.json" ["target.json"] := by
    rw [matchesBelow_literal (by decide) (List.cons_ne_nil _ _) hname]
    decide
  obtain ⟨alone, halone, hmem⟩ := mem_detectFiles ["link.json"] linked_workspace
  obtain ⟨nothing, hnothing, hempty⟩ := mem_detectFiles ["missing.json"] linked_workspace
  obtain ⟨together, htogether, hlost⟩ :=
    mem_detectFiles ["link.json", "missing.json"] linked_workspace
  have hnil : nothing = [] := by
    refine List.eq_nil_iff_forall_not_mem.mpr fun path hpath => ?_
    obtain ⟨hall, -⟩ | ⟨-, relative, hrelative, -, pattern, hpattern, hmatch⟩ :=
      (hempty path).mp hpath
    · exact hmissing (hall _ (List.mem_singleton_self _))
    · rw [hwalk, List.mem_singleton] at hrelative
      rw [List.mem_singleton.mp hpattern, hrelative] at hmatch
      exact hnone hmatch
  refine ⟨alone, together, halone, hnil ▸ hnothing, htogether, ?_, fun hpath => ?_⟩
  · refine (hmem _).mpr (Or.inl ⟨fun pattern hpattern => ?_, "link.json",
      List.mem_singleton_self _, by decide⟩)
    rw [List.mem_singleton.mp hpattern]
    exact hlink
  · obtain ⟨hall, -⟩ | ⟨-, relative, hrelative, hpath, -⟩ := (hlost _).mp hpath
    · exact hmissing (hall _ (by decide))
    · rw [hwalk, List.mem_singleton] at hrelative
      subst hrelative
      exact absurd hpath (by decide)

end dev_env_provider
