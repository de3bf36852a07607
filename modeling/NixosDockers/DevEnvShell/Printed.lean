-- Printed environments (`dev-env-shell`: `environment.rs`): the three formats, and
-- what reading them back gives.
import NixosDockers.DevEnvProvider.Delta
import NixosDockers.Lib.Results
import NixosDockers.Lib.TreeMaps
import NixosDockers.Lib.Trimming

open rust_text dev_env_model dev_env_provider results

namespace dev_env_shell

/-! ## Formats -/

structure RenderOptions where
  show_secrets : Bool
  deriving DecidableEq, Repr

def RenderOptions.showSecrets : RenderOptions := ⟨true⟩

inductive EnvironmentFormat where
  | Shell
  | Dotenv
  | Json
  deriving DecidableEq, Repr

/-- The format that a provider's output is read in. -/
def EnvironmentFormat.parsed : EnvironmentFormat → ShellEnvFormat
  | .Shell => .Shell
  | .Dotenv => .Dotenv
  | .Json => .Json

/-- `rendered_value`. -/
def renderedValue (value : EnvValue) (options : RenderOptions) : String :=
  if options.show_secrets || value.sensitivity = .Public then value.value else "<redacted>"

/-- The text between the quotes of `quote_posix`: each quote is closed, escaped and opened again. -/
def escapeQuotes (value : List Char) : List Char :=
  [singleQuote, '\\', singleQuote, singleQuote].intercalate (value.splitOn singleQuote)

/-- `quote_posix`. -/
def quotePosix (value : List Char) : List Char :=
  singleQuote :: escapeQuotes value ++ [singleQuote]

/-- The assignment of one variable. -/
def assignment (start : String) (options : RenderOptions) (entry : String × EnvValue) : List Char :=
  start.toList ++ entry.1.toList ++ '=' :: quotePosix (renderedValue entry.2 options).toList

/-- `format_shell_validated` and `format_dotenv_validated`: an assignment a line. -/
def formatAssignments (start : String) (environment : MaterializedEnv) (options : RenderOptions) :
    String :=
  String.ofList (environment.values.toList.flatMap fun entry =>
    assignment start options entry ++ ['\n'])

def formatShellValidated (environment : MaterializedEnv) (options : RenderOptions) : String :=
  formatAssignments "export " environment options

def formatDotenvValidated (environment : MaterializedEnv) (options : RenderOptions) : String :=
  formatAssignments "" environment options

/-- `format_json_validated`. -/
def formatJsonValidated (codec : JsonCodec) (environment : MaterializedEnv) (options : RenderOptions) :
    String :=
  codec.toString (environment.values.map fun _ value => renderedValue value options)

/-- `EnvironmentRenderer::format_environment`. -/
def formatEnvironment (codec : JsonCodec) (format : EnvironmentFormat) (environment : MaterializedEnv)
    (options : RenderOptions) : Except ModelError String :=
  match environment.validate with
  | .error source => .error source
  | .ok () => .ok <|
    match format with
    | .Shell => formatShellValidated environment options
    | .Dotenv => formatDotenvValidated environment options
    | .Json => formatJsonValidated codec environment options

/-! ## Quoted texts -/

/-- What `quote_posix` writes for one character. -/
def escapeQuote (c : Char) : List Char :=
  if c = singleQuote then [singleQuote, '\\', singleQuote, singleQuote] else [c]

theorem escapeQuotes_eq_flatMap (value : List Char) :
    escapeQuotes value = value.flatMap escapeQuote := by
  induction value with
  | nil => rfl
  | cons c value ih =>
    rw [List.flatMap_cons, ← ih]
    unfold escapeQuotes escapeQuote
    rw [List.splitOn_cons_eq_if_modifyHead]
    obtain ⟨part, parts, hparts⟩ := List.exists_cons_of_ne_nil (List.splitOn_ne_nil singleQuote value)
    rw [hparts]
    by_cases hc : c = singleQuote
    · rw [if_pos (beq_iff_eq.mpr hc), if_pos hc, List.intercalate_cons_cons]
      rfl
    · rw [if_neg (by simpa using hc), if_neg hc, List.modifyHead_cons]
      cases parts with
      | nil => rfl
      | cons => rfl

@[simp] theorem escapeQuotes_nil : escapeQuotes [] = [] := rfl

theorem escapeQuotes_quote (value : List Char) : escapeQuotes (singleQuote :: value) =
    singleQuote :: '\\' :: singleQuote :: singleQuote :: escapeQuotes value := by
  rw [escapeQuotes_eq_flatMap, escapeQuotes_eq_flatMap]
  rfl

theorem escapeQuotes_other {c : Char} (hc : c ≠ singleQuote) (value : List Char) :
    escapeQuotes (c :: value) = c :: escapeQuotes value := by
  rw [escapeQuotes_eq_flatMap, escapeQuotes_eq_flatMap, List.flatMap_cons, escapeQuote, if_neg hc]
  rfl

theorem escapeQuotes_append (value rest : List Char) :
    escapeQuotes (value ++ rest) = escapeQuotes value ++ escapeQuotes rest := by
  simp only [escapeQuotes_eq_flatMap, List.flatMap_append]

/-- Quoting brings in no character but quotes and backslashes. -/
theorem mem_escapeQuotes_iff {c : Char} (hquote : c ≠ singleQuote) (hslash : c ≠ '\\')
    {value : List Char} : c ∈ escapeQuotes value ↔ c ∈ value := by
  induction value with
  | nil => rfl
  | cons d value ih =>
    by_cases hd : d = singleQuote
    · rw [hd, escapeQuotes_quote]
      simp [ih, hquote, hslash]
    · rw [escapeQuotes_other hd]
      simp [ih]

theorem escapeQuotes_white {value : List Char} (h : AllWhite value) : escapeQuotes value = value := by
  induction value with
  | nil => rfl
  | cons c value ih =>
    rw [AllWhite, List.forall_mem_cons] at h
    have hc : c ≠ singleQuote := by
      rintro rfl
      exact absurd h.1 (by decide)
    rw [escapeQuotes_other hc, ih h.2]

theorem escapeQuotes_last (value : List Char) : (escapeQuotes value).getLast? = value.getLast? := by
  induction value using List.reverseRecOn with
  | nil => rfl
  | append_singleton value c _ =>
    rw [escapeQuotes_append, List.getLast?_concat]
    by_cases hc : c = singleQuote
    · rw [hc, escapeQuotes_quote]
      simp
    · rw [escapeQuotes_other hc]
      simp

/-- Cut before a character that quoting does not bring in, a quoted text is an escaped one. -/
theorem exists_of_escapeQuotes_eq {c : Char} (hquote : c ≠ singleQuote) (hslash : c ≠ '\\')
    {value before after : List Char}
    (h : escapeQuotes value ++ [singleQuote] = before ++ c :: after) :
    ∃ kept, before = escapeQuotes kept := by
  induction value generalizing before with
  | nil =>
    cases before with
    | nil => exact absurd (List.cons.inj h).1.symm hquote
    | cons d before => exact absurd (List.cons.inj h).2.symm (by simp)
  | cons d value ih =>
    by_cases hd : d = singleQuote
    · rw [hd, escapeQuotes_quote] at h
      rcases before with _ | ⟨a₁, _ | ⟨a₂, _ | ⟨a₃, _ | ⟨a₄, before⟩⟩⟩⟩
      · exact ⟨[], rfl⟩
      · exact absurd (List.cons.inj (List.cons.inj h).2).1.symm hslash
      · exact absurd (List.cons.inj (List.cons.inj (List.cons.inj h).2).2).1.symm hquote
      · exact absurd (List.cons.inj (List.cons.inj (List.cons.inj (List.cons.inj h).2).2).2).1.symm
          hquote
      · simp only [List.cons_append, List.cons.injEq] at h
        obtain ⟨rfl, rfl, rfl, rfl, h⟩ := h
        obtain ⟨kept, rfl⟩ := ih h
        exact ⟨singleQuote :: kept, (escapeQuotes_quote kept).symm⟩
    · rw [escapeQuotes_other hd] at h
      cases before with
      | nil => exact ⟨[], rfl⟩
      | cons a before =>
        simp only [List.cons_append, List.cons.injEq] at h
        obtain ⟨rfl, h⟩ := h
        obtain ⟨kept, rfl⟩ := ih h
        exact ⟨d :: kept, (escapeQuotes_other hd kept).symm⟩

/-- An open quote stays open over an escaped text. -/
theorem updateQuoteState_escaped (value rest : List Char) :
    ShellEnvEntry.updateQuoteState (some singleQuote) (escapeQuotes value ++ rest) =
      ShellEnvEntry.updateQuoteState (some singleQuote) rest := by
  induction value with
  | nil => rw [escapeQuotes_nil, List.nil_append]
  | cons c value ih =>
    by_cases hc : c = singleQuote
    · simp only [hc, escapeQuotes_quote, List.cons_append]
      rw [ShellEnvEntry.updateQuoteState_single, if_pos rfl,
        ShellEnvEntry.updateQuoteState_escaped_quote, ShellEnvEntry.updateQuoteState_open, ih]
    · rw [escapeQuotes_other hc, List.cons_append, ShellEnvEntry.updateQuoteState_single, if_neg hc,
        ih]

/-- Within the quote, an escaped text is read as the text. -/
theorem parseValue_escaped (value rest : List Char) :
    ShellEnvEntry.parseValue (some singleQuote) (escapeQuotes value ++ rest) =
      (ShellEnvEntry.parseValue (some singleQuote) rest).map (value ++ ·) := by
  induction value with
  | nil =>
    rw [escapeQuotes_nil, List.nil_append]
    cases ShellEnvEntry.parseValue (some singleQuote) rest <;> rfl
  | cons c value ih =>
    by_cases hc : c = singleQuote
    · simp only [hc, escapeQuotes_quote, List.cons_append]
      -- the quote is closed, the escaped quote is read, and the quote is opened again
      rw [ShellEnvEntry.parseValue_single, if_pos rfl, ShellEnvEntry.parseValue_escaped_quote,
        ShellEnvEntry.parseValue_open, ih]
      cases ShellEnvEntry.parseValue (some singleQuote) rest <;> rfl
    · rw [escapeQuotes_other hc, List.cons_append, ShellEnvEntry.parseValue_single, if_neg hc, ih]
      cases ShellEnvEntry.parseValue (some singleQuote) rest <;> rfl

theorem parseValue_quotePosix (value : List Char) :
    ShellEnvEntry.parseValue none (quotePosix value) = .ok value := by
  unfold quotePosix
  rw [List.cons_append, ShellEnvEntry.parseValue_open, parseValue_escaped,
    ShellEnvEntry.parseValue_single, if_pos rfl, ShellEnvEntry.parseValue.eq_def]
  simp [Except.map]

/-- Without its last quote, a quoted text is refused. -/
theorem parseValue_unfinished (value : List Char) :
    ShellEnvEntry.parseValue none (singleQuote :: escapeQuotes value) = .error .UnterminatedQuote := by
  have hrest := parseValue_escaped value []
  rw [List.append_nil] at hrest
  rw [ShellEnvEntry.parseValue_open, hrest, ShellEnvEntry.parseValue.eq_def]
  rfl

/-! ## Assignments -/

theorem posix_not_white {c : Char} (h : (c.isAlphanum || c = '_') = true) : isWhitespace c = false := by
  have hrange : 48 ≤ c.toNat ∧ c.toNat ≤ 122 := by
    simp only [Char.isAlphanum, Char.isAlpha, Char.isUpper, Char.isLower, Char.isDigit,
      Bool.or_eq_true, decide_eq_true_eq, Bool.and_eq_true, ge_iff_le, UInt32.le_iff_toNat_le,
      Char.toNat_val] at h
    rcases h with ((h | h) | h) | rfl
    · exact ⟨le_trans (by decide) h.1, le_trans h.2 (by decide)⟩
    · exact ⟨le_trans (by decide) h.1, le_trans h.2 (by decide)⟩
    · exact ⟨le_trans (by decide) h.1, le_trans h.2 (by decide)⟩
    · decide
  unfold isWhitespace
  simp only [Bool.or_eq_false_iff, Bool.and_eq_false_iff, decide_eq_false_iff_not, beq_eq_false_iff_ne]
  omega

/-- An assignment begins with a letter or an underscore, and ends as its value does. -/
theorem trimmed_assignment {start raw : List Char} {name : String}
    (hstart : start = "export ".toList ∨ start = []) (hname : isPosixEnvName name = true)
    (hraw : ∀ c, raw.getLast? = some c → isWhitespace c = false) :
    Trimmed (start ++ name.toList ++ '=' :: raw) := by
  constructor
  · intro c hc
    obtain ⟨d, rest, hrest⟩ := List.exists_cons_of_ne_nil (posix_ne_nil hname)
    rcases hstart with rfl | rfl
    · obtain rfl : 'e' = c := Option.some.inj hc
      rfl
    · rw [hrest] at hc
      obtain rfl : d = c := Option.some.inj hc
      exact posix_not_white (posix_chars hname d (by rw [hrest]; exact List.mem_cons_self))
  · intro c hc
    rw [List.getLast?_append, List.getLast?_cons] at hc
    cases hlast : raw.getLast? with
    | none =>
      rw [hlast] at hc
      obtain rfl : '=' = c := Option.some.inj hc
      rfl
    | some d =>
      rw [hlast] at hc
      obtain rfl : d = c := Option.some.inj hc
      exact hraw d hlast

theorem mem_assignment_iff {start raw : List Char} {name : String} {c : Char}
    (hstart : start = "export ".toList ∨ start = []) (hname : isPosixEnvName name = true)
    (hexport : c ∉ "export ".toList) (hc : (c.isAlphanum || c = '_') = false) (hequals : c ≠ '=') :
    c ∈ start ++ name.toList ++ '=' :: raw ↔ c ∈ raw := by
  have hstart' : c ∉ start := by
    rcases hstart with rfl | rfl
    · exact hexport
    · exact List.not_mem_nil
  have hname' : c ∉ name.toList := by
    intro h
    rw [posix_chars hname c h] at hc
    cases hc
  simp [hstart', hname', hequals]

theorem mem_quotePosix_iff {c : Char} (hquote : c ≠ singleQuote) (hslash : c ≠ '\\')
    {value : List Char} : c ∈ quotePosix value ↔ c ∈ value := by
  unfold quotePosix
  simp [hquote, mem_escapeQuotes_iff hquote hslash]

theorem parseLine_assignment {start value : List Char} {name : String}
    (hstart : start = "export ".toList ∨ start = []) (hname : isPosixEnvName name = true)
    (hnul : nul ∉ value) (hreturn : '\r' ∉ value) :
    ShellEnvEntry.parseLine (start ++ name.toList ++ '=' :: quotePosix value) =
      .ok (some (.Set name (String.ofList value))) := by
  have hends : Trimmed (start ++ name.toList ++ '=' :: quotePosix value) := by
    refine trimmed_assignment hstart hname ?_
    intro c hc
    rw [quotePosix, List.getLast?_concat] at hc
    obtain rfl := Option.some.inj hc
    rfl
  rw [ShellEnvEntry.parseLine_of_trim ?_ ?_ hname hstart hends.trim, parseValue_quotePosix]
  · rfl
  · rw [mem_assignment_iff hstart hname (by decide) (by decide) (by decide),
      mem_quotePosix_iff (by decide) (by decide)]
    exact hnul
  · rw [mem_assignment_iff hstart hname (by decide) (by decide) (by decide),
      mem_quotePosix_iff (by decide) (by decide)]
    exact hreturn

/-- The first line of a value with a newline is refused. -/
theorem parseLine_unfinished {start : List Char} {name : String}
    (hstart : start = "export ".toList ∨ start = []) (hname : isPosixEnvName name = true)
    (value : List Char) : ∃ error, ShellEnvEntry.parseLine
      (start ++ name.toList ++ '=' :: singleQuote :: escapeQuotes value) = .error error := by
  set line := start ++ name.toList ++ '=' :: singleQuote :: escapeQuotes value with hline
  have hnil : line ≠ [] := by simp [hline]
  by_cases hnul : nul ∈ line
  · exact ⟨.Nul, by rw [ShellEnvEntry.parseLine, if_neg hnil, if_pos hnul]⟩
  by_cases hreturn : '\r' ∈ line
  · exact ⟨.Newline, by rw [ShellEnvEntry.parseLine, if_neg hnil, if_neg hnul, if_pos hreturn]⟩
  -- what white space the line ends in is the end of the value
  have hvalue : value.rdropWhile isWhitespace ++ value.rtakeWhile isWhitespace = value :=
    List.rdropWhile_append_rtakeWhile
  have hafter : AllWhite (value.rtakeWhile isWhitespace) := fun c => List.mem_rtakeWhile_imp
  have hends : Trimmed (start ++ name.toList ++
      '=' :: singleQuote :: escapeQuotes (value.rdropWhile isWhitespace)) := by
    refine trimmed_assignment hstart hname ?_
    intro c hc
    rw [List.getLast?_cons, escapeQuotes_last] at hc
    cases hlast : (value.rdropWhile isWhitespace).getLast? with
    | none =>
      rw [hlast] at hc
      obtain rfl : singleQuote = c := Option.some.inj hc
      rfl
    | some d =>
      rw [hlast] at hc
      obtain rfl : d = c := Option.some.inj hc
      exact rdropWhile_white_last hlast
  have htrim : trim line = start ++ name.toList ++
      '=' :: singleQuote :: escapeQuotes (value.rdropWhile isWhitespace) := by
    have hsurrounded := trim_surrounded hends AllWhite.nil hafter
    rw [← hsurrounded, hline]
    conv_lhs => rw [← hvalue]
    rw [escapeQuotes_append, escapeQuotes_white hafter]
    simp
  refine ⟨.UnterminatedQuote, ?_⟩
  rw [ShellEnvEntry.parseLine_of_trim hnul hreturn hname hstart htrim, parseValue_unfinished]
  rfl

/-! ## Lines -/

/-- A printed assignment, and the output after it, as the shell's reader takes them. -/
theorem parseLines_assignment {start value rest : List Char} {name : String}
    (hstart : start = "export ".toList ∨ start = []) (hname : isPosixEnvName name = true) :
    ShellEnvEntry.parseLines
        ((start ++ name.toList ++ '=' :: quotePosix value ++ '\n' :: rest).splitOn '\n') [] none =
      match ShellEnvEntry.parseLine (start ++ name.toList ++ '=' :: quotePosix value) with
      | .error error => .error error
      | .ok entry =>
        (ShellEnvEntry.parseLines (rest.splitOn '\n') [] none).map (entry.toList ++ ·) := by
  have hstate : ∀ text : List Char, ShellEnvEntry.updateQuoteState none
      (start ++ name.toList ++ '=' :: singleQuote :: text) =
      ShellEnvEntry.updateQuoteState (some singleQuote) text := by
    intro text
    have hplain : ∀ c ∈ start ++ name.toList ++ ['='],
        ShellEnvEntry.isQuote c = false ∧ c ≠ '\\' := by
      intro c hc
      constructor
      · by_contra hquote
        rw [Bool.not_eq_false, ShellEnvEntry.isQuote, Bool.or_eq_true, decide_eq_true_eq,
          decide_eq_true_eq] at hquote
        rcases hquote with rfl | rfl
        · rw [mem_assignment_iff hstart hname (by decide) (by decide) (by decide)] at hc
          cases hc
        · rw [mem_assignment_iff hstart hname (by decide) (by decide) (by decide)] at hc
          cases hc
      · rintro rfl
        rw [mem_assignment_iff hstart hname (by decide) (by decide) (by decide)] at hc
        cases hc
    have h := ShellEnvEntry.updateQuoteState_plain hplain (singleQuote :: text)
    rw [ShellEnvEntry.updateQuoteState_open] at h
    rw [← h]
    simp
  refine ShellEnvEntry.parseLines_statement (fun _ => rfl) ?_ ?_
  · intro before after htext
    have hcut : start ++ name.toList ++ ['='] ++ quotePosix value = before ++ '\n' :: after := by
      rw [← htext]
      simp
    rcases List.append_eq_append_iff.mp hcut with ⟨more, rfl, hquoted⟩ | ⟨more, hplain, hquoted⟩
    · cases more with
      | nil => exact absurd (List.cons.inj hquoted).1 (by decide)
      | cons c more =>
        obtain ⟨rfl, hescaped⟩ := List.cons.inj hquoted
        obtain ⟨kept, rfl⟩ := exists_of_escapeQuotes_eq (by decide) (by decide) hescaped
        have hopen := updateQuoteState_escaped kept []
        rw [List.append_nil] at hopen
        rw [List.append_assoc, List.singleton_append, hstate, hopen]
        rfl
    · -- no newline before the quote
      cases more with
      | nil => exact absurd (List.cons.inj hquoted).1 (by decide)
      | cons c more =>
        obtain rfl := (List.cons.inj hquoted).1
        have hmem : '\n' ∈ start ++ name.toList ++ ['='] := by
          rw [hplain]
          simp
        rw [mem_assignment_iff hstart hname (by decide) (by decide) (by decide)] at hmem
        cases hmem
  · rw [quotePosix, List.cons_append, hstate, updateQuoteState_escaped]
    rfl

/-- The shell's reader refuses a carriage return. -/
theorem parseLine_return {line : List Char} (h : '\r' ∈ line) :
    ∃ error, ShellEnvEntry.parseLine line = .error error := by
  have hline : line ≠ [] := List.ne_nil_of_mem h
  by_cases hnul : nul ∈ line
  · exact ⟨.Nul, by rw [ShellEnvEntry.parseLine, if_neg hline, if_pos hnul]⟩
  · exact ⟨.Newline, by rw [ShellEnvEntry.parseLine, if_neg hline, if_neg hnul, if_pos h]⟩

theorem isBlankLine_assignment {name : String} (hname : isPosixEnvName name = true)
    (raw : List Char) : isBlankLine (name.toList ++ '=' :: raw) = false := by
  obtain ⟨c, rest, hrest⟩ := List.exists_cons_of_ne_nil (posix_ne_nil hname)
  have hc := posix_chars hname c (by rw [hrest]; exact List.mem_cons_self)
  have hhead : (trim (name.toList ++ '=' :: raw)).head? = some c := by
    rw [hrest, List.cons_append]
    exact head_trim (posix_not_white hc) _
  have hcomment : c ≠ '#' := by
    rintro rfl
    exact absurd hc (by decide)
  unfold isBlankLine
  simp only [hhead, Option.some.injEq, hcomment, decide_false, Bool.or_false]
  cases htrim : trim (name.toList ++ '=' :: raw) with
  | nil =>
    rw [htrim] at hhead
    cases hhead
  | cons => rfl

/-- The lines of an output are its first line and those of the rest. -/
theorem linesOf_cons {line rest : List Char} (h : '\n' ∉ line) :
    linesOf ((line ++ '\n' :: rest).splitOn '\n') = stripReturn line :: linesOf (rest.splitOn '\n') := by
  rw [List.splitOn_append_cons_self_of_not_mem h]
  obtain ⟨next, more, hmore⟩ := List.exists_cons_of_ne_nil (List.splitOn_ne_nil '\n' rest)
  rw [hmore, linesOf]

/-- Without a carriage return at the end, an unfinished line stays one. -/
theorem exists_stripReturn (start value : List Char) :
    ∃ kept, stripReturn (start ++ '=' :: singleQuote :: escapeQuotes value) =
      start ++ '=' :: singleQuote :: escapeQuotes kept := by
  induction value using List.reverseRecOn with
  | nil => exact ⟨[], by simp [stripReturn, singleQuote]⟩
  | append_singleton value c _ =>
    by_cases hc : c = '\r'
    · refine ⟨value, ?_⟩
      have hescaped : escapeQuotes (value ++ [c]) = escapeQuotes value ++ ['\r'] := by
        rw [hc, escapeQuotes_append, escapeQuotes_other (by decide), escapeQuotes_nil]
      have hend : start ++ '=' :: singleQuote :: escapeQuotes (value ++ [c]) =
          (start ++ '=' :: singleQuote :: escapeQuotes value) ++ ['\r'] := by
        rw [hescaped]
        simp
      rw [hend, stripReturn, List.getLast?_concat, if_pos rfl, List.dropLast_concat]
    · refine ⟨value ++ [c], ?_⟩
      rw [stripReturn, if_neg]
      intro hlast
      have hvalue := escapeQuotes_last (value ++ [c])
      rw [List.getLast?_concat] at hvalue
      rw [List.getLast?_append, List.getLast?_cons, List.getLast?_cons, hvalue] at hlast
      exact hc (Option.some.inj hlast)

/-! ## Environments -/

/-- An entry that `validate` accepts. -/
structure ValidEntry (entry : String × EnvValue) : Prop where
  name : isPosixEnvName entry.1 = true
  value : nul ∉ entry.2.value.toList

theorem validate_ok_iff {environment : MaterializedEnv} :
    environment.validate = .ok () ↔ ∀ entry ∈ environment.values.toList, ValidEntry entry := by
  unfold MaterializedEnv.validate
  rw [forM_ok_iff]
  refine forall₂_congr ?_
  rintro ⟨name, value⟩ _
  unfold EnvValue.validate
  dsimp only
  constructor
  · intro h
    split_ifs at h with hname hvalue
    exact ⟨by simpa using hname, by simpa [hasChar] using hvalue⟩
  · rintro ⟨hname, hvalue⟩
    rw [if_neg (by simp [hname]), if_neg (by simpa [hasChar] using hvalue)]

/-- What an output is read back as. -/
def readEntries (entries : List (String × EnvValue)) : List ShellEnvEntry :=
  entries.map fun entry => .Set entry.1 entry.2.value

/-- The lines that `format_shell_validated` and `format_dotenv_validated` write. -/
def printedLines (start : String) (entries : List (String × EnvValue)) : List Char :=
  entries.flatMap fun entry => assignment start .showSecrets entry ++ ['\n']

theorem printedLines_cons (start : String) (entry : String × EnvValue)
    (entries : List (String × EnvValue)) : printedLines start (entry :: entries) =
      start.toList ++ entry.1.toList ++ '=' :: quotePosix entry.2.value.toList ++
        '\n' :: printedLines start entries := by
  simp [printedLines, assignment, renderedValue, RenderOptions.showSecrets]

theorem parse_shell_lines {entries : List (String × EnvValue)}
    (hvalid : ∀ entry ∈ entries, ValidEntry entry)
    (hreturn : ∀ entry ∈ entries, '\r' ∉ entry.2.value.toList) :
    ShellEnvEntry.parseLines ((printedLines "export " entries).splitOn '\n') [] none =
      .ok (readEntries entries) := by
  induction entries with
  | nil => rfl
  | cons entry entries ih =>
    rw [List.forall_mem_cons] at hvalid hreturn
    rw [printedLines_cons, parseLines_assignment (Or.inl rfl) hvalid.1.name,
      parseLine_assignment (Or.inl rfl) hvalid.1.name hvalid.1.value hreturn.1,
      ih hvalid.2 hreturn.2, String.ofList_toList]
    rfl

theorem parse_shell_return {entries : List (String × EnvValue)}
    (hvalid : ∀ entry ∈ entries, ValidEntry entry)
    {entry : String × EnvValue} (hentry : entry ∈ entries) (hreturn : '\r' ∈ entry.2.value.toList) :
    ∃ error, ShellEnvEntry.parseLines ((printedLines "export " entries).splitOn '\n') [] none =
      .error error := by
  induction entries with
  | nil => cases hentry
  | cons first entries ih =>
    rw [List.forall_mem_cons] at hvalid
    rw [printedLines_cons, parseLines_assignment (Or.inl rfl) hvalid.1.name]
    cases hline : ShellEnvEntry.parseLine
        ("export ".toList ++ first.1.toList ++ '=' :: quotePosix first.2.value.toList) with
    | error error => exact ⟨error, rfl⟩
    | ok read =>
      rcases List.mem_cons.mp hentry with rfl | hentry
      · -- the statement has the carriage return of its value
        have hmem : '\r' ∈ "export ".toList ++ entry.1.toList ++
            '=' :: quotePosix entry.2.value.toList := by
          rw [mem_assignment_iff (Or.inl rfl) hvalid.1.name (by decide) (by decide) (by decide),
            mem_quotePosix_iff (by decide) (by decide)]
          exact hreturn
        obtain ⟨error, herror⟩ := parseLine_return hmem
        rw [hline] at herror
        cases herror
      · obtain ⟨error, herror⟩ := ih hvalid.2 hentry
        exact ⟨error, by rw [herror]; rfl⟩

/-- A value without a newline is printed on one line. -/
theorem linesOf_assignment {name : String} {value rest : List Char}
    (hname : isPosixEnvName name = true) (hnewline : '\n' ∉ value) :
    linesOf (([] ++ name.toList ++ '=' :: quotePosix value ++ '\n' :: rest).splitOn '\n') =
      ([] ++ name.toList ++ '=' :: quotePosix value) :: linesOf (rest.splitOn '\n') := by
  have hline : '\n' ∉ [] ++ name.toList ++ '=' :: quotePosix value := by
    rw [mem_assignment_iff (Or.inr rfl) hname (by decide) (by decide) (by decide),
      mem_quotePosix_iff (by decide) (by decide)]
    exact hnewline
  rw [linesOf_cons hline, stripReturn, if_neg]
  rw [quotePosix, ← List.cons_append, ← List.append_assoc, List.getLast?_concat]
  decide

theorem parseDotenvLine_error {line : List Char} {error : ShellEnvParseError}
    (h : ShellEnvEntry.parseLine line = .error error) (index : ℕ) :
    parseDotenvLine index line = .error (.Shell index error) := by
  rw [parseDotenvLine, h]

theorem parse_dotenv_lines {entries : List (String × EnvValue)}
    (hvalid : ∀ entry ∈ entries, ValidEntry entry)
    (hlines : ∀ entry ∈ entries, '\n' ∉ entry.2.value.toList ∧ '\r' ∉ entry.2.value.toList)
    (index : ℕ) :
    parseDotenvLines ((linesOf ((printedLines "" entries).splitOn '\n')).zipIdx index) =
      .ok (readEntries entries) := by
  induction entries generalizing index with
  | nil => rfl
  | cons entry entries ih =>
    rw [List.forall_mem_cons] at hvalid hlines
    have hblank : isBlankLine ([] ++ entry.1.toList ++ '=' :: quotePosix entry.2.value.toList) = false :=
      isBlankLine_assignment hvalid.1.name _
    have hread : parseDotenvLine (index + 1)
        ([] ++ entry.1.toList ++ '=' :: quotePosix entry.2.value.toList) =
        .ok (.Set entry.1 entry.2.value) := by
      rw [parseDotenvLine, parseLine_assignment (Or.inr rfl) hvalid.1.name hvalid.1.value hlines.1.2,
        String.ofList_toList]
    rw [printedLines_cons, show "".toList = [] from rfl,
      linesOf_assignment hvalid.1.name hlines.1.1, List.zipIdx_cons, parseDotenvLines, hblank, hread,
      ih hvalid.2 hlines.2]
    rfl

/-- A value that is not on one line is refused. -/
theorem parse_dotenv_unread {entries : List (String × EnvValue)}
    (hvalid : ∀ entry ∈ entries, ValidEntry entry) {entry : String × EnvValue}
    (hentry : entry ∈ entries)
    (hlines : '\n' ∈ entry.2.value.toList ∨ '\r' ∈ entry.2.value.toList) (index : ℕ) :
    ∃ error, parseDotenvLines ((linesOf ((printedLines "" entries).splitOn '\n')).zipIdx index) =
      .error error := by
  induction entries generalizing index with
  | nil => cases hentry
  | cons first entries ih =>
    rw [List.forall_mem_cons] at hvalid
    rw [printedLines_cons, show "".toList = [] from rfl]
    by_cases hnewline : '\n' ∈ first.2.value.toList
    · -- the first line of the value ends before its quote does
      obtain ⟨before, after, hvalue, hfree⟩ := List.eq_append_cons_of_mem hnewline
      have hline : '\n' ∉ [] ++ first.1.toList ++ '=' :: singleQuote :: escapeQuotes before := by
        rw [mem_assignment_iff (Or.inr rfl) hvalid.1.name (by decide) (by decide) (by decide)]
        rw [List.mem_cons, mem_escapeQuotes_iff (by decide) (by decide), not_or]
        exact ⟨by decide, hfree⟩
      have hcut : [] ++ first.1.toList ++ '=' :: quotePosix first.2.value.toList ++
          '\n' :: printedLines "" entries =
          ([] ++ first.1.toList ++ '=' :: singleQuote :: escapeQuotes before) ++
            '\n' :: (escapeQuotes after ++ [singleQuote] ++ '\n' :: printedLines "" entries) := by
        rw [hvalue, quotePosix, escapeQuotes_append, escapeQuotes_other (by decide)]
        simp
      obtain ⟨kept, hkept⟩ := exists_stripReturn ([] ++ first.1.toList) before
      obtain ⟨error, herror⟩ := parseLine_unfinished (Or.inr rfl) hvalid.1.name kept
      have hblank : isBlankLine ([] ++ first.1.toList ++ '=' :: singleQuote :: escapeQuotes kept) = false :=
        isBlankLine_assignment hvalid.1.name _
      rw [hcut, linesOf_cons hline, hkept, List.zipIdx_cons, parseDotenvLines, hblank,
        parseDotenvLine_error herror]
      exact ⟨_, rfl⟩
    · have hblank : isBlankLine ([] ++ first.1.toList ++ '=' :: quotePosix first.2.value.toList) = false :=
        isBlankLine_assignment hvalid.1.name _
      rw [linesOf_assignment hvalid.1.name hnewline, List.zipIdx_cons, parseDotenvLines, hblank]
      rcases List.mem_cons.mp hentry with rfl | hentry
      · have hmem : '\r' ∈ [] ++ entry.1.toList ++ '=' :: quotePosix entry.2.value.toList := by
          rw [mem_assignment_iff (Or.inr rfl) hvalid.1.name (by decide) (by decide) (by decide),
            mem_quotePosix_iff (by decide) (by decide)]
          exact hlines.resolve_left hnewline
        obtain ⟨error, herror⟩ := parseLine_return hmem
        rw [parseDotenvLine_error herror]
        exact ⟨_, rfl⟩
      · obtain ⟨error, herror⟩ := ih hvalid.2 hentry (index + 1)
        rw [herror]
        cases parseDotenvLine (index + 1)
            ([] ++ first.1.toList ++ '=' :: quotePosix first.2.value.toList) with
        | error other => exact ⟨other, rfl⟩
        | ok read => exact ⟨error, rfl⟩

theorem parse_json_entries {entries : List (String × EnvValue)}
    (hnames : ∀ entry ∈ entries, isEnvName entry.1 = true) :
    (entries.map fun entry => (entry.1, JsonValue.String entry.2.value)).mapM
        (fun (name, value) => parseJsonEntry name value) = .ok (readEntries entries) := by
  rw [mapM_ok_iff]
  induction entries with
  | nil => exact .nil
  | cons entry entries ih =>
    rw [List.forall_mem_cons] at hnames
    refine .cons ?_ (ih hnames.2)
    simp [parseJsonEntry, hnames.1]

theorem parse_json_unread {entries : List (String × EnvValue)} {entry : String × EnvValue}
    (hentry : entry ∈ entries) (hname : isEnvName entry.1 = false) :
    ∃ error, (entries.map fun entry => (entry.1, JsonValue.String entry.2.value)).mapM
        (fun (name, value) => parseJsonEntry name value) = .error error := by
  induction entries with
  | nil => cases hentry
  | cons first entries ih =>
    rw [List.map_cons, List.mapM_cons]
    dsimp only
    cases hfirst : parseJsonEntry first.1 (.String first.2.value) with
    | error error => exact ⟨error, rfl⟩
    | ok read =>
      rcases List.mem_cons.mp hentry with rfl | hentry
      · simp [parseJsonEntry, hname] at hfirst
      · obtain ⟨error, herror⟩ := ih hentry
        rw [herror]
        exact ⟨error, rfl⟩

/-! ## Deltas -/

/-- Entries that only set are read as the map of them. -/
theorem fromEntries_readEntries (entries : List (String × EnvValue)) :
    EnvironmentDelta.fromEntries (readEntries entries) =
      ⟨tree_maps.insertAll ∅ (entries.map fun entry => (entry.1, entry.2.value)), ∅⟩ := by
  have hset : ∀ start : Std.ExtTreeMap String String,
      (readEntries entries).foldl EnvironmentDelta.applyEntry ⟨start, ∅⟩ =
        ⟨tree_maps.insertAll start (entries.map fun entry => (entry.1, entry.2.value)), ∅⟩ := by
    induction entries with
    | nil => exact fun _ => rfl
    | cons entry entries ih =>
      intro start
      have hnone : (∅ : Std.ExtTreeSet String).erase entry.1 = ∅ := by simp
      simp only [readEntries, List.map_cons, List.foldl_cons, EnvironmentDelta.applyEntry, hnone]
      exact ih (start.insert entry.1 entry.2.value)
  exact hset ∅

/-- A map that is filled with the entries of another. -/
theorem insertAll_toList (values : Std.ExtTreeMap String EnvValue) :
    tree_maps.insertAll ∅ (values.toList.map fun entry => (entry.1, entry.2.value)) =
      values.map fun _ value => value.value := by
  refine Std.ExtTreeMap.ext_getElem? fun name => ?_
  have h := tree_maps.getElem?_insertAll_map values (f := id) (g := EnvValue.value)
    Function.injective_id ∅ name
  rw [Std.ExtTreeMap.getElem?_map]
  simpa using h

theorem applyTo_readEntries (values : Std.ExtTreeMap String EnvValue) :
    (EnvironmentDelta.fromEntries (readEntries values.toList)).applyTo ∅ =
      values.map fun _ value => value.value := by
  have hunset : (∅ : Std.ExtTreeSet String).toList = [] := rfl
  rw [fromEntries_readEntries, insertAll_toList, EnvironmentDelta.applyTo, hunset]
  refine Std.ExtTreeMap.ext_getElem? fun name => ?_
  have h := tree_maps.getElem?_insertAll_map (values.map fun _ value => value.value)
    (f := id) (g := id) Function.injective_id ∅ name
  simpa [tree_maps.insertAll, Function.comp_def] using h

/-! ## Reading back -/

/-- What a format's reader takes of a printed entry: no carriage return, for dotenv no newline
either, and for JSON a name in upper case. -/
def EnvironmentFormat.Reads : EnvironmentFormat → String × EnvValue → Prop
  | .Shell, entry => '\r' ∉ entry.2.value.toList
  | .Dotenv, entry => '\n' ∉ entry.2.value.toList ∧ '\r' ∉ entry.2.value.toList
  | .Json, entry => isEnvName entry.1 = true

/-- The values of an environment, as they are printed with secrets shown. -/
def shownValues (environment : MaterializedEnv) : Std.ExtTreeMap String String :=
  environment.values.map fun _ value => value.value

/-- The output of `format_environment` with secrets shown. -/
def printedOutput (codec : JsonCodec) (format : EnvironmentFormat) (environment : MaterializedEnv) :
    String :=
  match format with
  | .Shell => String.ofList (printedLines "export " environment.values.toList)
  | .Dotenv => String.ofList (printedLines "" environment.values.toList)
  | .Json => codec.toString (shownValues environment)

theorem formatEnvironment_eq {environment : MaterializedEnv} (hvalid : environment.validate = .ok ())
    (codec : JsonCodec) (format : EnvironmentFormat) :
    formatEnvironment codec format environment .showSecrets =
      .ok (printedOutput codec format environment) := by
  unfold formatEnvironment
  rw [hvalid]
  cases format with
  | Shell => rfl
  | Dotenv => rfl
  | Json =>
    simp [printedOutput, formatJsonValidated, shownValues, renderedValue, RenderOptions.showSecrets]

theorem parseJson_printed {codec : JsonCodec} {environment : MaterializedEnv}
    (hcodec : codec.ReadsBack (shownValues environment)) :
    parseJson codec (codec.toString (shownValues environment)) =
      (environment.values.toList.map fun entry =>
        (entry.1, JsonValue.String entry.2.value)).mapM fun (name, value) =>
          parseJsonEntry name value := by
  rw [JsonCodec.ReadsBack] at hcodec
  rw [parseJson, hcodec, shownValues, Std.ExtTreeMap.toList_map, List.map_map]
  rfl

/-- Entries that a format's reader takes are read as they were printed. -/
theorem parseOutput_of_reads {codec : JsonCodec} {environment : MaterializedEnv}
    (hcodec : codec.ReadsBack (shownValues environment)) (hvalid : environment.validate = .ok ())
    {format : EnvironmentFormat} (hreads : ∀ entry ∈ environment.values.toList, format.Reads entry) :
    EnvironmentDelta.parseOutput codec format.parsed (printedOutput codec format environment) =
      .ok (readEntries environment.values.toList) := by
  rw [validate_ok_iff] at hvalid
  cases format with
  | Shell =>
    have h := parse_shell_lines hvalid hreads
    simp only [printedOutput, EnvironmentFormat.parsed, EnvironmentDelta.parseOutput,
      ShellEnvEntry.parse, String.toList_ofList, h]
    rfl
  | Dotenv =>
    have h := parse_dotenv_lines hvalid hreads 0
    simp only [printedOutput, EnvironmentFormat.parsed, EnvironmentDelta.parseOutput, parseDotenv,
      String.toList_ofList, h]
    rfl
  | Json =>
    have h := parse_json_entries hreads
    simp only [printedOutput, EnvironmentFormat.parsed, EnvironmentDelta.parseOutput,
      parseJson_printed hcodec, h]
    rfl

/-- An entry that a format's reader does not take makes it refuse the output. -/
theorem parseOutput_of_not_reads {codec : JsonCodec} {environment : MaterializedEnv}
    (hcodec : codec.ReadsBack (shownValues environment)) (hvalid : environment.validate = .ok ())
    (format : EnvironmentFormat) {entry : String × EnvValue}
    (hentry : entry ∈ environment.values.toList) (hreads : ¬ format.Reads entry) :
    ∃ error, EnvironmentDelta.parseOutput codec format.parsed
      (printedOutput codec format environment) = .error error := by
  rw [validate_ok_iff] at hvalid
  cases format with
  | Shell =>
    obtain ⟨error, herror⟩ := parse_shell_return hvalid hentry (not_not.mp hreads)
    simp only [printedOutput, EnvironmentFormat.parsed, EnvironmentDelta.parseOutput,
      ShellEnvEntry.parse, String.toList_ofList, herror]
    exact ⟨_, rfl⟩
  | Dotenv =>
    have hlines : '\n' ∈ entry.2.value.toList ∨ '\r' ∈ entry.2.value.toList := by
      by_contra h
      rw [not_or] at h
      exact hreads h
    obtain ⟨error, herror⟩ := parse_dotenv_unread hvalid hentry hlines 0
    simp only [printedOutput, EnvironmentFormat.parsed, EnvironmentDelta.parseOutput, parseDotenv,
      String.toList_ofList, herror]
    exact ⟨_, rfl⟩
  | Json =>
    obtain ⟨error, herror⟩ := parse_json_unread hentry (Bool.not_eq_true _ ▸ hreads)
    simp only [printedOutput, EnvironmentFormat.parsed, EnvironmentDelta.parseOutput,
      parseJson_printed hcodec, herror]
    exact ⟨_, rfl⟩

/-- A printed environment is read back just when its format takes every entry, and then as one
assignment for each variable, which make the environment again. -/
theorem printed_environment_reads_back_iff (codec : JsonCodec) (format : EnvironmentFormat)
    (environment : MaterializedEnv) (hcodec : codec.ReadsBack (shownValues environment))
    (hvalid : environment.validate = .ok ()) :
    ∃ output, formatEnvironment codec format environment .showSecrets = .ok output ∧
      ((EnvironmentDelta.parseOutput codec format.parsed output).isOk = true ↔
        ∀ entry ∈ environment.values.toList, format.Reads entry) ∧
      ∀ entries, EnvironmentDelta.parseOutput codec format.parsed output = .ok entries →
        entries = readEntries environment.values.toList ∧
          (EnvironmentDelta.fromEntries entries).applyTo ∅ = shownValues environment := by
  refine ⟨_, formatEnvironment_eq hvalid codec format, ?_⟩
  by_cases hreads : ∀ entry ∈ environment.values.toList, format.Reads entry
  · have hread := parseOutput_of_reads hcodec hvalid hreads
    rw [hread]
    refine ⟨iff_of_true rfl hreads, ?_⟩
    rintro entries hentries
    obtain rfl := Except.ok.inj hentries
    exact ⟨rfl, applyTo_readEntries environment.values⟩
  · obtain ⟨entry, hentry, hunread⟩ : ∃ entry ∈ environment.values.toList, ¬ format.Reads entry := by
      by_contra h
      push Not at h
      exact hreads h
    obtain ⟨error, herror⟩ := parseOutput_of_not_reads hcodec hvalid _ hentry hunread
    rw [herror]
    refine ⟨iff_of_false Bool.false_ne_true hreads, ?_⟩
    intro entries hentries
    cases hentries

/-- An environment of one public variable. -/
def oneVariable (name value : String) : MaterializedEnv :=
  ⟨(∅ : Std.ExtTreeMap String EnvValue).insert name ⟨value, none, .Public, none⟩⟩

/-- JSON as it is written and read for the variable `A` with the value `it's`. -/
def quoteCodec : JsonCodec where
  toString _ := "\x7b\"A\":\"it's\"\x7d"
  fromStr _ := some (.Object [("A", .String "it's")])

theorem quoted_value_reads_back :
    ∃ output, formatEnvironment quoteCodec .Shell (oneVariable "A" "it's") .showSecrets = .ok output ∧
      ((EnvironmentDelta.parseOutput quoteCodec EnvironmentFormat.Shell.parsed output).isOk = true ↔
        ∀ entry ∈ (oneVariable "A" "it's").values.toList, EnvironmentFormat.Shell.Reads entry) ∧
      ∀ entries, EnvironmentDelta.parseOutput quoteCodec EnvironmentFormat.Shell.parsed output =
          .ok entries →
        entries = readEntries (oneVariable "A" "it's").values.toList ∧
          (EnvironmentDelta.fromEntries entries).applyTo ∅ = shownValues (oneVariable "A" "it's") :=
  printed_environment_reads_back_iff quoteCodec .Shell (oneVariable "A" "it's") rfl rfl

/-- A carriage return is printed, and then refused. -/
theorem carriage_return_is_not_read_back :
    ¬ ∀ (codec : JsonCodec) (format : EnvironmentFormat) (environment : MaterializedEnv),
      codec.ReadsBack (shownValues environment) → environment.validate = .ok () →
      ∃ output, formatEnvironment codec format environment .showSecrets = .ok output ∧
        EnvironmentDelta.parseOutput codec format.parsed output =
          .ok (readEntries environment.values.toList) := by
  intro h
  have hcodec : (JsonCodec.mk (fun _ => "") fun _ => some (.Object [("A", .String "\r")])).ReadsBack
      (shownValues (oneVariable "A" "\r")) := rfl
  have hvalid : (oneVariable "A" "\r").validate = .ok () := rfl
  have hentry : ("A", EnvValue.mk "\r" none .Public none) ∈ (oneVariable "A" "\r").values.toList :=
    List.mem_singleton.mpr rfl
  obtain ⟨output, houtput, hread⟩ := h _ .Shell _ hcodec hvalid
  obtain rfl := Except.ok.inj ((formatEnvironment_eq hvalid _ .Shell).symm.trans houtput)
  obtain ⟨error, herror⟩ := parseOutput_of_not_reads hcodec hvalid .Shell hentry
    (fun hfree => hfree (List.mem_singleton.mpr rfl))
  rw [hread] at herror
  cases herror

end dev_env_shell
