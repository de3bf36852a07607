-- The output of a provider's shell environment (`shell.rs`): assignments and
-- unsets, one a line unless a quote goes on over the end of it.
import NixosDockers.DevEnvModel.Policy
import NixosDockers.Lib.Trimming

open rust_text

namespace dev_env_model

/-- `str::is_posix_env_name`. -/
def isPosixEnvName (name : String) : Bool :=
  match name.toList with
  | [] => false
  | c :: rest => (c.isAlpha || c = '_') && rest.all fun c => c.isAlphanum || c = '_'

theorem posix_ne_nil {name : String} (h : isPosixEnvName name = true) : name.toList ≠ [] := by
  intro hnil
  unfold isPosixEnvName at h
  rw [hnil] at h
  cases h

theorem posix_chars {name : String} (h : isPosixEnvName name = true) :
    ∀ c ∈ name.toList, c.isAlphanum || c = '_' := by
  intro c hc
  unfold isPosixEnvName at h
  cases hname : name.toList with
  | nil =>
    rw [hname] at hc
    cases hc
  | cons d rest =>
    rw [hname] at h hc
    simp only [Bool.and_eq_true, List.all_eq_true] at h
    rcases List.mem_cons.mp hc with rfl | hrest
    · have hd := h.1
      simp only [Char.isAlphanum, Bool.or_eq_true] at hd ⊢
      exact hd.imp (fun h => Or.inl h) id
    · exact h.2 c hrest

inductive ShellEnvParseError where
  | EmptyAssignment
  | InvalidName (name : String)
  | InvalidStatement
  | Nul
  | Newline
  | ShellSyntax
  | UnterminatedQuote
  | InvalidEscape
  deriving DecidableEq, Repr

inductive ShellEnvEntry where
  | Set (name value : String)
  | Unset (name : String)
  deriving DecidableEq, Repr

namespace ShellEnvEntry

def isQuote (c : Char) : Bool := c = singleQuote || c = doubleQuote

/-- What a character stands for after a backslash in double quotes. -/
def unescape : Char → Char
  | 'n' => '\n'
  | 'r' => '\r'
  | 't' => '\t'
  | other => other

/-- `parse_value`, with the quote that is open. -/
def parseValue : Option Char → List Char → Except ShellEnvParseError (List Char)
  | quote, [] => if quote.isSome then .error .UnterminatedQuote else .ok []
  | some q, c :: s =>
    if q = singleQuote then
      if c = singleQuote then parseValue none s else (parseValue (some q) s).map (c :: ·)
    else if c = doubleQuote then parseValue none s
    else if c = '\\' then
      match s with
      | [] => .error .InvalidEscape
      | escaped :: s =>
        if escaped ∈ ['\\', doubleQuote, '$', backtick, 'n', 'r', 't'] then
          (parseValue (some q) s).map (unescape escaped :: ·)
        else .error .InvalidEscape
    else if c = '$' && s.head? = some '(' then .error .ShellSyntax
    else (parseValue (some q) s).map (c :: ·)
  | none, c :: s =>
    if isQuote c then parseValue (some c) s
    else if c = '\\' then
      match s with
      | [] => .error .InvalidEscape
      | escaped :: s =>
        if escaped = '\n' then .error .InvalidEscape else (parseValue none s).map (escaped :: ·)
    else if c = '$' && s.head? = some '(' then .error .ShellSyntax
    else if c = ';' && s.isEmpty then .ok []
    else if c ∈ [backtick, ';', '|', '&', '>', '<'] || isWhitespace c then .error .ShellSyntax
    else (parseValue none s).map (c :: ·)

theorem parseValue_single (c : Char) (s : List Char) : parseValue (some singleQuote) (c :: s) =
    if c = singleQuote then parseValue none s else (parseValue (some singleQuote) s).map (c :: ·) := by
  rw [parseValue.eq_def]
  simp only [if_pos]

theorem parseValue_open (s : List Char) :
    parseValue none (singleQuote :: s) = parseValue (some singleQuote) s := by
  rw [parseValue.eq_def]
  simp only [isQuote, singleQuote, decide_true, Bool.true_or, if_true]

theorem parseValue_escaped_quote (s : List Char) :
    parseValue none ('\\' :: singleQuote :: s) = (parseValue none s).map (singleQuote :: ·) := by
  rw [parseValue.eq_def]
  simp [isQuote, singleQuote, doubleQuote]

/-- `str::strip_prefix` of a text as characters. -/
def stripChars (start s : List Char) : Option (List Char) :=
  if start.isPrefixOf s then some (s.drop start.length) else none

theorem stripChars_none {start s : List Char} (h : ¬ start <+: s) : stripChars start s = none := by
  rw [← List.isPrefixOf_iff_prefix] at h
  exact if_neg h

theorem stripChars_append (start s : List Char) : stripChars start (start ++ s) = some s := by
  unfold stripChars
  rw [if_pos (List.isPrefixOf_iff_prefix.mpr (List.prefix_append start s)), List.drop_left]

/-- An assignment, after an `export` before it was taken away. -/
def parseAssignment (assignment : List Char) : Except ShellEnvParseError ShellEnvEntry :=
  match splitOnce ['='] assignment with
  | none => .error .InvalidStatement
  | some (name, raw_value) =>
    if name = [] then .error .EmptyAssignment
    else if !isPosixEnvName (String.ofList name) then .error (.InvalidName (String.ofList name))
    else
      (parseValue none raw_value).map fun value =>
        .Set (String.ofList name) (String.ofList value)

/-- An `unset` of one name, with or without a semicolon after it. -/
def parseUnset (rest : List Char) : Except ShellEnvParseError ShellEnvEntry :=
  let name := if rest.getLast? = some ';' then rest.dropLast else rest
  if name = [] || name.any isWhitespace || !isPosixEnvName (String.ofList name) then
    .error (.InvalidName (String.ofList name))
  else .ok (.Unset (String.ofList name))

/-- `ShellEnvEntry::parse_line`. -/
def parseLine (line : List Char) : Except ShellEnvParseError (Option ShellEnvEntry) :=
  if line = [] then .ok none
  else if nul ∈ line then .error .Nul
  else if '\r' ∈ line then .error .Newline
  else
    let statement := trim line
    if statement = [] then .ok none
    else if statement = "hash -r".toList then .ok none
    else
      match stripChars "unset ".toList statement with
      | some rest => (parseUnset rest).map some
      | none =>
        (parseAssignment ((stripChars "export ".toList statement).getD statement)).map some

/-- `update_quote_state`: the quote that is open after a text. -/
def updateQuoteState : Option Char → List Char → Option Char
  | quote, [] => quote
  | some q, c :: s =>
    if q = singleQuote then updateQuoteState (if c = singleQuote then none else some q) s
    else if c = '\\' then
      match s with
      | [] => some q
      | _ :: s => updateQuoteState (some q) s
    else updateQuoteState (if c = doubleQuote then none else some q) s
  | none, c :: s =>
    if isQuote c then updateQuoteState (some c) s
    else if c = '\\' then
      match s with
      | [] => none
      | _ :: s => updateQuoteState none s
    else updateQuoteState none s

theorem updateQuoteState_single (c : Char) (s : List Char) :
    updateQuoteState (some singleQuote) (c :: s) =
      updateQuoteState (if c = singleQuote then none else some singleQuote) s := by
  rw [updateQuoteState.eq_def]
  simp only [if_pos]

theorem updateQuoteState_open (s : List Char) :
    updateQuoteState none (singleQuote :: s) = updateQuoteState (some singleQuote) s := by
  rw [updateQuoteState.eq_def]
  simp only [isQuote, singleQuote, decide_true, Bool.true_or, if_true]

theorem updateQuoteState_escaped_quote (s : List Char) :
    updateQuoteState none ('\\' :: singleQuote :: s) = updateQuoteState none s := by
  rw [updateQuoteState.eq_def]
  simp [isQuote, singleQuote, doubleQuote]

/-- Before a quote or a backslash, no quote is opened. -/
theorem updateQuoteState_plain {plain : List Char}
    (h : ∀ c ∈ plain, isQuote c = false ∧ c ≠ '\\') (s : List Char) :
    updateQuoteState none (plain ++ s) = updateQuoteState none s := by
  induction plain with
  | nil => rfl
  | cons c plain ih =>
    rw [List.forall_mem_cons] at h
    rw [List.cons_append, updateQuoteState.eq_def]
    simp only [h.1.1, h.1.2, Bool.false_eq_true, if_false]
    exact ih h.2

/-- A character that is no quote and no backslash leaves the state as it is. -/
theorem updateQuoteState_neutral {d : Char} (hquote : isQuote d = false) (hslash : d ≠ '\\')
    (quote : Option Char) (s rest : List Char) :
    updateQuoteState quote (s ++ d :: rest) = updateQuoteState (updateQuoteState quote s) rest := by
  obtain ⟨hsingle, hdouble⟩ : d ≠ singleQuote ∧ d ≠ doubleQuote := by
    simpa [isQuote] using hquote
  fun_induction updateQuoteState quote s with
  | case1 quote =>
    rw [List.nil_append, updateQuoteState.eq_def]
    cases quote <;> simp [hquote, hslash, hsingle, hdouble]
  | case2 c s ih => rw [List.cons_append, updateQuoteState_single, ih]
  | case3 q hq =>
    rw [List.singleton_append, updateQuoteState.eq_def]
    simp only [hq, if_true, if_false]
  | case4 q hq c s ih =>
    rw [List.cons_append, List.cons_append, updateQuoteState.eq_def]
    simp only [hq, if_true, if_false, ih]
  | case5 q c s hq hc ih =>
    rw [List.cons_append, updateQuoteState.eq_def]
    simp only [hq, hc, if_false, ih]
  | case6 c s hc ih =>
    rw [List.cons_append, updateQuoteState.eq_def]
    simp only [hc, if_true, ih]
  | case7 hslash =>
    rw [List.singleton_append, updateQuoteState.eq_def]
    simp only [hslash, Bool.false_eq_true, if_true, if_false]
  | case8 c s hslash ih =>
    rw [List.cons_append, List.cons_append, updateQuoteState.eq_def]
    simp only [hslash, Bool.false_eq_true, if_true, if_false, ih]
  | case9 c s hc hslash ih =>
    rw [List.cons_append, updateQuoteState.eq_def]
    simp only [hc, hslash, Bool.false_eq_true, if_false, ih]

/-- A newline is no quote: the state goes over the end of a line. -/
theorem updateQuoteState_newline (quote : Option Char) (line rest : List Char) :
    updateQuoteState quote (line ++ '\n' :: rest) =
      updateQuoteState (updateQuoteState quote line) rest :=
  updateQuoteState_neutral rfl (by decide) quote line rest

/-- A line is added to the statement that it goes on with. -/
def addLine (statement line : List Char) : List Char :=
  if statement = [] then line else statement ++ '\n' :: line

/-- The loop of `ShellEnvEntry::parse` over the lines. -/
def parseLines : List (List Char) → List Char → Option Char →
    Except ShellEnvParseError (List ShellEnvEntry)
  | [], statement, _ =>
    if statement = [] then .ok []
    else (parseLine statement).map Option.toList
  | line :: rest, statement, quote =>
    let statement := addLine statement line
    let quote := updateQuoteState quote line
    if quote.isSome then parseLines rest statement quote
    else
      match parseLine statement with
      | .error error => .error error
      | .ok entry => (parseLines rest [] none).map (entry.toList ++ ·)

/-- `ShellEnvEntry::parse`. -/
def parse (output : String) : Except ShellEnvParseError (List ShellEnvEntry) :=
  parseLines (output.toList.splitOn '\n') [] none

/-! ## Statements -/

/-- What is read of a line that is an assignment, with white space around it. -/
theorem parseLine_of_trim {line start raw : List Char} {name : String} (hnul : nul ∉ line)
    (hreturn : '\r' ∉ line) (hname : isPosixEnvName name = true)
    (hstart : start = "export ".toList ∨ start = [])
    (htrim : trim line = start ++ name.toList ++ '=' :: raw) :
    parseLine line =
      (parseValue none raw).map fun value => some (.Set name (String.ofList value)) := by
  have hchars := posix_chars hname
  have hequals : '=' ∉ name.toList := fun h => absurd (hchars '=' h) (by decide)
  have hspace : ' ' ∉ name.toList := fun h => absurd (hchars ' ' h) (by decide)
  have hline : line ≠ [] := by
    rintro rfl
    rw [show trim [] = [] from rfl] at htrim
    simp at htrim
  have hhash : trim line ≠ "hash -r".toList := by
    intro h
    have hmem : '=' ∈ trim line := by rw [htrim]; simp
    rw [h] at hmem
    exact absurd hmem (by decide)
  have hunset : stripChars "unset ".toList (trim line) = none := by
    rw [htrim]
    rcases hstart with rfl | rfl
    · rfl
    · exact stripChars_none (not_prefix_of_mem (by decide) (by decide) hspace (by decide))
  have hexport : (stripChars "export ".toList (trim line)).getD (trim line) =
      name.toList ++ '=' :: raw := by
    rw [htrim]
    rcases hstart with rfl | rfl
    · rw [List.append_assoc, stripChars_append]
      rfl
    · rw [List.nil_append,
        stripChars_none (not_prefix_of_mem (by decide) (by decide) hspace (by decide))]
      rfl
  have hassignment : parseAssignment (name.toList ++ '=' :: raw) =
      (parseValue none raw).map fun value => .Set name (String.ofList value) := by
    unfold parseAssignment
    rw [splitOnce_char hequals]
    simp only [String.ofList_toList, hname]
    rw [if_neg (posix_ne_nil hname)]
    rfl
  unfold parseLine
  rw [if_neg hline, if_neg hnul, if_neg hreturn]
  simp only
  rw [if_neg (by rw [htrim]; simp), if_neg hhash, hunset]
  simp only
  rw [hexport, hassignment]
  cases parseValue none raw <;> rfl

/-- The lines of a statement are read together: a quote is open at the end of each line but the
last. -/
theorem parseLines_statement {text rest statement : List Char} {quote : Option Char}
    (hstart : statement = [] → quote = none)
    (hopen : ∀ before after, text = before ++ '\n' :: after →
      (updateQuoteState quote before).isSome = true)
    (hclose : updateQuoteState quote text = none) :
    parseLines ((text ++ '\n' :: rest).splitOn '\n') statement quote =
      match parseLine (addLine statement text) with
      | .error error => .error error
      | .ok entry => (parseLines (rest.splitOn '\n') [] none).map (entry.toList ++ ·) := by
  induction hlength : text.length using Nat.strong_induction_on generalizing text statement quote with
  | _ n ih => ?_
  by_cases hline : '\n' ∈ text
  · obtain ⟨line, text', rfl, hfree⟩ := List.eq_append_cons_of_mem hline
    obtain ⟨q, hq⟩ := Option.isSome_iff_exists.mp (hopen line text' rfl)
    have hmore : addLine statement line ≠ [] := by
      intro hnil
      unfold addLine at hnil
      split_ifs at hnil with hs
      · rw [hstart hs, hnil] at hq
        cases hq
      · exact absurd hnil (by simp)
    have hrest := @ih text'.length (by rw [← hlength]; simp; omega) text' (addLine statement line) (some q)
      (fun hnil => absurd hnil hmore)
      (fun before after htext => by
        have h := hopen (line ++ '\n' :: before) after (by rw [htext]; simp)
        rwa [updateQuoteState_newline, hq] at h)
      (by rwa [updateQuoteState_newline, hq] at hclose) rfl
    have htogether : addLine (addLine statement line) text' =
        addLine statement (line ++ '\n' :: text') := by
      rw [addLine, if_neg hmore]
      unfold addLine
      split_ifs <;> simp
    rw [List.append_assoc, List.cons_append, List.splitOn_append_cons_self_of_not_mem hfree,
      parseLines]
    simp only [hq, Option.isSome_some, if_true]
    rw [hrest, htogether]
  · rw [List.splitOn_append_cons_self_of_not_mem hline]
    simp [parseLines, hclose]

end ShellEnvEntry

end dev_env_model
