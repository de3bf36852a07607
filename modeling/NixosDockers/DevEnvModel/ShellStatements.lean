-- The statements of a shell environment: where the loop over the lines cuts the text, what the
-- two scanners know of quotes there, and texts that are read one after the other.
import NixosDockers.DevEnvModel.ShellEnv
import NixosDockers.Lib.Results

open rust_text results

namespace dev_env_model

namespace ShellEnvEntry

/-! ## The rounds of the scanner of values -/

/-- A round of the loop of `parse_value` that goes on: the quote after it, and the text that is
left. -/
def valueRound : Option Char → List Char → Option (Option Char × List Char)
  | _, [] => none
  | some q, c :: s =>
    if q = singleQuote then some (if c = singleQuote then none else some q, s)
    else if c = doubleQuote then some (none, s)
    else if c = '\\' then
      match s with
      | [] => none
      | escaped :: s =>
        if escaped ∈ ['\\', doubleQuote, '$', backtick, 'n', 'r', 't'] then some (some q, s) else none
    else if c = '$' && s.head? = some '(' then none
    else some (some q, s)
  | none, c :: s =>
    if isQuote c then some (some c, s)
    else if c = '\\' then
      match s with
      | [] => none
      | escaped :: s => if escaped = '\n' then none else some (none, s)
    else if c = '$' && s.head? = some '(' then none
    else if c = ';' && s.isEmpty then none
    else if c ∈ [backtick, ';', '|', '&', '>', '<'] || isWhitespace c then none
    else some (none, s)

/-- What is left after some rounds. -/
inductive ValueRounds : Option Char → List Char → Option Char → List Char → Prop where
  | done {quote s} : ValueRounds quote s quote s
  | round {quote s quote' s' last rest} : valueRound quote s = some (quote', s') →
      ValueRounds quote' s' last rest → ValueRounds quote s last rest

theorem map_nil_append (x : Except ShellEnvParseError (List Char)) : x.map ([] ++ ·) = x := by
  cases x <;> rfl

/-- One round reads some text, puts out some text, and changes the quote as `update_quote_state`
does, whatever comes after the text. -/
theorem valueRound_spec {quote quote' : Option Char} {s s' : List Char}
    (h : valueRound quote s = some (quote', s')) : ∃ seen out, s = seen ++ s' ∧
      seen ≠ [] ∧ parseValue quote s = (parseValue quote' s').map (out ++ ·) ∧
      ∀ t, updateQuoteState quote (seen ++ t) = updateQuoteState quote' t := by
  revert h
  fun_cases valueRound quote s with
  | case2 c s =>
    rintro ⟨⟩
    refine ⟨[c], if c = singleQuote then [] else [c], rfl, List.cons_ne_nil _ _, ?_, fun t => updateQuoteState_single c t⟩
    rw [parseValue_single]
    split_ifs with hc
    · exact (map_nil_append _).symm
    · rfl
  | case3 q s hq =>
    rintro ⟨⟩
    refine ⟨[doubleQuote], [], rfl, List.cons_ne_nil _ _, ?_, fun t => ?_⟩
    · rw [map_nil_append, parseValue.eq_def]
      simp only [hq, if_true, if_false]
    · have hslash : doubleQuote ≠ '\\' := by decide
      rw [List.singleton_append, updateQuoteState.eq_def]
      simp only [hq, hslash, if_true, if_false]
  | case5 q hq escaped s hescaped hslash =>
    rintro ⟨⟩
    refine ⟨['\\', escaped], [unescape escaped], rfl, List.cons_ne_nil _ _, ?_, fun t => ?_⟩
    · rw [parseValue.eq_def]
      simp only [hq, hslash, hescaped, if_true, if_false]
      rfl
    · rw [List.cons_append, List.singleton_append, updateQuoteState.eq_def]
      simp only [hq, if_true, if_false]
  | case8 q c s hq hc hslash hdollar =>
    rintro ⟨⟩
    refine ⟨[c], [c], rfl, List.cons_ne_nil _ _, ?_, fun t => ?_⟩
    · rw [parseValue.eq_def]
      simp only [hq, hc, hslash, hdollar, if_false]
      rfl
    · rw [List.singleton_append, updateQuoteState.eq_def]
      simp only [hq, hc, hslash, if_false]
  | case9 c s hc =>
    rintro ⟨⟩
    refine ⟨[c], [], rfl, List.cons_ne_nil _ _, ?_, fun t => ?_⟩
    · rw [map_nil_append, parseValue.eq_def]
      simp only [hc, if_true]
    · rw [List.singleton_append, updateQuoteState.eq_def]
      simp only [hc, if_true]
  | case12 escaped s hescaped hslash =>
    rintro ⟨⟩
    refine ⟨['\\', escaped], [escaped], rfl, List.cons_ne_nil _ _, ?_, fun t => ?_⟩
    · rw [parseValue.eq_def]
      simp only [hslash, hescaped, Bool.false_eq_true, if_true, if_false]
      rfl
    · rw [List.cons_append, List.singleton_append, updateQuoteState.eq_def]
      simp only [hslash, Bool.false_eq_true, if_true, if_false]
  | case16 c s hc hslash hdollar hend hshell =>
    rintro ⟨⟩
    refine ⟨[c], [c], rfl, List.cons_ne_nil _ _, ?_, fun t => ?_⟩
    · rw [parseValue.eq_def]
      simp only [hc, hslash, hdollar, hend, hshell, Bool.false_eq_true, if_false]
      rfl
    · rw [List.singleton_append, updateQuoteState.eq_def]
      simp only [hc, hslash, Bool.false_eq_true, if_false]
  | _ => rintro ⟨⟩

/-- Between any two rounds the quote of `parse_value` is the one that `update_quote_state` has. -/
theorem ValueRounds.spec {quote last : Option Char} {s rest : List Char}
    (h : ValueRounds quote s last rest) : ∃ seen out, s = seen ++ rest ∧
      parseValue quote s = (parseValue last rest).map (out ++ ·) ∧
      ∀ t, updateQuoteState quote (seen ++ t) = updateQuoteState last t := by
  induction h with
  | done => exact ⟨[], [], rfl, (map_nil_append _).symm, fun _ => rfl⟩
  | round hround _ ih =>
    obtain ⟨first, out, rfl, -, hparse, hquote⟩ := valueRound_spec hround
    obtain ⟨seen, more, rfl, hparse', hquote'⟩ := ih
    refine ⟨first ++ seen, out ++ more, by simp, ?_, fun t => ?_⟩
    · rw [hparse, hparse']
      cases parseValue _ _ with
      | error => rfl
      | ok value => exact congrArg Except.ok (List.append_assoc out more value).symm
    · rw [List.append_assoc, hquote, hquote']

/-- What the end of a scan says of the quote after the text. -/
def Agrees {α : Type} (quote : Option Char) : Except ShellEnvParseError α → Prop
  | .ok _ => quote = none
  | .error .UnterminatedQuote => quote.isSome = true
  | .error _ => True

theorem agrees_map {α β : Type} {quote : Option Char} {x : Except ShellEnvParseError α} {f : α → β} :
    Agrees quote (x.map f) ↔ Agrees quote x := by
  cases x with
  | ok => exact Iff.rfl
  | error error => cases error <;> exact Iff.rfl

/-- The scan ends where no round goes on. -/
theorem agrees_of_stop {quote : Option Char} {s : List Char} (h : valueRound quote s = none) :
    Agrees (updateQuoteState quote s) (parseValue quote s) := by
  revert h
  fun_cases valueRound quote s with
  | case1 quote =>
    intro _
    cases quote <;> rfl
  | case4 q hq hslash =>
    intro _
    rw [parseValue.eq_def]
    simp only [hq, hslash, if_true, if_false]
    trivial
  | case6 q hq escaped s hescaped hslash =>
    intro _
    rw [parseValue.eq_def]
    simp only [hq, hslash, hescaped, if_true, if_false]
    trivial
  | case7 q c s hq hc hslash hdollar =>
    intro _
    rw [parseValue.eq_def]
    simp only [hq, hc, hslash, hdollar, if_true, if_false]
    trivial
  | case10 hslash =>
    intro _
    rw [parseValue.eq_def]
    simp only [hslash, Bool.false_eq_true, if_true, if_false]
    trivial
  | case11 s hslash =>
    intro _
    rw [parseValue.eq_def]
    simp only [hslash, Bool.false_eq_true, if_true, if_false]
    trivial
  | case13 c s hc hslash hdollar =>
    intro _
    rw [parseValue.eq_def]
    simp only [hc, hslash, hdollar, Bool.false_eq_true, if_true, if_false]
    trivial
  | case14 c s hc hslash hdollar hend =>
    intro _
    rw [Bool.and_eq_true, decide_eq_true_eq, List.isEmpty_iff] at hend
    obtain ⟨rfl, rfl⟩ := hend
    rfl
  | case15 c s hc hslash hdollar hend hshell =>
    intro _
    rw [parseValue.eq_def]
    simp only [hc, hslash, hdollar, hend, hshell, Bool.false_eq_true, if_true, if_false]
    trivial
  | _ => exact nofun

theorem parseValue_agrees (quote : Option Char) (s : List Char) :
    Agrees (updateQuoteState quote s) (parseValue quote s) := by
  induction hlength : s.length using Nat.strong_induction_on generalizing quote s with
  | _ n ih =>
    cases hround : valueRound quote s with
    | none => exact agrees_of_stop hround
    | some next =>
      obtain ⟨quote', s'⟩ := next
      obtain ⟨seen, out, rfl, hne, hparse, hquote⟩ := valueRound_spec hround
      have hshorter : s'.length < n := by
        have hpos := List.length_pos_iff.mpr hne
        rw [← hlength, List.length_append]
        omega
      rw [hparse, agrees_map, hquote]
      exact ih s'.length hshorter quote' s' rfl

/-! ## The quote after a line -/

theorem updateQuoteState_nil {quote : Option Char} : updateQuoteState quote [] = quote := by
  cases quote <;> rfl

theorem white_neutral {c : Char} (h : isWhitespace c = true) : isQuote c = false ∧ c ≠ '\\' := by
  constructor
  · by_contra hquote
    rw [Bool.not_eq_false, isQuote, Bool.or_eq_true, decide_eq_true_eq, decide_eq_true_eq] at hquote
    rcases hquote with rfl | rfl <;> exact absurd h (by decide)
  · rintro rfl
    exact absurd h (by decide)

theorem updateQuoteState_white {white : List Char} (h : AllWhite white) (quote : Option Char)
    (s : List Char) : updateQuoteState quote (s ++ white) = updateQuoteState quote s := by
  induction white generalizing quote s with
  | nil => rw [List.append_nil]
  | cons c white ih =>
    obtain ⟨hquote, hslash⟩ := white_neutral (h c List.mem_cons_self)
    have hrest : AllWhite white := fun d hd => h d (List.mem_cons_of_mem _ hd)
    have hnext := ih hrest (updateQuoteState quote s) []
    rw [updateQuoteState_neutral hquote hslash, ← List.nil_append white, hnext, updateQuoteState.eq_def]

/-- White space around a line has no say in its quotes. -/
theorem updateQuoteState_trim (line : List Char) :
    updateQuoteState none (trim line) = updateQuoteState none line := by
  obtain ⟨before, after, hbefore, hafter, hline⟩ := exists_surrounding line
  conv_rhs => rw [hline]
  rw [updateQuoteState_white hafter, updateQuoteState_plain fun c hc => white_neutral (hbefore c hc)]

theorem posixChar_neutral {c : Char} (h : (c.isAlphanum || c = '_') = true) :
    isQuote c = false ∧ c ≠ '\\' := by
  constructor
  · by_contra hquote
    rw [Bool.not_eq_false, isQuote, Bool.or_eq_true, decide_eq_true_eq, decide_eq_true_eq] at hquote
    rcases hquote with rfl | rfl <;> exact absurd h (by decide)
  · rintro rfl
    exact absurd h (by decide)

/-- A text in which no quote is opened. -/
def Unquoted (s : List Char) : Prop := ∀ c ∈ s, isQuote c = false ∧ c ≠ '\\'

theorem unquoted_of_all {s : List Char} (h : s.all (fun c => !isQuote c && c ≠ '\\') = true) :
    Unquoted s := by
  intro c hc
  have hchar := List.all_eq_true.mp h c hc
  simpa using hchar

theorem Unquoted.closed {s : List Char} (h : Unquoted s) : updateQuoteState none s = none := by
  have hplain := updateQuoteState_plain h []
  rwa [List.append_nil] at hplain

theorem posix_unquoted {name : List Char} (h : isPosixEnvName (String.ofList name) = true) :
    Unquoted name := by
  intro c hc
  have hchars := posix_chars h
  rw [String.toList_ofList] at hchars
  exact posixChar_neutral (hchars c hc)

theorem parseAssignment_agrees (assignment : List Char) :
    Agrees (updateQuoteState none assignment) (parseAssignment assignment) := by
  unfold parseAssignment
  cases hsplit : splitOnce ['='] assignment with
  | none => trivial
  | some parts =>
    obtain ⟨name, raw_value⟩ := parts
    dsimp only
    split_ifs with hempty hname
    · trivial
    · trivial
    · rw [Bool.not_eq_true, Bool.not_eq_false'] at hname
      have hstart : Unquoted (name ++ ['=']) := by
        intro c hc
        rcases List.mem_append.mp hc with hc | hc
        · exact posix_unquoted hname c hc
        · rw [List.mem_singleton.mp hc]
          decide
      rw [agrees_map, splitOnce_eq_append hsplit, updateQuoteState_plain hstart]
      exact parseValue_agrees none raw_value

theorem parseUnset_agrees (rest : List Char) :
    Agrees (updateQuoteState none rest) (parseUnset rest) := by
  unfold parseUnset
  dsimp only
  split_ifs with hsemi hname hname
  · trivial
  · simp only [Bool.or_eq_true, not_or, Bool.not_eq_true, Bool.not_eq_false'] at hname
    have hrest : rest = rest.dropLast ++ [';'] :=
      (List.dropLast_append_getLast? ';' hsemi).symm
    have hsemicolon : updateQuoteState none (rest.dropLast ++ ';' :: []) = none := by
      rw [updateQuoteState_neutral rfl (by decide), (posix_unquoted hname.2).closed]
      rfl
    rw [hrest]
    exact hsemicolon
  · trivial
  · simp only [Bool.or_eq_true, not_or, Bool.not_eq_true, Bool.not_eq_false'] at hname
    exact (posix_unquoted hname.2).closed

theorem stripChars_eq_append {start s rest : List Char} (h : stripChars start s = some rest) :
    s = start ++ rest := by
  unfold stripChars at h
  split_ifs at h with hstart
  obtain ⟨rest', rfl⟩ := List.isPrefixOf_iff_prefix.mp hstart
  rw [List.drop_left] at h
  rw [Option.some.inj h]

/-- A statement behind its keyword. -/
theorem statement_agrees {unset «export» : List Char} (hunset : Unquoted unset)
    (hexport : Unquoted «export») (statement : List Char) :
    Agrees (updateQuoteState none statement) (match stripChars unset statement with
      | some rest => (parseUnset rest).map some
      | none => (parseAssignment ((stripChars «export» statement).getD statement)).map some) := by
  cases hfound : stripChars unset statement with
  | some rest =>
    rw [stripChars_eq_append hfound, updateQuoteState_plain hunset]
    exact agrees_map.mpr (parseUnset_agrees rest)
  | none =>
    refine agrees_map.mpr ?_
    cases hassigned : stripChars «export» statement with
    | none => exact parseAssignment_agrees statement
    | some rest =>
      rw [stripChars_eq_append hassigned, updateQuoteState_plain hexport]
      exact parseAssignment_agrees rest

/-- `parse_line` sees the end of a quote where `update_quote_state` does. -/
theorem parseLine_agrees (line : List Char) :
    Agrees (updateQuoteState none line) (parseLine line) := by
  unfold parseLine
  dsimp only
  split_ifs with hempty hnul hreturn hblank hhash
  · rw [hempty]
    rfl
  · trivial
  · trivial
  · rw [← updateQuoteState_trim, hblank]
    rfl
  · have hclosed : Unquoted "hash -r".toList := unquoted_of_all rfl
    rw [← updateQuoteState_trim, hhash]
    exact hclosed.closed
  · rw [← updateQuoteState_trim]
    exact statement_agrees (unquoted_of_all rfl) (unquoted_of_all rfl) (trim line)

/-! ## Statements -/

/-- The statements that the loop of `ShellEnvEntry::parse` reads. -/
def statements : List (List Char) → List Char → Option Char → List (List Char)
  | [], statement, _ => if statement = [] then [] else [statement]
  | line :: rest, statement, quote =>
    let statement := addLine statement line
    let quote := updateQuoteState quote line
    if quote.isSome then statements rest statement quote
    else statement :: statements rest [] none

/-- The entries of some statements. -/
def readStatements (texts : List (List Char)) : Except ShellEnvParseError (List ShellEnvEntry) :=
  (texts.mapM parseLine).map List.reduceOption

theorem readStatements_cons (statement : List Char) (rest : List (List Char)) :
    readStatements (statement :: rest) = match parseLine statement with
      | .error error => .error error
      | .ok entry => (readStatements rest).map (entry.toList ++ ·) := by
  unfold readStatements
  rw [List.mapM_cons]
  cases parseLine statement with
  | error => rfl
  | ok entry =>
    rw [ok_bind]
    cases rest.mapM parseLine with
    | error => rfl
    | ok entries => cases entry <;> rfl

/-- The loop reads its statements one after the other. -/
theorem parseLines_eq (lines : List (List Char)) (statement : List Char) (quote : Option Char) :
    parseLines lines statement quote = readStatements (statements lines statement quote) := by
  induction lines generalizing statement quote with
  | nil =>
    rw [parseLines, statements]
    split_ifs with hempty
    · rfl
    · rw [readStatements_cons]
      cases parseLine statement with
      | error => rfl
      | ok entry => cases entry <;> rfl
  | cons line rest ih =>
    rw [parseLines, statements]
    split_ifs with hopen
    · exact ih _ _
    · rw [readStatements_cons]
      cases parseLine (addLine statement line) with
      | error => rfl
      | ok entry => exact congrArg (Except.map (entry.toList ++ ·)) (ih [] none)

/-- A statement with an open quote is not empty. -/
theorem addLine_ne_nil {statement line : List Char} {quote : Option Char}
    (hstart : statement = [] → quote = none) (h : (updateQuoteState quote line).isSome = true) :
    addLine statement line ≠ [] := by
  intro hnil
  unfold addLine at hnil
  split_ifs at hnil with hempty
  · rw [hstart hempty, hnil] at h
    cases h
  · exact absurd hnil (by simp)

/-- Lines after which no quote is open are read for themselves. -/
theorem statements_append {lines : List (List Char)} (more : List (List Char))
    {statement : List Char} {quote : Option Char} (hstart : quote = none → statement = [])
    (hclosed : lines.foldl updateQuoteState quote = none) :
    statements (lines ++ more) statement quote =
      statements lines statement quote ++ statements more [] none := by
  induction lines generalizing statement quote with
  | nil =>
    obtain rfl := hclosed
    rw [hstart rfl]
    rfl
  | cons line rest ih =>
    rw [List.cons_append, statements, statements]
    split_ifs with hopen
    · refine ih (fun hnone => ?_) hclosed
      rw [hnone] at hopen
      cases hopen
    · rw [List.foldl_cons, Option.not_isSome_iff_eq_none.mp hopen] at hclosed
      rw [ih (fun _ => rfl) hclosed]
      rfl

/-- The quote after the lines of a text is the one after the text. -/
theorem foldl_updateQuoteState (lines : List (List Char)) (hne : lines ≠ []) (quote : Option Char) :
    lines.foldl updateQuoteState quote = updateQuoteState quote (['\n'].intercalate lines) := by
  induction lines generalizing quote with
  | nil => exact absurd rfl hne
  | cons line rest ih =>
    by_cases hrest : rest = []
    · subst hrest
      rw [List.intercalate_singleton]
      rfl
    · obtain ⟨next, more, rfl⟩ := List.exists_cons_of_ne_nil hrest
      rw [List.foldl_cons, ih hrest, List.intercalate_cons_cons, List.append_assoc,
        List.singleton_append, updateQuoteState_newline]

/-- What the loop knows of the statement that it goes on with: the quote that is open after it, and
that every newline in it is in a quote. -/
structure Begun (statement : List Char) (quote : Option Char) : Prop where
  quote_eq : updateQuoteState none statement = quote
  inside : ∀ before after, statement = before ++ '\n' :: after →
    (updateQuoteState none before).isSome = true

theorem Begun.nil : Begun [] none := ⟨rfl, fun _ _ h => absurd h (by simp)⟩

/-- A line is added to nothing, or to a statement with an open quote. -/
theorem Begun.addLine {statement line : List Char} {quote : Option Char} (h : Begun statement quote)
    (hopen : statement ≠ [] → quote.isSome = true) (hline : '\n' ∉ line) :
    Begun (addLine statement line) (updateQuoteState quote line) := by
  unfold ShellEnvEntry.addLine
  split_ifs with hempty
  · subst hempty
    have hnone : quote = none := h.quote_eq.symm
    refine ⟨by rw [hnone], fun before after hcut => absurd ?_ hline⟩
    rw [hcut]
    simp
  · refine ⟨by rw [updateQuoteState_newline, h.quote_eq], fun before after hcut => ?_⟩
    rcases List.append_eq_append_iff.mp hcut with ⟨gap, rfl, hgap⟩ | ⟨gap, hstatement, hgap⟩
    · cases gap with
      | nil =>
        rw [List.append_nil, h.quote_eq]
        exact hopen hempty
      | cons c gap =>
        obtain ⟨rfl, rfl⟩ := List.cons.inj hgap
        exact absurd (by simp) hline
    · cases gap with
      | nil =>
        rw [List.append_nil] at hstatement
        rw [← hstatement, h.quote_eq]
        exact hopen hempty
      | cons c gap =>
        obtain ⟨rfl, -⟩ := List.cons.inj hgap
        exact h.inside before gap hstatement

/-- The pieces that a text is cut into: newlines in them are in quotes, and no quote is open where
the text is cut. -/
theorem statements_begun {lines : List (List Char)} (hlines : ∀ line ∈ lines, '\n' ∉ line)
    {statement : List Char} {quote : Option Char} (h : Begun statement quote)
    (hopen : statement ≠ [] → quote.isSome = true) {before after : List (List Char)}
    {piece : List Char} (hpiece : statements lines statement quote = before ++ piece :: after) :
    ∃ last, Begun piece last ∧ (after ≠ [] → last = none) := by
  induction lines generalizing statement quote before with
  | nil =>
    rw [statements] at hpiece
    split_ifs at hpiece with hempty
    · exact absurd hpiece (by simp)
    · cases before with
      | nil =>
        obtain ⟨rfl, rfl⟩ := List.cons.inj hpiece
        exact ⟨quote, h, fun hne => absurd rfl hne⟩
      | cons first before => exact absurd (List.cons.inj hpiece).2 (by simp)
  | cons line rest ih =>
    rw [List.forall_mem_cons] at hlines
    have hadded := h.addLine hopen hlines.1
    rw [statements] at hpiece
    split_ifs at hpiece with hquote
    · exact ih hlines.2 hadded (fun _ => hquote) hpiece
    · cases before with
      | nil =>
        obtain ⟨rfl, -⟩ := List.cons.inj hpiece
        exact ⟨_, hadded, fun _ => Option.not_isSome_iff_eq_none.mp hquote⟩
      | cons first before =>
        obtain ⟨-, hrest⟩ := List.cons.inj hpiece
        exact ih hlines.2 .nil (fun hne => absurd rfl hne) hrest

theorem statements_ne_nil {lines : List (List Char)} {statement : List Char} {quote : Option Char}
    (hstart : statement = [] → quote = none) (hne : lines ≠ [] ∨ statement ≠ []) :
    statements lines statement quote ≠ [] := by
  induction lines generalizing statement quote with
  | nil =>
    rw [statements, if_neg (hne.resolve_left fun h => h rfl)]
    simp
  | cons line rest ih =>
    rw [statements]
    split_ifs with hquote
    · have hmore := addLine_ne_nil hstart hquote
      exact ih (fun hnil => absurd hnil hmore) (.inr hmore)
    · simp

/-- The pieces are the text, cut at newlines. -/
theorem intercalate_statements (lines : List (List Char)) :
    ['\n'].intercalate (statements lines [] none) = ['\n'].intercalate lines := by
  have hall : ∀ statement quote, (statement = [] → quote = none) →
      ['\n'].intercalate (statements lines statement quote) =
        ['\n'].intercalate (if statement = [] then lines else statement :: lines) := by
    induction lines with
    | nil =>
      intro statement quote _
      rw [statements]
    | cons line rest ih =>
      intro statement quote hstart
      have hadded : ['\n'].intercalate (if statement = [] then line :: rest else statement :: line :: rest) =
          ['\n'].intercalate (addLine statement line :: rest) := by
        unfold addLine
        split_ifs with hempty
        · rfl
        · cases rest with
          | nil => simp [List.intercalate_cons_cons]
          | cons next rest => simp [List.intercalate_cons_cons]
      rw [hadded, statements]
      split_ifs with hquote
      · have hmore : addLine statement line ≠ [] := addLine_ne_nil hstart hquote
        rw [ih _ _ fun hnil => absurd hnil hmore, if_neg hmore]
      · by_cases hrest : rest = []
        · subst hrest
          rfl
        · have hfresh : ([] : List Char) = [] → (none : Option Char) = none := fun _ => rfl
          have hne := statements_ne_nil hfresh (.inl hrest)
          obtain ⟨piece, pieces, hpieces⟩ := List.exists_cons_of_ne_nil hne
          obtain ⟨next, more, rfl⟩ := List.exists_cons_of_ne_nil hrest
          have htail := ih [] none fun _ => rfl
          rw [hpieces] at htail ⊢
          rw [List.intercalate_cons_cons, List.intercalate_cons_cons, htail, if_pos rfl]
  exact (hall [] none fun _ => rfl).trans (by rw [if_pos rfl])

/-! ## The arms that are not reached -/

/-- `update_quote_state` with its last arm, which has no result. -/
def updateQuoteStateArms : Option Char → List Char → Option (Option Char)
  | quote, [] => some quote
  | some q, c :: s =>
    if q = singleQuote then updateQuoteStateArms (if c = singleQuote then none else some q) s
    else if q = doubleQuote then
      if c = '\\' then
        match s with
        | [] => some (some q)
        | _ :: s => updateQuoteStateArms (some q) s
      else updateQuoteStateArms (if c = doubleQuote then none else some q) s
    else none
  | none, c :: s =>
    if isQuote c then updateQuoteStateArms (some c) s
    else if c = '\\' then
      match s with
      | [] => some none
      | _ :: s => updateQuoteStateArms none s
    else updateQuoteStateArms none s

/-- `parse_value` with the arm of other quotes, which has no result. -/
def parseValueArms : Option Char → List Char → Option (Except ShellEnvParseError (List Char))
  | quote, [] => some (if quote.isSome then .error .UnterminatedQuote else .ok [])
  | some q, c :: s =>
    if q = singleQuote then
      if c = singleQuote then parseValueArms none s
      else (parseValueArms (some q) s).map (·.map (c :: ·))
    else if q = doubleQuote then
      if c = doubleQuote then parseValueArms none s
      else if c = '\\' then
        match s with
        | [] => some (.error .InvalidEscape)
        | escaped :: s =>
          if escaped ∈ ['\\', doubleQuote, '$', backtick, 'n', 'r', 't'] then
            (parseValueArms (some q) s).map (·.map (unescape escaped :: ·))
          else some (.error .InvalidEscape)
      else if c = '$' && s.head? = some '(' then some (.error .ShellSyntax)
      else (parseValueArms (some q) s).map (·.map (c :: ·))
    else none
  | none, c :: s =>
    if isQuote c then parseValueArms (some c) s
    else if c = '\\' then
      match s with
      | [] => some (.error .InvalidEscape)
      | escaped :: s =>
        if escaped = '\n' then some (.error .InvalidEscape)
        else (parseValueArms none s).map (·.map (escaped :: ·))
    else if c = '$' && s.head? = some '(' then some (.error .ShellSyntax)
    else if c = ';' && s.isEmpty then some (.ok [])
    else if c ∈ [backtick, ';', '|', '&', '>', '<'] || isWhitespace c then some (.error .ShellSyntax)
    else (parseValueArms none s).map (·.map (c :: ·))

/-- The loop of `ShellEnvEntry::parse` with the arms of its scanner. -/
def parseLinesArms : List (List Char) → List Char → Option Char →
    Option (Except ShellEnvParseError (List ShellEnvEntry))
  | [], statement, _ =>
    if statement = [] then some (.ok []) else some ((parseLine statement).map Option.toList)
  | line :: rest, statement, quote =>
    let statement := addLine statement line
    match updateQuoteStateArms quote line with
    | none => none
    | some quote =>
      if quote.isSome then parseLinesArms rest statement quote
      else
        match parseLine statement with
        | .error error => some (.error error)
        | .ok entry => (parseLinesArms rest [] none).map (·.map (entry.toList ++ ·))

/-- No quote is open, or one of the two that there are. -/
def Known (quote : Option Char) : Prop := ∀ q, quote = some q → isQuote q = true

theorem known_none : Known none := fun _ h => nomatch h

theorem Known.cases {q : Char} (h : Known (some q)) (hq : q ≠ singleQuote) : q = doubleQuote := by
  have hquote := h q rfl
  rw [isQuote, Bool.or_eq_true, decide_eq_true_eq, decide_eq_true_eq] at hquote
  exact hquote.resolve_left hq

/-- The scanner of lines keeps to the two quotes, and its last arm is not reached. -/
theorem updateQuoteStateArms_eq (quote : Option Char) (s : List Char) (h : Known quote) :
    updateQuoteStateArms quote s = some (updateQuoteState quote s) ∧
      Known (updateQuoteState quote s) := by
  fun_induction updateQuoteState quote s with
  | case1 quote =>
    rw [updateQuoteStateArms.eq_def]
    exact ⟨by cases quote <;> rfl, h⟩
  | case2 c s ih =>
    have hnext : Known (if c = singleQuote then none else some singleQuote) := by
      split_ifs
      · exact known_none
      · exact h
    rw [updateQuoteStateArms.eq_def]
    simp only [if_true]
    exact ih hnext
  | case3 q hq =>
    obtain rfl := h.cases hq
    exact ⟨rfl, h⟩
  | case4 q hq c s ih =>
    obtain rfl := h.cases hq
    rw [updateQuoteStateArms.eq_def]
    simp only [hq, if_true, if_false]
    exact ih h
  | case5 q c s hq hc ih =>
    obtain rfl := h.cases hq
    have hnext : Known (if c = doubleQuote then none else some doubleQuote) := by
      split_ifs
      · exact known_none
      · exact h
    rw [updateQuoteStateArms.eq_def]
    simp only [hq, hc, if_true, if_false]
    exact ih hnext
  | case6 c s hc ih =>
    rw [updateQuoteStateArms.eq_def]
    simp only [hc, if_true]
    refine ih fun q hq => ?_
    obtain rfl := Option.some.inj hq
    exact hc
  | case7 hslash => exact ⟨rfl, known_none⟩
  | case8 c s hslash ih =>
    rw [updateQuoteStateArms.eq_def]
    simp only [hslash, Bool.false_eq_true, if_true, if_false]
    exact ih known_none
  | case9 c s hc hslash ih =>
    rw [updateQuoteStateArms.eq_def]
    simp only [hc, hslash, Bool.false_eq_true, if_false]
    exact ih known_none

theorem parseValueArms_eq (quote : Option Char) (s : List Char) (h : Known quote) :
    parseValueArms quote s = some (parseValue quote s) := by
  fun_induction parseValue quote s with
  | case1 quote hopen =>
    rw [parseValueArms.eq_def]
    simp only [hopen, if_true]
  | case2 quote hopen =>
    rw [parseValueArms.eq_def]
    simp only [hopen, Bool.false_eq_true, if_false]
  | case3 s ih =>
    rw [parseValueArms.eq_def]
    simp only [if_true]
    exact ih known_none
  | case4 c s hc ih =>
    rw [parseValueArms.eq_def]
    simp only [hc, if_true, if_false, ih h]
    rfl
  | case5 q s hq ih =>
    obtain rfl := h.cases hq
    rw [parseValueArms.eq_def]
    simp only [hq, if_true, if_false]
    exact ih known_none
  | case6 q hq hslash =>
    obtain rfl := h.cases hq
    rfl
  | case7 q hq escaped s hescaped hslash ih =>
    obtain rfl := h.cases hq
    rw [parseValueArms.eq_def]
    simp only [hq, hslash, hescaped, if_true, if_false, ih h]
    rfl
  | case8 q hq escaped s hescaped hslash =>
    obtain rfl := h.cases hq
    rw [parseValueArms.eq_def]
    simp only [hq, hslash, hescaped, if_true, if_false]
  | case9 q c s hq hc hslash hdollar =>
    obtain rfl := h.cases hq
    rw [parseValueArms.eq_def]
    simp only [hq, hc, hslash, hdollar, if_true, if_false]
  | case10 q c s hq hc hslash hdollar ih =>
    obtain rfl := h.cases hq
    rw [parseValueArms.eq_def]
    simp only [hq, hc, hslash, hdollar, if_true, if_false, ih h]
    rfl
  | case11 c s hc ih =>
    rw [parseValueArms.eq_def]
    simp only [hc, if_true]
    refine ih fun q hq => ?_
    obtain rfl := Option.some.inj hq
    exact hc
  | case12 hslash => rfl
  | case13 s hslash => rfl
  | case14 escaped s hescaped hslash ih =>
    rw [parseValueArms.eq_def]
    simp only [hslash, hescaped, Bool.false_eq_true, if_true, if_false, ih known_none]
    rfl
  | case15 c s hc hslash hdollar =>
    rw [parseValueArms.eq_def]
    simp only [hc, hslash, hdollar, Bool.false_eq_true, if_true, if_false]
  | case16 c s hc hslash hdollar hend =>
    rw [parseValueArms.eq_def]
    simp only [hc, hslash, hdollar, hend, Bool.false_eq_true, if_true, if_false]
  | case17 c s hc hslash hdollar hend hshell =>
    rw [parseValueArms.eq_def]
    simp only [hc, hslash, hdollar, hend, hshell, Bool.false_eq_true, if_true, if_false]
  | case18 c s hc hslash hdollar hend hshell ih =>
    rw [parseValueArms.eq_def]
    simp only [hc, hslash, hdollar, hend, hshell, Bool.false_eq_true, if_false, ih known_none]
    rfl

/-- The loop of `ShellEnvEntry::parse` carries no other quote from one line to the next. -/
theorem parseLinesArms_eq (lines : List (List Char)) (statement : List Char) {quote : Option Char}
    (h : Known quote) : parseLinesArms lines statement quote = some (parseLines lines statement quote) := by
  induction lines generalizing statement quote with
  | nil =>
    rw [parseLinesArms, parseLines]
    split_ifs <;> rfl
  | cons line rest ih =>
    obtain ⟨hquote, hknown⟩ := updateQuoteStateArms_eq quote line h
    rw [parseLinesArms, parseLines, hquote]
    dsimp only
    split_ifs with hopen
    · exact ih _ hknown
    · cases parseLine (addLine statement line) with
      | error => rfl
      | ok entry =>
        dsimp only
        rw [ih [] known_none]
        rfl

/-! ## Texts one after the other -/

/-- A text that ends in an open quote is not read. -/
theorem closed_of_ok {lines : List (List Char)} (hlines : ∀ line ∈ lines, '\n' ∉ line)
    {statement : List Char} {quote : Option Char} (hbegun : Begun statement quote)
    (hopen : statement ≠ [] → quote.isSome = true) {entries : List ShellEnvEntry}
    (h : parseLines lines statement quote = .ok entries) : lines.foldl updateQuoteState quote = none := by
  induction lines generalizing statement quote entries with
  | nil =>
    rw [parseLines] at h
    split_ifs at h with hempty
    · subst hempty
      exact hbegun.quote_eq.symm
    · have hagrees := parseLine_agrees statement
      obtain ⟨entry, hentry, -⟩ := map_ok_iff.mp h
      rw [hentry, hbegun.quote_eq] at hagrees
      exact hagrees
  | cons line rest ih =>
    rw [List.forall_mem_cons] at hlines
    have hadded := hbegun.addLine hopen hlines.1
    rw [parseLines] at h
    rw [List.foldl_cons]
    split_ifs at h with hquote
    · exact ih hlines.2 hadded (fun _ => hquote) h
    · cases hentry : parseLine (ShellEnvEntry.addLine statement line) with
      | error =>
        rw [hentry] at h
        cases h
      | ok entry =>
        rw [hentry] at h
        obtain ⟨rest', hrest, -⟩ := map_ok_iff.mp h
        rw [Option.not_isSome_iff_eq_none.mp hquote]
        exact ih hlines.2 .nil (fun hne => absurd rfl hne) hrest

theorem lines_free (s : String) : ∀ line ∈ s.toList.splitOn '\n', '\n' ∉ line :=
  fun _ hline => not_mem_of_mem_splitOn hline

theorem lines_ne_nil (s : String) : s.toList.splitOn '\n' ≠ [] := List.splitOn_ne_nil _ _

theorem readStatements_append {texts rest : List (List Char)} {entries more : List ShellEnvEntry}
    (h : readStatements texts = .ok entries) (hrest : readStatements rest = .ok more) :
    readStatements (texts ++ rest) = .ok (entries ++ more) := by
  obtain ⟨read, hread, rfl⟩ := map_ok_iff.mp h
  obtain ⟨read', hread', rfl⟩ := map_ok_iff.mp hrest
  unfold readStatements
  rw [List.mapM_append, hread, ok_bind, hread', ok_bind]
  exact congrArg Except.ok (List.reduceOption_append read read')

theorem closed_of_parse {s : String} {entries : List ShellEnvEntry} (h : parse s = .ok entries) :
    (s.toList.splitOn '\n').foldl updateQuoteState none = none :=
  closed_of_ok (lines_free s) .nil (fun hne => absurd rfl hne) h

/-- Texts of shell environments are read one after the other; the statements are cut where both
scanners see no open quote, and the arms for other quotes are not reached. -/
theorem shell_texts_are_read_in_turn :
    (∀ (s t : String) (entries more : List ShellEnvEntry), parse s = .ok entries →
      parse t = .ok more → parse (s ++ "\n" ++ t) = .ok (entries ++ more)) ∧
    (∀ s : String, (updateQuoteState none s.toList).isSome = true → ∃ error, parse s = .error error) ∧
    (∀ s : String, ∃ pieces, ['\n'].intercalate pieces = s.toList ∧
      parse s = readStatements pieces ∧
      ∀ before piece after, pieces = before ++ piece :: after → ∃ last, Begun piece last ∧
        (after ≠ [] → last = none) ∧ Agrees last (parseLine piece)) ∧
    (∀ raw last rest, ValueRounds none raw last rest → ∃ seen out, raw = seen ++ rest ∧
      parseValue none raw = (parseValue last rest).map (out ++ ·) ∧
      updateQuoteState none seen = last) ∧
    (∀ s : String, parseLinesArms (s.toList.splitOn '\n') [] none = some (parse s)) ∧
    ∀ raw, parseValueArms none raw = some (parseValue none raw) := by
  refine ⟨?_, ?_, ?_, ?_, ?_, ?_⟩
  · intro s t entries more hs ht
    have hclosed := closed_of_parse hs
    unfold parse at hs ht ⊢
    rw [parseLines_eq] at hs ht ⊢
    have hlines : (s ++ "\n" ++ t).toList.splitOn '\n' = s.toList.splitOn '\n' ++ t.toList.splitOn '\n' := by
      rw [String.toList_append, String.toList_append, List.append_assoc]
      exact List.splitOn_append_cons_self s.toList t.toList
    rw [hlines, statements_append _ (fun _ => rfl) hclosed]
    exact readStatements_append hs ht
  · intro s hquote
    cases hparse : parse s with
    | error error => exact ⟨error, rfl⟩
    | ok entries =>
      have hclosed := closed_of_parse hparse
      rw [foldl_updateQuoteState _ (lines_ne_nil s), List.intercalate_splitOn] at hclosed
      rw [hclosed] at hquote
      cases hquote
  · intro s
    refine ⟨statements (s.toList.splitOn '\n') [] none, ?_, parseLines_eq _ _ _, ?_⟩
    · rw [intercalate_statements, List.intercalate_splitOn]
    · intro before piece after hpiece
      obtain ⟨last, hbegun, hlast⟩ :=
        statements_begun (lines_free s) .nil (fun hne => absurd rfl hne) hpiece
      exact ⟨last, hbegun, hlast, hbegun.quote_eq ▸ parseLine_agrees piece⟩
  · intro raw last rest hrounds
    obtain ⟨seen, out, hraw, hparse, hquote⟩ := hrounds.spec
    have hlast := hquote []
    rw [List.append_nil] at hlast
    exact ⟨seen, out, hraw, hparse, hlast.trans updateQuoteState_nil⟩
  · exact fun s => parseLinesArms_eq _ _ known_none
  · exact fun raw => parseValueArms_eq none raw known_none

theorem two_assignments_are_read_in_turn : ∃ entries more,
    parse "A='x\ny'" = .ok entries ∧ parse "unset B" = .ok more ∧
      parse ("A='x\ny'" ++ "\n" ++ "unset B") = .ok (entries ++ more) := by
  obtain ⟨entries, hentries⟩ := exists_of_isOk (by decide +kernel : (parse "A='x\ny'").isOk = true)
  obtain ⟨more, hmore⟩ := exists_of_isOk (by decide +kernel : (parse "unset B").isOk = true)
  exact ⟨entries, more, hentries, hmore,
    shell_texts_are_read_in_turn.1 _ _ entries more hentries hmore⟩

end ShellEnvEntry

end dev_env_model
