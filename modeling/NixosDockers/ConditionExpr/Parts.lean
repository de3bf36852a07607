-- The parts of a condition between the operators at its top level, as a relation
-- that goes from the first operator to the last, and the parser in its terms.
import NixosDockers.ConditionExpr.Scan

open rust_text results

namespace condition_expr

/-! ## Where an operator can stand -/

/-- No operator goes over white space. -/
theorem cut_before_white {needle : List Char} (hneedle : Operator needle) {text before rest after : List Char}
    {c : Char} (hc : isWhitespace c = true) (hcut : text ++ c :: rest = before ++ needle ++ after)
    (hlength : before.length ≤ text.length) : ∃ more, text = before ++ needle ++ more := by
  have hnot : c ∉ needle := by
    intro h
    rw [hneedle.not_white c h] at hc
    cases hc
  rcases List.append_eq_append_iff.mp hcut with ⟨extra, hextra, hrest⟩ | ⟨more, hmore, _⟩
  · cases extra with
    | nil => exact ⟨[], by rw [List.append_nil, hextra, List.append_nil]⟩
    | cons d extra =>
      obtain ⟨rfl, _⟩ := List.cons.inj hrest
      rcases List.append_eq_append_iff.mp hextra with ⟨gap, htext, hgap⟩ | ⟨gap, hbefore, hgap⟩
      · exact absurd (by rw [hgap]; simp) hnot
      · have hnil : gap = [] := by
          rw [hbefore, List.length_append] at hlength
          exact List.length_eq_zero_iff.mp (by omega)
        rw [hnil, List.nil_append] at hgap
        exact absurd (by rw [← hgap]; exact List.mem_cons_self) hnot
  · exact ⟨more, hmore⟩

/-- No operator begins in white space. -/
theorem length_le_of_cut {needle : List Char} (hneedle : Operator needle)
    {white text before after : List Char} (hwhite : AllWhite white)
    (hcut : white ++ text = before ++ needle ++ after) : white.length ≤ before.length := by
  by_contra hlength
  rw [List.append_assoc] at hcut
  rcases List.append_eq_append_iff.mp hcut with ⟨gap, hbefore, _⟩ | ⟨gap, hwhite', hgap⟩
  · rw [hbefore, List.length_append] at hlength
    omega
  · obtain ⟨c, needle', hc⟩ := List.exists_cons_of_ne_nil hneedle.ne_nil
    cases gap with
    | nil =>
      rw [hwhite', List.append_nil] at hlength
      omega
    | cons d gap =>
      rw [hc] at hgap
      obtain ⟨rfl, _⟩ := List.cons.inj hgap
      have hnot := hneedle.not_white c (by rw [hc]; exact List.mem_cons_self)
      rw [hwhite c (by rw [hwhite']; simp)] at hnot
      cases hnot

/-! ## Parts -/

/-- The first operator of the text is the one behind `before`. -/
def FirstCut (needle before rest : List Char) : Prop :=
  ∀ other after, before ++ needle ++ rest = other ++ needle ++ after →
    other.length < before.length → levelAfter .top other ≠ some .top

/-- The parts of a text between the operators at its top level. -/
inductive Parts (needle : List Char) : List Char → List (List Char) → Prop where
  | last {s} : Balanced s → Free needle s → Parts needle s [s]
  | cut {before rest parts} : Balanced before → FirstCut needle before rest →
      Parts needle rest parts → Parts needle (before ++ needle ++ rest) (before :: parts)

theorem Parts.scan {needle : List Char} (hneedle : Operator needle) {s : List Char}
    {parts : List (List Char)} (h : Parts needle s parts) :
    scanTopLevel needle 0 0 none s = .ok parts := by
  induction h with
  | last hs hfree => exact scanTopLevel_free hneedle hs hfree
  | @cut before rest parts hbefore hfirst _ ih =>
    have happend := scanTopLevel_append hneedle (needle ++ rest) hbefore fun other after hcut => by
      rw [← List.append_assoc] at hcut
      exact hfirst other after hcut
    simp only [Level.top] at happend
    rw [List.append_assoc, happend, scanTopLevel_operator hneedle, ih]
    exact congrArg Except.ok ((growText_cons before [] parts).trans (by rw [List.append_nil]))

/-- What is read through is balanced. -/
theorem levelAfter_of_scan {needle : List Char} (hneedle : Operator needle) {skip : ℕ} {level : Level}
    {s : List Char} {parts : List (List Char)}
    (h : scanTopLevel needle skip level.depth level.quote s = .ok parts) :
    levelAfter level (s.drop skip) = some .top := by
  induction s generalizing skip level parts with
  | nil =>
    rw [List.drop_nil]
    have hnil : scanTopLevel needle 0 level.depth level.quote [] = .ok parts := by
      obtain ⟨d, _ | q⟩ := level <;> cases skip <;> exact h
    rw [((scanTopLevel_nil needle level parts).mp hnil).1]
    rfl
  | cons c s ih =>
    cases skip with
    | succ skip =>
      have hskip : scanTopLevel needle skip level.depth level.quote s = .ok parts := by
        obtain ⟨d, _ | q⟩ := level <;> exact h
      exact ih hskip
    | zero =>
      rw [scanTopLevel_cons hneedle] at h
      rw [List.drop_zero, levelAfter]
      cases hread : level.read c with
      | none =>
        rw [hread] at h
        cases h
      | some next =>
        rw [hread] at h
        dsimp only at h
        split_ifs at h with hfound
        · obtain ⟨parts', hparts', _⟩ := map_ok_iff.mp h
          have hrest : levelAfter .top _ = some .top := ih hparts'
          obtain ⟨rfl, after, hafter⟩ := hfound
          obtain ⟨d, rest, rfl⟩ := List.exists_cons_of_ne_nil hneedle.ne_nil
          obtain ⟨rfl, hs⟩ := List.cons.inj hafter
          obtain rfl : rest ++ after = s := hs
          rw [List.length_cons, Nat.add_sub_cancel, List.drop_left] at hrest
          have hwhole := levelAfter_append .top (d :: rest) after
          rw [hneedle.plain.balanced, Option.bind_some, hrest, List.cons_append, levelAfter, hread]
            at hwhole
          exact hwhole
        · obtain ⟨parts', hparts', _⟩ := map_ok_iff.mp h
          exact ih hparts'

theorem balanced_of_scan {needle : List Char} (hneedle : Operator needle) {s : List Char}
    {parts : List (List Char)} (h : scanTopLevel needle 0 0 none s = .ok parts) : Balanced s := by
  have hscan : scanTopLevel needle 0 Level.top.depth Level.top.quote s = .ok parts := h
  exact levelAfter_of_scan hneedle hscan

/-- A text that is not free has a first operator. -/
theorem exists_firstCut {needle s : List Char} (h : ¬ Free needle s) : ∃ before rest,
    s = before ++ needle ++ rest ∧ Balanced before ∧ FirstCut needle before rest := by
  classical
  have hcut : ∃ n before rest, s = before ++ needle ++ rest ∧ Balanced before ∧ before.length = n := by
    unfold Free at h
    push Not at h
    obtain ⟨before, rest, hs, hbefore⟩ := h
    exact ⟨_, before, rest, hs, hbefore, rfl⟩
  obtain ⟨before, rest, hs, hbefore, hlength⟩ := Nat.find_spec hcut
  refine ⟨before, rest, hs, hbefore, ?_⟩
  intro other after hother hshorter hlevel
  rw [hlength] at hshorter
  exact Nat.find_min hcut hshorter ⟨other, after, by rw [hs, hother], hlevel, rfl⟩

/-- The scan finds the parts, and only them. -/
theorem scan_ok_iff {needle : List Char} (hneedle : Operator needle) {s : List Char}
    {parts : List (List Char)} :
    scanTopLevel needle 0 0 none s = .ok parts ↔ Parts needle s parts := by
  refine ⟨fun h => ?_, fun h => h.scan hneedle⟩
  induction hlength : s.length using Nat.strong_induction_on generalizing s parts with
  | _ n ih =>
    by_cases hfree : Free needle s
    · have hs := balanced_of_scan hneedle h
      rw [scanTopLevel_free hneedle hs hfree] at h
      obtain rfl := Except.ok.inj h
      exact .last hs hfree
    · obtain ⟨before, rest, rfl, hbefore, hfirst⟩ := exists_firstCut hfree
      have happend := scanTopLevel_append hneedle (needle ++ rest) hbefore
        fun other after hcut => by
          rw [← List.append_assoc] at hcut
          exact hfirst other after hcut
      simp only [Level.top] at happend
      rw [List.append_assoc, happend, scanTopLevel_operator hneedle] at h
      obtain ⟨grown, hgrown, rfl⟩ := map_ok_iff.mp h
      obtain ⟨parts', hparts', rfl⟩ := map_ok_iff.mp hgrown
      rw [growText_cons, List.append_nil]
      refine .cut hbefore hfirst (ih rest.length ?_ hparts' rfl)
      have hpos := List.length_pos_iff.mpr hneedle.ne_nil
      rw [← hlength, List.length_append, List.length_append]
      omega

theorem Parts.ne_nil {needle s : List Char} {parts : List (List Char)} (h : Parts needle s parts) :
    parts ≠ [] := by
  cases h <;> simp

theorem Parts.balanced {needle s : List Char} (hneedle : Operator needle) {parts : List (List Char)}
    (h : Parts needle s parts) : Balanced s := by
  induction h with
  | last hs => exact hs
  | cut hbefore _ _ ih => exact (hbefore.append hneedle.plain.balanced).append ih

/-- A text is its parts with the operator between them. -/
theorem Parts.join {needle s : List Char} {parts : List (List Char)} (h : Parts needle s parts) :
    needle.intercalate parts = s := by
  induction h with
  | last => exact List.intercalate_singleton
  | @cut before rest parts _ _ hrest ih =>
    obtain ⟨part, more, rfl⟩ := List.exists_cons_of_ne_nil hrest.ne_nil
    rw [List.intercalate_cons_cons, ih, List.append_assoc]

/-- More than one part is each shorter than the text. -/
theorem Parts.shorter {needle s : List Char} (hneedle : Operator needle) {parts : List (List Char)}
    (h : Parts needle s parts) (hparts : parts.length > 1) : ∀ part ∈ parts, part.length < s.length := by
  have hpos := List.length_pos_iff.mpr hneedle.ne_nil
  have hle : ∀ {s parts}, Parts needle s parts → ∀ part ∈ parts, part.length ≤ s.length := by
    intro s parts h
    induction h with
    | last =>
      intro part hpart
      rw [List.mem_singleton.mp hpart]
    | @cut before rest parts _ _ _ ih =>
      intro part hpart
      rw [List.length_append, List.length_append]
      rcases List.mem_cons.mp hpart with rfl | hpart
      · omega
      · have := ih part hpart
        omega
  cases h with
  | last => simp at hparts
  | @cut before rest parts _ _ hrest =>
    intro part hpart
    rw [List.length_append, List.length_append]
    rcases List.mem_cons.mp hpart with rfl | hpart
    · omega
    · have := hle hrest part hpart
      omega

/-! ## White space around -/

/-- An operator of a text with white space around it is one of the text. -/
theorem exists_cut_of_white {needle : List Char} (hneedle : Operator needle)
    {before s after other more : List Char} (hbefore : AllWhite before) (hafter : AllWhite after)
    (hcut : before ++ s ++ after = other ++ needle ++ more) :
    ∃ other' more', other = before ++ other' ∧ s = other' ++ needle ++ more' := by
  rw [List.append_assoc] at hcut
  have hle := length_le_of_cut hneedle hbefore hcut
  obtain ⟨other', rfl⟩ : ∃ other', other = before ++ other' := by
    have hprefix : before <+: other ++ (needle ++ more) := by
      rw [← List.append_assoc, ← hcut]
      exact List.prefix_append before _
    have h := List.prefix_of_prefix_length_le hprefix (List.prefix_append other _) hle
    exact h.imp fun other' h => h.symm
  rw [List.append_assoc, List.append_assoc, List.append_cancel_left_eq, ← List.append_assoc] at hcut
  refine ⟨other', ?_⟩
  cases after with
  | nil => exact ⟨more, rfl, by rw [← hcut, List.append_nil]⟩
  | cons c after =>
    have hlength : other'.length ≤ s.length := by
      by_contra hlonger
      rw [List.append_assoc] at hcut
      rcases List.append_eq_append_iff.mp hcut with ⟨gap, _, hgap⟩ | ⟨gap, hs, _⟩
      · obtain ⟨d, hd⟩ := List.exists_mem_of_ne_nil needle hneedle.ne_nil
        have hnot := hneedle.not_white d hd
        rw [hafter d (by rw [hgap]; simp [hd])] at hnot
        cases hnot
      · rw [hs, List.length_append] at hlonger
        omega
    obtain ⟨more', hs⟩ := cut_before_white hneedle (hafter c List.mem_cons_self) hcut hlength
    exact ⟨more', rfl, hs⟩

theorem free_white {needle : List Char} (hneedle : Operator needle) {before s after : List Char}
    (hbefore : AllWhite before) (hafter : AllWhite after) (h : Free needle s) :
    Free needle (before ++ s ++ after) := by
  intro other more hcut hlevel
  obtain ⟨other', more', rfl, hs⟩ := exists_cut_of_white hneedle hbefore hafter hcut
  rw [levelAfter_append, (plain_of_white hbefore).balanced] at hlevel
  exact h other' more' hs hlevel

theorem firstCut_white {needle : List Char} (hneedle : Operator needle)
    {white before rest after : List Char} (hwhite : AllWhite white) (hafter : AllWhite after)
    (h : FirstCut needle before rest) : FirstCut needle (white ++ before) (rest ++ after) := by
  intro other more hcut hlength hlevel
  have hcut' : white ++ (before ++ needle ++ rest) ++ after = other ++ needle ++ more := by
    rw [← hcut]
    simp
  obtain ⟨other', more', rfl, hs⟩ := exists_cut_of_white hneedle hwhite hafter hcut'
  rw [levelAfter_append, (plain_of_white hwhite).balanced] at hlevel
  exact h other' more' hs (by simpa using hlength) hlevel

/-- White space behind the last part. -/
def growLast (white : List Char) : List (List Char) → List (List Char)
  | [] => []
  | [part] => [part ++ white]
  | part :: next :: parts => part :: growLast white (next :: parts)

theorem Parts.white_left {needle : List Char} (hneedle : Operator needle) {white s part : List Char}
    {parts : List (List Char)} (hwhite : AllWhite white) (h : Parts needle s (part :: parts)) :
    Parts needle (white ++ s) ((white ++ part) :: parts) := by
  cases h with
  | last hs hfree =>
    have hfree' := free_white hneedle hwhite AllWhite.nil hfree
    rw [List.append_nil] at hfree'
    exact .last ((plain_of_white hwhite).balanced.append hs) hfree'
  | @cut _ rest _ hpart hfirst hrest =>
    have hfirst' := firstCut_white hneedle hwhite AllWhite.nil hfirst
    rw [List.append_nil] at hfirst'
    have h := Parts.cut ((plain_of_white hwhite).balanced.append hpart) hfirst' hrest
    simpa using h

theorem Parts.white_right {needle : List Char} (hneedle : Operator needle) {white s : List Char}
    {parts : List (List Char)} (hwhite : AllWhite white) (h : Parts needle s parts) :
    Parts needle (s ++ white) (growLast white parts) := by
  induction h with
  | last hs hfree =>
    have hfree' := free_white hneedle AllWhite.nil hwhite hfree
    rw [List.nil_append] at hfree'
    exact .last (hs.append (plain_of_white hwhite).balanced) hfree'
  | @cut before rest parts hbefore hfirst hrest ih =>
    obtain ⟨part, more, rfl⟩ := List.exists_cons_of_ne_nil hrest.ne_nil
    have hfirst' := firstCut_white hneedle AllWhite.nil hwhite hfirst
    rw [List.nil_append] at hfirst'
    rw [List.append_assoc]
    exact .cut hbefore hfirst' ih

theorem map_trim_growLast {white : List Char} (hwhite : AllWhite white) (parts : List (List Char)) :
    (growLast white parts).map trim = parts.map trim := by
  fun_induction growLast white parts with
  | case1 => rfl
  | case2 part =>
    have h := trim_white_append (s := part) AllWhite.nil hwhite
    rw [List.nil_append] at h
    rw [List.map_singleton, List.map_singleton, h]
  | case3 part next parts ih =>
    rw [List.map_cons, ih]
    rfl

theorem length_growLast (white : List Char) (parts : List (List Char)) :
    (growLast white parts).length = parts.length := by
  fun_induction growLast white parts with
  | case1 => rfl
  | case2 => rfl
  | case3 part next parts ih =>
    rw [List.length_cons, ih]
    rfl

theorem join_growLast (needle white : List Char) {parts : List (List Char)} (h : parts ≠ []) :
    needle.intercalate (growLast white parts) = needle.intercalate parts ++ white := by
  fun_induction growLast white parts with
  | case1 => exact absurd rfl h
  | case2 part => rw [List.intercalate_singleton, List.intercalate_singleton]
  | case3 part next parts ih =>
    obtain ⟨first, rest, hgrown⟩ : ∃ first rest, growLast white (next :: parts) = first :: rest := by
      cases parts with
      | nil => exact ⟨_, _, rfl⟩
      | cons => exact ⟨_, _, rfl⟩
    have ih' := ih (by simp)
    rw [hgrown] at ih' ⊢
    rw [List.intercalate_cons_cons, ih', List.intercalate_cons_cons]
    simp

/-! ## The parser -/

theorem operator_of_marks {needle : List Char} (hne : needle ≠ [])
    (hmarks : ∀ c ∈ needle, c ∈ ['|', '&', '!', '=']) : Operator needle := by
  have hmark : ∀ c ∈ ['|', '&', '!', '='],
      (isQuote c = false ∧ c ≠ '(' ∧ c ≠ ')') ∧ isWhitespace c = false := by
    intro c hc
    simp only [List.mem_cons, List.not_mem_nil, or_false] at hc
    rcases hc with rfl | rfl | rfl | rfl <;> exact ⟨by decide, by decide⟩
  exact ⟨hne, fun c hc => (hmark c (hmarks c hc)).1, fun c hc => (hmark c (hmarks c hc)).2⟩

theorem operator_or : Operator ['|', '|'] := operator_of_marks (by simp) (by simp)

theorem operator_and : Operator ['&', '&'] := operator_of_marks (by simp) (by simp)

theorem operator_notEqual : Operator ['!', '='] := operator_of_marks (by simp) (by simp)

theorem operator_equal : Operator ['=', '='] := operator_of_marks (by simp) (by simp)

theorem Parts.splitTopLevel {needle s : List Char} (hneedle : Operator needle)
    {parts : List (List Char)} (h : Parts needle s parts) :
    splitTopLevel s needle =
      if parts.length ≤ 1 then .ok [s]
      else if (parts.map trim).any List.isEmpty then .error (.EmptyOperand needle)
      else .ok (parts.map trim) := by
  rw [condition_expr.splitTopLevel, h.scan hneedle, ok_bind]
  dsimp only
  split_ifs <;> rfl

theorem exists_parts_of_splitTopLevel {needle s : List Char} (hneedle : Operator needle)
    {found : List (List Char)} (h : splitTopLevel s needle = .ok found) :
    ∃ parts, Parts needle s parts := by
  rw [splitTopLevel, bind_ok_iff] at h
  obtain ⟨parts, hparts, _⟩ := h
  exact ⟨parts, (scan_ok_iff hneedle).mp hparts⟩

/-- The operands that the parser goes on with are shorter than the text. -/
theorem shorter_of_splitTopLevel {needle s : List Char} (hneedle : Operator needle)
    {found : List (List Char)} (h : splitTopLevel s needle = .ok found) (hfound : found.length > 1) :
    ∀ part ∈ found, part.length < s.length := by
  obtain ⟨parts, hparts⟩ := exists_parts_of_splitTopLevel hneedle h
  rw [hparts.splitTopLevel hneedle] at h
  split_ifs at h with hone hempty
  · obtain rfl := Except.ok.inj h
    simp at hfound
  · obtain rfl := Except.ok.inj h
    intro part hpart
    obtain ⟨part', hpart', rfl⟩ := List.mem_map.mp hpart
    exact lt_of_le_of_lt (length_trim_le part') (hparts.shorter hneedle (by omega) part' hpart')

/-- The parser behind the outer parentheses. `recurse` parses the operands. -/
def parseInside (recurse : List Char → Except ParseError Expr) (input : List Char) :
    Except ParseError Expr := do
  let orParts ← splitTopLevel input ['|', '|']
  if orParts.length > 1 then return .Or (← orParts.mapM recurse)
  let andParts ← splitTopLevel input ['&', '&']
  if andParts.length > 1 then return .And (← andParts.mapM recurse)
  if input.head? = some '!' then return .Not (← recurse input.tail)
  match ← splitComparison input with
  | some comparison =>
    return if comparison.operator = ['=', '='] then .Equal comparison.left comparison.right
      else .NotEqual comparison.left comparison.right
  | none => return .Atom input

theorem parseFuel_succ (fuel : ℕ) (text : List Char) : parseFuel (fuel + 1) text =
    if (trim text).isEmpty then .error .Empty
    else stripOuterParentheses (trim text) >>= parseInside (parseFuel fuel) := by
  rw [parseFuel]
  dsimp only
  split_ifs <;> rfl

theorem parseInside_congr {f g : List Char → Except ParseError Expr} {input : List Char}
    (h : ∀ s : List Char, s.length < input.length → f s = g s) :
    parseInside f input = parseInside g input := by
  have hparts : ∀ needle found, Operator needle → splitTopLevel input needle = .ok found →
      found.length > 1 → found.mapM f = found.mapM g := by
    intro needle found hneedle hfound hmore
    exact mapM_congr fun part hpart =>
      h part (shorter_of_splitTopLevel hneedle hfound hmore part hpart)
  unfold parseInside
  cases hor : splitTopLevel input ['|', '|'] with
  | error e => rfl
  | ok orParts =>
    rw [ok_bind, ok_bind]
    split
    · rename_i hmore
      rw [hparts _ _ operator_or hor hmore]
    · cases hand : splitTopLevel input ['&', '&'] with
      | error e => rfl
      | ok andParts =>
        rw [ok_bind, ok_bind]
        split
        · rename_i hmore
          rw [hparts _ _ operator_and hand hmore]
        · split
          · rename_i hnot
            obtain ⟨rest, rfl⟩ := List.head?_eq_some_iff.mp hnot
            rw [List.tail_cons, h rest (by simp)]
          · rfl

theorem length_stripOuter_le {s stripped : List Char} (h : stripOuterParentheses s = .ok stripped) :
    stripped.length ≤ s.length := by
  induction hlength : s.length using Nat.strong_induction_on generalizing s with
  | _ n ih =>
    rcases stripOuter_ok h with ⟨_, rfl⟩ | ⟨inside, after, _, rfl, ⟨_, hinside⟩ | ⟨_, rfl⟩⟩
    · exact hlength.le
    · have hshorter : inside.length < n := by
        rw [← hlength]
        simp
      exact le_trans (ih _ hshorter hinside rfl) hshorter.le
    · exact hlength.le

/-- More fuel than characters changes nothing. -/
theorem parseFuel_stable {fuel more : ℕ} {s : List Char} (h : s.length < fuel)
    (hmore : s.length < more) : parseFuel fuel s = parseFuel more s := by
  induction fuel generalizing more s with
  | zero => omega
  | succ fuel ih =>
    obtain ⟨more, rfl⟩ := Nat.exists_eq_succ_of_ne_zero (Nat.ne_zero_of_lt hmore)
    rw [parseFuel_succ, parseFuel_succ]
    split
    · rfl
    · cases hstrip : stripOuterParentheses (trim s) with
      | error e => rfl
      | ok input =>
        rw [ok_bind, ok_bind]
        refine parseInside_congr fun part hpart => ih ?_ ?_
        · have := length_stripOuter_le hstrip
          have := length_trim_le s
          omega
        · have := length_stripOuter_le hstrip
          have := length_trim_le s
          omega

/-- The parser without its fuel. -/
theorem parse_eq (text : List Char) : parse text =
    if (trim text).isEmpty then .error .Empty
    else stripOuterParentheses (trim text) >>= parseInside parse := by
  rw [parse, parseFuel_succ]
  split
  · rfl
  · cases hstrip : stripOuterParentheses (trim text) with
    | error e => rfl
    | ok input =>
      rw [ok_bind, ok_bind]
      refine parseInside_congr fun part hpart => parseFuel_stable ?_ (Nat.lt_succ_self _)
      have := length_stripOuter_le hstrip
      have := length_trim_le text
      omega

end condition_expr
