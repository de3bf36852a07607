-- Parentheses and white space around a condition: when they change nothing, and
-- which operands keep white space at their ends.
import NixosDockers.ConditionExpr.RoundTrip

open rust_text results

namespace condition_expr

/-! ## What a parsed text is -/

/-- A text is taken apart at an operator, or has none and stays. -/
theorem splitTopLevel_ok_iff {operator s : List Char} (hoperator : Operator operator)
    {found : List (List Char)} : splitTopLevel s operator = .ok found ↔
      (Balanced s ∧ Free operator s ∧ found = [s]) ∨
      ∃ parts, Parts operator s parts ∧ 1 < parts.length ∧ (∀ part ∈ parts, trim part ≠ []) ∧
        found = parts.map trim := by
  constructor
  · intro h
    obtain ⟨parts, hparts⟩ := exists_parts_of_splitTopLevel hoperator h
    rw [hparts.splitTopLevel hoperator] at h
    split_ifs at h with hone hempty
    · obtain rfl := Except.ok.inj h
      cases hparts with
      | last hs hfree => exact Or.inl ⟨hs, hfree, rfl⟩
      | @cut _ rest parts _ _ hrest =>
        have := List.length_pos_iff.mpr hrest.ne_nil
        rw [List.length_cons] at hone
        omega
    · obtain rfl := Except.ok.inj h
      refine Or.inr ⟨parts, hparts, by omega, ?_, rfl⟩
      intro part hpart htrim
      rw [Bool.not_eq_true, List.any_eq_false] at hempty
      exact hempty (trim part) (List.mem_map_of_mem hpart) (by rw [htrim]; rfl)
  · rintro (⟨hs, hfree, rfl⟩ | ⟨parts, hparts, hmore, hempty, rfl⟩)
    · exact splitTopLevel_free hoperator hs hfree
    · rw [hparts.splitTopLevel hoperator, if_neg (by omega), if_neg]
      rw [Bool.not_eq_true, List.any_eq_false]
      intro part hpart
      obtain ⟨part', hpart', rfl⟩ := List.mem_map.mp hpart
      rw [List.isEmpty_iff]
      exact hempty part' hpart'

/-- A text with more than one part has an operator at its top level. -/
theorem Parts.not_free {needle s : List Char} {parts : List (List Char)} (h : Parts needle s parts)
    (hmore : 1 < parts.length) : ¬ Free needle s := by
  cases h with
  | last => simp at hmore
  | cut hbefore _ _ => exact fun hfree => hfree _ _ rfl hbefore

theorem not_free_of_more {operator s : List Char} (hoperator : Operator operator)
    {parts : List (List Char)} (hparts : splitTopLevel s operator = .ok parts)
    (hmore : 1 < parts.length) : ¬ Free operator s := by
  rcases (splitTopLevel_ok_iff hoperator).mp hparts with ⟨_, _, rfl⟩ | ⟨_, hfound, hlength, _, _⟩
  · simp at hmore
  · exact hfound.not_free hlength

/-- The forms that a text has behind its outer parentheses. -/
inductive Form (s : List Char) : Expr → Prop where
  | Or {parts children} : splitTopLevel s ['|', '|'] = .ok parts → 1 < parts.length →
      List.Forall₂ (fun part child => parse part = .ok child) parts children → Form s (.Or children)
  | And {parts children} : Free ['|', '|'] s → splitTopLevel s ['&', '&'] = .ok parts →
      1 < parts.length → List.Forall₂ (fun part child => parse part = .ok child) parts children →
      Form s (.And children)
  | Not {rest child} : Free ['|', '|'] s → Free ['&', '&'] s → s = '!' :: rest →
      parse rest = .ok child → Form s (.Not child)
  | Comparison {comparison} : Free ['|', '|'] s → Free ['&', '&'] s → s.head? ≠ some '!' →
      splitComparison s = .ok (some comparison) →
      Form s (if comparison.operator = ['=', '='] then .Equal comparison.left comparison.right
        else .NotEqual comparison.left comparison.right)
  | Atom : Free ['|', '|'] s → Free ['&', '&'] s → s.head? ≠ some '!' →
      splitComparison s = .ok none → Form s (.Atom s)

theorem balanced_of_parseInside {s : List Char} {e : Expr} (h : parseInside parse s = .ok e) :
    Balanced s := by
  rw [parseInside, bind_ok_iff] at h
  obtain ⟨found, hfound, _⟩ := h
  obtain ⟨parts, hparts⟩ := exists_parts_of_splitTopLevel operator_or hfound
  exact hparts.balanced operator_or

theorem parseInside_ok_iff {s : List Char} {e : Expr} :
    parseInside parse s = .ok e ↔ Balanced s ∧ Form s e := by
  constructor
  · intro h
    have hs := balanced_of_parseInside h
    refine ⟨hs, ?_⟩
    by_cases hor : Free ['|', '|'] s
    · by_cases hand : Free ['&', '&'] s
      · rw [parseInside_free hs hor hand] at h
        split_ifs at h with hnot
        · obtain ⟨rest, rfl⟩ := List.head?_eq_some_iff.mp hnot
          obtain ⟨child, hchild, rfl⟩ := map_ok_iff.mp h
          exact .Not hor hand rfl hchild
        · obtain ⟨found, hfound, rfl⟩ := map_ok_iff.mp h
          cases found with
          | none => exact .Atom hor hand hnot hfound
          | some comparison => exact .Comparison hor hand hnot hfound
      · rw [parseInside, splitTopLevel_free operator_or hs hor, ok_bind, if_neg (by simp),
          bind_ok_iff] at h
        obtain ⟨parts, hparts, h⟩ := h
        rcases (splitTopLevel_ok_iff operator_and).mp hparts with ⟨_, hfree, _⟩ | ⟨found, _, hmore, _, rfl⟩
        · exact absurd hfree hand
        · have hlength : (found.map trim).length > 1 := by rwa [List.length_map]
          rw [if_pos hlength, bind_ok_iff] at h
          obtain ⟨children, hchildren, hand⟩ := h
          obtain rfl := pure_ok_iff.mp hand
          exact .And hor hparts hlength (mapM_ok_iff.mp hchildren)
    · rw [parseInside, bind_ok_iff] at h
      obtain ⟨parts, hparts, h⟩ := h
      rcases (splitTopLevel_ok_iff operator_or).mp hparts with ⟨_, hfree, _⟩ | ⟨found, _, hmore, _, rfl⟩
      · exact absurd hfree hor
      · have hlength : (found.map trim).length > 1 := by rwa [List.length_map]
        rw [if_pos hlength, bind_ok_iff] at h
        obtain ⟨children, hchildren, hor⟩ := h
        obtain rfl := pure_ok_iff.mp hor
        exact .Or hparts hlength (mapM_ok_iff.mp hchildren)
  · rintro ⟨hs, hform⟩
    cases hform with
    | Or hparts hmore hchildren =>
      rw [parseInside, hparts, ok_bind, if_pos hmore, mapM_ok_iff.mpr hchildren]
      rfl
    | And hor hparts hmore hchildren =>
      rw [parseInside, splitTopLevel_free operator_or hs hor, ok_bind, if_neg (by simp), hparts,
        ok_bind, if_pos hmore, mapM_ok_iff.mpr hchildren]
      rfl
    | Not hor hand hnot hchild =>
      subst hnot
      rw [parseInside_free hs hor hand, if_pos List.head?_cons, List.tail_cons, hchild]
      rfl
    | Comparison hor hand hnot hfound =>
      rw [parseInside_free hs hor hand, if_neg hnot, hfound]
      rfl
    | Atom hor hand hnot hfound =>
      rw [parseInside_free hs hor hand, if_neg hnot, hfound]
      rfl

/-! ## White space around a text -/

section White

variable {before after : List Char}

theorem trim_white_left (hbefore : AllWhite before) (s : List Char) : trim (before ++ s) = trim s := by
  have h := trim_white_append (s := s) hbefore AllWhite.nil
  rwa [List.append_nil] at h

theorem trim_white_right (hafter : AllWhite after) (s : List Char) : trim (s ++ after) = trim s :=
  trim_white_append (s := s) AllWhite.nil hafter

/-- Operands are trimmed, so white space around the text does not show in them. -/
theorem splitTopLevel_white (hbefore : AllWhite before) (hafter : AllWhite after)
    {operator s : List Char} (hoperator : Operator operator) {found : List (List Char)}
    (h : splitTopLevel s operator = .ok found) (hmore : 1 < found.length) :
    splitTopLevel (before ++ s ++ after) operator = .ok found := by
  rcases (splitTopLevel_ok_iff hoperator).mp h with ⟨_, _, rfl⟩ | ⟨parts, hparts, hlength, hempty, rfl⟩
  · simp at hmore
  · obtain ⟨first, more, rfl⟩ := List.exists_cons_of_ne_nil hparts.ne_nil
    have hwhite := (hparts.white_left hoperator hbefore).white_right hoperator hafter
    have htrim : (growLast after ((before ++ first) :: more)).map trim = (first :: more).map trim := by
      rw [map_trim_growLast hafter, List.map_cons, trim_white_left hbefore, List.map_cons]
    refine (splitTopLevel_ok_iff hoperator).mpr (Or.inr ⟨_, hwhite, ?_, ?_, htrim.symm⟩)
    · rw [length_growLast]
      exact hlength
    · intro part hpart hnil
      have hmem := List.mem_map_of_mem (f := trim) hpart
      rw [htrim, hnil] at hmem
      obtain ⟨part', hpart', hnil'⟩ := List.mem_map.mp hmem
      exact hempty part' hpart' hnil'

theorem splitComparisonAt_some_white (hbefore : AllWhite before) (hafter : AllWhite after)
    {operator s : List Char} (hoperator : Operator operator) {comparison : Comparison}
    (h : splitComparisonAt s operator = .ok (some comparison)) :
    splitComparisonAt (before ++ s ++ after) operator = .ok (some comparison) := by
  rw [splitComparisonAt, bind_ok_iff] at h
  obtain ⟨parts, hscan, h⟩ := h
  have hparts := (scan_ok_iff hoperator).mp hscan
  rcases parts with _ | ⟨first, _ | ⟨part, more⟩⟩
  · exact absurd rfl hparts.ne_nil
  · cases h
  · have hwhite := (hparts.white_left hoperator hbefore).white_right hoperator hafter
    have hscan' := hwhite.scan hoperator
    have hgrown : growLast after ((before ++ first) :: part :: more) =
        (before ++ first) :: growLast after (part :: more) := rfl
    obtain ⟨last, rest, hlast⟩ : ∃ last rest, growLast after (part :: more) = last :: rest := by
      cases more with
      | nil => exact ⟨_, _, rfl⟩
      | cons => exact ⟨_, _, rfl⟩
    have hright : trim (operator.intercalate (last :: rest)) =
        trim (operator.intercalate (part :: more)) := by
      rw [← hlast, join_growLast operator after (by simp), trim_white_right hafter]
    rw [splitComparisonAt, hscan', ok_bind, hgrown, hlast]
    dsimp only at h ⊢
    rw [trim_white_left hbefore, hright]
    split_ifs at h ⊢ with hempty
    · cases h
    · exact h

theorem splitComparisonAt_none_iff {operator s : List Char} (hoperator : Operator operator) :
    splitComparisonAt s operator = .ok none ↔ Balanced s ∧ Free operator s := by
  constructor
  · intro h
    rw [splitComparisonAt, bind_ok_iff] at h
    obtain ⟨parts, hscan, h⟩ := h
    have hparts := (scan_ok_iff hoperator).mp hscan
    cases hparts with
    | last hs hfree => exact ⟨hs, hfree⟩
    | @cut first rest parts _ _ hrest =>
      obtain ⟨part, more, rfl⟩ := List.exists_cons_of_ne_nil hrest.ne_nil
      dsimp only at h
      split_ifs at h
      all_goals cases h
  · exact fun h => splitComparisonAt_free hoperator h.1 h.2

theorem splitComparison_none_iff {s : List Char} :
    splitComparison s = .ok none ↔ Balanced s ∧ Free ['!', '='] s ∧ Free ['=', '='] s := by
  constructor
  · intro h
    rw [splitComparison, bind_ok_iff] at h
    obtain ⟨found, hfound, h⟩ := h
    cases found with
    | some comparison => cases h
    | none =>
      have hnotEqual := (splitComparisonAt_none_iff operator_notEqual).mp hfound
      exact ⟨hnotEqual.1, hnotEqual.2, ((splitComparisonAt_none_iff operator_equal).mp h).2⟩
  · rintro ⟨hs, hnotEqual, hequal⟩
    rw [splitComparison, splitComparisonAt_free operator_notEqual hs hnotEqual]
    exact splitComparisonAt_free operator_equal hs hequal

theorem splitComparison_some_white (hbefore : AllWhite before) (hafter : AllWhite after)
    {s : List Char} {comparison : Comparison} (h : splitComparison s = .ok (some comparison)) :
    splitComparison (before ++ s ++ after) = .ok (some comparison) := by
  rw [splitComparison, bind_ok_iff] at h
  obtain ⟨found, hfound, h⟩ := h
  cases found with
  | some other =>
    obtain rfl := Option.some.inj (pure_ok_iff.mp h)
    rw [splitComparison, splitComparisonAt_some_white hbefore hafter operator_notEqual hfound]
    rfl
  | none =>
    obtain ⟨hs, hfree⟩ := (splitComparisonAt_none_iff operator_notEqual).mp hfound
    have hbalanced : Balanced (before ++ s ++ after) :=
      ((plain_of_white hbefore).balanced.append hs).append (plain_of_white hafter).balanced
    rw [splitComparison, splitComparisonAt_free operator_notEqual hbalanced
      (free_white operator_notEqual hbefore hafter hfree), ok_bind]
    exact splitComparisonAt_some_white hbefore hafter operator_equal h

end White

/-! ## Parentheses around a text -/

/-- White space at the front of a text. -/
def leading (s : List Char) : List Char := s.takeWhile isWhitespace

/-- White space at the end of a text. -/
def trailing (s : List Char) : List Char := (s.dropWhile isWhitespace).rtakeWhile isWhitespace

theorem allWhite_leading (s : List Char) : AllWhite (leading s) := fun _ => List.mem_takeWhile_imp

theorem allWhite_trailing (s : List Char) : AllWhite (trailing s) := fun _ => List.mem_rtakeWhile_imp

theorem leading_trim_trailing (s : List Char) : leading s ++ trim s ++ trailing s = s := by
  unfold leading trailing trim trimMatches
  rw [List.append_assoc, List.rdropWhile_append_rtakeWhile, List.takeWhile_append_dropWhile]

/-- When white space around a trimmed text does not show behind parentheses: a group must begin
right there, and so must a negation; an atom must have no white space at all. Operands and sides of
comparisons are trimmed. -/
def Transparent (before text after : List Char) : Prop :=
  (Enclosed text ∧ before = []) ∨
  (¬ Enclosed text ∧
    (¬ Free ['|', '|'] text ∨ ¬ Free ['&', '&'] text ∨
      (text.head? = some '!' ∧ before = []) ∨
      (text.head? ≠ some '!' ∧ (¬ Free ['!', '='] text ∨ ¬ Free ['=', '='] text)) ∨
      (before = [] ∧ after = [])))

section Around

variable {before after text : List Char} {e : Expr}

theorem head_white (hbefore : AllWhite before) (hne : before ≠ []) {c : Char}
    (hc : isWhitespace c = false) (s : List Char) : (before ++ s).head? ≠ some c := by
  obtain ⟨d, rest, rfl⟩ := List.exists_cons_of_ne_nil hne
  intro h
  obtain rfl : d = c := Option.some.inj h
  rw [hbefore d List.mem_cons_self] at hc
  cases hc

theorem head_surrounded (hbefore : AllWhite before) (hafter : AllWhite after)
    (h : text.head? ≠ some '!') : (before ++ text ++ after).head? ≠ some '!' := by
  by_cases hnil : before = []
  · subst hnil
    rw [List.nil_append]
    cases text with
    | nil =>
      by_cases hempty : after = []
      · rw [hempty]
        exact h
      · have hwhite := head_white hafter hempty (c := '!') (by decide) []
        rwa [List.append_nil] at hwhite
    | cons c text => exact h
  · rw [List.append_assoc]
    exact head_white hbefore hnil (by decide) _

/-- A form of an atom is the atom of the text, and one of a negation begins with its mark. -/
theorem Form.of_atom {s t : List Char} (h : Form s (.Atom t)) : t = s := by
  generalize he : Expr.Atom t = e at h
  cases h with
  | Atom => exact Expr.Atom.inj he
  | Comparison => split_ifs at he
  | _ => cases he

theorem Form.of_not {s : List Char} {child : Expr} (h : Form s (.Not child)) : s.head? = some '!' := by
  generalize he : Expr.Not child = e at h
  cases h with
  | Not _ _ hs => rw [hs, List.head?_cons]
  | Comparison => split_ifs at he
  | _ => cases he

/-- White space around a text that is no group. -/
theorem parseInside_white_iff (hbefore : AllWhite before) (hafter : AllWhite after)
    (h : parseInside parse text = .ok e) :
    parseInside parse (before ++ text ++ after) = .ok e ↔
      ¬ Free ['|', '|'] text ∨ ¬ Free ['&', '&'] text ∨
      (text.head? = some '!' ∧ before = []) ∨
      (text.head? ≠ some '!' ∧ (¬ Free ['!', '='] text ∨ ¬ Free ['=', '='] text)) ∨
      (before = [] ∧ after = []) := by
  obtain ⟨hs, hform⟩ := parseInside_ok_iff.mp h
  have hbalanced : Balanced (before ++ text ++ after) :=
    ((plain_of_white hbefore).balanced.append hs).append (plain_of_white hafter).balanced
  cases hform with
  | Or hparts hmore hchildren =>
    have hfree := not_free_of_more operator_or hparts hmore
    refine iff_of_true ?_ (Or.inl hfree)
    exact parseInside_ok_iff.mpr ⟨hbalanced,
      .Or (splitTopLevel_white hbefore hafter operator_or hparts hmore) hmore hchildren⟩
  | And hor hparts hmore hchildren =>
    have hfree := not_free_of_more operator_and hparts hmore
    refine iff_of_true ?_ (Or.inr (Or.inl hfree))
    exact parseInside_ok_iff.mpr ⟨hbalanced,
      .And (free_white operator_or hbefore hafter hor)
        (splitTopLevel_white hbefore hafter operator_and hparts hmore) hmore hchildren⟩
  | @Not rest child hor hand hnot hchild =>
    subst hnot
    constructor
    · intro hsurrounded
      refine Or.inr (Or.inr (Or.inl ⟨rfl, ?_⟩))
      by_contra hne
      have hhead := (parseInside_ok_iff.mp hsurrounded).2.of_not
      rw [List.append_assoc] at hhead
      exact head_white hbefore hne (by decide) _ hhead
    · intro hcases
      obtain rfl : before = [] := by
        rcases hcases with hfree | hfree | ⟨_, hnil⟩ | ⟨hhead, _⟩ | ⟨hnil, _⟩
        · exact absurd hor hfree
        · exact absurd hand hfree
        · exact hnil
        · exact absurd rfl hhead
        · exact hnil
      have hrest : parse (rest ++ after) = .ok child := by
        rw [parse_eq, trim_white_right hafter, ← parse_eq, hchild]
      exact parseInside_ok_iff.mpr ⟨hbalanced, .Not (free_white operator_or hbefore hafter hor)
        (free_white operator_and hbefore hafter hand) rfl hrest⟩
  | @Comparison comparison hor hand hnot hfound =>
    have hcompared : ¬ Free ['!', '='] text ∨ ¬ Free ['=', '='] text := by
      by_contra hfree
      rw [not_or, not_not, not_not] at hfree
      rw [splitComparison_none_iff.mpr ⟨hs, hfree⟩] at hfound
      cases hfound
    refine iff_of_true ?_ (Or.inr (Or.inr (Or.inr (Or.inl ⟨hnot, hcompared⟩))))
    exact parseInside_ok_iff.mpr ⟨hbalanced, .Comparison (free_white operator_or hbefore hafter hor)
      (free_white operator_and hbefore hafter hand) (head_surrounded hbefore hafter hnot)
      (splitComparison_some_white hbefore hafter hfound)⟩
  | Atom hor hand hnot hfound =>
    constructor
    · intro hsurrounded
      have hsame := (parseInside_ok_iff.mp hsurrounded).2.of_atom
      have hlength := congrArg List.length hsame
      rw [List.length_append, List.length_append] at hlength
      refine Or.inr (Or.inr (Or.inr (Or.inr ⟨?_, ?_⟩)))
      · exact List.length_eq_zero_iff.mp (by omega)
      · exact List.length_eq_zero_iff.mp (by omega)
    · rintro (hfree | hfree | ⟨hhead, _⟩ | ⟨_, hfree⟩ | ⟨rfl, rfl⟩)
      · exact absurd hor hfree
      · exact absurd hand hfree
      · exact absurd hhead hnot
      · obtain ⟨_, hnotEqual, hequal⟩ := splitComparison_none_iff.mp hfound
        exact hfree.elim (absurd hnotEqual) (absurd hequal)
      · rwa [List.nil_append, List.append_nil]

/-- A group behind white space is an atom with its parentheses. -/
theorem parseInside_group (hbefore : AllWhite before) (hafter : AllWhite after) (h : Enclosed text) :
    parseInside parse (before ++ text ++ after) = .ok (.Atom (before ++ text ++ after)) := by
  have hfree : ∀ {operator}, Operator operator → Free operator (before ++ text ++ after) :=
    fun hoperator => free_white hoperator hbefore hafter (enclosed_free hoperator h)
  obtain ⟨inside, hinside, rfl⟩ := h
  have hs : Balanced (before ++ ('(' :: inside ++ [')']) ++ after) :=
    ((plain_of_white hbefore).balanced.append hinside.parenthesised).append
      (plain_of_white hafter).balanced
  rw [parseInside_ok_iff]
  exact ⟨hs, .Atom (hfree operator_or) (hfree operator_and)
    (head_surrounded hbefore hafter (by simp))
    (splitComparison_none_iff.mpr ⟨hs, hfree operator_notEqual, hfree operator_equal⟩)⟩

theorem stripOuter_white (hbefore : AllWhite before) (hne : before ≠ []) (s : List Char) :
    stripOuterParentheses (before ++ s) = .ok (before ++ s) :=
  stripOuter_other (head_white hbefore hne (by decide) s)

/-- A text that is no group is none with white space behind it. -/
theorem stripOuter_not_group (hafter : AllWhite after) (htrimmed : Trimmed text) (hs : Balanced text)
    (h : ¬ Enclosed text) : stripOuterParentheses (text ++ after) = .ok (text ++ after) := by
  rcases stripOuter_ok (stripOuter_of_not_enclosed htrimmed hs h) with
    ⟨hopen, _⟩ | ⟨inside, rest, hinside, rfl, ⟨_, hstripped⟩ | ⟨hrest, _⟩⟩
  · cases text with
    | nil =>
      by_cases hnil : after = []
      · rw [hnil]
        rfl
      · have hwhite := head_white hafter hnil (c := '(') (by decide) []
        rw [List.append_nil] at hwhite
        exact stripOuter_other hwhite
    | cons c text => exact stripOuter_other hopen
  · have hlength := length_stripOuter_le hstripped
    rw [List.length_append, List.length_cons] at hlength
    omega
  · rw [List.append_assoc, List.cons_append]
    refine stripOuter_more hinside fun hwhite => hrest ?_
    exact (allWhite_append.mp hwhite).1

/-- What is parsed of a trimmed text with white space around it, in parentheses. -/
theorem parse_surrounded_iff (hbefore : AllWhite before) (hafter : AllWhite after)
    (htrimmed : Trimmed text) (hs : Balanced text) {stripped : List Char}
    (hstripped : stripOuterParentheses text = .ok stripped)
    (hparsed : parseInside parse stripped = .ok e) :
    stripOuterParentheses (before ++ text ++ after) >>= parseInside parse = .ok e ↔
      Transparent before text after := by
  by_cases henclosed : Enclosed text
  · have hgroup : Transparent before text after ↔ before = [] := by
      simp only [Transparent, henclosed, true_and, not_true_eq_false, false_and, or_false]
    rw [hgroup]
    by_cases hnil : before = []
    · obtain ⟨inside, hinside, rfl⟩ := henclosed
      have hinner := stripOuter_group hinside AllWhite.nil
      rw [hstripped] at hinner
      have hsame : before ++ ('(' :: inside ++ [')']) ++ after = '(' :: inside ++ ')' :: after := by
        rw [hnil]
        simp
      rw [hsame, stripOuter_group hinside hafter, ← hinner, ok_bind]
      exact iff_of_true hparsed hnil
    · refine iff_of_false ?_ hnil
      rw [List.append_assoc, stripOuter_white hbefore hnil, ok_bind, ← List.append_assoc,
        parseInside_group hbefore hafter henclosed]
      intro he
      obtain rfl := Except.ok.inj he
      have hsame := (parseInside_ok_iff.mp hparsed).2.of_atom
      obtain ⟨inside, hinside, rfl⟩ := henclosed
      have hinner := stripOuter_group hinside AllWhite.nil
      rw [hstripped] at hinner
      have hlength := length_stripOuter_le hinner.symm
      rw [← hsame] at hlength
      simp only [List.length_append, List.length_cons] at hlength
      omega
  · obtain rfl := Except.ok.inj ((stripOuter_of_not_enclosed htrimmed hs henclosed).symm.trans hstripped)
    have hstrip : stripOuterParentheses (before ++ text ++ after) = .ok (before ++ text ++ after) := by
      by_cases hnil : before = []
      · rw [hnil, List.nil_append]
        exact stripOuter_not_group hafter htrimmed hs henclosed
      · rw [List.append_assoc]
        exact stripOuter_white hbefore hnil _
    rw [hstrip, ok_bind, parseInside_white_iff hbefore hafter hparsed]
    simp only [Transparent, henclosed, false_and, not_false_eq_true, true_and, false_or]

end Around

theorem balanced_of_stripOuter {s stripped : List Char} (h : stripOuterParentheses s = .ok stripped)
    (hstripped : Balanced stripped) : Balanced s := by
  induction hlength : s.length using Nat.strong_induction_on generalizing s with
  | _ n ih =>
    rcases stripOuter_ok h with ⟨_, rfl⟩ | ⟨inside, after, hinside, rfl, ⟨hafter, _⟩ | ⟨_, rfl⟩⟩
    · exact hstripped
    · have hgroup := hinside.parenthesised.append (plain_of_white hafter).balanced
      rwa [List.append_assoc] at hgroup
    · exact hstripped

/-- What a parsed text was behind its white space and its outer parentheses. -/
theorem parse_ok_iff {s : List Char} {e : Expr} : parse s = .ok e ↔ trim s ≠ [] ∧
    ∃ stripped, stripOuterParentheses (trim s) = .ok stripped ∧ parseInside parse stripped = .ok e := by
  rw [parse_eq, ite_error_ok_iff, bind_ok_iff, List.isEmpty_iff]

/-- Parentheses and white space around a parsed text are taken off again just when they are
transparent. -/
theorem parse_parenthesised_iff {s before after : List Char} {e : Expr} (h : parse s = .ok e)
    (hbefore : AllWhite before) (hafter : AllWhite after) :
    parse ('(' :: (before ++ s ++ after) ++ [')']) = .ok e ↔
      Transparent (before ++ leading s) (trim s) (trailing s ++ after) := by
  obtain ⟨hne, stripped, hstripped, hparsed⟩ := parse_ok_iff.mp h
  have htrim := balanced_of_stripOuter hstripped (balanced_of_parseInside hparsed)
  have hleading : AllWhite (before ++ leading s) :=
    allWhite_append.mpr ⟨hbefore, allWhite_leading s⟩
  have htrailing : AllWhite (trailing s ++ after) :=
    allWhite_append.mpr ⟨allWhite_trailing s, hafter⟩
  have hinner : before ++ s ++ after = before ++ leading s ++ trim s ++ (trailing s ++ after) := by
    conv_lhs => rw [← leading_trim_trailing s]
    simp
  have hbalanced : Balanced (before ++ leading s ++ trim s ++ (trailing s ++ after)) :=
    ((plain_of_white hleading).balanced.append htrim).append (plain_of_white htrailing).balanced
  rw [hinner, hbalanced.solid_parenthesised.parse_eq, stripOuter_group hbalanced AllWhite.nil]
  exact parse_surrounded_iff hleading htrailing (trimmed_trim s) htrim hstripped hparsed

/-! ## Leaves -/

/-- The texts of an expression: its atoms and the sides of its comparisons. -/
def Expr.leaves : Expr → List (List Char)
  | .Atom text => [text]
  | .Equal left right => [left, right]
  | .NotEqual left right => [left, right]
  | .And children => leavesAll children
  | .Or children => leavesAll children
  | .Not child => child.leaves
where
  leavesAll : List Expr → List (List Char)
  | [] => []
  | child :: children => child.leaves ++ leavesAll children

/-- No text of the expression is empty or has white space at its ends. -/
def Expr.Tidy (e : Expr) : Prop := ∀ leaf ∈ e.leaves, Trimmed leaf ∧ leaf ≠ []

theorem tidy_all_iff (children : List Expr) :
    (∀ leaf ∈ Expr.leaves.leavesAll children, Trimmed leaf ∧ leaf ≠ []) ↔
      ∀ child ∈ children, child.Tidy := by
  induction children with
  | nil => simp [Expr.leaves.leavesAll]
  | cons child children ih =>
    rw [Expr.leaves.leavesAll, List.forall_mem_append, ih, List.forall_mem_cons]
    rfl

/-- The texts that the parser goes on with. -/
inductive OperandOf (s : List Char) : List Char → Prop where
  | Or {stripped parts part} : stripOuterParentheses (trim s) = .ok stripped →
      splitTopLevel stripped ['|', '|'] = .ok parts → 1 < parts.length → part ∈ parts → OperandOf s part
  | And {stripped parts part} : stripOuterParentheses (trim s) = .ok stripped →
      Free ['|', '|'] stripped → splitTopLevel stripped ['&', '&'] = .ok parts → 1 < parts.length →
      part ∈ parts → OperandOf s part
  | Not {rest} : stripOuterParentheses (trim s) = .ok ('!' :: rest) →
      Free ['|', '|'] ('!' :: rest) → Free ['&', '&'] ('!' :: rest) → OperandOf s rest

/-- A text that would be an atom. -/
def IsAtom (s : List Char) : Prop :=
  Free ['|', '|'] s ∧ Free ['&', '&'] s ∧ s.head? ≠ some '!' ∧
    Free ['!', '='] s ∧ Free ['=', '='] s

/-- A group that holds an atom has something in it, and no white space at its ends. -/
def TidyGroup (s : List Char) : Prop :=
  ∀ stripped, stripOuterParentheses (trim s) = .ok stripped → stripped ≠ trim s → IsAtom stripped →
    Trimmed stripped ∧ stripped ≠ []

/-- So it is for each text that the parser comes to. -/
def TidyGroups (s : List Char) : Prop := ∀ t, Relation.ReflTransGen OperandOf s t → TidyGroup t

theorem tidyGroups_iff {s : List Char} :
    TidyGroups s ↔ TidyGroup s ∧ ∀ operand, OperandOf s operand → TidyGroups operand := by
  constructor
  · intro h
    exact ⟨h s .refl, fun operand hoperand t ht => h t (.head hoperand ht)⟩
  · rintro ⟨hs, hoperands⟩ t ht
    rcases Relation.ReflTransGen.cases_head ht with rfl | ⟨operand, hoperand, ht⟩
    · exact hs
    · exact hoperands operand hoperand t ht

section Forms

variable {s stripped : List Char}

theorem operandOf_or_iff (hstripped : stripOuterParentheses (trim s) = .ok stripped)
    {parts : List (List Char)} (hparts : splitTopLevel stripped ['|', '|'] = .ok parts)
    (hmore : 1 < parts.length) {operand : List Char} : OperandOf s operand ↔ operand ∈ parts := by
  have hfree := not_free_of_more operator_or hparts hmore
  constructor
  · intro h
    cases h with
    | Or hstripped' hparts' _ hmem =>
      obtain rfl := Except.ok.inj (hstripped.symm.trans hstripped')
      obtain rfl := Except.ok.inj (hparts.symm.trans hparts')
      exact hmem
    | And hstripped' hor =>
      obtain rfl := Except.ok.inj (hstripped.symm.trans hstripped')
      exact absurd hor hfree
    | Not hstripped' hor =>
      obtain rfl := Except.ok.inj (hstripped.symm.trans hstripped')
      exact absurd hor hfree
  · exact .Or hstripped hparts hmore

theorem operandOf_and_iff (hstripped : stripOuterParentheses (trim s) = .ok stripped)
    (hor : Free ['|', '|'] stripped) {parts : List (List Char)}
    (hparts : splitTopLevel stripped ['&', '&'] = .ok parts) (hmore : 1 < parts.length)
    {operand : List Char} : OperandOf s operand ↔ operand ∈ parts := by
  have hfree := not_free_of_more operator_and hparts hmore
  constructor
  · intro h
    cases h with
    | Or hstripped' hparts' hmore' =>
      obtain rfl := Except.ok.inj (hstripped.symm.trans hstripped')
      exact absurd hor (not_free_of_more operator_or hparts' hmore')
    | And hstripped' _ hparts' _ hmem =>
      obtain rfl := Except.ok.inj (hstripped.symm.trans hstripped')
      obtain rfl := Except.ok.inj (hparts.symm.trans hparts')
      exact hmem
    | Not hstripped' _ hand =>
      obtain rfl := Except.ok.inj (hstripped.symm.trans hstripped')
      exact absurd hand hfree
  · exact .And hstripped hor hparts hmore

theorem operandOf_free (hstripped : stripOuterParentheses (trim s) = .ok stripped)
    (hor : Free ['|', '|'] stripped) (hand : Free ['&', '&'] stripped) {operand : List Char} :
    OperandOf s operand ↔ stripped = '!' :: operand := by
  constructor
  · intro h
    cases h with
    | Or hstripped' hparts hmore =>
      obtain rfl := Except.ok.inj (hstripped.symm.trans hstripped')
      exact absurd hor (not_free_of_more operator_or hparts hmore)
    | And hstripped' _ hparts hmore =>
      obtain rfl := Except.ok.inj (hstripped.symm.trans hstripped')
      exact absurd hand (not_free_of_more operator_and hparts hmore)
    | Not hstripped' => exact Except.ok.inj (hstripped.symm.trans hstripped')
  · rintro rfl
    exact .Not hstripped hor hand

/-- Without an atom in it, the text itself is tidy. -/
theorem tidyGroup_of_not_atom (hstripped : stripOuterParentheses (trim s) = .ok stripped)
    (h : ¬ IsAtom stripped) : TidyGroup s := by
  intro other hother _ hatom
  obtain rfl := Except.ok.inj (hstripped.symm.trans hother)
  exact absurd hatom h

end Forms

theorem tidy_of_splitComparison {s : List Char} {comparison : Comparison}
    (h : splitComparison s = .ok (some comparison)) :
    (Trimmed comparison.left ∧ comparison.left ≠ []) ∧
      (Trimmed comparison.right ∧ comparison.right ≠ []) := by
  have hsides : ∀ {operator}, splitComparisonAt s operator = .ok (some comparison) →
      (Trimmed comparison.left ∧ comparison.left ≠ []) ∧
        (Trimmed comparison.right ∧ comparison.right ≠ []) := by
    intro operator h
    rw [splitComparisonAt, bind_ok_iff] at h
    obtain ⟨parts, _, h⟩ := h
    rcases parts with _ | ⟨first, _ | ⟨part, more⟩⟩
    · cases h
    · cases h
    · dsimp only at h
      split_ifs at h with hempty
      · cases h
      · obtain rfl := Option.some.inj (pure_ok_iff.mp h)
        rw [Bool.or_eq_true, not_or, List.isEmpty_iff, List.isEmpty_iff] at hempty
        exact ⟨⟨trimmed_trim _, hempty.1⟩, trimmed_trim _, hempty.2⟩
  rw [splitComparison, bind_ok_iff] at h
  obtain ⟨found, hfound, h⟩ := h
  cases found with
  | some other =>
    obtain rfl := Option.some.inj (pure_ok_iff.mp h)
    exact hsides hfound
  | none => exact hsides h

theorem forall₂_iff {α β : Type} {R : α → β → Prop} {P : α → Prop} {Q : β → Prop} {as : List α}
    {bs : List β} (h : List.Forall₂ R as bs) (hiff : ∀ a ∈ as, ∀ b, R a b → (P a ↔ Q b)) :
    (∀ a ∈ as, P a) ↔ ∀ b ∈ bs, Q b := by
  induction h with
  | nil => simp
  | cons hab _ ih =>
    rw [List.forall_mem_cons] at hiff
    rw [List.forall_mem_cons, List.forall_mem_cons, hiff.1 _ hab, ih hiff.2]

/-- All texts of a parsed expression are tidy just when the groups with atoms in them are. -/
theorem tidy_iff_tidyGroups {s : List Char} {e : Expr} (h : parse s = .ok e) :
    e.Tidy ↔ TidyGroups s := by
  induction hlength : s.length using Nat.strong_induction_on generalizing s e with
  | _ n ih =>
    obtain ⟨hne, stripped, hstripped, hparsed⟩ := parse_ok_iff.mp h
    have hle := (length_stripOuter_le hstripped).trans (length_trim_le s)
    rw [hlength] at hle
    obtain ⟨hs, hform⟩ := parseInside_ok_iff.mp hparsed
    rw [tidyGroups_iff]
    cases hform with
    | @Or parts children hparts hmore hchildren =>
      have hfree := not_free_of_more operator_or hparts hmore
      have hroot := tidyGroup_of_not_atom hstripped fun hatom => hfree hatom.1
      have hshorter := shorter_of_splitTopLevel operator_or hparts hmore
      simp only [hroot, true_and, operandOf_or_iff hstripped hparts hmore]
      rw [Expr.Tidy, Expr.leaves, tidy_all_iff]
      refine (forall₂_iff hchildren fun part hpart child hchild => ?_).symm
      exact (ih part.length (lt_of_lt_of_le (hshorter part hpart) hle) hchild rfl).symm
    | @And parts children hor hparts hmore hchildren =>
      have hfree := not_free_of_more operator_and hparts hmore
      have hroot := tidyGroup_of_not_atom hstripped fun hatom => hfree hatom.2.1
      have hshorter := shorter_of_splitTopLevel operator_and hparts hmore
      simp only [hroot, true_and, operandOf_and_iff hstripped hor hparts hmore]
      rw [Expr.Tidy, Expr.leaves, tidy_all_iff]
      refine (forall₂_iff hchildren fun part hpart child hchild => ?_).symm
      exact (ih part.length (lt_of_lt_of_le (hshorter part hpart) hle) hchild rfl).symm
    | @Not rest child hor hand hnot hchild =>
      subst hnot
      have hroot := tidyGroup_of_not_atom hstripped fun hatom => hatom.2.2.1 List.head?_cons
      rw [List.length_cons] at hle
      simp only [hroot, true_and, operandOf_free hstripped hor hand, List.cons.injEq]
      rw [Expr.Tidy, Expr.leaves, ← Expr.Tidy, ih rest.length (by omega) hchild rfl]
      simp
    | @Comparison comparison hor hand hnot hfound =>
      have hroot := tidyGroup_of_not_atom hstripped fun hatom => by
        rw [splitComparison_none_iff.mpr ⟨hs, hatom.2.2.2⟩] at hfound
        cases hfound
      have hsides := tidy_of_splitComparison hfound
      refine iff_of_true ?_ ⟨hroot, fun operand hoperand => ?_⟩
      · split_ifs
        · simp only [Expr.Tidy, Expr.leaves, List.forall_mem_cons]
          exact ⟨hsides.1, hsides.2, fun _ h => nomatch h⟩
        · simp only [Expr.Tidy, Expr.leaves, List.forall_mem_cons]
          exact ⟨hsides.1, hsides.2, fun _ h => nomatch h⟩
      · rw [operandOf_free hstripped hor hand] at hoperand
        rw [hoperand, List.head?_cons] at hnot
        exact absurd rfl hnot
    | Atom hor hand hnot hfound =>
      obtain ⟨_, hcompare⟩ := splitComparison_none_iff.mp hfound
      have hnone : ∀ operand, OperandOf s operand → TidyGroups operand := by
        intro operand hoperand
        rw [operandOf_free hstripped hor hand] at hoperand
        rw [hoperand, List.head?_cons] at hnot
        exact absurd rfl hnot
      simp only [Expr.Tidy, Expr.leaves, List.forall_mem_singleton]
      constructor
      · intro htidy
        refine ⟨?_, hnone⟩
        intro other hother _ _
        obtain rfl := Except.ok.inj (hstripped.symm.trans hother)
        exact htidy
      · rintro ⟨htidy, _⟩
        by_cases hsame : stripped = trim s
        · rw [hsame]
          exact ⟨trimmed_trim s, hne⟩
        · exact htidy stripped hstripped hsame ⟨hor, hand, hnot, hcompare⟩

/-! ## Both laws -/

/-- When parentheses and white space around a parsed text change nothing, and when its expression
has neither empty texts nor white space at their ends. -/
theorem parentheses_and_white_space_iff (s : List Char) (e : Expr) (h : parse s = .ok e) :
    (∀ before after, AllWhite before → AllWhite after →
      (parse ('(' :: (before ++ s ++ after) ++ [')']) = .ok e ↔
        Transparent (before ++ leading s) (trim s) (trailing s ++ after))) ∧
      (e.Tidy ↔ TidyGroups s) :=
  ⟨fun _ _ hbefore hafter => parse_parenthesised_iff h hbefore hafter, tidy_iff_tidyGroups h⟩

theorem parentheses_around_letter :
    (∀ before after, AllWhite before → AllWhite after →
      (parse ('(' :: (before ++ ['a'] ++ after) ++ [')']) = .ok (.Atom ['a']) ↔
        Transparent (before ++ leading ['a']) (trim ['a']) (trailing ['a'] ++ after))) ∧
      ((Expr.Atom ['a']).Tidy ↔ TidyGroups ['a']) :=
  parentheses_and_white_space_iff ['a'] (.Atom ['a']) rfl

/-- `( a )` is an atom with its spaces. -/
theorem spaces_in_parentheses_are_kept :
    ¬ ∀ s e, parse s = .ok e →
      (∀ before after, AllWhite before → AllWhite after →
        parse ('(' :: (before ++ s ++ after) ++ [')']) = .ok e) ∧ e.Tidy := by
  intro h
  have hwhite : AllWhite [' '] := by
    intro c hc
    rw [List.mem_singleton.mp hc]
    rfl
  have hparsed := (h ['a'] (.Atom ['a']) rfl).1 [' '] [' '] hwhite hwhite
  have hspaces : parse "( a )".toList = .ok (.Atom " a ".toList) := rfl
  have hsame := Except.ok.inj (hspaces.symm.trans hparsed)
  cases hsame

end condition_expr
