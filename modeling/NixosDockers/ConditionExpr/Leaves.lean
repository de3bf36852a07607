-- The leaves of a parsed condition: where their texts stand in the input, and
-- what is parsed from such a text alone.
import NixosDockers.ConditionExpr.Parentheses

open rust_text results

namespace condition_expr

/-- The parts of an expression, the whole one among them. -/
inductive Part : Expr → Expr → Prop where
  | whole (e) : Part e e
  | ofAnd {children child part} : child ∈ children → Part child part → Part (.And children) part
  | ofOr {children child part} : child ∈ children → Part child part → Part (.Or children) part
  | ofNot {child part} : Part child part → Part (.Not child) part

/-- A leaf, and how it is written alone. -/
inductive Written : Expr → List Char → Prop where
  | Atom {text} : Written (.Atom text) text
  | Equal {left right} : Written (.Equal left right) (join ['=', '='] [left, right])
  | NotEqual {left right} : Written (.NotEqual left right) (join ['!', '='] [left, right])

/-! ## Pieces of a text -/

variable {needle operator s t before after : List Char}

theorem trim_piece (s : List Char) : trim s <:+: s :=
  ⟨leading s, trailing s, leading_trim_trailing s⟩

theorem stripOuter_piece {stripped : List Char} (h : stripOuterParentheses s = .ok stripped) :
    stripped <:+: s := by
  induction hlength : s.length using Nat.strong_induction_on generalizing s with
  | _ n ih =>
    rcases stripOuter_ok h with ⟨_, rfl⟩ | ⟨inside, after, _, rfl, ⟨_, hinside⟩ | ⟨_, rfl⟩⟩
    · exact List.infix_rfl
    · have hshorter : inside.length < n := by
        rw [← hlength]
        simp
      exact (ih _ hshorter hinside rfl).trans ⟨['('], ')' :: after, by simp⟩
    · exact List.infix_rfl

theorem Parts.pieces {parts : List (List Char)} (h : Parts needle s parts) :
    ∀ part ∈ parts, part <:+: s := by
  induction h with
  | last =>
    intro part hpart
    rw [List.mem_singleton.mp hpart]
  | @cut before rest parts _ _ _ ih =>
    intro part hpart
    rcases List.mem_cons.mp hpart with rfl | hpart
    · exact ⟨[], needle ++ rest, by simp⟩
    · exact (ih part hpart).trans (List.suffix_append _ _).isInfix

/-- An open quote is one of the two signs. -/
theorem isQuote_of_levelAfter {level next : Level} (h : levelAfter level s = some next)
    (hlevel : ∀ q, level.quote = some q → isQuote q = true) :
    ∀ q, next.quote = some q → isQuote q = true := by
  induction s generalizing level with
  | nil =>
    obtain rfl := Option.some.inj h
    exact hlevel
  | cons c s ih =>
    rw [levelAfter, Option.bind_eq_some_iff] at h
    obtain ⟨middle, hread, hrest⟩ := h
    refine ih hrest fun q hq => ?_
    obtain ⟨depth, _ | open'⟩ := level
    · simp only [Level.read] at hread
      split_ifs at hread with hquote
      all_goals obtain rfl := Option.some.inj hread
      · obtain rfl := Option.some.inj hq
        exact hquote
      all_goals cases hq
    · obtain rfl := Option.some.inj hread
      dsimp only at hq
      split_ifs at hq with hclose
      exact hlevel q hq

theorem levelAfter_white {depth : ℕ} {q : Char} (hq : isQuote q = true) (h : AllWhite s) :
    levelAfter ⟨depth, some q⟩ s = some ⟨depth, some q⟩ := by
  induction s with
  | nil => rfl
  | cons c s ih =>
    have hne : c ≠ q := by
      rintro rfl
      have hplain := (plain_of_white h) c List.mem_cons_self
      rw [hq] at hplain
      cases hplain.1
    rw [levelAfter, Level.read, if_neg hne]
    exact ih fun d hd => h d (List.mem_cons_of_mem _ hd)

theorem Balanced.trim (h : Balanced s) : Balanced (trim s) := by
  rw [← leading_trim_trailing s, Balanced, List.append_assoc, levelAfter_append,
    (plain_of_white (allWhite_leading s)).balanced, Option.bind_some, levelAfter_append,
    Option.bind_eq_some_iff] at h
  obtain ⟨⟨depth, quote⟩, hlevel, htrailing⟩ := h
  cases quote with
  | none =>
    rw [levelAfter_plain (plain_of_white (allWhite_trailing s))] at htrailing
    exact hlevel.trans htrailing
  | some q =>
    have hquote := isQuote_of_levelAfter hlevel (by rintro _ ⟨⟩) q rfl
    rw [levelAfter_white hquote (allWhite_trailing s)] at htrailing
    cases htrailing

theorem Free.left (h : Free needle (s ++ t)) : Free needle s := by
  rintro before after rfl
  exact h before (after ++ t) (by simp)

theorem Free.right (hs : Balanced s) (h : Free needle (s ++ t)) : Free needle t := by
  rintro before after rfl hlevel
  refine h (s ++ before) after (by simp) ?_
  rw [levelAfter_append, hs]
  exact hlevel

theorem Free.trim (h : Free needle s) : Free needle (trim s) := by
  rw [← leading_trim_trailing s] at h
  exact h.left.right (plain_of_white (allWhite_leading s)).balanced

theorem splitTopLevel_pieces (hoperator : Operator operator) {parts : List (List Char)}
    (h : splitTopLevel s operator = .ok parts) : ∀ part ∈ parts, part <:+: s := by
  rcases (splitTopLevel_ok_iff hoperator).mp h with ⟨_, _, rfl⟩ | ⟨found, hfound, _, _, rfl⟩
  · intro part hpart
    rw [List.mem_singleton.mp hpart]
  · intro part hpart
    obtain ⟨whole, hwhole, rfl⟩ := List.mem_map.mp hpart
    exact (trim_piece whole).trans (hfound.pieces whole hwhole)

/-- The operands of an expression are read from pieces of the text. -/
def OperandsFrom (s : List Char) : Expr → Prop
  | .And children | .Or children => ∃ parts, (∀ part ∈ parts, part <:+: s) ∧
      List.Forall₂ (fun part child => parse part = .ok child) parts children
  | .Not child => ∃ rest, rest <:+: s ∧ parse rest = .ok child
  | _ => True

theorem Form.operandsFrom {e : Expr} (h : Form s e) : OperandsFrom s e := by
  cases h with
  | Or hparts _ hchildren => exact ⟨_, splitTopLevel_pieces operator_or hparts, hchildren⟩
  | And _ hparts _ hchildren => exact ⟨_, splitTopLevel_pieces operator_and hparts, hchildren⟩
  | Not _ _ hnot hchild => exact ⟨_, ⟨['!'], [], by rw [hnot]; simp⟩, hchild⟩
  | Comparison => split_ifs <;> trivial
  | Atom => trivial

/-- A part of an operand is read from a piece of the text. -/
theorem piece_of_operand {parts : List (List Char)} {children : List Expr} {child part : Expr}
    (hparts : ∀ part ∈ parts, part <:+: s)
    (hchildren : List.Forall₂ (fun part child => parse part = .ok child) parts children)
    (hchild : child ∈ children)
    (ih : ∀ s, parse s = .ok child → ∃ t, t <:+: s ∧ parseInside parse t = .ok part) :
    ∃ t, t <:+: s ∧ parseInside parse t = .ok part := by
  obtain ⟨operand, hoperand, hparsed⟩ := forall₂_mem_left hchildren hchild
  obtain ⟨t, ht, hpart⟩ := ih operand hparsed
  exact ⟨t, ht.trans (hparts operand hoperand), hpart⟩

/-- Every part of a parsed expression is read from a piece of the text. -/
theorem Part.piece {e part : Expr} (hpart : Part e part) :
    ∀ s, parse s = .ok e → ∃ t, t <:+: s ∧ parseInside parse t = .ok part := by
  induction hpart with
  | whole =>
    intro s h
    obtain ⟨_, stripped, hstripped, hparsed⟩ := parse_ok_iff.mp h
    exact ⟨stripped, (stripOuter_piece hstripped).trans (trim_piece s), hparsed⟩
  | ofAnd hchild _ ih =>
    intro s h
    obtain ⟨_, stripped, hstripped, hparsed⟩ := parse_ok_iff.mp h
    have hpiece := (stripOuter_piece hstripped).trans (trim_piece s)
    obtain ⟨parts, hpieces, hchildren⟩ := (parseInside_ok_iff.mp hparsed).2.operandsFrom
    exact piece_of_operand (fun part hpart => (hpieces part hpart).trans hpiece) hchildren hchild ih
  | ofOr hchild _ ih =>
    intro s h
    obtain ⟨_, stripped, hstripped, hparsed⟩ := parse_ok_iff.mp h
    have hpiece := (stripOuter_piece hstripped).trans (trim_piece s)
    obtain ⟨parts, hpieces, hchildren⟩ := (parseInside_ok_iff.mp hparsed).2.operandsFrom
    exact piece_of_operand (fun part hpart => (hpieces part hpart).trans hpiece) hchildren hchild ih
  | ofNot _ ih =>
    intro s h
    obtain ⟨_, stripped, hstripped, hparsed⟩ := parse_ok_iff.mp h
    have hpiece := (stripOuter_piece hstripped).trans (trim_piece s)
    obtain ⟨rest, hrest, hchild⟩ := (parseInside_ok_iff.mp hparsed).2.operandsFrom
    obtain ⟨t, ht, hpart⟩ := ih rest hchild
    exact ⟨t, (ht.trans hrest).trans hpiece, hpart⟩

/-! ## Comparisons -/

/-- What is found by a comparison's operator. -/
theorem splitComparisonAt_some {comparison : Comparison} (hoperator : Operator operator)
    (h : splitComparisonAt s operator = .ok (some comparison)) : ∃ first rest,
      s = first ++ operator ++ rest ∧ Balanced first ∧ Balanced rest ∧
        FirstCut operator first rest ∧ trim first ≠ [] ∧ trim rest ≠ [] ∧
        comparison = ⟨trim first, operator, trim rest⟩ := by
  rw [splitComparisonAt, bind_ok_iff] at h
  obtain ⟨parts, hscan, h⟩ := h
  have hparts := (scan_ok_iff hoperator).mp hscan
  cases hparts with
  | last => cases h
  | @cut first rest parts hfirst hcut hrest =>
    obtain ⟨part, more, rfl⟩ := List.exists_cons_of_ne_nil hrest.ne_nil
    dsimp only at h
    rw [hrest.join] at h
    split_ifs at h with hempty
    · cases h
    · obtain rfl := Option.some.inj (pure_ok_iff.mp h)
      rw [Bool.or_eq_true, not_or, List.isEmpty_iff, List.isEmpty_iff] at hempty
      exact ⟨first, rest, rfl, hfirst, hrest.balanced hoperator, hcut, hempty.1, hempty.2, rfl⟩

theorem free_of_firstCut (h : FirstCut operator before after) (hoperator : Operator operator) :
    Free operator before := by
  rintro other more rfl hlevel
  refine h other (more ++ operator ++ after) (by simp) ?_ hlevel
  have hpos := List.length_pos_iff.mpr hoperator.ne_nil
  simp only [List.length_append]
  omega

/-- A balanced text has parts. -/
theorem exists_parts (hoperator : Operator operator) (hs : Balanced s) :
    ∃ parts, Parts operator s parts := by
  induction hlength : s.length using Nat.strong_induction_on generalizing s with
  | _ n ih =>
    by_cases hfree : Free operator s
    · exact ⟨[s], .last hs hfree⟩
    · obtain ⟨before, rest, rfl, hbefore, hcut⟩ := exists_firstCut hfree
      have hrest : Balanced rest := by
        rw [Balanced, levelAfter_append, hbefore.append hoperator.plain.balanced] at hs
        exact hs
      have hpos := List.length_pos_iff.mpr hoperator.ne_nil
      have hshorter : rest.length < n := by
        rw [← hlength]
        simp only [List.length_append]
        omega
      obtain ⟨parts, hparts⟩ := ih rest.length hshorter hrest rfl
      exact ⟨before :: parts, .cut hbefore hcut hparts⟩

theorem firstCut_space (hoperator : Operator operator) (h : Free operator s) (rest : List Char) :
    FirstCut operator (s ++ [' ']) rest := by
  intro other after hcut hlength hlevel
  have hcut' : s ++ ' ' :: (operator ++ rest) = other ++ operator ++ after := by
    rw [← hcut]
    simp
  obtain ⟨more, rfl⟩ := cut_before_white hoperator rfl hcut' (by simp at hlength; omega)
  exact h other more rfl hlevel

/-- A comparison is found again when its sides are written with spaces. -/
theorem splitComparisonAt_sides (hoperator : Operator operator) {left right : List Char}
    (hleft : Solid left) (hfree : Free operator left) (hright : Solid right) :
    splitComparisonAt (join operator [left, right]) operator = .ok (some ⟨left, operator, right⟩) := by
  have hwhite : AllWhite [' '] := by
    intro c hc
    rw [List.mem_singleton.mp hc]
    rfl
  obtain ⟨parts, hparts⟩ := exists_parts hoperator hright.balanced
  obtain ⟨part, more, rfl⟩ := List.exists_cons_of_ne_nil hparts.ne_nil
  have hmoved := hparts.white_left hoperator hwhite
  have h := Parts.cut (hleft.balanced.append balanced_space)
    (firstCut_space hoperator hfree ([' '] ++ right)) hmoved
  have hjoin : join operator [left, right] = left ++ [' '] ++ operator ++ ([' '] ++ right) := by
    rw [join_cons _ _ (by simp), join, List.intercalate_singleton]
    simp
  have hfirst := trim_white_append (s := left) AllWhite.nil hwhite
  have hrest := trim_white_append (s := right) hwhite AllWhite.nil
  rw [List.nil_append, hleft.trimmed.trim] at hfirst
  rw [List.append_nil, hright.trimmed.trim] at hrest
  rw [hjoin, splitComparisonAt, h.scan hoperator, ok_bind]
  dsimp only
  rw [hmoved.join, hfirst, hrest, if_neg (by simp [hleft.ne_nil, hright.ne_nil])]
  rfl

/-- What is known of the two sides that an operator was found between. -/
structure Sides (s operator left right : List Char) : Prop where
  left_solid : Solid left
  right_solid : Solid right
  left_piece : left <:+: s
  right_piece : right <:+: s
  left_free : Free operator left
  free : ∀ needle, Free needle s → Free needle left ∧ Free needle right

theorem sides_of_splitComparisonAt {comparison : Comparison} (hoperator : Operator operator)
    (h : splitComparisonAt s operator = .ok (some comparison)) :
    Sides s operator comparison.left comparison.right ∧ comparison.operator = operator := by
  obtain ⟨first, rest, rfl, hfirst, hrest, hcut, hleft, hright, rfl⟩ :=
    splitComparisonAt_some hoperator h
  refine ⟨⟨⟨trimmed_trim _, hleft, hfirst.trim⟩, ⟨trimmed_trim _, hright, hrest.trim⟩, ?_, ?_, ?_, ?_⟩,
    rfl⟩
  · exact (trim_piece first).trans ⟨[], operator ++ rest, by simp⟩
  · exact (trim_piece rest).trans (List.suffix_append _ _).isInfix
  · exact (free_of_firstCut hcut hoperator).trim
  · intro needle hfree
    exact ⟨hfree.left.left.trim, (hfree.right (hfirst.append hoperator.plain.balanced)).trim⟩

/-- The sides of a comparison with no other operator than the searched one between them. -/
theorem Sides.free_join {left right : List Char} (h : Sides s operator left right)
    (hneedle : Operator needle) (hoperator : Operator operator) (hother : Free needle operator)
    (hfree : Free needle s) : Free needle (join operator [left, right]) := by
  refine condition_expr.free_join hneedle hoperator hother (by simp) ?_
  simp only [List.forall_mem_cons]
  exact ⟨⟨h.left_solid, (h.free needle hfree).1⟩, ⟨h.right_solid, (h.free needle hfree).2⟩,
    fun _ h => nomatch h⟩

theorem Sides.solid {left right : List Char} (h : Sides s operator left right) :
    ∀ side ∈ [left, right], Solid side := by
  simp only [List.forall_mem_cons]
  exact ⟨h.left_solid, h.right_solid, fun _ h => nomatch h⟩

/-- A comparison that was found in a text is parsed when it is written alone. -/
theorem Sides.parse {left right : List Char} {found : Comparison}
    (h : Sides s operator left right) (hoperator : Operator operator) (hbars : '|' ∉ operator)
    (hands : '&' ∉ operator) (hor : Free ['|', '|'] s) (hand : Free ['&', '&'] s)
    (hnot : left.head? ≠ some '!')
    (hfound : splitComparison (join operator [left, right]) = .ok (some found)) :
    condition_expr.parse (join operator [left, right]) = .ok
      (if found.operator = ['=', '='] then .Equal found.left found.right
        else .NotEqual found.left found.right) := by
  have hsolid := solid_join hoperator (by simp) h.solid
  have hor := h.free_join operator_or hoperator (free_of_notMem List.mem_cons_self hbars) hor
  have hand := h.free_join operator_and hoperator (free_of_notMem List.mem_cons_self hands) hand
  rw [hsolid.parse_eq, stripOuter_of_not_enclosed hsolid.trimmed hsolid.balanced
    (join_not_enclosed le_rfl h.solid), ok_bind, parseInside_free hsolid.balanced hor hand,
    head_join operator h.left_solid.ne_nil, if_neg hnot, hfound]
  rfl

/-- The sides of an equality stand in the text, and it is parsed when it is written alone. -/
theorem parse_equal_alone {left right : List Char} (h : parseInside parse s = .ok (.Equal left right))
    (hnot : left.head? ≠ some '!') : left <:+: s ∧ right <:+: s ∧
      Solid (join ['=', '='] [left, right]) ∧
      parse (join ['=', '='] [left, right]) = .ok (.Equal left right) := by
  obtain ⟨hs, hform⟩ := parseInside_ok_iff.mp h
  generalize he : Expr.Equal left right = e at hform
  cases hform with
  | @Comparison comparison hor hand hhead hfound =>
    split_ifs at he with hequal
    obtain ⟨rfl, rfl⟩ := Expr.Equal.inj he
    rw [splitComparison, bind_ok_iff] at hfound
    obtain ⟨found, hfirst, hfound⟩ := hfound
    cases found with
    | some other =>
      obtain rfl := Option.some.inj (pure_ok_iff.mp hfound)
      obtain ⟨_, hoperator⟩ := sides_of_splitComparisonAt operator_notEqual hfirst
      rw [hoperator] at hequal
      cases hequal
    | none =>
      obtain ⟨hsides, -⟩ := sides_of_splitComparisonAt operator_equal hfound
      obtain ⟨-, hfree⟩ := (splitComparisonAt_none_iff operator_notEqual).mp hfirst
      have hfree := hsides.free_join operator_notEqual operator_equal
        (free_of_notMem (c := '!') (by simp) (by simp)) hfree
      have hsolid := solid_join operator_equal (by simp) hsides.solid
      have halone : splitComparison (join ['=', '='] [comparison.left, comparison.right]) =
          .ok (some ⟨comparison.left, ['=', '='], comparison.right⟩) := by
        rw [splitComparison, splitComparisonAt_free operator_notEqual hsolid.balanced hfree, ok_bind]
        exact splitComparisonAt_sides operator_equal hsides.left_solid hsides.left_free
          hsides.right_solid
      rw [if_pos hequal]
      have hparse := hsides.parse operator_equal (by simp) (by simp) hor hand hnot halone
      exact ⟨hsides.left_piece, hsides.right_piece, hsolid, hparse⟩
  | _ => cases he

theorem parse_notEqual_alone {left right : List Char}
    (h : parseInside parse s = .ok (.NotEqual left right)) (hnot : left.head? ≠ some '!') :
    left <:+: s ∧ right <:+: s ∧ Solid (join ['!', '='] [left, right]) ∧
      parse (join ['!', '='] [left, right]) = .ok (.NotEqual left right) := by
  obtain ⟨hs, hform⟩ := parseInside_ok_iff.mp h
  generalize he : Expr.NotEqual left right = e at hform
  cases hform with
  | @Comparison comparison hor hand hhead hfound =>
    split_ifs at he with hequal
    obtain ⟨rfl, rfl⟩ := Expr.NotEqual.inj he
    rw [splitComparison, bind_ok_iff] at hfound
    obtain ⟨found, hfirst, hfound⟩ := hfound
    cases found with
    | some other =>
      obtain rfl := Option.some.inj (pure_ok_iff.mp hfound)
      obtain ⟨hsides, -⟩ := sides_of_splitComparisonAt operator_notEqual hfirst
      have halone : splitComparison (join ['!', '='] [other.left, other.right]) =
          .ok (some ⟨other.left, ['!', '='], other.right⟩) := by
        rw [splitComparison, splitComparisonAt_sides operator_notEqual hsides.left_solid
          hsides.left_free hsides.right_solid]
        rfl
      rw [if_neg hequal]
      have hparse := hsides.parse operator_notEqual (by simp) (by simp) hor hand hnot halone
      exact ⟨hsides.left_piece, hsides.right_piece, solid_join operator_notEqual (by simp) hsides.solid,
        hparse⟩
    | none =>
      obtain ⟨_, hoperator⟩ := sides_of_splitComparisonAt operator_equal hfound
      exact absurd hoperator hequal
  | _ => cases he

/-! ## Operands in parentheses -/

/-- A parsed text without white space around it is an operand in parentheses. -/
theorem operand_parenthesised {e : Expr} (htrimmed : Trimmed s) (h : parse s = .ok e) :
    Operand ('(' :: s ++ [')']) e := by
  obtain ⟨-, stripped, hstripped, hparsed⟩ := parse_ok_iff.mp h
  rw [htrimmed.trim] at hstripped
  have hs := balanced_of_stripOuter hstripped (balanced_of_parseInside hparsed)
  have hsolid := hs.solid_parenthesised
  have henclosed : Enclosed ('(' :: s ++ [')']) := ⟨s, hs, rfl⟩
  refine ⟨hsolid, enclosed_free operator_or henclosed, enclosed_free operator_and henclosed, ?_⟩
  rw [hsolid.parse_eq, stripOuter_group hs AllWhite.nil, hstripped]
  exact hparsed

end condition_expr
