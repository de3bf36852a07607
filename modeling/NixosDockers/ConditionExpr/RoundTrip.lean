-- The round trip of conditions: what an expression is printed as, and that the
-- parser reads the same expression from it.
import NixosDockers.ConditionExpr.Parts

open rust_text results

namespace condition_expr

/-! ## Printed expressions -/

/-- The expressions that must not stand beside an operator without parentheses. -/
def Expr.isCompound : Expr → Bool
  | .And _ => true
  | .Or _ => true
  | _ => false

/-- An operand in parentheses, or as it is. -/
def wrap (wrapped : Bool) (text : List Char) : List Char :=
  if wrapped then '(' :: text ++ [')'] else text

/-- Operands with an operator and spaces between them. -/
def join (operator : List Char) (operands : List (List Char)) : List Char :=
  (' ' :: operator ++ [' ']).intercalate operands

/-- The text of an expression. Each compound operand is in parentheses, and each other one that
`wraps` picks. -/
def print (wraps : Expr → Bool) : Expr → List Char
  | .Atom text => text
  | .Equal left right => join ['=', '='] [left, right]
  | .NotEqual left right => join ['!', '='] [left, right]
  | .And children => join ['&', '&'] (printAll children)
  | .Or children => join ['|', '|'] (printAll children)
  | .Not child => '!' :: wrap (child.isCompound || wraps child) (print wraps child)
where
  printAll : List Expr → List (List Char)
  | [] => []
  | child :: children =>
    wrap (child.isCompound || wraps child) (print wraps child) :: printAll children

/-- A text in one pair of parentheses. -/
def Enclosed (s : List Char) : Prop := ∃ inside, Balanced inside ∧ s = '(' :: inside ++ [')']

/-- A text that can be an atom or a side of a comparison. -/
structure Leaf (s : List Char) : Prop where
  trimmed : Trimmed s
  ne_nil : s ≠ []
  balanced : Balanced s
  not_enclosed : ¬ Enclosed s
  not_negated : s.head? ≠ some '!'
  free : ∀ operator ∈ [['|', '|'], ['&', '&'], ['!', '='], ['=', '=']], Free operator s

/-- The expressions that have a text. -/
inductive WellFormed : Expr → Prop where
  | Atom {text} : Leaf text → WellFormed (.Atom text)
  | Equal {left right} : Leaf left → Leaf right → WellFormed (.Equal left right)
  | NotEqual {left right} : Leaf left → Leaf right → WellFormed (.NotEqual left right)
  | And {children} : 2 ≤ children.length → (∀ child ∈ children, WellFormed child) →
      WellFormed (.And children)
  | Or {children} : 2 ≤ children.length → (∀ child ∈ children, WellFormed child) →
      WellFormed (.Or children)
  | Not {child} : WellFormed child → WellFormed (.Not child)

/-! ## Operators of joined texts -/

/-- Nothing of an enclosed text but the whole of it closes its parenthesis. -/
theorem Enclosed.open_before {s before after : List Char} (h : Enclosed s) (hs : s = before ++ after)
    (hbefore : before ≠ []) (hafter : after ≠ []) : ¬ Balanced before := by
  obtain ⟨inside, hinside, rfl⟩ := h
  obtain ⟨c, rest, rfl⟩ := List.exists_cons_of_ne_nil hbefore
  obtain ⟨last, d, rfl⟩ := List.eq_nil_or_concat after |>.resolve_left hafter
  obtain ⟨hc, htail⟩ := List.cons.inj hs
  subst hc
  rw [List.append_eq, List.append_eq, List.concat_eq_append, ← List.append_assoc] at htail
  obtain ⟨hinside', _⟩ := List.append_inj' htail rfl
  intro hbalanced
  rw [hinside', Balanced, levelAfter_append, Option.bind_eq_some_iff] at hinside
  obtain ⟨level, hlevel, _⟩ := hinside
  have hdeeper := levelAfter_deeper hlevel 1
  have hopen : levelAfter (Level.top.deeper 1) rest = some .top := hbalanced
  rw [hopen] at hdeeper
  have hdepth := congrArg Level.depth (Option.some.inj hdeeper)
  simp [Level.deeper, Level.top] at hdepth

theorem stripOuter_of_not_enclosed {s : List Char} (htrimmed : Trimmed s) (hs : Balanced s)
    (h : ¬ Enclosed s) : stripOuterParentheses s = .ok s := by
  by_cases hopen : s.head? = some '('
  · obtain ⟨rest, rfl⟩ := List.head?_eq_some_iff.mp hopen
    have hrest : levelAfter (Level.top.deeper 1) rest = some .top := hs
    obtain ⟨inside, after, rfl, hinside, _⟩ := exists_closeOuter hrest
    refine stripOuter_more hinside fun hafter => ?_
    rcases List.eq_nil_or_concat after with rfl | ⟨before, c, rfl⟩
    · exact h ⟨inside, hinside, rfl⟩
    · have hlast : ('(' :: (inside ++ ')' :: List.concat before c)).getLast? = some c := by
        rw [List.concat_eq_append, ← List.cons_append, ← List.cons_append, ← List.append_assoc,
          List.getLast?_concat]
      have hwhite := hafter c (by simp)
      rw [htrimmed.last c hlast] at hwhite
      cases hwhite
  · exact stripOuter_other hopen

theorem balanced_space : Balanced [' '] := rfl

/-- A text is free of an operator when the texts beside a space in it are. -/
theorem free_space {needle : List Char} (hneedle : Operator needle) {s t : List Char} (hs : Balanced s)
    (hfree : Free needle s) (hrest : Free needle t) : Free needle (s ++ ' ' :: t) := by
  intro before after hcut hlevel
  by_cases hlength : before.length ≤ s.length
  · obtain ⟨more, rfl⟩ := cut_before_white hneedle (by decide) hcut hlength
    exact hfree before more rfl hlevel
  · -- the operator is behind the space
    obtain ⟨before', rfl⟩ : ∃ before', before = s ++ [' '] ++ before' := by
      have hprefix : s ++ [' '] <+: before ++ (needle ++ after) := by
        rw [← List.append_assoc, ← hcut]
        exact ⟨t, by simp⟩
      have h := List.prefix_of_prefix_length_le hprefix (List.prefix_append before _) (by simp; omega)
      exact h.imp fun before' h => h.symm
    rw [levelAfter_append, hs.append balanced_space] at hlevel
    exact hrest before' after (by simpa using hcut) hlevel

theorem free_of_notMem {needle s : List Char} {c : Char} (hc : c ∈ needle) (hs : c ∉ s) :
    Free needle s := by
  intro before after hcut
  exact absurd (by rw [hcut]; simp [hc]) hs

theorem join_cons (operator operand : List Char) {operands : List (List Char)} (h : operands ≠ []) :
    join operator (operand :: operands) =
      operand ++ ' ' :: (operator ++ ' ' :: join operator operands) := by
  obtain ⟨next, rest, rfl⟩ := List.exists_cons_of_ne_nil h
  rw [join, List.intercalate_cons_cons, ← join]
  simp

/-- A text that an operand can be. -/
structure Solid (s : List Char) : Prop where
  trimmed : Trimmed s
  ne_nil : s ≠ []
  balanced : Balanced s

/-- Joined texts come apart at the operator. -/
theorem parts_of_join {operator : List Char} (hoperator : Operator operator)
    {operands : List (List Char)} (hne : operands ≠ [])
    (hoperands : ∀ operand ∈ operands, Solid operand ∧ Free operator operand) :
    ∃ parts, Parts operator (join operator operands) parts ∧ parts.map trim = operands := by
  induction operands with
  | nil => exact absurd rfl hne
  | cons operand operands ih =>
    rw [List.forall_mem_cons] at hoperands
    obtain ⟨⟨hsolid, hfree⟩, hrest⟩ := hoperands
    by_cases hnil : operands = []
    · subst hnil
      refine ⟨[operand], ?_, by rw [List.map_singleton, hsolid.trimmed.trim]⟩
      rw [join, List.intercalate_singleton]
      exact .last hsolid.balanced hfree
    · obtain ⟨parts, hparts, htrim⟩ := ih hnil hrest
      obtain ⟨part, more, rfl⟩ := List.exists_cons_of_ne_nil hparts.ne_nil
      have hwhite : AllWhite [' '] := by
        intro c hc
        rw [List.mem_singleton.mp hc]
        rfl
      have hfirst : FirstCut operator (operand ++ [' ']) ([' '] ++ join operator operands) := by
        intro other after hcut hlength hlevel
        have hcut' : operand ++ ' ' :: (operator ++ ([' '] ++ join operator operands)) =
            other ++ operator ++ after := by
          rw [← hcut]
          simp
        obtain ⟨more, rfl⟩ := cut_before_white hoperator rfl hcut' (by simp at hlength; omega)
        exact hfree other more rfl hlevel
      refine ⟨(operand ++ [' ']) :: ([' '] ++ part) :: more, ?_, ?_⟩
      · have h := Parts.cut (hsolid.balanced.append balanced_space) hfirst
          (hparts.white_left hoperator hwhite)
        rw [join_cons _ _ hnil]
        simpa using h
      · have hpart := trim_white_append (s := part) hwhite AllWhite.nil
        have hoperand := trim_white_append (s := operand) AllWhite.nil hwhite
        rw [List.append_nil] at hpart
        rw [List.nil_append] at hoperand
        rw [List.map_cons, List.map_cons, hpart, hoperand, hsolid.trimmed.trim, ← htrim, List.map_cons]

theorem solid_join {operator : List Char} (hoperator : Operator operator) {operands : List (List Char)}
    (hne : operands ≠ []) (hoperands : ∀ operand ∈ operands, Solid operand) :
    Solid (join operator operands) := by
  induction operands with
  | nil => exact absurd rfl hne
  | cons operand operands ih =>
    rw [List.forall_mem_cons] at hoperands
    by_cases hnil : operands = []
    · subst hnil
      rw [join, List.intercalate_singleton]
      exact hoperands.1
    · have hrest := ih hnil hoperands.2
      have hjoin : join operator (operand :: operands) =
          operand ++ (' ' :: operator ++ [' ']) ++ join operator operands := by
        rw [join_cons _ _ hnil]
        simp
      rw [hjoin]
      refine ⟨hoperands.1.trimmed.append hrest.trimmed hoperands.1.ne_nil hrest.ne_nil _, ?_, ?_⟩
      · simp [hoperands.1.ne_nil]
      · have hbetween := (balanced_space.append hoperator.plain.balanced).append balanced_space
        exact (hoperands.1.balanced.append hbetween).append hrest.balanced

theorem free_join {needle operator : List Char} (hneedle : Operator needle)
    (hoperator : Operator operator) (hother : Free needle operator) {operands : List (List Char)}
    (hne : operands ≠ []) (hoperands : ∀ operand ∈ operands, Solid operand ∧ Free needle operand) :
    Free needle (join operator operands) := by
  induction operands with
  | nil => exact absurd rfl hne
  | cons operand operands ih =>
    rw [List.forall_mem_cons] at hoperands
    obtain ⟨⟨hsolid, hfree⟩, hrest⟩ := hoperands
    by_cases hnil : operands = []
    · subst hnil
      rw [join, List.intercalate_singleton]
      exact hfree
    · rw [join_cons _ _ hnil]
      exact free_space hneedle hsolid.balanced hfree
        (free_space hneedle hoperator.plain.balanced hother (ih hnil hrest))

/-- More than one operand is not in one pair of parentheses. -/
theorem join_not_enclosed {operator : List Char} {operands : List (List Char)}
    (hmore : 2 ≤ operands.length) (hoperands : ∀ operand ∈ operands, Solid operand) :
    ¬ Enclosed (join operator operands) := by
  intro henclosed
  match operands, hmore with
  | first :: second :: rest, _ =>
    have hfirst := hoperands first List.mem_cons_self
    exact henclosed.open_before (join_cons operator first (by simp)) hfirst.ne_nil (by simp)
      hfirst.balanced

theorem splitTopLevel_join {operator : List Char} (hoperator : Operator operator)
    {operands : List (List Char)} (hmore : 2 ≤ operands.length)
    (hoperands : ∀ operand ∈ operands, Solid operand ∧ Free operator operand) :
    splitTopLevel (join operator operands) operator = .ok operands := by
  have hne : operands ≠ [] := by
    rintro rfl
    cases hmore
  obtain ⟨parts, hparts, htrim⟩ := parts_of_join hoperator hne hoperands
  have hlength : parts.length = operands.length := by rw [← htrim, List.length_map]
  rw [hparts.splitTopLevel hoperator, if_neg (by omega), htrim, if_neg]
  rw [Bool.not_eq_true, List.any_eq_false]
  intro operand hoperand
  rw [List.isEmpty_iff]
  exact (hoperands operand hoperand).1.ne_nil

theorem splitTopLevel_free {operator s : List Char} (hoperator : Operator operator) (hs : Balanced s)
    (hfree : Free operator s) : splitTopLevel s operator = .ok [s] := by
  rw [(Parts.last hs hfree).splitTopLevel hoperator]
  rfl

theorem splitComparisonAt_join {operator : List Char} (hoperator : Operator operator)
    {left right : List Char} (hleft : Solid left ∧ Free operator left)
    (hright : Solid right ∧ Free operator right) :
    splitComparisonAt (join operator [left, right]) operator = .ok (some ⟨left, operator, right⟩) := by
  have hsides : ∀ side ∈ [left, right], Solid side ∧ Free operator side := by
    simp only [List.forall_mem_cons]
    exact ⟨hleft, hright, fun _ h => nomatch h⟩
  obtain ⟨parts, hparts, htrim⟩ := parts_of_join hoperator (by simp) hsides
  obtain ⟨first, second, rfl⟩ : ∃ first second, parts = [first, second] := by
    have hlength : parts.length = 2 := by rw [← List.length_map trim, htrim]; rfl
    exact List.length_eq_two.mp hlength
  simp only [List.map_cons, List.map_nil, List.cons.injEq, and_true] at htrim
  rw [splitComparisonAt, hparts.scan hoperator, ok_bind]
  simp only [List.intercalate_singleton, htrim.1, htrim.2]
  rw [if_neg]
  · rfl
  · simp [hleft.1.ne_nil, hright.1.ne_nil]

theorem splitComparisonAt_free {operator s : List Char} (hoperator : Operator operator) (hs : Balanced s)
    (hfree : Free operator s) : splitComparisonAt s operator = .ok none := by
  rw [splitComparisonAt, (Parts.last hs hfree).scan hoperator]
  rfl

/-! ## Operands -/

/-- A text that is parsed as the expression behind its outer parentheses. -/
structure Printed (s : List Char) (e : Expr) : Prop where
  solid : Solid s
  not_enclosed : ¬ Enclosed s
  inside : parseInside parse s = .ok e
  free : e.isCompound = false → Free ['|', '|'] s ∧ Free ['&', '&'] s

/-- A text that is parsed as the expression between operators. -/
structure Operand (s : List Char) (e : Expr) : Prop where
  solid : Solid s
  free_or : Free ['|', '|'] s
  free_and : Free ['&', '&'] s
  parse : parse s = .ok e

theorem Solid.parse_eq {s : List Char} (h : Solid s) :
    parse s = stripOuterParentheses s >>= parseInside parse := by
  rw [condition_expr.parse_eq, h.trimmed.trim, if_neg]
  rw [List.isEmpty_iff]
  exact h.ne_nil

theorem Printed.parse {s : List Char} {e : Expr} (h : Printed s e) : parse s = .ok e := by
  rw [h.solid.parse_eq, stripOuter_of_not_enclosed h.solid.trimmed h.solid.balanced h.not_enclosed]
  exact h.inside

theorem enclosed_free {operator s : List Char} (hoperator : Operator operator) (h : Enclosed s) :
    Free operator s := by
  intro before after hcut hlevel
  by_cases hbefore : before = []
  · subst hbefore
    obtain ⟨inside, _, rfl⟩ := h
    obtain ⟨c, rest, rfl⟩ := List.exists_cons_of_ne_nil hoperator.ne_nil
    exact (hoperator.plain c List.mem_cons_self).2.1 (List.cons.inj hcut).1.symm
  · rw [List.append_assoc] at hcut
    exact h.open_before hcut hbefore (by simp [hoperator.ne_nil]) hlevel

theorem Balanced.solid_parenthesised {s : List Char} (h : Balanced s) : Solid ('(' :: s ++ [')']) := by
  refine ⟨⟨?_, ?_⟩, by simp, h.parenthesised⟩
  · intro c hc
    obtain rfl : '(' = c := Option.some.inj hc
    rfl
  · intro c hc
    rw [List.getLast?_concat] at hc
    obtain rfl := Option.some.inj hc
    rfl

/-- In parentheses, or without a top-level operator, a printed text is an operand. -/
theorem Printed.operand {s : List Char} {e : Expr} (h : Printed s e) {wrapped : Bool}
    (hwrapped : e.isCompound = true → wrapped = true) : Operand (wrap wrapped s) e := by
  cases wrapped with
  | false =>
    have hfree := h.free (Bool.eq_false_iff.mpr fun hc => Bool.false_ne_true (hwrapped hc))
    exact ⟨h.solid, hfree.1, hfree.2, h.parse⟩
  | true =>
    have henclosed : Enclosed ('(' :: s ++ [')']) := ⟨s, h.solid.balanced, rfl⟩
    have hsolid := h.solid.balanced.solid_parenthesised
    refine ⟨hsolid, enclosed_free operator_or henclosed, enclosed_free operator_and henclosed, ?_⟩
    rw [wrap, if_pos rfl, hsolid.parse_eq, stripOuter_group h.solid.balanced AllWhite.nil,
      stripOuter_of_not_enclosed h.solid.trimmed h.solid.balanced h.not_enclosed]
    exact h.inside

/-! ## Expressions -/

theorem printAll_eq (wraps : Expr → Bool) (children : List Expr) : print.printAll wraps children =
    children.map fun child => wrap (child.isCompound || wraps child) (print wraps child) := by
  induction children with
  | nil => rfl
  | cons child children ih => rw [print.printAll, ih, List.map_cons]

/-- What is not a list of operands is a negation, a comparison or an atom. -/
theorem parseInside_free {s : List Char} (hs : Balanced s) (hor : Free ['|', '|'] s)
    (hand : Free ['&', '&'] s) : parseInside parse s =
      if s.head? = some '!' then (parse s.tail).map .Not
      else (splitComparison s).map fun
        | some comparison =>
          if comparison.operator = ['=', '='] then .Equal comparison.left comparison.right
          else .NotEqual comparison.left comparison.right
        | none => .Atom s := by
  rw [parseInside, splitTopLevel_free operator_or hs hor, ok_bind, if_neg (by simp),
    splitTopLevel_free operator_and hs hand, ok_bind, if_neg (by simp)]
  split
  · cases parse s.tail <;> rfl
  · cases splitComparison s with
    | error e => rfl
    | ok found => cases found <;> rfl

theorem Leaf.solid {s : List Char} (h : Leaf s) : Solid s := ⟨h.trimmed, h.ne_nil, h.balanced⟩

theorem printed_atom {text : List Char} (h : Leaf text) : Printed text (.Atom text) := by
  have hfree := h.free
  simp only [List.forall_mem_cons] at hfree
  obtain ⟨hor, hand, hne, heq, _⟩ := hfree
  refine ⟨h.solid, h.not_enclosed, ?_, fun _ => ⟨hor, hand⟩⟩
  rw [parseInside_free h.balanced hor hand, if_neg h.not_negated, splitComparison,
    splitComparisonAt_free operator_notEqual h.balanced hne, ok_bind,
    splitComparisonAt_free operator_equal h.balanced heq]
  rfl

theorem head_join (operator : List Char) {left : List Char} (hleft : left ≠ []) (right : List Char) :
    (join operator [left, right]).head? = left.head? := by
  rw [join_cons _ _ (by simp), List.head?_append_of_ne_nil _ hleft]

/-- The sides of a comparison, with no other operator than its own between them. -/
theorem join_sides_free (needle : List Char) {operator left right : List Char}
    (hneedle : needle ∈ [['|', '|'], ['&', '&'], ['!', '='], ['=', '=']])
    (hoperator : Operator operator) (hother : Free needle operator) (hleft : Leaf left)
    (hright : Leaf right) : Free needle (join operator [left, right]) := by
  have hneedle' : Operator needle := by
    simp only [List.mem_cons, List.not_mem_nil, or_false] at hneedle
    rcases hneedle with rfl | rfl | rfl | rfl
    · exact operator_or
    · exact operator_and
    · exact operator_notEqual
    · exact operator_equal
  refine free_join hneedle' hoperator hother (by simp) ?_
  simp only [List.forall_mem_cons]
  exact ⟨⟨hleft.solid, hleft.free needle hneedle⟩, ⟨hright.solid, hright.free needle hneedle⟩,
    fun _ h => nomatch h⟩

theorem solid_sides {left right : List Char} (hleft : Leaf left) (hright : Leaf right) :
    ∀ side ∈ [left, right], Solid side := by
  simp only [List.forall_mem_cons]
  exact ⟨hleft.solid, hright.solid, fun _ h => nomatch h⟩

/-- What a printed comparison has in common for both of its operators. -/
theorem printed_comparison {operator left right : List Char} {e : Expr} (hoperator : Operator operator)
    (hbars : '|' ∉ operator) (hands : '&' ∉ operator) (hleft : Leaf left) (hright : Leaf right)
    (hfound : splitComparison (join operator [left, right]) = .ok (some ⟨left, operator, right⟩))
    (he : (if operator = ['=', '='] then Expr.Equal left right else .NotEqual left right) = e) :
    Printed (join operator [left, right]) e := by
  have hsolid := solid_join hoperator (by simp) (solid_sides hleft hright)
  have hor := join_sides_free ['|', '|'] (by simp) hoperator
    (free_of_notMem List.mem_cons_self hbars) hleft hright
  have hand := join_sides_free ['&', '&'] (by simp) hoperator
    (free_of_notMem List.mem_cons_self hands) hleft hright
  refine ⟨hsolid, join_not_enclosed le_rfl (solid_sides hleft hright), ?_, fun _ => ⟨hor, hand⟩⟩
  rw [parseInside_free hsolid.balanced hor hand, head_join operator hleft.ne_nil,
    if_neg hleft.not_negated, hfound]
  exact congrArg Except.ok he

theorem printed_equal {left right : List Char} (hleft : Leaf left) (hright : Leaf right) :
    Printed (join ['=', '='] [left, right]) (.Equal left right) := by
  have hsolid := solid_join operator_equal (by simp) (solid_sides hleft hright)
  have hnotEqual := join_sides_free ['!', '='] (by simp) operator_equal
    (free_of_notMem (c := '!') (by simp) (by simp)) hleft hright
  refine printed_comparison operator_equal (by simp) (by simp) hleft hright ?_ rfl
  rw [splitComparison, splitComparisonAt_free operator_notEqual hsolid.balanced hnotEqual, ok_bind]
  exact splitComparisonAt_join operator_equal ⟨hleft.solid, hleft.free _ (by simp)⟩
    ⟨hright.solid, hright.free _ (by simp)⟩

theorem printed_notEqual {left right : List Char} (hleft : Leaf left) (hright : Leaf right) :
    Printed (join ['!', '='] [left, right]) (.NotEqual left right) := by
  refine printed_comparison operator_notEqual (by simp) (by simp) hleft hright ?_ (by simp)
  rw [splitComparison, splitComparisonAt_join operator_notEqual
    ⟨hleft.solid, hleft.free _ (by simp)⟩ ⟨hright.solid, hright.free _ (by simp)⟩]
  rfl

theorem operands_solid {operands : List (List Char)} {children : List Expr}
    (h : List.Forall₂ Operand operands children) : ∀ operand ∈ operands, Solid operand ∧
      Free ['|', '|'] operand ∧ Free ['&', '&'] operand := by
  induction h with
  | nil => exact fun _ h => nomatch h
  | cons hoperand _ ih =>
    rw [List.forall_mem_cons]
    exact ⟨⟨hoperand.solid, hoperand.free_or, hoperand.free_and⟩, ih⟩

theorem operands_parse {operands : List (List Char)} {children : List Expr}
    (h : List.Forall₂ Operand operands children) : operands.mapM parse = .ok children :=
  mapM_ok_iff.mpr (h.imp fun _ _ h => h.parse)

theorem printed_or {operands : List (List Char)} {children : List Expr} (hmore : 2 ≤ operands.length)
    (h : List.Forall₂ Operand operands children) : Printed (join ['|', '|'] operands) (.Or children) := by
  have hne : operands ≠ [] := by
    rintro rfl
    cases hmore
  have hoperands := operands_solid h
  have hsolid := solid_join operator_or hne fun operand hoperand => (hoperands operand hoperand).1
  have hsplit := splitTopLevel_join operator_or hmore fun operand hoperand =>
    ⟨(hoperands operand hoperand).1, (hoperands operand hoperand).2.1⟩
  refine ⟨hsolid, join_not_enclosed hmore fun operand hoperand => (hoperands operand hoperand).1, ?_,
    fun hcompound => by cases hcompound⟩
  rw [parseInside, hsplit, ok_bind, if_pos (by omega), operands_parse h]
  rfl

theorem printed_and {operands : List (List Char)} {children : List Expr} (hmore : 2 ≤ operands.length)
    (h : List.Forall₂ Operand operands children) : Printed (join ['&', '&'] operands) (.And children) := by
  have hne : operands ≠ [] := by
    rintro rfl
    cases hmore
  have hoperands := operands_solid h
  have hsolid := solid_join operator_and hne fun operand hoperand => (hoperands operand hoperand).1
  have hor := free_join operator_or operator_and (free_of_notMem (c := '|') (by simp) (by simp)) hne
    fun operand hoperand => ⟨(hoperands operand hoperand).1, (hoperands operand hoperand).2.1⟩
  have hsplit := splitTopLevel_join operator_and hmore fun operand hoperand =>
    ⟨(hoperands operand hoperand).1, (hoperands operand hoperand).2.2⟩
  refine ⟨hsolid, join_not_enclosed hmore fun operand hoperand => (hoperands operand hoperand).1, ?_,
    fun hcompound => by cases hcompound⟩
  rw [parseInside, splitTopLevel_free operator_or hsolid.balanced hor, ok_bind, if_neg (by simp),
    hsplit, ok_bind, if_pos (by omega), operands_parse h]
  rfl

theorem free_not {needle s : List Char} (hneedle : '!' ∉ needle) (hne : needle ≠ [])
    (h : Free needle s) : Free needle ('!' :: s) := by
  intro before after hcut hlevel
  cases before with
  | nil =>
    obtain ⟨c, rest, rfl⟩ := List.exists_cons_of_ne_nil hne
    obtain ⟨rfl, _⟩ := List.cons.inj hcut
    exact hneedle List.mem_cons_self
  | cons c before =>
    obtain ⟨rfl, hs⟩ := List.cons.inj hcut
    exact h before after hs hlevel

theorem printed_not {operand : List Char} {child : Expr} (h : Operand operand child) :
    Printed ('!' :: operand) (.Not child) := by
  have hor := free_not (by simp) (by simp) h.free_or
  have hand := free_not (by simp) (by simp) h.free_and
  have hsolid : Solid ('!' :: operand) := by
    refine ⟨⟨?_, ?_⟩, by simp, h.solid.balanced⟩
    · intro c hc
      obtain rfl : '!' = c := Option.some.inj hc
      rfl
    · intro c hc
      refine h.solid.trimmed.last c ?_
      obtain ⟨d, rest, hrest⟩ := List.exists_cons_of_ne_nil h.solid.ne_nil
      rw [hrest] at hc ⊢
      rwa [List.getLast?_cons_cons] at hc
  refine ⟨hsolid, ?_, ?_, fun _ => ⟨hor, hand⟩⟩
  · rintro ⟨inside, _, hinside⟩
    exact absurd (List.cons.inj hinside).1 (by decide)
  · rw [parseInside_free hsolid.balanced hor hand, if_pos List.head?_cons, List.tail_cons, h.parse]
    rfl

theorem printed_print (wraps : Expr → Bool) {e : Expr} (h : WellFormed e) :
    Printed (print wraps e) e := by
  have hall : ∀ children : List Expr, (∀ child ∈ children, Printed (print wraps child) child) →
      List.Forall₂ Operand (print.printAll wraps children) children := by
    intro children hchildren
    rw [printAll_eq, List.forall₂_map_left_iff, List.forall₂_same]
    intro child hchild
    refine (hchildren child hchild).operand fun hcompound => ?_
    rw [hcompound, Bool.true_or]
  have hlength : ∀ children, (print.printAll wraps children).length = children.length := by
    intro children
    rw [printAll_eq, List.length_map]
  induction h with
  | Atom htext => exact printed_atom htext
  | Equal hleft hright => exact printed_equal hleft hright
  | NotEqual hleft hright => exact printed_notEqual hleft hright
  | And hmore _ ih => exact printed_and (by rwa [hlength]) (hall _ ih)
  | Or hmore _ ih => exact printed_or (by rwa [hlength]) (hall _ ih)
  | Not _ ih =>
    refine printed_not (ih.operand fun hcompound => ?_)
    rw [hcompound, Bool.true_or]

/-- What a well-formed expression is printed as is parsed as the same expression. -/
theorem printed_expression_parses_back (wraps : Expr → Bool) (e : Expr) (h : WellFormed e) :
    parse (print wraps e) = .ok e := (printed_print wraps h).parse

theorem leaf_letter {c : Char} (hc : c ∈ ['a', 'b', 'c', 'd']) : Leaf [c] := by
  have hfree : ∀ operator ∈ [['|', '|'], ['&', '&'], ['!', '='], ['=', '=']], Free operator [c] := by
    intro operator hoperator before after hcut
    have hlength := congrArg List.length hcut
    simp only [List.mem_cons, List.not_mem_nil, or_false] at hoperator
    rcases hoperator with rfl | rfl | rfl | rfl <;> simp at hlength <;> omega
  simp only [List.mem_cons, List.not_mem_nil, or_false] at hc
  refine ⟨⟨?_, ?_⟩, by simp, ?_, ?_, ?_, hfree⟩
  · rintro d hd
    obtain rfl := Option.some.inj hd
    rcases hc with rfl | rfl | rfl | rfl <;> decide
  · rintro d hd
    obtain rfl := Option.some.inj hd
    rcases hc with rfl | rfl | rfl | rfl <;> decide
  · rcases hc with rfl | rfl | rfl | rfl <;> rfl
  · rintro ⟨inside, _, hinside⟩
    simp at hinside
  · rcases hc with rfl | rfl | rfl | rfl <;> decide

/-- `a || (b && !c == d)` is printed and read. -/
theorem grouped_expression_parses_back :
    let e := Expr.Or [.Atom ['a'], .And [.Atom ['b'], .Not (.Equal ['c'] ['d'])]]
    parse (print (fun _ => false) e) = .ok e := by
  refine printed_expression_parses_back _ _ (.Or le_rfl ?_)
  simp only [List.forall_mem_cons]
  refine ⟨.Atom (leaf_letter (by simp)), .And le_rfl ?_, fun _ h => nomatch h⟩
  simp only [List.forall_mem_cons]
  exact ⟨.Atom (leaf_letter (by simp)), .Not (.Equal (leaf_letter (by simp)) (leaf_letter (by simp))),
    fun _ h => nomatch h⟩

end condition_expr
