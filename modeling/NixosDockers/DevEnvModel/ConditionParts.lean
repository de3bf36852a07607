-- Conditions and their parts: what is read from conditions that are put together with operators,
-- and from a leaf of a condition that is written alone.
import NixosDockers.ConditionExpr.Leaves
import NixosDockers.DevEnvModel.Condition

open rust_text results
open condition_expr (Part Written Solid join)

namespace dev_env_model

/-! ## References -/

/-- The characters of references. -/
def isReferenceChar (c : Char) : Bool := c.isAlphanum || c = '_' || c = '-' || c = '*' || c = '.'

theorem all_intercalate {p : Char → Bool} {c : Char} (hc : p c = true) {parts : List (List Char)}
    (h : ∀ part ∈ parts, part.all p = true) : ([c].intercalate parts).all p = true := by
  induction parts with
  | nil => rfl
  | cons part parts ih =>
    rw [List.forall_mem_cons] at h
    by_cases hnil : parts = []
    · subst hnil
      rw [List.intercalate_singleton]
      exact h.1
    · obtain ⟨next, rest, rfl⟩ := List.exists_cons_of_ne_nil hnil
      rw [List.intercalate_cons_cons, List.all_append, List.all_append, h.1, ih h.2]
      simp [hc]

theorem configPath_chars {path : String} (h : isConfigPath path = true) :
    path.toList.all isReferenceChar = true := by
  unfold isConfigPath at h
  simp only [Bool.and_eq_true] at h
  obtain ⟨-, hparts⟩ := h
  have hsplit : ['.'].intercalate (path.toList.splitOn '.') = path.toList :=
    List.intercalate_splitOn _
  rw [← hsplit]
  refine all_intercalate (by decide) fun part hpart => ?_
  obtain ⟨index, hindex⟩ := List.mem_iff_getElem?.mp
    (show String.ofList part ∈ splitChar '.' path from List.mem_map_of_mem hpart)
  have hchars := List.all_eq_true.mp hparts _ (List.mk_mem_zipIdx_iff_getElem?.mpr hindex)
  simp only [Bool.or_eq_true, Bool.and_eq_true, decide_eq_true_eq, String.toList_ofList] at hchars
  rcases hchars with ⟨hstar, -⟩ | hchars
  · rw [← String.toList_ofList (l := part), hstar]
    rfl
  · rw [List.all_eq_true] at hchars ⊢
    intro c hc
    have hchar := hchars c hc
    simp only [Bool.or_eq_true, decide_eq_true_eq] at hchar
    unfold isReferenceChar
    rcases hchar with (halnum | rfl) | rfl
    · rw [halnum]
      rfl
    · rfl
    · rfl

theorem envName_chars {name : String} (h : isEnvName name = true) :
    name.toList.all isReferenceChar = true := by
  unfold isEnvName at h
  cases hname : name.toList with
  | nil => rfl
  | cons c rest =>
    rw [hname] at h
    simp only [Bool.and_eq_true, List.all_eq_true] at h
    obtain ⟨hc, hrest⟩ := h
    have hname : ∀ d : Char, d.isUpper || d.isDigit || d = '_' → isReferenceChar d = true := by
      intro d hd
      unfold isReferenceChar Char.isAlphanum Char.isAlpha
      cases hu : d.isUpper <;> cases hl : d.isDigit <;> simp_all
    rw [List.all_cons, Bool.and_eq_true, List.all_eq_true]
    refine ⟨hname c ?_, fun d hd => hname d (hrest d hd)⟩
    rw [Bool.or_eq_true] at hc
    rcases hc with hupper | hunder
    · simp [hupper]
    · simp only [hunder, Bool.or_true]

/-- A valid reference has none but the characters of references. -/
theorem reference_chars {input : String} (h : validReference input = true) :
    input.toList.all isReferenceChar = true := by
  unfold validReference at h
  cases hsplit : splitDot input with
  | none =>
    rw [hsplit] at h
    cases h
  | some names =>
    obtain ⟨space, rest⟩ := names
    obtain ⟨⟨before, after⟩, hfound, heq⟩ := Option.map_eq_some_iff.mp hsplit
    obtain ⟨rfl, rfl⟩ := Prod.mk.inj heq
    rw [hsplit] at h
    dsimp only at h
    have hrest : (String.ofList after).toList.all isReferenceChar = true := by
      split_ifs at h
      · rw [Bool.or_eq_true, decide_eq_true_eq] at h
        rcases h with henabled | hpath
        · rw [henabled]
          rfl
        · exact configPath_chars hpath
      · simp only [Bool.or_eq_true, decide_eq_true_eq] at h
        rcases h with (hrest | hrest) | hrest <;> rw [hrest] <;> rfl
      · exact configPath_chars h
      · exact envName_chars h
      · simp only [Bool.or_eq_true, decide_eq_true_eq] at h
        rcases h with (hrest | hrest) | hrest <;> rw [hrest] <;> rfl
    have hspace : (String.ofList before).toList.all isReferenceChar = true := by
      split_ifs at h with hspace hspace hspace hspace hspace
      · rw [hspace]
        rfl
      · rw [hspace]
        rfl
      · rw [Bool.or_eq_true, decide_eq_true_eq, decide_eq_true_eq] at hspace
        rcases hspace with hspace | hspace <;> rw [hspace] <;> rfl
      · rw [Bool.or_eq_true, decide_eq_true_eq, decide_eq_true_eq] at hspace
        rcases hspace with hspace | hspace <;> rw [hspace] <;> rfl
      · rw [hspace]
        rfl
    rw [String.toList_ofList] at hrest hspace
    rw [splitOnce_eq_append hfound, List.all_append, List.all_append, hrest, hspace]
    rfl

/-! ## Signs of a shell -/

theorem containsText_iff {needle : List Char} (hne : needle ≠ []) {s : List Char} :
    containsText needle s = true ↔ needle <:+: s := by
  unfold containsText
  constructor
  · intro h
    obtain ⟨⟨before, after⟩, hfound⟩ := Option.isSome_iff_exists.mp h
    exact ⟨before, after, (splitOnce_eq_append hfound).symm⟩
  · intro h
    induction s with
    | nil => exact absurd (List.infix_nil.mp h) hne
    | cons c s ih =>
      rw [splitOnce]
      split_ifs with hprefix
      · rfl
      · rw [Option.isSome_map]
        rcases List.infix_cons_iff.mp h with hstart | hrest
        · exact absurd (List.isPrefixOf_iff_prefix.mpr hstart) hprefix
        · exact ih hrest

/-- A text with none of the signs, but for its pipes. -/
structure Unsigned (s : List Char) : Prop where
  substitution : ¬ ['$', '('] <:+: s
  chars : ∀ c ∈ [backtick, ';', '>', '<'], c ∉ s

theorem isShellSyntax_iff {s : List Char} : isShellSyntax s = false ↔
    Unsigned s ∧ ('|' ∈ s → ['|', '|'] <:+: s) := by
  have hdollar := not_congr (containsText_iff (List.cons_ne_nil '$' ['(']) (s := s))
  have hbars := containsText_iff (List.cons_ne_nil '|' ['|']) (s := s)
  rw [Bool.not_eq_true] at hdollar
  simp only [isShellSyntax, Bool.or_eq_false_iff, Bool.and_eq_false_iff, Bool.not_eq_false',
    List.contains_eq_mem, decide_eq_false_iff_not, hdollar, hbars]
  constructor
  · rintro ⟨⟨⟨⟨⟨hsubstitution, hback⟩, hsemi⟩, hpipe⟩, hgreater⟩, hless⟩
    refine ⟨⟨hsubstitution, ?_⟩, fun hin => hpipe.resolve_left fun hnot => hnot hin⟩
    simp only [List.forall_mem_cons]
    exact ⟨hback, hsemi, hgreater, hless, fun _ h => nomatch h⟩
  · rintro ⟨⟨hsubstitution, hchars⟩, hpipe⟩
    simp only [List.forall_mem_cons] at hchars
    obtain ⟨hback, hsemi, hgreater, hless, -⟩ := hchars
    exact ⟨⟨⟨⟨⟨hsubstitution, hback⟩, hsemi⟩, (em ('|' ∈ s)).symm.imp id hpipe⟩, hgreater⟩, hless⟩

/-- Two characters that stand beside each other do so before or behind a text that neither has the
first of them nor begins with the second. -/
theorem pair_beside {x y m : Char} {s mid t : List Char} (h : [x, y] <:+: s ++ (m :: mid) ++ t)
    (hx : x ∉ m :: mid) (hy : y ≠ m) : [x, y] <:+: s ∨ [x, y] <:+: t := by
  induction s with
  | nil =>
    refine Or.inr ?_
    have hskip : ∀ mid, x ∉ mid → [x, y] <:+: mid ++ t → [x, y] <:+: t := by
      intro mid hmid hin
      induction mid with
      | nil => exact hin
      | cons c mid ih =>
        rw [List.mem_cons, not_or] at hmid
        rcases List.infix_cons_iff.mp hin with hstart | hrest
        · exact absurd (List.cons_prefix_cons.mp hstart).1 hmid.1
        · exact ih hmid.2 hrest
    exact hskip _ hx h
  | cons c s ih =>
    rcases List.infix_cons_iff.mp h with hstart | hrest
    · refine Or.inl ?_
      obtain ⟨rfl, hnext⟩ := List.cons_prefix_cons.mp hstart
      cases s with
      | nil => exact absurd (List.cons_prefix_cons.mp hnext).1 hy
      | cons d s =>
        obtain ⟨rfl, -⟩ := List.cons_prefix_cons.mp hnext
        exact ⟨[], s, rfl⟩
    · rcases ih hrest with hin | hin
      · exact Or.inl (hin.trans (List.suffix_cons _ _).isInfix)
      · exact Or.inr hin

/-- A character that is one of the signs, or begins one. -/
def isSign (c : Char) : Bool := c = '$' || c = backtick || c = ';' || c = '>' || c = '<'

theorem isSign_of_mem {c : Char} (h : c ∈ ['$', backtick, ';', '>', '<']) : isSign c = true := by
  simp only [List.mem_cons, List.not_mem_nil, or_false] at h
  rcases h with rfl | rfl | rfl | rfl | rfl <;> rfl

namespace Unsigned

variable {s t : List Char}

theorem of_piece (h : Unsigned s) (ht : t <:+: s) : Unsigned t :=
  ⟨fun hin => h.substitution (hin.trans ht), fun c hc hin => h.chars c hc (ht.subset hin)⟩

theorem nil : Unsigned [] := ⟨by decide, fun _ _ h => nomatch h⟩

theorem cons {c : Char} (h : Unsigned s) (hc : isSign c = false) : Unsigned (c :: s) := by
  constructor
  · intro hin
    rcases List.infix_cons_iff.mp hin with hstart | hrest
    · rw [← (List.cons_prefix_cons.mp hstart).1] at hc
      cases hc
    · exact h.substitution hrest
  · intro d hd hin
    rcases List.mem_cons.mp hin with rfl | hin
    · rw [isSign_of_mem (List.mem_cons_of_mem _ hd)] at hc
      cases hc
    · exact h.chars d hd hin

/-- Two texts with something harmless between them. -/
theorem between {m : Char} {mid : List Char} (hs : Unsigned s) (ht : Unsigned t) (hm : '(' ≠ m)
    (hmid : (m :: mid).any isSign = false) : Unsigned (s ++ (m :: mid) ++ t) := by
  have hmid : ∀ c ∈ ['$', backtick, ';', '>', '<'], c ∉ m :: mid := fun c hc hin =>
    List.any_eq_false.mp hmid c hin (isSign_of_mem hc)
  rw [List.forall_mem_cons] at hmid
  constructor
  · intro hin
    rcases pair_beside hin hmid.1 hm with hin | hin
    · exact hs.substitution hin
    · exact ht.substitution hin
  · intro c hc hin
    rw [List.mem_append, List.mem_append] at hin
    rcases hin with (hin | hin) | hin
    · exact hs.chars c hc hin
    · exact hmid.2 c hc hin
    · exact ht.chars c hc hin

theorem parenthesised (h : Unsigned s) : Unsigned ('(' :: s ++ [')']) := by
  have h : Unsigned (s ++ [')'] ++ []) := h.between nil (by decide) (by decide)
  rw [List.append_nil] at h
  exact h.cons (by decide)

/-- Two texts in parentheses with an operator between them. -/
theorem join {operator : List Char} (hs : Unsigned s) (ht : Unsigned t)
    (hoperator : (' ' :: operator ++ [' ']).any isSign = false) :
    Unsigned (condition_expr.join operator [s, t]) := by
  have h := hs.between ht (by decide) hoperator
  rw [condition_expr.join_cons _ _ (by simp), condition_expr.join, List.intercalate_singleton]
  simpa using h

end Unsigned

/-! ## Conditions that are put together -/

section Composition

variable {a b text : List Char} {ca cb condition : Condition}

theorem parse_of_parts {e : condition_expr.Expr} (hsolid : Solid text) (hsigns : Unsigned text)
    (hbars : '|' ∈ text → ['|', '|'] <:+: text) (hparse : condition_expr.parse text = .ok e)
    (hshared : fromShared e = .ok condition) : Condition.parse text = .ok condition := by
  rw [Condition.parse_ok_iff, hsolid.trimmed.trim]
  exact ⟨hsolid.ne_nil, isShellSyntax_iff.mpr ⟨hsigns, hbars⟩, e, hparse, hshared⟩

theorem parts_of_parse (htrimmed : Trimmed a) (h : Condition.parse a = .ok ca) :
    Unsigned a ∧ ('|' ∈ a → ['|', '|'] <:+: a) ∧
      ∃ e, condition_expr.parse a = .ok e ∧ fromShared e = .ok ca := by
  rw [Condition.parse_ok_iff, htrimmed.trim] at h
  obtain ⟨-, hshell, hparsed⟩ := h
  obtain ⟨hsigns, hbars⟩ := isShellSyntax_iff.mp hshell
  exact ⟨hsigns, hbars, hparsed⟩

theorem join_pair (operator s t : List Char) :
    join operator [s, t] = s ++ (' ' :: operator ++ [' ']) ++ t := by
  rw [condition_expr.join_cons _ _ (by simp), join, List.intercalate_singleton]
  simp

theorem fromSharedAll_pair {ea eb : condition_expr.Expr} (ha : fromShared ea = .ok ca)
    (hb : fromShared eb = .ok cb) : fromSharedAll [ea, eb] = .ok [ca, cb] :=
  fromSharedAll_ok_iff.mpr (.cons ha (.cons hb .nil))

theorem ands_unsigned : (' ' :: ['&', '&'] ++ [' ']).any isSign = false := rfl

theorem equal_unsigned : (' ' :: ['=', '='] ++ [' ']).any isSign = false := rfl

theorem notEqual_unsigned : (' ' :: ['!', '='] ++ [' ']).any isSign = false := rfl

theorem bars_unsigned : (' ' :: ['|', '|'] ++ [' ']).any isSign = false := rfl

/-- Two conditions in parentheses. -/
theorem operands_of_parse (ha : Trimmed a) (hb : Trimmed b) {ea eb : condition_expr.Expr}
    (hea : condition_expr.parse a = .ok ea) (heb : condition_expr.parse b = .ok eb) :
    List.Forall₂ condition_expr.Operand ['(' :: a ++ [')'], '(' :: b ++ [')']] [ea, eb] :=
  .cons (condition_expr.operand_parenthesised ha hea)
    (.cons (condition_expr.operand_parenthesised hb heb) .nil)

theorem parse_and (ha : Trimmed a) (hb : Trimmed b) (hca : Condition.parse a = .ok ca)
    (hcb : Condition.parse b = .ok cb) :
    Condition.parse (join ['&', '&'] ['(' :: a ++ [')'], '(' :: b ++ [')']]) =
      .ok (.And [ca, cb]) := by
  obtain ⟨hsigns, hbars, ea, hea, hshared⟩ := parts_of_parse ha hca
  obtain ⟨hsigns', hbars', eb, heb, hshared'⟩ := parts_of_parse hb hcb
  have hprinted := condition_expr.printed_and le_rfl (operands_of_parse ha hb hea heb)
  have hoperands := hsigns.parenthesised.join hsigns'.parenthesised ands_unsigned
  refine parse_of_parts hprinted.solid hoperands ?_ hprinted.parse ?_
  · intro hin
    rw [join_pair] at hin ⊢
    have hin : '|' ∈ a ∨ '|' ∈ b := by simpa using hin
    rcases hin with hin | hin
    · have hpiece : a <:+: '(' :: a ++ [')'] := ⟨['('], [')'], rfl⟩
      exact ((hbars hin).trans hpiece).trans ((List.prefix_append _ _).trans (List.prefix_append _ _)).isInfix
    · have hpiece : b <:+: '(' :: b ++ [')'] := ⟨['('], [')'], rfl⟩
      exact ((hbars' hin).trans hpiece).trans (List.suffix_append _ _).isInfix
  · rw [fromShared, fromSharedAll_pair hshared hshared']
    rfl

theorem parse_or (ha : Trimmed a) (hb : Trimmed b) (hca : Condition.parse a = .ok ca)
    (hcb : Condition.parse b = .ok cb) :
    Condition.parse (join ['|', '|'] ['(' :: a ++ [')'], '(' :: b ++ [')']]) =
      .ok (.Or [ca, cb]) := by
  obtain ⟨hsigns, -, ea, hea, hshared⟩ := parts_of_parse ha hca
  obtain ⟨hsigns', -, eb, heb, hshared'⟩ := parts_of_parse hb hcb
  have hprinted := condition_expr.printed_or le_rfl (operands_of_parse ha hb hea heb)
  have hoperands := hsigns.parenthesised.join hsigns'.parenthesised bars_unsigned
  refine parse_of_parts hprinted.solid hoperands ?_ hprinted.parse ?_
  · intro _
    rw [join_pair]
    exact ⟨'(' :: a ++ [')', ' '], ' ' :: '(' :: b ++ [')'], by simp⟩
  · rw [fromShared, fromSharedAll_pair hshared hshared']
    rfl

theorem parse_not (ha : Trimmed a) (hca : Condition.parse a = .ok ca) :
    Condition.parse ('!' :: '(' :: a ++ [')']) = .ok (.Not ca) := by
  obtain ⟨hsigns, hbars, ea, hea, hshared⟩ := parts_of_parse ha hca
  have hprinted := condition_expr.printed_not (condition_expr.operand_parenthesised ha hea)
  refine parse_of_parts hprinted.solid (hsigns.parenthesised.cons rfl) ?_ hprinted.parse ?_
  · intro hin
    have hin : '|' ∈ a := by simpa using hin
    exact (hbars hin).trans ⟨['!', '('], [')'], by simp⟩
  · rw [fromShared, hshared]
    rfl

end Composition

/-! ## Leaves that are written alone -/

section Alone

variable {text : List Char} {condition : Condition}

theorem referenceChar_not_white {c : Char} (h : isReferenceChar c = true) :
    isWhitespace c = false := by
  have hrange : 42 ≤ c.toNat ∧ c.toNat ≤ 122 := by
    simp only [isReferenceChar, Char.isAlphanum, Char.isAlpha, Char.isUpper, Char.isLower,
      Char.isDigit, Bool.or_eq_true, decide_eq_true_eq, Bool.and_eq_true, ge_iff_le,
      UInt32.le_iff_toNat_le, Char.toNat_val] at h
    rcases h with ((((((h | h) | h) | rfl) | rfl) | rfl) | rfl)
    · exact ⟨le_trans (by decide) h.1, le_trans h.2 (by decide)⟩
    · exact ⟨le_trans (by decide) h.1, le_trans h.2 (by decide)⟩
    · exact ⟨le_trans (by decide) h.1, le_trans h.2 (by decide)⟩
    all_goals decide
  unfold isWhitespace
  simp only [Bool.or_eq_false_iff, Bool.and_eq_false_iff, decide_eq_false_iff_not, beq_eq_false_iff_ne]
  omega

/-- A text of such characters has no other ones in it. -/
theorem not_mem_of_chars {c : Char} (hc : isReferenceChar c = false)
    (h : text.all isReferenceChar = true) : c ∉ text := by
  intro hin
  rw [List.all_eq_true.mp h c hin] at hc
  cases hc

/-- A text of such characters can be an atom. -/
theorem leaf_of_chars (hne : text ≠ []) (h : text.all isReferenceChar = true) :
    condition_expr.Leaf text where
  trimmed := ⟨fun c hc => referenceChar_not_white (List.all_eq_true.mp h c (List.mem_of_head? hc)),
    fun c hc => referenceChar_not_white (List.all_eq_true.mp h c (List.mem_of_getLast? hc))⟩
  ne_nil := hne
  balanced := by
    refine condition_expr.Plain.balanced fun c hc => ?_
    have hchar := List.all_eq_true.mp h c hc
    refine ⟨?_, ?_, ?_⟩
    · by_contra hquote
      rw [Bool.not_eq_false, condition_expr.isQuote, Bool.or_eq_true, decide_eq_true_eq,
        decide_eq_true_eq] at hquote
      rcases hquote with rfl | rfl <;> cases hchar
    · rintro rfl
      cases hchar
    · rintro rfl
      cases hchar
  not_enclosed := by
    rintro ⟨inside, -, rfl⟩
    exact not_mem_of_chars (c := '(') rfl h (by simp)
  not_negated := by
    intro hhead
    exact not_mem_of_chars (c := '!') rfl h (List.mem_of_head? hhead)
  free := by
    simp only [List.forall_mem_cons]
    refine ⟨?_, ?_, ?_, ?_, by rintro _ ⟨⟩⟩
    · exact condition_expr.free_of_notMem List.mem_cons_self (not_mem_of_chars (c := '|') rfl h)
    · exact condition_expr.free_of_notMem List.mem_cons_self (not_mem_of_chars (c := '&') rfl h)
    · exact condition_expr.free_of_notMem List.mem_cons_self (not_mem_of_chars (c := '!') rfl h)
    · exact condition_expr.free_of_notMem List.mem_cons_self (not_mem_of_chars (c := '=') rfl h)

theorem atom_chars (h : fromShared (.Atom text) = .ok condition) :
    text ≠ [] ∧ text.all isReferenceChar = true := by
  unfold fromShared at h
  split_ifs at h with halways htrue hfalse
  · rw [halways]
    exact ⟨by decide, rfl⟩
  · rw [htrue]
    exact ⟨by decide, rfl⟩
  · rw [hfalse]
    exact ⟨by decide, rfl⟩
  · obtain ⟨_, hvalid, -⟩ := bind_ok_iff.mp h
    unfold validateReference at hvalid
    split_ifs at hvalid with hreference
    constructor
    · rintro rfl
      cases hreference
    · have hchars := reference_chars hreference
      rwa [String.toList_ofList] at hchars

theorem parse_atom (h : fromShared (.Atom text) = .ok condition) :
    Condition.parse text = .ok condition := by
  obtain ⟨hne, hchars⟩ := atom_chars h
  have hleaf := leaf_of_chars hne hchars
  have hsign : ∀ c ∈ ['$', backtick, ';', '>', '<'], c ∉ text := by
    simp only [List.forall_mem_cons]
    exact ⟨not_mem_of_chars rfl hchars, not_mem_of_chars rfl hchars, not_mem_of_chars rfl hchars,
      not_mem_of_chars rfl hchars, not_mem_of_chars rfl hchars, fun _ h => nomatch h⟩
  rw [List.forall_mem_cons] at hsign
  have hsigns : Unsigned text := ⟨fun hin => hsign.1 (hin.subset List.mem_cons_self), hsign.2⟩
  refine parse_of_parts hleaf.solid hsigns (fun hin => ?_) (condition_expr.printed_atom hleaf).parse h
  exact absurd hin (not_mem_of_chars rfl hchars)

/-- An operand is no negation. -/
theorem operand_not_negated {value : ConditionValue} (h : ConditionValue.parse text = .ok value) :
    text.head? ≠ some '!' := by
  intro hmark
  obtain ⟨rest, rfl⟩ := List.head?_eq_some_iff.mp hmark
  have hhead := head_trim (c := '!') (by decide) rest
  unfold ConditionValue.parse at h
  generalize trim ('!' :: rest) = text at h hhead
  dsimp only at h
  split_ifs at h with htrue hfalse hquoted _ hdigits
  · rw [htrue] at hhead
    cases hhead
  · rw [hfalse] at hhead
    cases hhead
  · simp only [isQuoted, quotedWith, hhead, Bool.or_eq_true, Bool.and_eq_true,
      decide_eq_true_eq] at hquoted
    rcases hquoted with ⟨hquote, -⟩ | ⟨hquote, -⟩ <;> cases hquote
  · rw [isDigits, Bool.and_eq_true, List.all_eq_true] at hdigits
    have hdigit := hdigits.1 '!' (List.mem_of_head? hhead)
    cases hdigit
  · obtain ⟨_, hvalid, -⟩ := bind_ok_iff.mp h
    unfold validateReference at hvalid
    split_ifs at hvalid with hreference
    have hchars := reference_chars hreference
    rw [String.toList_ofList] at hchars
    exact not_mem_of_chars (c := '!') rfl hchars (List.mem_of_head? hhead)

/-- Every part of an expression that is read is read itself. -/
theorem accepted_part {e part : condition_expr.Expr} (hpart : Part e part) {value : Condition}
    (h : fromShared e = .ok value) : ∃ condition, fromShared part = .ok condition := by
  induction hpart generalizing value with
  | whole => exact ⟨value, h⟩
  | ofAnd hchild _ ih =>
    obtain ⟨values, hvalues, -⟩ := bind_ok_iff.mp h
    obtain ⟨_, -, hvalue⟩ := forall₂_mem_left (fromSharedAll_ok_iff.mp hvalues).flip hchild
    exact ih hvalue
  | ofOr hchild _ ih =>
    obtain ⟨values, hvalues, -⟩ := bind_ok_iff.mp h
    obtain ⟨_, -, hvalue⟩ := forall₂_mem_left (fromSharedAll_ok_iff.mp hvalues).flip hchild
    exact ih hvalue
  | ofNot _ ih =>
    obtain ⟨child, hchild, -⟩ := bind_ok_iff.mp h
    exact ih hchild

/-- A leaf of an accepted condition is accepted alone just when each pipe in it comes with a pair of
them in the same leaf. -/
theorem leaf_accepted_iff {e leaf : condition_expr.Expr} {alone : List Char} (hsigns : Unsigned text)
    (hparse : condition_expr.parse text = .ok e) (hshared : fromShared e = .ok condition)
    (hleaf : Part e leaf) (halone : Written leaf alone) :
    (∃ value, Condition.parse alone = .ok value) ↔ ('|' ∈ alone → containsText ['|', '|'] alone) := by
  obtain ⟨value, hvalue⟩ := accepted_part hleaf hshared
  obtain ⟨piece, hpiece, hinside⟩ := hleaf.piece text hparse
  have hpieces := hsigns.of_piece hpiece
  rw [containsText_iff (List.cons_ne_nil '|' ['|'])]
  cases halone with
  | Atom =>
    have hbars : '|' ∉ alone := not_mem_of_chars rfl (atom_chars hvalue).2
    exact ⟨fun _ hin => absurd hin hbars, fun _ => ⟨value, parse_atom hvalue⟩⟩
  | @Equal left right =>
    have hoperands := hvalue
    obtain ⟨_, hleft, -⟩ := bind_ok_iff.mp hoperands
    obtain ⟨hl, hr, hsolid, hagain⟩ :=
      condition_expr.parse_equal_alone hinside (operand_not_negated hleft)
    have hjoined := (hpieces.of_piece hl).join (hpieces.of_piece hr) equal_unsigned
    constructor
    · rintro ⟨_, h⟩
      exact (parts_of_parse hsolid.trimmed h).2.1
    · intro hbars
      exact ⟨value, parse_of_parts hsolid hjoined hbars hagain hvalue⟩
  | @NotEqual left right =>
    have hoperands := hvalue
    obtain ⟨_, hleft, -⟩ := bind_ok_iff.mp hoperands
    obtain ⟨hl, hr, hsolid, hagain⟩ :=
      condition_expr.parse_notEqual_alone hinside (operand_not_negated hleft)
    have hjoined := (hpieces.of_piece hl).join (hpieces.of_piece hr) notEqual_unsigned
    constructor
    · rintro ⟨_, h⟩
      exact (parts_of_parse hsolid.trimmed h).2.1
    · intro hbars
      exact ⟨value, parse_of_parts hsolid hjoined hbars hagain hvalue⟩

/-- Conditions in parentheses are put together with `&&`, `||` and `!`; but a leaf of an accepted
condition may be refused alone, for a pipe that another operator had excused. -/
theorem conditions_compose_iff {a b : List Char} {ca cb : Condition} (ha : Trimmed a)
    (hb : Trimmed b) (hca : Condition.parse a = .ok ca) (hcb : Condition.parse b = .ok cb)
    (h : Condition.parse text = .ok condition) :
    Condition.parse (['('] ++ a ++ ") && (".toList ++ b ++ [')']) = .ok (.And [ca, cb]) ∧
    Condition.parse (['('] ++ a ++ ") || (".toList ++ b ++ [')']) = .ok (.Or [ca, cb]) ∧
    Condition.parse (['!', '('] ++ a ++ [')']) = .ok (.Not ca) ∧
    ∃ e, condition_expr.parse (trim text) = .ok e ∧ fromShared e = .ok condition ∧
      ∀ leaf alone, Part e leaf → Written leaf alone →
        ((∃ value, Condition.parse alone = .ok value) ↔
          ('|' ∈ alone → containsText ['|', '|'] alone)) := by
  obtain ⟨-, hshell, e, hparse, hshared⟩ := Condition.parse_ok_iff.mp h
  have hand := parse_and ha hb hca hcb
  have hor := parse_or ha hb hca hcb
  rw [join_pair] at hand hor
  have hsigns := (isShellSyntax_iff.mp hshell).1
  refine ⟨?_, ?_, ?_, e, hparse, hshared, fun leaf alone hleaf halone => ?_⟩
  · simpa using hand
  · simpa using hor
  · simpa using parse_not ha hca
  · exact leaf_accepted_iff hsigns hparse hshared hleaf halone

end Alone

theorem conditions_compose_workspace :
    ∃ a b c, Condition.parse "workspace.writable".toList = .ok a ∧
      Condition.parse "env.A || env.B".toList = .ok b ∧ Condition.parse "!always".toList = .ok c ∧
      Condition.parse (['('] ++ "workspace.writable".toList ++ ") && (".toList ++
        "env.A || env.B".toList ++ [')']) = .ok (.And [a, b]) := by
  obtain ⟨a, ha⟩ := exists_of_isOk
    (by decide +kernel : (Condition.parse "workspace.writable".toList).isOk = true)
  obtain ⟨b, hb⟩ := exists_of_isOk
    (by decide +kernel : (Condition.parse "env.A || env.B".toList).isOk = true)
  obtain ⟨c, hc⟩ := exists_of_isOk (by decide +kernel : (Condition.parse "!always".toList).isOk = true)
  have hwritable : Trimmed "workspace.writable".toList :=
    ⟨fun c hc => by cases hc; rfl, fun c hc => by cases hc; rfl⟩
  have heither : Trimmed "env.A || env.B".toList :=
    ⟨fun c hc => by cases hc; rfl, fun c hc => by cases hc; rfl⟩
  exact ⟨a, b, c, ha, hb, hc, (conditions_compose_iff hwritable heither ha hb hc).1⟩

/-- A pipe in a string is let through for the operator beside it, and refused without it. -/
theorem pipe_is_refused_alone : ∃ condition e,
    Condition.parse "env.A == 'x|y' || env.B".toList = .ok condition ∧
      condition_expr.parse (trim "env.A == 'x|y' || env.B".toList) = .ok e ∧
      Part e (.Equal "env.A".toList "'x|y'".toList) ∧
      Written (.Equal "env.A".toList "'x|y'".toList) "env.A == 'x|y'".toList ∧
      Condition.parse "env.A == 'x|y'".toList = .error .ShellSyntax := by
  refine ⟨.Or [.Equal (.Reference "env.A") (.Literal "x|y"), .Reference "env.B"],
    .Or [.Equal "env.A".toList "'x|y'".toList, .Atom "env.B".toList], ?_, ?_, ?_, .Equal, ?_⟩
  · exact ok_of_toOption (by rfl)
  · exact ok_of_toOption (by rfl)
  · exact .ofOr List.mem_cons_self (.whole _)
  · rfl

end dev_env_model
