-- The scans of a condition: the level of parentheses and quotes that a text
-- leaves open, and what the two loops of the parser make of a text by its levels.
import NixosDockers.ConditionExpr
import NixosDockers.Lib.Results
import NixosDockers.Lib.Trimming

open rust_text results

namespace condition_expr

/-! ## Levels -/

/-- How many parentheses are open, and which quote. -/
structure Level where
  depth : ℕ
  quote : Option Char
  deriving DecidableEq, Repr

/-- Outside parentheses and quotes. -/
def Level.top : Level := ⟨0, none⟩

/-- The level with more parentheses around. -/
def Level.deeper (level : Level) (depth : ℕ) : Level := ⟨level.depth + depth, level.quote⟩

/-- A character is read at a level. A closing parenthesis needs an open one. -/
def Level.read : Level → Char → Option Level
  | ⟨depth, some q⟩, c => some ⟨depth, if c = q then none else some q⟩
  | ⟨depth, none⟩, c =>
    if isQuote c then some ⟨depth, some c⟩
    else if c = '(' then some ⟨depth + 1, none⟩
    else if c = ')' then if depth = 0 then none else some ⟨depth - 1, none⟩
    else some ⟨depth, none⟩

/-- The level after a text. -/
def levelAfter : Level → List Char → Option Level
  | level, [] => some level
  | level, c :: s => (level.read c).bind (levelAfter · s)

/-- All parentheses and quotes of the text are closed in it. -/
def Balanced (s : List Char) : Prop := levelAfter .top s = some .top

theorem levelAfter_append (level : Level) (s t : List Char) :
    levelAfter level (s ++ t) = (levelAfter level s).bind (levelAfter · t) := by
  induction s generalizing level with
  | nil => rfl
  | cons c s ih =>
    rw [List.cons_append, levelAfter, levelAfter]
    cases level.read c with
    | none => rfl
    | some next => exact ih next

theorem Level.read_deeper {level next : Level} {c : Char} (h : level.read c = some next) (depth : ℕ) :
    (level.deeper depth).read c = some (next.deeper depth) := by
  obtain ⟨d, _ | q⟩ := level
  · simp only [Level.read, Level.deeper] at h ⊢
    split_ifs at h ⊢ with h₁ h₂ h₃ h₄ h₅
    · obtain rfl := Option.some.inj h
      rfl
    · obtain rfl := Option.some.inj h
      simp only [Option.some.injEq, Level.mk.injEq, and_true]
      omega
    · omega
    · obtain rfl := Option.some.inj h
      simp only [Option.some.injEq, Level.mk.injEq, and_true]
      omega
    · obtain rfl := Option.some.inj h
      rfl
  · simp only [Level.read, Level.deeper] at h ⊢
    obtain rfl := Option.some.inj h
    rfl

/-- Parentheses around a text do not change how it is read. -/
theorem levelAfter_deeper {level next : Level} {s : List Char} (h : levelAfter level s = some next)
    (depth : ℕ) : levelAfter (level.deeper depth) s = some (next.deeper depth) := by
  induction s generalizing level with
  | nil =>
    obtain rfl := Option.some.inj h
    rfl
  | cons c s ih =>
    rw [levelAfter, Option.bind_eq_some_iff] at h
    obtain ⟨middle, hread, hrest⟩ := h
    rw [levelAfter, Level.read_deeper hread]
    exact ih hrest

theorem Balanced.append {s t : List Char} (hs : Balanced s) (ht : Balanced t) : Balanced (s ++ t) := by
  rw [Balanced, levelAfter_append, hs]
  exact ht

/-- A text that neither quotes nor parenthesises. -/
def Plain (s : List Char) : Prop := ∀ c ∈ s, isQuote c = false ∧ c ≠ '(' ∧ c ≠ ')'

theorem Level.read_plain {c : Char} (h : isQuote c = false ∧ c ≠ '(' ∧ c ≠ ')') (depth : ℕ) :
    Level.read ⟨depth, none⟩ c = some ⟨depth, none⟩ := by
  simp [Level.read, h]

theorem levelAfter_plain {s : List Char} (h : Plain s) (depth : ℕ) :
    levelAfter ⟨depth, none⟩ s = some ⟨depth, none⟩ := by
  induction s with
  | nil => rfl
  | cons c s ih =>
    rw [Plain, List.forall_mem_cons] at h
    rw [levelAfter, Level.read_plain h.1]
    exact ih h.2

theorem Plain.balanced {s : List Char} (h : Plain s) : Balanced s := levelAfter_plain h 0

theorem plain_of_white {s : List Char} (h : AllWhite s) : Plain s := by
  intro c hc
  have hwhite := h c hc
  refine ⟨?_, ?_, ?_⟩
  · by_contra hquote
    rw [Bool.not_eq_false, isQuote, Bool.or_eq_true, decide_eq_true_eq, decide_eq_true_eq] at hquote
    rcases hquote with rfl | rfl
    · exact absurd hwhite (by decide)
    · exact absurd hwhite (by decide)
  · rintro rfl
    exact absurd hwhite (by decide)
  · rintro rfl
    exact absurd hwhite (by decide)

/-- A balanced text in parentheses is balanced. -/
theorem Balanced.parenthesised {s : List Char} (h : Balanced s) : Balanced ('(' :: s ++ [')']) := by
  have hinside := levelAfter_deeper h 1
  rw [Balanced, List.cons_append, levelAfter, show Level.top.read '(' = some (Level.top.deeper 1) from rfl,
    Option.bind_some, levelAfter_append, hinside]
  rfl

/-! ## The outer parentheses -/

/-- Only a closing parenthesis without an open one cannot be read. -/
theorem Level.read_eq_none_iff {level : Level} {c : Char} :
    level.read c = none ↔ level = .top ∧ c = ')' := by
  obtain ⟨d, _ | q⟩ := level
  · simp only [Level.read, Level.top, Level.mk.injEq, and_true]
    split_ifs with h₁ h₂ h₃ h₄
    · refine iff_of_false (by simp) ?_
      rintro ⟨_, rfl⟩
      exact absurd h₁ (by decide)
    · refine iff_of_false (by simp) ?_
      rintro ⟨_, rfl⟩
      exact absurd h₂ (by decide)
    · exact iff_of_true rfl ⟨h₄, h₃⟩
    · exact iff_of_false (by simp) fun h => h₄ h.1
    · exact iff_of_false (by simp) fun h => h₃ h.2
  · simp [Level.read, Level.top]

/-- The loop reads on to the first character that cannot be read. -/
theorem closeOuter_cons (level : Level) (c : Char) (s : List Char) :
    closeOuter (level.depth + 1) level.quote (c :: s) =
      match level.read c with
      | none => .ok ([], s)
      | some next => (closeOuter (next.depth + 1) next.quote s).map fun p => (c :: p.1, p.2) := by
  obtain ⟨d, _ | q⟩ := level
  · rw [closeOuter.eq_def]
    simp only [Level.read]
    split_ifs with h₁ h₂ h₃ h₄
    · rfl
    · rfl
    · obtain rfl : d = 0 := h₄
      rfl
    · obtain ⟨d, rfl⟩ := Nat.exists_eq_succ_of_ne_zero h₄
      rfl
    · rfl
  · rw [closeOuter.eq_def]
    rfl

theorem closeOuter_ok_iff {level : Level} {s inside after : List Char} :
    closeOuter (level.depth + 1) level.quote s = .ok (inside, after) ↔
      s = inside ++ ')' :: after ∧ levelAfter level inside = some .top := by
  induction s generalizing level inside with
  | nil =>
    refine iff_of_false ?_ (by simp)
    obtain ⟨d, _ | q⟩ := level <;> simp [closeOuter]
  | cons c s ih =>
    rw [closeOuter_cons]
    cases hread : level.read c with
    | none =>
      obtain ⟨rfl, rfl⟩ := Level.read_eq_none_iff.mp hread
      simp only [Except.ok.injEq, Prod.mk.injEq]
      constructor
      · rintro ⟨rfl, rfl⟩
        exact ⟨rfl, rfl⟩
      · rintro ⟨hs, hlevel⟩
        cases inside with
        | nil => exact ⟨rfl, (List.cons.inj hs).2⟩
        | cons d inside =>
          obtain ⟨rfl, _⟩ := List.cons.inj hs
          rw [levelAfter, hread] at hlevel
          cases hlevel
    | some next =>
      simp only [map_ok_iff, Prod.exists, Prod.mk.injEq]
      constructor
      · rintro ⟨inside', after', hrest, rfl, rfl⟩
        obtain ⟨rfl, hlevel⟩ := ih.mp hrest
        refine ⟨rfl, ?_⟩
        rw [levelAfter, hread]
        exact hlevel
      · rintro ⟨hs, hlevel⟩
        cases inside with
        | nil =>
          obtain ⟨rfl, _⟩ := List.cons.inj hs
          obtain rfl := Option.some.inj hlevel
          cases hread
        | cons d inside =>
          obtain ⟨rfl, rfl⟩ := List.cons.inj hs
          rw [levelAfter, hread] at hlevel
          exact ⟨inside, after, ih.mpr ⟨rfl, hlevel⟩, rfl, rfl⟩

/-- `closeOuter` behind the first parenthesis of a text. -/
theorem closeOuter_top_iff {s inside after : List Char} :
    closeOuter 1 none s = .ok (inside, after) ↔ s = inside ++ ')' :: after ∧ Balanced inside := by
  have h : closeOuter (Level.top.depth + 1) Level.top.quote s = .ok (inside, after) ↔
      s = inside ++ ')' :: after ∧ levelAfter Level.top inside = some .top := closeOuter_ok_iff
  exact h

/-- A text that closes one parenthesis more than it opens has a first one that does. -/
theorem exists_closeOuter {level : Level} {s : List Char}
    (h : levelAfter (level.deeper 1) s = some .top) : ∃ inside after,
      s = inside ++ ')' :: after ∧ levelAfter level inside = some .top ∧ Balanced after := by
  induction s generalizing level with
  | nil =>
    have hdepth := congrArg Level.depth (Option.some.inj h)
    simp [Level.deeper, Level.top] at hdepth
  | cons c s ih =>
    rw [levelAfter, Option.bind_eq_some_iff] at h
    obtain ⟨next, hnext, hrest⟩ := h
    cases hread : level.read c with
    | none =>
      obtain ⟨rfl, rfl⟩ := Level.read_eq_none_iff.mp hread
      obtain rfl : Level.top = next := Option.some.inj hnext
      exact ⟨[], s, rfl, rfl, hrest⟩
    | some middle =>
      rw [Level.read_deeper hread] at hnext
      obtain rfl := Option.some.inj hnext
      obtain ⟨inside, after, rfl, hinside, hafter⟩ := ih hrest
      refine ⟨c :: inside, after, rfl, ?_, hafter⟩
      rw [levelAfter, hread]
      exact hinside

theorem closeOuter_open (s : List Char) :
    closeOuter 0 none ('(' :: s) = (closeOuter 1 none s).map fun p => ('(' :: p.1, p.2) := by
  rw [closeOuter.eq_def]
  rfl

theorem stripOuterFuel_other {s : List Char} (h : s.head? ≠ some '(') (fuel : ℕ) :
    stripOuterFuel fuel s = .ok s := by
  cases fuel with
  | zero => rfl
  | succ fuel => rw [stripOuterFuel, if_neg h]

theorem stripOuterFuel_open (fuel : ℕ) (s : List Char) :
    stripOuterFuel (fuel + 1) ('(' :: s) = closeOuter 1 none s >>= fun p =>
      if (trim p.2).isEmpty then stripOuterFuel fuel p.1 else .ok ('(' :: s) := by
  rw [stripOuterFuel, if_pos List.head?_cons, closeOuter_open]
  cases closeOuter 1 none s <;> rfl

/-- More rounds than characters change nothing. -/
theorem stripOuterFuel_stable {fuel more : ℕ} {s : List Char} (h : s.length ≤ fuel)
    (hmore : s.length ≤ more) : stripOuterFuel fuel s = stripOuterFuel more s := by
  induction fuel generalizing more s with
  | zero =>
    obtain rfl := List.length_eq_zero_iff.mp (Nat.le_zero.mp h)
    rw [stripOuterFuel_other (by simp), stripOuterFuel_other (by simp)]
  | succ fuel ih =>
    by_cases hs : s.head? = some '('
    · obtain ⟨rest, rfl⟩ := List.head?_eq_some_iff.mp hs
      obtain ⟨more, rfl⟩ := Nat.exists_eq_add_of_lt (lt_of_lt_of_le (Nat.succ_pos _) hmore)
      rw [List.length_cons] at h hmore
      rw [Nat.zero_add, stripOuterFuel_open, stripOuterFuel_open]
      cases hclose : closeOuter 1 none rest with
      | error e => rfl
      | ok p =>
        obtain ⟨hrest, _⟩ := closeOuter_top_iff.mp hclose
        have hlength := congrArg List.length hrest
        rw [List.length_append, List.length_cons] at hlength
        have hinside : stripOuterFuel fuel p.1 = stripOuterFuel more p.1 :=
          ih (by omega) (by omega)
        rw [ok_bind, ok_bind, hinside]
    · rw [stripOuterFuel_other hs, stripOuterFuel_other hs]

theorem stripOuter_other {s : List Char} (h : s.head? ≠ some '(') :
    stripOuterParentheses s = .ok s := stripOuterFuel_other h _

theorem stripOuter_open (s : List Char) :
    stripOuterParentheses ('(' :: s) = closeOuter 1 none s >>= fun p =>
      if (trim p.2).isEmpty then stripOuterParentheses p.1 else .ok ('(' :: s) := by
  rw [stripOuterParentheses, List.length_cons, stripOuterFuel_open]
  cases hclose : closeOuter 1 none s with
  | error e => rfl
  | ok p =>
    obtain ⟨hs, _⟩ := closeOuter_top_iff.mp hclose
    have hlength := congrArg List.length hs
    rw [List.length_append, List.length_cons] at hlength
    rw [ok_bind, ok_bind, stripOuterFuel_stable (by omega) le_rfl]
    rfl

/-- A group that ends the text is taken out of its parentheses. -/
theorem stripOuter_group {inside after : List Char} (hinside : Balanced inside)
    (hafter : AllWhite after) :
    stripOuterParentheses ('(' :: inside ++ ')' :: after) = stripOuterParentheses inside := by
  have hclose := closeOuter_top_iff.mpr ⟨rfl (a := inside ++ ')' :: after), hinside⟩
  rw [List.cons_append, stripOuter_open, hclose, ok_bind, if_pos]
  rw [List.isEmpty_iff]
  exact trim_eq_nil_iff.mpr hafter

/-- A group with more of the text behind it keeps its parentheses. -/
theorem stripOuter_more {inside after : List Char} (hinside : Balanced inside)
    (hafter : ¬ AllWhite after) :
    stripOuterParentheses ('(' :: inside ++ ')' :: after) = .ok ('(' :: inside ++ ')' :: after) := by
  have hclose := closeOuter_top_iff.mpr ⟨rfl (a := inside ++ ')' :: after), hinside⟩
  rw [List.cons_append, stripOuter_open, hclose, ok_bind, if_neg]
  rw [List.isEmpty_iff]
  exact fun h => hafter (trim_eq_nil_iff.mp h)

/-- What the stripping can have found. -/
theorem stripOuter_ok {s stripped : List Char} (h : stripOuterParentheses s = .ok stripped) :
    (s.head? ≠ some '(' ∧ stripped = s) ∨
    ∃ inside after, Balanced inside ∧ s = '(' :: inside ++ ')' :: after ∧
      ((AllWhite after ∧ stripOuterParentheses inside = .ok stripped) ∨
        (¬ AllWhite after ∧ stripped = s)) := by
  by_cases hs : s.head? = some '('
  · obtain ⟨rest, rfl⟩ := List.head?_eq_some_iff.mp hs
    have hopen := h
    rw [stripOuter_open, bind_ok_iff] at hopen
    obtain ⟨⟨inside, after⟩, hclose, _⟩ := hopen
    obtain ⟨rfl, hinside⟩ := closeOuter_top_iff.mp hclose
    refine Or.inr ⟨inside, after, hinside, rfl, ?_⟩
    by_cases hafter : AllWhite after
    · exact Or.inl ⟨hafter, by rwa [← List.cons_append, stripOuter_group hinside hafter] at h⟩
    · rw [← List.cons_append, stripOuter_more hinside hafter] at h
      exact Or.inr ⟨hafter, (Except.ok.inj h).symm⟩
  · rw [stripOuter_other hs] at h
    exact Or.inl ⟨hs, (Except.ok.inj h).symm⟩

/-! ## Operators -/

/-- An operator is not empty, and has no white space, quotes or parentheses. -/
structure Operator (needle : List Char) : Prop where
  ne_nil : needle ≠ []
  plain : Plain needle
  not_white : ∀ c ∈ needle, isWhitespace c = false

/-- No operator of the text stands outside its parentheses and quotes. -/
def Free (needle s : List Char) : Prop :=
  ∀ before after, s = before ++ needle ++ after → levelAfter .top before ≠ some .top

def growText (text : List Char) (parts : List (List Char)) : List (List Char) :=
  text.foldr growFirst parts

theorem growText_cons (text part : List Char) (parts : List (List Char)) :
    growText text (part :: parts) = (text ++ part) :: parts := by
  induction text with
  | nil => rfl
  | cons c text ih =>
    rw [growText, List.foldr_cons, ← growText, ih]
    rfl

/-- What one turn of `scan_top_level` does. -/
theorem scanTopLevel_cons {needle : List Char} (hneedle : Operator needle) (level : Level) (c : Char)
    (s : List Char) : scanTopLevel needle 0 level.depth level.quote (c :: s) =
      match level.read c with
      | none => .error .UnbalancedParentheses
      | some next =>
        if level = .top ∧ needle <+: c :: s then
          (scanTopLevel needle (needle.length - 1) 0 none s).map ([] :: ·)
        else (scanTopLevel needle 0 next.depth next.quote s).map (growFirst c) := by
  have hprefix : needle <+: c :: s → isQuote c = false ∧ c ≠ '(' ∧ c ≠ ')' := by
    intro h
    obtain ⟨d, rest, rfl⟩ := List.exists_cons_of_ne_nil hneedle.ne_nil
    obtain ⟨more, hmore⟩ := h
    obtain ⟨rfl, _⟩ := List.cons.inj hmore
    exact hneedle.plain d List.mem_cons_self
  obtain ⟨d, _ | q⟩ := level
  · rw [scanTopLevel.eq_def]
    simp only [Level.read, Level.top, Level.mk.injEq, and_true, ← List.isPrefixOf_iff_prefix] at hprefix ⊢
    by_cases hfound : needle.isPrefixOf (c :: s) = true
    · obtain ⟨hquote, hopen, hclose⟩ := hprefix hfound
      simp only [hquote, hopen, hclose, hfound, Bool.false_eq_true, if_false, Bool.and_true,
        decide_eq_true_eq, and_true]
      split_ifs with hd
      · rw [hd]
      · rfl
    · simp only [hfound, and_false, Bool.and_false, Bool.false_eq_true, if_false]
      split_ifs <;> rfl
  · rw [scanTopLevel.eq_def]
    simp [Level.read, Level.top]

theorem scanTopLevel_nil (needle : List Char) (level : Level) (parts : List (List Char)) :
    scanTopLevel needle 0 level.depth level.quote [] = .ok parts ↔ level = .top ∧ parts = [[]] := by
  obtain ⟨d, _ | q⟩ := level
  · rw [scanTopLevel.eq_def]
    simp only [Level.top, Level.mk.injEq, and_true]
    split_ifs with hd
    · simp [hd, eq_comm]
    · simp [hd]
  · rw [scanTopLevel.eq_def]
    simp [Level.top]

theorem scanTopLevel_skip (needle skipped s : List Char) (level : Level) :
    scanTopLevel needle skipped.length level.depth level.quote (skipped ++ s) =
      scanTopLevel needle 0 level.depth level.quote s := by
  induction skipped with
  | nil => rfl
  | cons c skipped ih =>
    obtain ⟨d, _ | q⟩ := level <;> exact ih

/-- An operator is found. -/
theorem scanTopLevel_operator {needle : List Char} (hneedle : Operator needle) (s : List Char) :
    scanTopLevel needle 0 0 none (needle ++ s) = (scanTopLevel needle 0 0 none s).map ([] :: ·) := by
  obtain ⟨c, rest, rfl⟩ := List.exists_cons_of_ne_nil hneedle.ne_nil
  have hskip := scanTopLevel_skip (c :: rest) rest s .top
  have hstep := scanTopLevel_cons hneedle .top c (rest ++ s)
  rw [Level.top, Level.read_plain (hneedle.plain c List.mem_cons_self)] at hstep
  simp only [Level.top, true_and] at hstep hskip
  rw [if_pos ⟨s, rfl⟩, List.length_cons, Nat.add_sub_cancel, hskip] at hstep
  exact hstep

/-- Before the first operator, the text is read as it stands. -/
theorem scanTopLevel_append {needle : List Char} (hneedle : Operator needle) {level next : Level}
    {text : List Char} (rest : List Char) (hread : levelAfter level text = some next)
    (hfree : ∀ before after, text ++ rest = before ++ needle ++ after →
      before.length < text.length → levelAfter level before ≠ some .top) :
    scanTopLevel needle 0 level.depth level.quote (text ++ rest) =
      (scanTopLevel needle 0 next.depth next.quote rest).map (growText text) := by
  induction text generalizing level with
  | nil =>
    obtain rfl := Option.some.inj hread
    rw [List.nil_append]
    cases scanTopLevel needle 0 level.depth level.quote rest <;> rfl
  | cons c text ih =>
    rw [levelAfter, Option.bind_eq_some_iff] at hread
    obtain ⟨middle, hc, hrest⟩ := hread
    have hnot : ¬ (level = .top ∧ needle <+: c :: (text ++ rest)) := by
      rintro ⟨rfl, after, hafter⟩
      exact hfree [] after hafter.symm (by simp) rfl
    have htail := ih hrest fun before after hcut hlength hlevel => by
      refine hfree (c :: before) after (by rw [List.cons_append, hcut]; rfl) (by simpa using hlength) ?_
      rw [levelAfter, hc]
      exact hlevel
    rw [List.cons_append, scanTopLevel_cons hneedle, hc]
    dsimp only
    rw [if_neg hnot, htail]
    cases scanTopLevel needle 0 next.depth next.quote rest <;> rfl

/-- A balanced text without an operator is one part. -/
theorem scanTopLevel_free {needle s : List Char} (hneedle : Operator needle) (hs : Balanced s)
    (hfree : Free needle s) : scanTopLevel needle 0 0 none s = .ok [s] := by
  have h := scanTopLevel_append hneedle [] hs fun before after hcut _ => by
    rw [List.append_nil] at hcut
    exact hfree before after hcut
  rw [List.append_nil] at h
  have hnil := (scanTopLevel_nil needle .top [[]]).mpr ⟨rfl, rfl⟩
  simp only [Level.top] at h hnil
  rw [h, hnil]
  exact congrArg Except.ok ((growText_cons s [] []).trans (by rw [List.append_nil]))

end condition_expr
