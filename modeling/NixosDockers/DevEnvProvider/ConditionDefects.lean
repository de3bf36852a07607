-- Where conditions at run time are not what is documented: which operands are misread, and what
-- that does to a comparison and to the condition it stands in.
import NixosDockers.DevEnvModel.ConditionParts
import NixosDockers.DevEnvProvider.Condition

open rust_text results documents dev_env_model
open condition_expr (Part)

namespace dev_env_provider

/-! ## What is read instead -/

/-- What a reference is looked up as. -/
def storedReference (platform : Platform) (context : ProviderContext) (reference : String) :
    Option ValueTree :=
  match splitDot reference with
  | none => none
  | some (space, path) =>
    if space = "config" then context.configValue ("config." ++ path)
    else if space = "features" then
      (context.configValue ("features." ++ path)).or (context.configValue path)
    else fact platform context space path

/-- What an operand is read as: a number is the text of its digits. -/
def storedOperand (platform : Platform) (context : ProviderContext) (text : List Char) :
    Option ValueTree :=
  let input := trim text
  if input = "true".toList then some (.Scalar (.Bool true))
  else if input = "false".toList then some (.Scalar (.Bool false))
  else if isQuoted input then some (.Scalar (.String (String.ofList (input.drop 1).dropLast)))
  else if isDigits input then some (.Scalar (.String (String.ofList input)))
  else storedReference platform context (String.ofList input)

/-- A reference below `config` that is not the same at the key `config` of the tree, or one below
`features` that is only found outside of them. -/
def Misplaced (context : ProviderContext) (reference : String) : Prop :=
  (∃ path, splitDot reference = some ("config", path) ∧
    context.configValue ("config." ++ path) ≠ context.configValue path) ∨
  ∃ path, splitDot reference = some ("features", path) ∧
    context.configValue ("features." ++ path) = none ∧ context.configValue path ≠ none

/-- Null, a float, an array or a table: all of them are read as `Other`. -/
def IsOther (value : ValueTree) : Prop := valueFromTree value = .Other

/-- Values that are read as the same. -/
def ReadAlike (a b : ValueTree) : Prop := IsOther a ∧ IsOther b ∨ ValueTree.same a b

def IsText (digits : List Char) (value : ValueTree) : Prop :=
  value = .Scalar (.String (String.ofList digits))

def IsNumber (digits : List Char) (value : ValueTree) : Prop :=
  ∃ number : Int64, value = .Scalar (.Integer number) ∧ (digitsValue digits : ℤ) = number.toInt

/-- An operand that is a misplaced reference. -/
def MisplacedOperand (context : ProviderContext) (text : List Char) : Prop :=
  Misplaced context (String.ofList (trim text))

/-- A misplaced reference that stands alone: what is found counts as true and what is meant does
not, or the other way. -/
inductive WrongReference (context : ProviderContext) (reference : String) : Prop where
  | config {path : String} : splitDot reference = some ("config", path) →
      holds (context.configValue ("config." ++ path)) ≠ holds (context.configValue path) →
      WrongReference context reference
  | features {path : String} : splitDot reference = some ("features", path) →
      context.configValue ("features." ++ path) = none → holds (context.configValue path) →
      WrongReference context reference

/-- The comparisons that go wrong. -/
inductive WrongComparison (platform : Platform) (context : ProviderContext) (expected : Bool)
    (left right : List Char) : Prop where
  -- two ways to write one number
  | zeros : isDigits (trim left) → isDigits (trim right) →
      digitsValue (trim left) = digitsValue (trim right) → trim left ≠ trim right →
      WrongComparison platform context expected left right
  -- a number beside a value that is the number, or the text of its digits
  | numberLeft {value : ValueTree} : isDigits (trim left) → ¬ MisplacedOperand context right →
      documentedOperand platform context right = some (.Value value) →
      IsText (trim left) value ∨ IsNumber (trim left) value →
      WrongComparison platform context expected left right
  | numberRight {value : ValueTree} : isDigits (trim right) → ¬ MisplacedOperand context left →
      documentedOperand platform context left = some (.Value value) →
      IsText (trim right) value ∨ IsNumber (trim right) value →
      WrongComparison platform context expected left right
  -- two different values that are read as `Other`
  | others {a b : ValueTree} : ¬ MisplacedOperand context left → ¬ MisplacedOperand context right →
      documentedOperand platform context left = some (.Value a) →
      documentedOperand platform context right = some (.Value b) →
      IsOther a → IsOther b → ¬ ValueTree.same a b →
      WrongComparison platform context expected left right
  -- what is found at the wrong place is as expected, what is meant is not, or is undefined
  | found {a b : ValueTree} : MisplacedOperand context left ∨ MisplacedOperand context right →
      storedOperand platform context left = some a →
      storedOperand platform context right = some b → (ReadAlike a b ↔ expected = true) →
      (∀ m n, documentedOperand platform context left = some m →
        documentedOperand platform context right = some n → Meaning.same m n ≠ expected) →
      WrongComparison platform context expected left right
  -- what is meant is as expected, what is found at the wrong place is not, or is nothing
  | lost {m n : Meaning} : MisplacedOperand context left ∨ MisplacedOperand context right →
      documentedOperand platform context left = some m →
      documentedOperand platform context right = some n → Meaning.same m n = expected →
      (∀ a b, storedOperand platform context left = some a →
        storedOperand platform context right = some b → ¬ (ReadAlike a b ↔ expected = true)) →
      WrongComparison platform context expected left right

/-- The leaves that go wrong. -/
def Wrong (platform : Platform) (context : ProviderContext) : condition_expr.Expr → Prop
  | .Atom text => WrongReference context (String.ofList text)
  | .Equal left right => WrongComparison platform context true left right
  | .NotEqual left right => WrongComparison platform context false left right
  | .And _ | .Or _ | .Not _ => False

section Leaves

variable {platform : Platform} {context : ProviderContext}

theorem resolveReference_eq (reference : String) : resolveReference platform context reference =
    (storedReference platform context reference).map valueFromTree := by
  unfold resolveReference storedReference
  cases splitDot reference with
  | none => rfl
  | some names =>
    obtain ⟨space, path⟩ := names
    dsimp only
    by_cases hconfig : space = "config"
    · subst hconfig
      simp [ProviderContext.namespaceValue]
      cases context.configValue ("config." ++ path) <;> rfl
    · by_cases hfeatures : space = "features"
      · subst hfeatures
        simp [ProviderContext.namespaceValue]
        cases context.configValue ("features." ++ path) <;> rfl
      · rw [if_neg hconfig, if_neg hfeatures]
        fun_cases fact platform context space path
        all_goals simp_all [valueFromTree]
        all_goals rfl

theorem storedReference_eq {reference : String} (h : ¬ Misplaced context reference) :
    storedReference platform context reference =
      documentedReference platform context reference := by
  unfold storedReference documentedReference
  cases hsplit : splitDot reference with
  | none => rfl
  | some names =>
    obtain ⟨space, path⟩ := names
    dsimp only
    by_cases hconfig : space = "config"
    · subst hconfig
      rw [if_pos rfl, if_pos rfl]
      by_contra hne
      exact h (.inl ⟨path, hsplit, hne⟩)
    · rw [if_neg hconfig, if_neg hconfig]
      by_cases hfeatures : space = "features"
      · subst hfeatures
        rw [if_pos rfl, if_pos rfl]
        cases hfound : context.configValue ("features." ++ path) with
        | some => rfl
        | none =>
          rw [Option.none_or]
          by_contra hne
          exact h (.inr ⟨path, hsplit, hfound, hne⟩)
      · rw [if_neg hfeatures, if_neg hfeatures]

theorem resolveValue_eq {text : List Char} {value : ConditionValue}
    (h : ConditionValue.parse text = .ok value) : resolveValue platform context value =
      (storedOperand platform context text).map valueFromTree := by
  unfold ConditionValue.parse at h
  unfold storedOperand
  dsimp only at h ⊢
  split_ifs at h ⊢
  · cases h
    rfl
  · cases h
    rfl
  · cases h
    rfl
  · cases h
    rfl
  · obtain ⟨_, -, h⟩ := bind_ok_iff.mp h
    obtain rfl := pure_ok_iff.mp h
    exact resolveReference_eq _

theorem documentedOperand_placed {text : List Char} (hdigits : ¬ isDigits (trim text))
    (hplaced : ¬ MisplacedOperand context text) : documentedOperand platform context text =
      (storedOperand platform context text).map .Value := by
  unfold documentedOperand storedOperand
  dsimp only
  split_ifs
  · rfl
  · rfl
  · rfl
  · rw [storedReference_eq hplaced]

theorem digit_not_keyword {input : List Char} (h : isDigits input) :
    input ≠ "true".toList ∧ input ≠ "false".toList ∧ ¬ isQuoted input := by
  refine ⟨?_, ?_, ?_⟩
  · rintro rfl
    exact absurd h (by decide)
  · rintro rfl
    exact absurd h (by decide)
  · intro hquoted
    have hdigit : ∀ quote, quotedWith quote input → quote.isDigit := by
      intro quote hquote
      unfold quotedWith at hquote
      simp only [Bool.and_eq_true, decide_eq_true_eq] at hquote
      unfold isDigits at h
      rw [Bool.and_eq_true, List.all_eq_true] at h
      exact h.1 quote (List.mem_of_head? hquote.1)
    unfold isQuoted at hquoted
    rcases (Bool.or_eq_true _ _).mp hquoted with hdouble | hsingle
    · exact absurd (hdigit _ hdouble) (by decide)
    · exact absurd (hdigit _ hsingle) (by decide)

theorem storedOperand_digits {text : List Char} (h : isDigits (trim text)) :
    storedOperand platform context text = some (.Scalar (.String (String.ofList (trim text)))) := by
  obtain ⟨htrue, hfalse, hquoted⟩ := digit_not_keyword h
  unfold storedOperand
  dsimp only
  rw [if_neg htrue, if_neg hfalse, if_neg hquoted, if_pos h]

theorem documentedOperand_digits {text : List Char} (h : isDigits (trim text)) :
    documentedOperand platform context text = some (.Number (digitsValue (trim text))) := by
  obtain ⟨htrue, hfalse, hquoted⟩ := digit_not_keyword h
  unfold documentedOperand
  dsimp only
  rw [if_neg htrue, if_neg hfalse, if_neg hquoted, if_pos h]

/-- An operand in its place that denotes a value is read as that value. -/
theorem storedOperand_value {text : List Char} {value : ValueTree}
    (hplaced : ¬ MisplacedOperand context text)
    (h : documentedOperand platform context text = some (.Value value)) :
    storedOperand platform context text = some value := by
  by_cases hdigits : isDigits (trim text)
  · rw [documentedOperand_digits hdigits] at h
    cases h
  · rw [documentedOperand_placed hdigits hplaced] at h
    obtain ⟨found, hfound, hvalue⟩ := Option.map_eq_some_iff.mp h
    cases hvalue
    exact hfound

end Leaves

/-! ## Values -/

section
variable {κ σ : Type} [DecidableEq κ] {same : σ → σ → Bool} {a b : σ} {doc : Doc κ σ}

theorem alike_scalars : Doc.alike same (.Scalar a : Doc κ σ) (.Scalar b) = same a b := rfl

theorem alike_scalar_left (h : ∀ b, doc ≠ .Scalar b) : Doc.alike same (.Scalar a) doc = false := by
  cases doc with
  | Scalar b => exact absurd rfl (h b)
  | Array => rfl
  | Table => rfl

theorem alike_scalar_right (h : ∀ a, doc ≠ .Scalar a) : Doc.alike same doc (.Scalar b) = false := by
  cases doc with
  | Scalar a => exact absurd rfl (h a)
  | Array => rfl
  | Table => rfl

end

/-- Two values are read as the same when they are the same, or when both are `Other`. -/
theorem valueFromTree_eq_iff {a b : ValueTree} :
    valueFromTree a = valueFromTree b ↔ IsOther a ∧ IsOther b ∨ ValueTree.same a b := by
  unfold IsOther ValueTree.same
  cases a with
  | Scalar a =>
    cases b with
    | Scalar b => cases a <;> cases b <;> simp [valueFromTree, alike_scalars, TreeScalar.same]
    | Array => cases a <;> simp [valueFromTree, alike_scalar_left]
    | Table => cases a <;> simp [valueFromTree, alike_scalar_left]
  | Array =>
    cases b with
    | Scalar b => cases b <;> simp [valueFromTree, alike_scalar_right]
    | Array => simp [valueFromTree]
    | Table => simp [valueFromTree]
  | Table =>
    cases b with
    | Scalar b => cases b <;> simp [valueFromTree, alike_scalar_right]
    | Array => simp [valueFromTree]
    | Table => simp [valueFromTree]

theorem same_value (a b : ValueTree) : Meaning.same (.Value a) (.Value b) = ValueTree.same a b := by
  cases a with
  | Scalar a => cases a <;> rfl
  | Array => rfl
  | Table => rfl

/-- Two values are compared as documented when they are not different values of kind `Other`. -/
theorem comparison_value_iff (expected : Bool) (a b : ValueTree) :
    comparison expected (fun a b => valueFromTree a = valueFromTree b) (some a) (some b) =
      comparison expected Meaning.same (some (.Value a)) (some (.Value b)) ↔
      (IsOther a → IsOther b → ValueTree.same a b) := by
  have hiff := valueFromTree_eq_iff (a := a) (b := b)
  change (decide (valueFromTree a = valueFromTree b) == expected) =
    (Meaning.same (.Value a) (.Value b) == expected) ↔ _
  rw [same_value]
  cases expected <;> cases hsame : ValueTree.same a b <;> simp [hsame] at hiff ⊢ <;> tauto

theorem comparison_map {α β : Type} (f : α → β) (same : β → β → Bool) (expected : Bool)
    (a b : Option α) : comparison expected same (a.map f) (b.map f) =
      comparison expected (fun a b => same (f a) (f b)) a b := by
  cases a <;> cases b <;> rfl

theorem read_text_iff {digits : List Char} {value : ValueTree} :
    valueFromTree (.Scalar (.String (String.ofList digits))) = valueFromTree value ↔
      IsText digits value := by
  unfold IsText
  cases value with
  | Scalar value => cases value <;> simp [valueFromTree, eq_comm]
  | Array => simp [valueFromTree]
  | Table => simp [valueFromTree]

theorem same_number_iff {digits : List Char} {value : ValueTree} :
    Meaning.same (.Number (digitsValue digits)) (.Value value) ↔ IsNumber digits value := by
  unfold IsNumber
  cases value with
  | Scalar value => cases value <;> simp [Meaning.same]
  | Array => simp [Meaning.same]
  | Table => simp [Meaning.same]

theorem number_same_iff {digits : List Char} {value : ValueTree} :
    Meaning.same (.Value value) (.Number (digitsValue digits)) ↔ IsNumber digits value := by
  unfold IsNumber
  cases value with
  | Scalar value => cases value <;> simp [Meaning.same, eq_comm]
  | Array => simp [Meaning.same]
  | Table => simp [Meaning.same]

theorem text_not_number {digits : List Char} {value : ValueTree} (htext : IsText digits value) :
    ¬ IsNumber digits value := by
  rintro ⟨number, hnumber, -⟩
  cases htext.symm.trans hnumber

theorem comparison_some {α : Type} {expected : Bool} {same : α → α → Bool} {a b : α} :
    comparison expected same (some a) (some b) = (same a b == expected) := rfl

/-- What a comparison that expects `expected` makes of two verdicts. -/
theorem verdicts_iff {expected a b : Bool} : ((a == expected) = (b == expected)) ↔ (a = b) := by
  cases expected <;> cases a <;> cases b <;> decide

/-! ## Comparisons -/

/-- The comparison of what two operands are read as. -/
def compareStored (platform : Platform) (context : ProviderContext) (expected : Bool)
    (left right : List Char) : Bool :=
  comparison expected (fun a b => valueFromTree a = valueFromTree b)
    (storedOperand platform context left) (storedOperand platform context right)

/-- The comparison of what two operands denote. -/
def compareMeant (platform : Platform) (context : ProviderContext) (expected : Bool)
    (left right : List Char) : Bool :=
  comparison expected Meaning.same (documentedOperand platform context left)
    (documentedOperand platform context right)

section Comparisons

variable {platform : Platform} {context : ProviderContext} {expected : Bool}
  {left right : List Char}

theorem compareStored_iff : compareStored platform context expected left right ↔
    ∃ a b, storedOperand platform context left = some a ∧
      storedOperand platform context right = some b ∧ (ReadAlike a b ↔ expected = true) := by
  unfold compareStored
  cases storedOperand platform context left with
  | none => simp [comparison]
  | some a =>
    cases storedOperand platform context right with
    | none => simp [comparison]
    | some b =>
      have halike : valueFromTree a = valueFromTree b ↔ ReadAlike a b := valueFromTree_eq_iff
      rw [comparison_some]
      cases expected <;> simp [halike]

theorem compareMeant_iff : compareMeant platform context expected left right ↔
    ∃ m n, documentedOperand platform context left = some m ∧
      documentedOperand platform context right = some n ∧ Meaning.same m n = expected := by
  unfold compareMeant
  cases documentedOperand platform context left with
  | none => simp [comparison]
  | some m => cases documentedOperand platform context right <;> simp [comparison]

/-- Two numbers are compared as documented unless they are written in two ways. -/
theorem compare_numbers_iff (hleft : isDigits (trim left)) (hright : isDigits (trim right)) :
    compareStored platform context expected left right =
        compareMeant platform context expected left right ↔
      (digitsValue (trim left) = digitsValue (trim right) → trim left = trim right) := by
  unfold compareStored compareMeant
  rw [storedOperand_digits hleft, storedOperand_digits hright, documentedOperand_digits hleft,
    documentedOperand_digits hright, comparison_some, comparison_some, verdicts_iff]
  have htexts : String.ofList (trim left) = String.ofList (trim right) ↔
      trim left = trim right := String.ofList_inj
  by_cases heq : trim left = trim right
  · rw [heq]
    simp [Meaning.same]
  · simp [valueFromTree, Meaning.same, htexts, heq]

/-- A number is compared with a value as documented unless the value is the number or its text. -/
theorem compare_number_value_iff {value : ValueTree} (hleft : isDigits (trim left))
    (hplaced : ¬ MisplacedOperand context right)
    (hvalue : documentedOperand platform context right = some (.Value value)) :
    compareStored platform context expected left right =
        compareMeant platform context expected left right ↔
      ¬ (IsText (trim left) value ∨ IsNumber (trim left) value) := by
  unfold compareStored compareMeant
  rw [storedOperand_digits hleft, documentedOperand_digits hleft, hvalue,
    storedOperand_value hplaced hvalue, comparison_some, comparison_some, verdicts_iff,
    Bool.eq_iff_iff, decide_eq_true_iff, read_text_iff, same_number_iff]
  have hapart := @text_not_number (trim left) value
  tauto

theorem compare_value_number_iff {value : ValueTree} (hright : isDigits (trim right))
    (hplaced : ¬ MisplacedOperand context left)
    (hvalue : documentedOperand platform context left = some (.Value value)) :
    compareStored platform context expected left right =
        compareMeant platform context expected left right ↔
      ¬ (IsText (trim right) value ∨ IsNumber (trim right) value) := by
  unfold compareStored compareMeant
  rw [storedOperand_digits hright, documentedOperand_digits hright, hvalue,
    storedOperand_value hplaced hvalue, comparison_some, comparison_some, verdicts_iff,
    Bool.eq_iff_iff, decide_eq_true_iff, eq_comm, read_text_iff, number_same_iff]
  have hapart := @text_not_number (trim right) value
  tauto

/-- Two values are compared as documented unless they are different and both `Other`. -/
theorem compare_values_iff {a b : ValueTree} (hl : ¬ MisplacedOperand context left)
    (hr : ¬ MisplacedOperand context right)
    (ha : documentedOperand platform context left = some (.Value a))
    (hb : documentedOperand platform context right = some (.Value b)) :
    compareStored platform context expected left right =
        compareMeant platform context expected left right ↔
      (IsOther a → IsOther b → ValueTree.same a b) := by
  unfold compareStored compareMeant
  rw [ha, hb, storedOperand_value hl ha, storedOperand_value hr hb]
  exact comparison_value_iff expected a b

theorem WrongComparison.differs (h : WrongComparison platform context expected left right) :
    compareStored platform context expected left right ≠
      compareMeant platform context expected left right := by
  cases h with
  | zeros hl hr hnumbers htexts =>
    exact fun heq => htexts ((compare_numbers_iff hl hr).mp heq hnumbers)
  | numberLeft hl hplaced hvalue his =>
    exact fun heq => (compare_number_value_iff hl hplaced hvalue).mp heq his
  | numberRight hr hplaced hvalue his =>
    exact fun heq => (compare_value_number_iff hr hplaced hvalue).mp heq his
  | others hl hr ha hb hothera hotherb hne =>
    exact fun heq => hne ((compare_values_iff hl hr ha hb).mp heq hothera hotherb)
  | found _ ha hb has hmeant =>
    intro heq
    obtain ⟨m, n, hm, hn, hsame⟩ :=
      compareMeant_iff.mp (heq ▸ compareStored_iff.mpr ⟨_, _, ha, hb, has⟩)
    exact hmeant m n hm hn hsame
  | lost _ hm hn hsame hstored =>
    intro heq
    obtain ⟨a, b, ha, hb, has⟩ :=
      compareStored_iff.mp (heq ▸ compareMeant_iff.mpr ⟨_, _, hm, hn, hsame⟩)
    exact hstored a b ha hb has

/-- Operands in their places: an undefined one makes both comparisons false. -/
theorem compare_undefined (hl : ¬ MisplacedOperand context left)
    (hr : ¬ MisplacedOperand context right)
    (h : documentedOperand platform context left = none ∨
      documentedOperand platform context right = none) :
    compareStored platform context expected left right =
      compareMeant platform context expected left right := by
  have hnone : ∀ text, ¬ MisplacedOperand context text →
      documentedOperand platform context text = none →
      storedOperand platform context text = none := by
    intro text hplaced hundefined
    by_cases hdigits : isDigits (trim text)
    · exact absurd (documentedOperand_digits hdigits) (by rw [hundefined]; exact nofun)
    · rw [documentedOperand_placed hdigits hplaced] at hundefined
      exact Option.map_eq_none_iff.mp hundefined
  unfold compareStored compareMeant
  rcases h with h | h
  · rw [h, hnone left hl h]
    rfl
  · rw [h, hnone right hr h]
    unfold comparison
    cases storedOperand platform context left <;> cases documentedOperand platform context left <;>
      rfl

theorem misplaced_differs
    (hmisplaced : MisplacedOperand context left ∨ MisplacedOperand context right)
    (hne : compareStored platform context expected left right ≠
      compareMeant platform context expected left right) :
    WrongComparison platform context expected left right := by
  cases hstored : compareStored platform context expected left right with
  | true =>
    obtain ⟨a, b, ha, hb, has⟩ := compareStored_iff.mp hstored
    refine .found hmisplaced ha hb has fun m n hm hn hsame => hne ?_
    rw [hstored, compareMeant_iff.mpr ⟨m, n, hm, hn, hsame⟩]
  | false =>
    have hmeant : compareMeant platform context expected left right = true := by
      rw [hstored] at hne
      simpa using hne.symm
    obtain ⟨m, n, hm, hn, hsame⟩ := compareMeant_iff.mp hmeant
    refine .lost hmisplaced hm hn hsame fun a b ha hb has => ?_
    rw [compareStored_iff.mpr ⟨a, b, ha, hb, has⟩] at hstored
    cases hstored

/-- A number is all that an operand denotes beside values. -/
theorem digits_of_number {text : List Char} {number : ℕ}
    (h : documentedOperand platform context text = some (.Number number)) :
    isDigits (trim text) := by
  unfold documentedOperand at h
  dsimp only at h
  split_ifs at h with _ _ _ hdigits
  · cases h
  · cases h
  · cases h
  · exact hdigits
  · obtain ⟨_, -, hvalue⟩ := Option.map_eq_some_iff.mp h
    cases hvalue

/-- The comparison of what is read is the documented one exactly when it is none of the wrong
ones. -/
theorem compare_eq_iff : compareStored platform context expected left right =
      compareMeant platform context expected left right ↔
    ¬ WrongComparison platform context expected left right := by
  constructor
  · exact fun heq hwrong => hwrong.differs heq
  · intro hright
    by_contra hne
    refine hright ?_
    by_cases hmisplaced : MisplacedOperand context left ∨ MisplacedOperand context right
    · exact misplaced_differs hmisplaced hne
    · obtain ⟨hl, hr⟩ := not_or.mp hmisplaced
      cases ha : documentedOperand platform context left with
      | none => exact absurd (compare_undefined hl hr (.inl ha)) hne
      | some m =>
        cases hb : documentedOperand platform context right with
        | none => exact absurd (compare_undefined hl hr (.inr hb)) hne
        | some n =>
          cases m with
          | Number =>
            have hleft := digits_of_number ha
            cases n with
            | Number =>
              have hright := digits_of_number hb
              have hzeros := mt (compare_numbers_iff hleft hright).mpr hne
              obtain ⟨hnumbers, htexts⟩ := Classical.not_imp.mp hzeros
              exact .zeros hleft hright hnumbers htexts
            | Value =>
              exact .numberLeft hleft hr hb
                (not_not.mp (mt (compare_number_value_iff hleft hr hb).mpr hne))
          | Value =>
            cases n with
            | Number =>
              have hright := digits_of_number hb
              exact .numberRight hright hl ha
                (not_not.mp (mt (compare_value_number_iff hright hl ha).mpr hne))
            | Value =>
              have hothers := mt (compare_values_iff hl hr ha hb).mpr hne
              obtain ⟨hothera, hothers⟩ := Classical.not_imp.mp hothers
              obtain ⟨hotherb, hdiffer⟩ := Classical.not_imp.mp hothers
              exact .others hl hr ha hb hothera hotherb hdiffer

end Comparisons

section Leaves

variable {platform : Platform} {context : ProviderContext}

/-- The comparison that the code makes is the one of what it reads. -/
theorem compare_resolved (expected : Bool) {left right : List Char} {l r : ConditionValue}
    (hleft : ConditionValue.parse left = .ok l) (hright : ConditionValue.parse right = .ok r) :
    comparison expected (fun a b => a = b) (resolveValue platform context l)
      (resolveValue platform context r) = compareStored platform context expected left right := by
  rw [resolveValue_eq hleft, resolveValue_eq hright, comparison_map]
  rfl

theorem evaluate_equal (l r : ConditionValue) : evaluate platform context (.Equal l r) =
    comparison true (fun a b => a = b) (resolveValue platform context l)
      (resolveValue platform context r) := by
  unfold evaluate comparison
  cases resolveValue platform context l <;> cases resolveValue platform context r <;> simp

theorem evaluate_notEqual (l r : ConditionValue) : evaluate platform context (.NotEqual l r) =
    comparison false (fun a b => a = b) (resolveValue platform context l)
      (resolveValue platform context r) := by
  unfold evaluate comparison
  cases resolveValue platform context l <;> cases resolveValue platform context r <;> simp

theorem evaluate_reference (reference : String) :
    evaluate platform context (.Reference reference) =
      holds (storedReference platform context reference) := by
  unfold evaluate holds
  rw [resolveReference_eq, Option.map_map]
  rfl

/-- A reference alone counts as documented exactly when it is none of the wrong ones. -/
theorem holds_stored_iff {reference : String} :
    holds (storedReference platform context reference) =
        holds (documentedReference platform context reference) ↔
      ¬ WrongReference context reference := by
  unfold storedReference documentedReference
  cases hsplit : splitDot reference with
  | none =>
    refine iff_of_true rfl ?_
    rintro (⟨hpath, -⟩ | ⟨hpath, -, -⟩)
    · cases hsplit.symm.trans hpath
    · cases hsplit.symm.trans hpath
  | some names =>
    obtain ⟨space, path⟩ := names
    dsimp only
    by_cases hconfig : space = "config"
    · subst hconfig
      rw [if_pos rfl, if_pos rfl]
      constructor
      · rintro heq (⟨hpath, hne⟩ | ⟨hpath, -, -⟩)
        · cases hsplit.symm.trans hpath
          exact hne heq
        · exact absurd (hsplit.symm.trans hpath) (by simp)
      · intro hright
        by_contra hne
        exact hright (.config hsplit hne)
    · rw [if_neg hconfig, if_neg hconfig]
      by_cases hfeatures : space = "features"
      · subst hfeatures
        rw [if_pos rfl, if_pos rfl]
        cases hfound : context.configValue ("features." ++ path) with
        | some found =>
          refine iff_of_true rfl ?_
          rintro (⟨hpath, -⟩ | ⟨hpath, hmissing, -⟩)
          · exact absurd (hsplit.symm.trans hpath) (by simp)
          · cases hsplit.symm.trans hpath
            cases hfound.symm.trans hmissing
        | none =>
          rw [Option.none_or]
          constructor
          · rintro heq (⟨hpath, -⟩ | ⟨hpath, -, hholds⟩)
            · exact absurd (hsplit.symm.trans hpath) (by simp)
            · cases hsplit.symm.trans hpath
              rw [heq] at hholds
              cases hholds
          · intro hright
            by_contra hne
            refine hright (.features hsplit hfound ?_)
            simpa [holds] using hne
      · rw [if_neg hfeatures, if_neg hfeatures]
        refine iff_of_true rfl ?_
        rintro (⟨hpath, -⟩ | ⟨hpath, -, -⟩)
        · cases hsplit.symm.trans hpath
          exact hconfig rfl
        · cases hsplit.symm.trans hpath
          exact hfeatures rfl

theorem atom_as_documented_iff {text : List Char} {value : Condition}
    (h : fromShared (.Atom text) = .ok value) :
    evaluate platform context value = documented platform context (.Atom text) ↔
      ¬ Wrong platform context (.Atom text) := by
  have hkeyword : ∀ word : String, splitDot word = none → text = word.toList →
      ¬ Wrong platform context (.Atom text) := by
    rintro word hsplit rfl hwrong
    change WrongReference context (String.ofList word.toList) at hwrong
    rw [String.ofList_toList] at hwrong
    rcases hwrong with ⟨hpath, -⟩ | ⟨hpath, -, -⟩
    · cases hsplit.symm.trans hpath
    · cases hsplit.symm.trans hpath
  unfold fromShared at h
  unfold documented
  split_ifs at h ⊢ with halways htrue hfalse
  · cases h
    exact iff_of_true rfl (hkeyword _ (by decide) halways)
  · cases h
    exact iff_of_true rfl (hkeyword _ (by decide) htrue)
  · cases h
    exact iff_of_true rfl (hkeyword _ (by decide) hfalse)
  · obtain ⟨_, -, h⟩ := bind_ok_iff.mp h
    obtain rfl := pure_ok_iff.mp h
    rw [evaluate_reference]
    exact holds_stored_iff

theorem equal_as_documented_iff {left right : List Char} {value : Condition}
    (h : fromShared (.Equal left right) = .ok value) :
    evaluate platform context value = documented platform context (.Equal left right) ↔
      ¬ Wrong platform context (.Equal left right) := by
  obtain ⟨l, hl, h⟩ := bind_ok_iff.mp h
  obtain ⟨r, hr, h⟩ := bind_ok_iff.mp h
  obtain rfl := pure_ok_iff.mp h
  rw [evaluate_equal, compare_resolved true hl hr, documented]
  exact compare_eq_iff

theorem notEqual_as_documented_iff {left right : List Char} {value : Condition}
    (h : fromShared (.NotEqual left right) = .ok value) :
    evaluate platform context value = documented platform context (.NotEqual left right) ↔
      ¬ Wrong platform context (.NotEqual left right) := by
  obtain ⟨l, hl, h⟩ := bind_ok_iff.mp h
  obtain ⟨r, hr, h⟩ := bind_ok_iff.mp h
  obtain rfl := pure_ok_iff.mp h
  rw [evaluate_notEqual, compare_resolved false hl hr, documented]
  exact compare_eq_iff

end Leaves

/-! ## Conditions -/

section Reached

variable (platform : Platform) (context : ProviderContext)

/-- The parts of a condition that an evaluation from left to right comes to: behind an operand
that decides the conjunction or disjunction nothing is looked at. -/
inductive Reached : condition_expr.Expr → condition_expr.Expr → Prop where
  | whole (e) : Reached e e
  | ofAnd {before child after part} : documentedAll platform context before →
      Reached child part → Reached (.And (before ++ child :: after)) part
  | ofOr {before child after part} : ¬ documentedAny platform context before →
      Reached child part → Reached (.Or (before ++ child :: after)) part
  | ofNot {child part} : Reached child part → Reached (.Not child) part

mutual

/-- The wrong leaves of the condition do not change its value. -/
def Kept : condition_expr.Expr → Prop
  | .And children => if documentedAll platform context children then AllKept children
      else Comes false children
  | .Or children => if documentedAny platform context children then Comes true children
      else AllKept children
  | .Not child => Kept child
  | .Atom text => ¬ Wrong platform context (.Atom text)
  | .Equal left right => ¬ Wrong platform context (.Equal left right)
  | .NotEqual left right => ¬ Wrong platform context (.NotEqual left right)

def AllKept : List condition_expr.Expr → Prop
  | [] => True
  | child :: children => Kept child ∧ AllKept children

/-- One of the conditions comes to the value: it has it and is kept, or has the other one and is
not. -/
def Comes (value : Bool) : List condition_expr.Expr → Prop
  | [] => False
  | child :: children =>
    (documented platform context child = value ↔ Kept child) ∨ Comes value children

end

/-- The expression is evaluated as documented. -/
def Agrees (e : condition_expr.Expr) : Prop :=
  ∀ condition, fromShared e = .ok condition →
    evaluate platform context condition = documented platform context e

end Reached

section Agreement

variable {platform : Platform} {context : ProviderContext}

theorem leaf_value_iff {value documented : Bool} {kept : Prop} (h : value = documented ↔ kept)
    (b : Bool) : value = b ↔ (documented = b ↔ kept) := by
  rw [← h]
  cases value <;> cases documented <;> cases b <;> decide

mutual

/-- A condition has its documented value exactly when its wrong leaves do not change it. -/
theorem as_documented_iff_kept : (e : condition_expr.Expr) → ∀ {value : Condition},
    fromShared e = .ok value → (evaluate platform context value = documented platform context e ↔
      Kept platform context e)
  | .Atom _, _, h => by
    rw [Kept]
    exact atom_as_documented_iff h
  | .Equal _ _, _, h => by
    rw [Kept]
    exact equal_as_documented_iff h
  | .NotEqual _ _, _, h => by
    rw [Kept]
    exact notEqual_as_documented_iff h
  | .And children, _, h => by
    obtain ⟨values, hvalues, h⟩ := bind_ok_iff.mp h
    obtain rfl := pure_ok_iff.mp h
    obtain ⟨hfalse, -, hall, -⟩ := list_as_documented children hvalues
    rw [evaluate, documented, Kept]
    cases hdocumented : documentedAll platform context children with
    | true => exact hall hdocumented
    | false => exact hfalse
  | .Or children, _, h => by
    obtain ⟨values, hvalues, h⟩ := bind_ok_iff.mp h
    obtain rfl := pure_ok_iff.mp h
    obtain ⟨-, htrue, -, hnone⟩ := list_as_documented children hvalues
    rw [evaluate, documented, Kept]
    cases hdocumented : documentedAny platform context children with
    | true => exact htrue
    | false => exact hnone hdocumented
  | .Not child, _, h => by
    obtain ⟨value, hvalue, h⟩ := bind_ok_iff.mp h
    obtain rfl := pure_ok_iff.mp h
    rw [evaluate, documented, Kept, Bool.not_inj_iff]
    exact as_documented_iff_kept child hvalue

theorem list_as_documented : (children : List condition_expr.Expr) → ∀ {values : List Condition},
    fromSharedAll children = .ok values →
      (evaluateAll platform context values = false ↔ Comes platform context false children) ∧
      (evaluateAny platform context values = true ↔ Comes platform context true children) ∧
      (documentedAll platform context children = true →
        (evaluateAll platform context values = true ↔ AllKept platform context children)) ∧
      (documentedAny platform context children = false →
        (evaluateAny platform context values = false ↔ AllKept platform context children))
  | [], _, h => by
    cases h
    simp [evaluateAll, evaluateAny, Comes, AllKept]
  | child :: children, _, h => by
    obtain ⟨value, hvalue, h⟩ := bind_ok_iff.mp h
    obtain ⟨values, hvalues, h⟩ := bind_ok_iff.mp h
    obtain rfl := pure_ok_iff.mp h
    have hfirst := leaf_value_iff (as_documented_iff_kept child hvalue)
    obtain ⟨hfalse, htrue, hall, hnone⟩ := list_as_documented children hvalues
    rw [evaluateAll, evaluateAny, documentedAll, documentedAny, Comes, Comes, AllKept,
      Bool.and_eq_false_iff, Bool.or_eq_true, Bool.and_eq_true, Bool.or_eq_false_iff,
      Bool.and_eq_true, Bool.or_eq_false_iff, hfirst, hfirst, hfalse, htrue]
    refine ⟨Iff.rfl, Iff.rfl, ?_, ?_⟩
    · rintro ⟨hchild, hrest⟩
      rw [hall hrest, iff_true_left hchild]
    · rintro ⟨hchild, hrest⟩
      rw [hnone hrest, iff_true_left hchild]

end

mutual

/-- A condition that reaches no wrong leaf is kept. -/
theorem kept_of_reached : (e : condition_expr.Expr) →
    (∀ leaf, Reached platform context e leaf → ¬ Wrong platform context leaf) →
    Kept platform context e
  | .Atom _, hright => by
    rw [Kept]
    exact hright _ (.whole _)
  | .Equal _ _, hright => by
    rw [Kept]
    exact hright _ (.whole _)
  | .NotEqual _ _, hright => by
    rw [Kept]
    exact hright _ (.whole _)
  | .And children, hright => by
    obtain ⟨hall, hcomes⟩ := kept_conjunction children fun before child after heq hbefore leaf
      hleaf => hright leaf (heq ▸ .ofAnd hbefore hleaf)
    rw [Kept]
    split_ifs with hdocumented
    · exact hall hdocumented
    · exact hcomes (Bool.eq_false_of_not_eq_true hdocumented)
  | .Or children, hright => by
    obtain ⟨hall, hcomes⟩ := kept_disjunction children fun before child after heq hbefore leaf
      hleaf => hright leaf (heq ▸ .ofOr hbefore hleaf)
    rw [Kept]
    split_ifs with hdocumented
    · exact hcomes hdocumented
    · exact hall (Bool.eq_false_of_not_eq_true hdocumented)
  | .Not child, hright => by
    rw [Kept]
    exact kept_of_reached child fun leaf hleaf => hright leaf (.ofNot hleaf)

theorem kept_conjunction : (children : List condition_expr.Expr) →
    (∀ before child after, children = before ++ child :: after →
      documentedAll platform context before → ∀ leaf, Reached platform context child leaf →
        ¬ Wrong platform context leaf) →
    (documentedAll platform context children = true → AllKept platform context children) ∧
      (documentedAll platform context children = false → Comes platform context false children)
  | [], _ => ⟨fun _ => by rw [AllKept]; trivial, fun h => by rw [documentedAll] at h; cases h⟩
  | child :: children, hright => by
    have hchild := kept_of_reached child (hright [] child children rfl (by rw [documentedAll]))
    rw [documentedAll, AllKept, Comes]
    cases hvalue : documented platform context child with
    | false => exact ⟨fun h => (by cases h), fun _ => .inl (iff_of_true rfl hchild)⟩
    | true =>
      obtain ⟨hall, hcomes⟩ := kept_conjunction children fun before next after heq hbefore =>
        hright (child :: before) next after (by rw [heq, List.cons_append])
          (by rw [documentedAll, hvalue, hbefore]; rfl)
      rw [Bool.true_and]
      exact ⟨fun h => ⟨hchild, hall h⟩, fun h => .inr (hcomes h)⟩

theorem kept_disjunction : (children : List condition_expr.Expr) →
    (∀ before child after, children = before ++ child :: after →
      ¬ documentedAny platform context before → ∀ leaf, Reached platform context child leaf →
        ¬ Wrong platform context leaf) →
    (documentedAny platform context children = false → AllKept platform context children) ∧
      (documentedAny platform context children = true → Comes platform context true children)
  | [], _ => ⟨fun _ => by rw [AllKept]; trivial, fun h => by rw [documentedAny] at h; cases h⟩
  | child :: children, hright => by
    have hchild := kept_of_reached child
      (hright [] child children rfl (by rw [documentedAny]; exact Bool.false_ne_true))
    rw [documentedAny, AllKept, Comes]
    cases hvalue : documented platform context child with
    | true => exact ⟨fun h => (by cases h), fun _ => .inl (iff_of_true rfl hchild)⟩
    | false =>
      obtain ⟨hall, hcomes⟩ := kept_disjunction children fun before next after heq hbefore =>
        hright (child :: before) next after (by rw [heq, List.cons_append])
          (by rw [documentedAny, hvalue, Bool.false_or]; exact hbefore)
      rw [Bool.false_or]
      exact ⟨fun h => ⟨hchild, hall h⟩, fun h => .inr (hcomes h)⟩

end

theorem Reached.part {e part : condition_expr.Expr} (h : Reached platform context e part) :
    Part e part := by
  induction h with
  | whole => exact .whole _
  | ofAnd _ _ ih => exact .ofAnd (List.mem_append_right _ List.mem_cons_self) ih
  | ofOr _ _ ih => exact .ofOr (List.mem_append_right _ List.mem_cons_self) ih
  | ofNot _ ih => exact .ofNot ih

theorem Reached.trans {e part leaf : condition_expr.Expr} (hpart : Reached platform context e part)
    (hleaf : Reached platform context part leaf) : Reached platform context e leaf := by
  induction hpart with
  | whole => exact hleaf
  | ofAnd hbefore _ ih => exact .ofAnd hbefore (ih hleaf)
  | ofOr hbefore _ ih => exact .ofOr hbefore (ih hleaf)
  | ofNot _ ih => exact .ofNot (ih hleaf)

theorem not_wrong_of_kept {leaf : condition_expr.Expr} (h : Kept platform context leaf) :
    ¬ Wrong platform context leaf := by
  cases leaf with
  | Atom => rwa [Kept] at h
  | Equal => rwa [Kept] at h
  | NotEqual => rwa [Kept] at h
  | And => exact not_false
  | Or => exact not_false
  | Not => exact not_false

end Agreement

end dev_env_provider
