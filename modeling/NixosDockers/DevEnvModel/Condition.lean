-- The conditions of providers and variables (`condition.rs`): what is refused as shell syntax,
-- and the operands of the shared grammar.
import NixosDockers.ConditionExpr
import NixosDockers.DevEnvModel.Values
import NixosDockers.Lib.Results

open rust_text results

namespace dev_env_model

inductive ConditionError where
  | Empty
  | EmptyOperand (operator : String)
  | UnterminatedString
  | InvalidReference (reference : String)
  | InvalidValue (value : String)
  | UnsupportedExpression (expression : String)
  | UnbalancedParentheses
  | ShellSyntax
  deriving DecidableEq, Repr

inductive ConditionValue where
  | Reference (reference : String)
  | Literal (value : String)
  | Boolean (value : Bool)
  deriving DecidableEq, Repr

inductive Condition where
  | Always
  | Boolean (value : Bool)
  | Reference (reference : String)
  | Equal (left right : ConditionValue)
  | NotEqual (left right : ConditionValue)
  | And (values : List Condition)
  | Or (values : List Condition)
  | Not (value : Condition)

/-! ## Operands -/

/-- `str::split_once` at a dot. -/
def splitDot (reference : String) : Option (String × String) :=
  (splitOnce ['.'] reference.toList).map fun (before, after) =>
    (String.ofList before, String.ofList after)

def validReference (input : String) : Bool :=
  match splitDot input with
  | some (space, rest) =>
    if space = "provider" then rest = "enabled" || isConfigPath rest
    else if space = "workspace" then
      rest = "config-present" || rest = "writable" || rest = "root"
    else if space = "features" || space = "config" then isConfigPath rest
    else if space = "input" || space = "env" then isEnvName rest
    else if space = "context" then rest = "cwd" || rest = "os" || rest = "arch"
    else false
  | none => false

/-- `validate_reference`. -/
def validateReference (input : String) : Except ConditionError Unit :=
  if validReference input then .ok () else .error (.InvalidReference input)

/-- The text begins and ends with the quote. -/
def quotedWith (quote : Char) (input : List Char) : Bool :=
  input.head? = some quote && input.getLast? = some quote

def isQuoted (input : List Char) : Bool :=
  quotedWith doubleQuote input || quotedWith singleQuote input

def isDigits (input : List Char) : Bool := input.all Char.isDigit && !input.isEmpty

/-- `ConditionValue::parse`. -/
def ConditionValue.parse (text : List Char) : Except ConditionError ConditionValue :=
  let input := trim text
  if input = "true".toList then .ok (.Boolean true)
  else if input = "false".toList then .ok (.Boolean false)
  else if isQuoted input then
    if input.length < 2 then .error .UnterminatedString
    else .ok (.Literal (String.ofList (input.drop 1).dropLast))
  else if isDigits input then .ok (.Literal (String.ofList input))
  else do
    validateReference (String.ofList input)
    return .Reference (String.ofList input)

/-! ## Conditions -/

mutual

/-- `from_shared`. -/
def fromShared : condition_expr.Expr → Except ConditionError Condition
  | .Atom input =>
    if input = "always".toList then .ok .Always
    else if input = "true".toList then .ok (.Boolean true)
    else if input = "false".toList then .ok (.Boolean false)
    else do
      validateReference (String.ofList input)
      return .Reference (String.ofList input)
  | .Equal left right => do
    return .Equal (← ConditionValue.parse left) (← ConditionValue.parse right)
  | .NotEqual left right => do
    return .NotEqual (← ConditionValue.parse left) (← ConditionValue.parse right)
  | .And children => do return .And (← fromSharedAll children)
  | .Or children => do return .Or (← fromSharedAll children)
  | .Not child => do return .Not (← fromShared child)

def fromSharedAll : List condition_expr.Expr → Except ConditionError (List Condition)
  | [] => .ok []
  | child :: children => do return (← fromShared child) :: (← fromSharedAll children)

end

theorem fromSharedAll_ok_iff {children : List condition_expr.Expr} {values : List Condition} :
    fromSharedAll children = .ok values ↔
      List.Forall₂ (fun child value => fromShared child = .ok value) children values := by
  induction children generalizing values with
  | nil =>
    rw [fromSharedAll, List.forall₂_nil_left_iff]
    exact ⟨fun h => (Except.ok.inj h).symm, fun h => h ▸ rfl⟩
  | cons child children ih =>
    rw [fromSharedAll, List.forall₂_cons_left_iff, bind_ok_iff]
    constructor
    · rintro ⟨value, hvalue, h⟩
      obtain ⟨values, hvalues, h⟩ := bind_ok_iff.mp h
      exact ⟨value, values, hvalue, ih.mp hvalues, (pure_ok_iff.mp h).symm⟩
    · rintro ⟨value, values, hvalue, hvalues, rfl⟩
      exact ⟨value, hvalue, bind_ok_iff.mpr ⟨values, ih.mpr hvalues, rfl⟩⟩

/-- `map_shared_error`. -/
def mapSharedError : condition_expr.ParseError → ConditionError
  | .Empty => .Empty
  | .EmptyOperand operator => .EmptyOperand (String.ofList operator)
  | .InvalidComparison value => .InvalidValue (String.ofList value)
  | .UnterminatedString => .UnterminatedString
  | .UnbalancedParentheses => .UnbalancedParentheses

/-- What is refused before the text is read: the signs of a shell, of which a pipe is let
through when the text has an operator of two pipes anywhere. -/
def isShellSyntax (input : List Char) : Bool :=
  containsText ['$', '('] input || input.contains backtick || input.contains ';' ||
    (input.contains '|' && !containsText ['|', '|'] input) || input.contains '>' ||
    input.contains '<'

/-- `Condition::parse`. -/
def Condition.parse (text : List Char) : Except ConditionError Condition := do
  let input := trim text
  if input.isEmpty then throw .Empty
  if isShellSyntax input then throw .ShellSyntax
  let expression ← (condition_expr.parse input).mapError mapSharedError
  fromShared expression

theorem Condition.parse_ok_iff {text : List Char} {condition : Condition} :
    Condition.parse text = .ok condition ↔ trim text ≠ [] ∧ isShellSyntax (trim text) = false ∧
      ∃ e, condition_expr.parse (trim text) = .ok e ∧ fromShared e = .ok condition := by
  unfold Condition.parse
  by_cases hempty : trim text = []
  · simp [hempty, throw_bind]
  · have hnonempty : (trim text).isEmpty = false := by simpa using hempty
    by_cases hshell : isShellSyntax (trim text) = true
    · simp [hnonempty, hshell, throw_bind]
    · simp only [hnonempty, hshell, Bool.false_eq_true, if_false]
      rw [bind_ok_iff]
      simp only [mapError_ok_iff]
      exact ⟨fun h => ⟨hempty, trivial, h⟩, fun h => h.2.2⟩

end dev_env_model
