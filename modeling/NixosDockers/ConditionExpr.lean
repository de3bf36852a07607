-- The shared grammar of the conditions (crate `condition-expr`): the boolean
-- structure of a condition, with the leaves left as text for the products.
import NixosDockers.Lib.RustText

open rust_text

namespace condition_expr

inductive Expr where
  | Atom (text : List Char)
  | Equal (left right : List Char)
  | NotEqual (left right : List Char)
  | And (children : List Expr)
  | Or (children : List Expr)
  | Not (child : Expr)

inductive ParseError where
  | Empty
  | EmptyOperand (operator : List Char)
  | InvalidComparison (expression : List Char)
  | UnterminatedString
  | UnbalancedParentheses
  deriving DecidableEq

def isQuote (c : Char) : Bool := c = singleQuote || c = doubleQuote

/-! ## The outer parentheses -/

/-- The loop of `strip_outer_parentheses`: the text up to the parenthesis that brings the
depth back to 0, and the text after it. -/
def closeOuter : Nat → Option Char → List Char → Except ParseError (List Char × List Char)
  | _, some _, [] => .error .UnterminatedString
  | _, none, [] => .error .UnbalancedParentheses
  | depth, some q, c :: s =>
    (closeOuter depth (if c = q then none else some q) s).map fun p => (c :: p.1, p.2)
  | depth, none, c :: s =>
    if isQuote c then (closeOuter depth (some c) s).map fun p => (c :: p.1, p.2)
    else if c = '(' then (closeOuter (depth + 1) none s).map fun p => (c :: p.1, p.2)
    else if c = ')' then
      match depth with
      | 0 => .error .UnbalancedParentheses
      | 1 => .ok ([], s)
      | d + 2 => (closeOuter (d + 1) none s).map fun p => (c :: p.1, p.2)
    else (closeOuter depth none s).map fun p => (c :: p.1, p.2)

/-- Each round takes at least one character away, so the length of the text is enough fuel. -/
def stripOuterFuel : Nat → List Char → Except ParseError (List Char)
  | 0, input => .ok input
  | fuel + 1, input =>
    if input.head? = some '(' then do
      let (inside, after) ← closeOuter 0 none input
      if (trim after).isEmpty then stripOuterFuel fuel (inside.drop 1) else .ok input
    else .ok input

def stripOuterParentheses (input : List Char) : Except ParseError (List Char) :=
  stripOuterFuel input.length input

/-! ## The operators at the top level -/

/-- Put a character in front of the first part. -/
def growFirst (c : Char) : List (List Char) → List (List Char)
  | [] => [[c]]
  | part :: parts => (c :: part) :: parts

/-- `scan_top_level`: the parts of the text between the operators that stand outside quotes
and parentheses. `skip` counts the characters of a found operator that are still to pass. -/
def scanTopLevel (needle : List Char) :
    Nat → Nat → Option Char → List Char → Except ParseError (List (List Char))
  | _, _, some _, [] => .error .UnterminatedString
  | _, depth, none, [] => if depth = 0 then .ok [[]] else .error .UnbalancedParentheses
  | skip + 1, depth, quote, _ :: s => scanTopLevel needle skip depth quote s
  | 0, depth, some q, c :: s =>
    (scanTopLevel needle 0 depth (if c = q then none else some q) s).map (growFirst c)
  | 0, depth, none, c :: s =>
    if isQuote c then (scanTopLevel needle 0 depth (some c) s).map (growFirst c)
    else if c = '(' then (scanTopLevel needle 0 (depth + 1) none s).map (growFirst c)
    else if c = ')' then
      if depth = 0 then .error .UnbalancedParentheses
      else (scanTopLevel needle 0 (depth - 1) none s).map (growFirst c)
    else if depth = 0 && needle.isPrefixOf (c :: s) then
      (scanTopLevel needle (needle.length - 1) depth none s).map ([] :: ·)
    else (scanTopLevel needle 0 depth none s).map (growFirst c)

/-- `split_top_level`. With no operator the text stays as it is, untrimmed. -/
def splitTopLevel (input operator : List Char) : Except ParseError (List (List Char)) := do
  let parts ← scanTopLevel operator 0 0 none input
  if parts.length ≤ 1 then return [input]
  let parts := parts.map trim
  if parts.any List.isEmpty then throw (.EmptyOperand operator)
  return parts

structure Comparison where
  left : List Char
  operator : List Char
  right : List Char

def splitComparisonAt (input operator : List Char) : Except ParseError (Option Comparison) := do
  match ← scanTopLevel operator 0 0 none input with
  | first :: part :: parts =>
    let left := trim first
    let right := trim (operator.intercalate (part :: parts))
    if left.isEmpty || right.isEmpty then throw (.InvalidComparison input)
    return some { left, operator, right }
  | _ => return none

/-- `split_comparison`: `!=` is searched before `==`, wherever the two stand. -/
def splitComparison (input : List Char) : Except ParseError (Option Comparison) := do
  match ← splitComparisonAt input ['!', '='] with
  | some comparison => return some comparison
  | none => splitComparisonAt input ['=', '=']

/-! ## The parser -/

/-- Every part that the parser goes into is shorter than its input, so one more than the
length of the text is enough fuel. -/
def parseFuel : Nat → List Char → Except ParseError Expr
  | 0, _ => .error .Empty
  | fuel + 1, text => do
    let input := trim text
    if input.isEmpty then throw .Empty
    let input ← stripOuterParentheses input
    let orParts ← splitTopLevel input ['|', '|']
    if orParts.length > 1 then return .Or (← orParts.mapM (parseFuel fuel))
    let andParts ← splitTopLevel input ['&', '&']
    if andParts.length > 1 then return .And (← andParts.mapM (parseFuel fuel))
    if input.head? = some '!' then return .Not (← parseFuel fuel input.tail)
    match ← splitComparison input with
    | some comparison =>
      return if comparison.operator = ['=', '='] then .Equal comparison.left comparison.right
        else .NotEqual comparison.left comparison.right
    | none => return .Atom input

def parse (input : List Char) : Except ParseError Expr := parseFuel (input.length + 1) input

end condition_expr
