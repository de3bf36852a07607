-- Path templates and conditions (`condition.rs`): what the DSL accepts as a
-- path or as a `when` text, and the parse into the restricted condition tree.
import NixosDockers.BootstrapModel.Types
import NixosDockers.ConditionExpr

open rust_text

namespace bootstrap_model

/-! ## Names -/

/-- `BootstrapInput::is_env_name`. -/
def isEnvName (value : String) : Bool :=
  match value.toList with
  | [] => false
  | c :: rest =>
    (c.isUpper || c = '_') && rest.all fun c => c.isUpper || c.isDigit || c = '_'

def isConfigPath (value : String) : Bool :=
  value ≠ "" &&
    !(splitChar '.' value).any (fun part => part = "" || part = "..") &&
    value.toList.all fun c => c.isAlphanum || c = '.' || c = '_' || c = '-'

/-- `Condition::is_reference`: the references of the six namespaces. -/
def isReference (value : String) : Bool :=
  match splitOnce ['.'] value.toList with
  | none => false
  | some (before, after) =>
    let name := String.ofList after
    match String.ofList before with
    | "bootstrap" => name = "workspace_root"
    | "identity" => name ∈ ["uid", "gid", "user", "home", "target"]
    | "context" => name ∈ ["cwd", "os", "arch"]
    | "input" => isEnvName name
    | "config" => isConfigPath name
    | "env" => isEnvName name
    | _ => false

/-! ## Path templates -/

/-- The marks that no path may hold, in the order of the checks. -/
def holdsShellMark (value : String) : Bool :=
  hasText value "$(" || hasChar value backtick || hasChar value ';' || hasChar value '|' ||
    hasChar value '&' || hasChar value '>' || hasChar value '<'

def holdsNewline (value : String) : Bool := hasChar value '\n' || hasChar value '\r'

def holdsParentDir (value : String) : Bool := (splitChar '/' value).any (· = "..")

/-- `validate_interpolations`, from the cursor on. Each round passes a character or a whole
`$\x7b...\x7d`, so the length of the text is enough fuel. -/
def validateInterpolationsFuel (location : String) : Nat → List Char → Except ModelError Unit
  | 0, _ => .ok ()
  | _ + 1, [] => .ok ()
  | fuel + 1, c :: rest =>
    if c ≠ '$' && c ≠ '\x7b' && c ≠ '\x7d' then validateInterpolationsFuel location fuel rest
    else if c ≠ '$' || rest.head? ≠ some '\x7b' then
      .error (.Invalid location "only $\x7bnamespace.reference\x7d interpolation is allowed")
    else
      match splitOnce ['\x7d'] rest.tail with
      | none => .error (.Invalid location "unterminated structured interpolation")
      | some (reference, after) =>
        if isReference (String.ofList reference) then
          validateInterpolationsFuel location fuel after
        else
          .error (.Invalid location
            ("unsupported structured reference " ++ debugText (String.ofList reference)))

def validateInterpolations (location value : String) : Except ModelError Unit :=
  validateInterpolationsFuel location value.length value.toList

/-- `PathTemplate::validate_template`. -/
def validateTemplate (location value : String) : Except ModelError Unit := do
  if value = "" then throw (.Invalid location "path may not be empty")
  if hasChar value nul then throw (.Invalid location "path may not contain NUL")
  if holdsShellMark value then
    throw (.Invalid location "shell expressions are not allowed in paths")
  if holdsNewline value then throw (.Invalid location "path may not contain newlines")
  validateInterpolations location value
  if !startsWith value "/" && !startsWith value "$\x7b" then
    throw (.Invalid location "path must be absolute or start with a structured interpolation")
  if holdsParentDir value then
    throw (.Invalid location "path traversal with '..' is not allowed")

/-- A text that `validate_template` accepted. -/
structure PathTemplate where
  text : String
  valid : validateTemplate "path" text = .ok ()

def PathTemplate.new (input : String) : Except ModelError PathTemplate :=
  match h : validateTemplate "path" input with
  | .ok () => .ok ⟨input, h⟩
  | .error error => .error error

/-- `PathTemplate::validate_rendered`. -/
def validateRendered (value : String) : Except String Unit := do
  if value = "" || !startsWith value "/" then throw "rendered path must be absolute"
  if hasChar value nul then throw "rendered path may not contain NUL"
  if holdsNewline value then throw "rendered path may not contain newlines"
  if holdsShellMark value then throw "rendered path may not contain shell metacharacters"
  if holdsParentDir value then throw "rendered path may not contain '..'"

/-- The loop of `PathTemplate::render`: every round passes one `$\x7b...\x7d`. -/
def expandFuel (values : Std.ExtTreeMap String String) :
    Nat → List Char → Except String (List Char)
  | 0, rest => .ok rest
  | fuel + 1, rest =>
    match splitOnce ['$', '\x7b'] rest with
    | none => .ok rest
    | some (literal, afterStart) =>
      match splitOnce ['\x7d'] afterStart with
      | none => .error "unterminated path interpolation"
      | some (reference, after) =>
        match values[String.ofList reference]? with
        | none =>
          .error ("missing path interpolation value " ++ debugText (String.ofList reference))
        | some value => (expandFuel values fuel after).map fun tail => literal ++ value.toList ++ tail

def renderText (template : String) (values : Std.ExtTreeMap String String) :
    Except String String := do
  let output ← expandFuel values template.length template.toList
  validateRendered (String.ofList output)
  return String.ofList output

def PathTemplate.render (template : PathTemplate) (values : Std.ExtTreeMap String String) :
    Except String String :=
  renderText template.text values

/-! ## Conditions -/

inductive ConditionValue where
  | Reference (reference : String)
  | Literal (text : String)
  | Boolean (value : Bool)
  deriving DecidableEq

inductive Condition where
  | Always
  | Boolean (value : Bool)
  | ContextPathExistsOrCreate
  | Exists (path : PathTemplate)
  | Writable (path : PathTemplate)
  | InputSet (name : String)
  | Feature (feature : String)
  | Equal (left right : ConditionValue)
  | NotEqual (left right : ConditionValue)
  | And (parts : List Condition)
  | Or (parts : List Condition)
  | Not (part : Condition)

/-- `invalid` of the condition parser. -/
def conditionInvalid (message : String) : ModelError := .Invalid "bootstrap.condition" message

def ConditionValue.parse (text : List Char) : Except ModelError ConditionValue :=
  let input := trim text
  let shown := debugText (String.ofList input)
  if input.isEmpty then .error (conditionInvalid "comparison value may not be empty")
  else if input = "true".toList then .ok (.Boolean true)
  else if input = "false".toList then .ok (.Boolean false)
  else if input.head?.any condition_expr.isQuote then
    if input.length < 2 || input.getLast? ≠ input.head? then
      .error (conditionInvalid ("unterminated comparison string " ++ shown))
    else .ok (.Literal (String.ofList input.tail.dropLast))
  else if input.all Char.isDigit then .ok (.Literal (String.ofList input))
  else if isReference (String.ofList input) then .ok (.Reference (String.ofList input))
  else .error (conditionInvalid ("invalid comparison value " ++ shown))

/-- `function_argument`: the argument of `name(...)`, with the quotes around it dropped. -/
def functionArgument (input name : String) : Except ModelError (Option String) :=
  let start := name ++ "("
  if !startsWith input start then .ok none
  else if !endsWith input ")" then
    .error (conditionInvalid ("unterminated " ++ name ++ "() condition"))
  else
    let argument := (input.toList.drop start.length).dropLast
    if argument.isEmpty || argument.contains '(' || argument.contains ')' then
      .error (conditionInvalid ("invalid " ++ name ++ "() argument"))
    else
      .ok (some (String.ofList
        (trimMatches (fun c => c = ' ' || c = singleQuote || c = doubleQuote) argument)))

def parseAtom (input : String) : Except ModelError Condition := do
  if input = "always" then return .Always
  if input = "context.path_exists_or_create" then return .ContextPathExistsOrCreate
  if input = "true" then return .Boolean true
  if input = "false" then return .Boolean false
  if let some argument ← functionArgument input "exists" then
    return .Exists (← PathTemplate.new argument)
  if let some argument ← functionArgument input "writable" then
    return .Writable (← PathTemplate.new argument)
  if let some argument ← functionArgument input "input_set" then
    if !isEnvName argument then
      throw (conditionInvalid ("invalid input_set name " ++ debugText argument))
    return .InputSet argument
  if let some feature := stripStart input "feature:" then
    if feature = "" || !isConfigPath feature then
      throw (conditionInvalid ("invalid feature path " ++ debugText feature))
    return .Feature feature
  throw (conditionInvalid ("unsupported bootstrap condition " ++ debugText input))

def fromShared : condition_expr.Expr → Except ModelError Condition
  | .Atom text => parseAtom (String.ofList text)
  | .Equal left right => do
    return .Equal (← ConditionValue.parse left) (← ConditionValue.parse right)
  | .NotEqual left right => do
    return .NotEqual (← ConditionValue.parse left) (← ConditionValue.parse right)
  | .And children => do return .And (← fromSharedAll children)
  | .Or children => do return .Or (← fromSharedAll children)
  | .Not child => do return .Not (← fromShared child)
where
  fromSharedAll : List condition_expr.Expr → Except ModelError (List Condition)
    | [] => .ok []
    | child :: children => do return (← fromShared child) :: (← fromSharedAll children)

def mapSharedError : condition_expr.ParseError → ModelError
  | .Empty => conditionInvalid "condition may not be empty"
  | .EmptyOperand operator =>
    conditionInvalid ("operator " ++ debugText (String.ofList operator) ++ " has an empty operand")
  | .InvalidComparison _ => conditionInvalid "comparison requires two operands"
  | .UnterminatedString => conditionInvalid "unterminated quote in condition"
  | .UnbalancedParentheses => conditionInvalid "unmatched or unbalanced parentheses in condition"

def Condition.parse (text : String) : Except ModelError Condition := do
  let input := trim text.toList
  if input.isEmpty then throw (conditionInvalid "condition may not be empty")
  match condition_expr.parse input with
  | .error error => throw (mapSharedError error)
  | .ok expression => fromShared expression

/-- `Action::condition`: an action with no `when` always runs. -/
def Action.condition (action : Action) : Except ModelError Condition :=
  match action.when with
  | some text => Condition.parse text
  | none => .ok .Always

end bootstrap_model
