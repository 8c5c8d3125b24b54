import OriginTags.Tsx.Class
/-!
# Expressions

From primary expressions over accesses, calls and operators to assignments and sequences.
-/

namespace OriginTags.Tsx

open Tsx.Parser

/-! ## Operators -/

/-- How tight a binary operator binds. -/
def operatorLevels : List (String × Nat) :=
  [("??", 1), ("||", 2), ("&&", 3), ("|", 4), ("^", 5), ("&", 6),
   ("==", 7), ("!=", 7), ("===", 7), ("!==", 7),
   ("<", 8), ("<=", 8), (">", 8), (">=", 8), ("instanceof", 8), ("in", 8), ("as", 8),
   ("satisfies", 8), ("<<", 9), (">>", 9), (">>>", 9), ("+", 10), ("-", 10),
   ("*", 11), ("/", 11), ("%", 11), ("**", 12)]

/-- The longest operator that begins with the `>` at the front of a text. -/
def greaterOperator : List Char → String
  | '>' :: '>' :: '>' :: '=' :: _ => ">>>="
  | '>' :: '>' :: '>' :: _ => ">>>"
  | '>' :: '>' :: '=' :: _ => ">>="
  | '>' :: '>' :: _ => ">>"
  | '>' :: '=' :: _ => ">="
  | _ => ">"

def operatorText : Parser (Option String) := do
  match ← token with
  | .symbol ">" => return some (greaterOperator (← get).lexeme.here)
  | .symbol text => return some text
  | .word w _ => return some w
  | _ => return none

def binaryOperator : Parser (Option (String × Nat)) := do
  let some text ← operatorText | return none
  if text == "in" && !(← context).inOperator then return none
  if (text == "as" || text == "satisfies") && (← newlineBefore) then return none
  return (operatorLevels.lookup text).map fun level => (text, level)

def skipOperator (text : String) : Parser Unit := do
  if ← atSymbol ">" then moveTo ((← get).lexeme.here.drop text.length) else advance

/-- The operators that assign the result of a computation. -/
def updatingOperators : List String :=
  ["+=", "-=", "*=", "/=", "%=", "**=", "<<=", ">>=", ">>>=", "&=", "|=", "^=", "&&=", "||=", "??="]

/-! ## Accesses and calls -/

def arguments (g : Grammar) : Parser Unit := do
  symbol "("
  enclosed <| commaList ")" do
    let _ ← eatSymbol "..."
    let _ ← g (.assignment false)

def index (g : Grammar) : Parser Unit := do
  symbol "["
  let _ ← enclosed (g .expression)
  symbol "]"

def expressionSymbols : List String :=
  ["(", "[", "\x7b", "/", "/=", "+", "-", "~", "!", "++", "--", "<", "@"]

/-- The words that begin an expression and are no names. -/
def expressionWords : List String :=
  ["this", "super", "null", "true", "false", "function", "class", "new", "typeof", "void", "delete",
   "await", "yield"]

/-- Whether the current token begins an expression, as far as type arguments before it are
concerned: no word with a meaning of its own does so by being a name. -/
def atExpression : Parser Bool := do
  match ← token with
  | .word w _ =>
    if w == "import" then nextIs fun t _ => t.isSymbolIn ["(", "<", "."]
    else return expressionWords.contains w || !isKeyword w
  | .number _ | .bigint | .string .. | .template .. | .privateName _ => return true
  | t => return t.isSymbolIn expressionSymbols

/-- Type arguments in an expression, which may also be comparisons: what follows them decides. -/
def typeArgumentsInExpression (g : Grammar) : Parser Unit := do
  typeArgumentItems g
  require ((← operatorText) == some ">")
  advance
  match ← token with
  | .symbol "(" | .template .. => pure ()
  | .symbol "<" | .symbol ">" | .symbol "+" | .symbol "-" => failure
  | _ => require ((← newlineBefore) || (← binaryOperator).isSome || !(← atExpression))

def substitution (g : Grammar) : Parser Unit := do
  let _ ← enclosed (g .expression)

def optionalAccess (g : Grammar) : Parser Unit := do
  symbol "?."
  match ← token with
  | .symbol "(" => arguments g
  | .symbol "[" => index g
  | .symbol "<" | .symbol "<<" =>
    typeArguments g
    arguments g
  | .word .. | .privateName _ => passName
  | _ => failure

/-- One more access or call behind an expression. An expression with a `?.` stays a chain. -/
def accessStep (g : Grammar) (calls : Bool) (shape : Shape) : Parser (Option Shape) := do
  let grown := fun (next : Shape) => if shape == .chain then Shape.chain else next
  match ← token with
  | .symbol "." =>
    advance
    match ← token with
    | .word .. | .privateName _ => passName
    | _ => failure
    return some (grown (.member shape))
  | .symbol "?." =>
    require calls
    optionalAccess g
    return some .chain
  | .symbol "[" =>
    if (← context).decorator then return none
    index g
    return some (grown .index)
  | .symbol "!" =>
    if ← newlineBefore then return none
    advance
    return some (grown (.nonNull shape))
  | .template .. =>
    require (shape != .chain)
    template true (substitution g)
    return some .other
  | .symbol "<" | .symbol "<<" =>
    match ← attempt (typeArgumentsInExpression g) with
    | some () => return some (grown (.instantiation shape))
    | none => return none
  | .symbol "(" =>
    if !calls then return none
    arguments g
    return some (grown (.call shape))
  | _ => return none

/-! ## Lists and objects -/

/-- As much of the entries of a list or object as its use as a pattern needs to know. -/
structure Entries where
  assignable : Bool := true
  pending : Nat := 0

/-- Adds an entry that may or may not be part of a pattern. -/
def Entries.add (entries : Entries) (fits : Bool) (pending : Nat) : Entries :=
  ⟨entries.assignable && fits, entries.pending + pending⟩

def listLiteral (g : Grammar) : Parser Shape := do
  symbol "["
  let entries ← enclosed <| commaFold "]" (fun entries => do
    if ← atSymbol "," then return entries
    let isSpread ← eatSymbol "..."
    let item ← g (.assignment false)
    let fits ← if isSpread then pure (item.isTarget && (← atSymbol "]")) else pure item.isEntry
    return entries.add fits item.pending) ({} : Entries)
  symbol "]"
  return .collection entries.assignable entries.pending

/-- A method of an object from its parameters on, which has a body. -/
def objectMethod (g : Grammar) (async generator : Bool) : Parser Signature := do
  let (found, hasBody) ← functionRest g .function async generator
  require hasBody
  return found

/-- A getter or setter of an object from its name on. -/
def objectAccessor (g : Grammar) (modifiers : List Modifier) (isSetter : Bool) : Parser Unit := do
  Modifier.allow [] modifiers
  propertyName g
  checkAccessor isSetter (← objectMethod g false false)

/-- A property that has only a name, and perhaps a default value for its use in a pattern. -/
def shortProperty (g : Grammar) (entries : Entries) : Parser Entries := do
  let _ ← name
  if ← defaultValue g then
    modify fun c => { c with unsettled := c.unsettled + 1 }
    return entries.add true 1
  else return entries.add true 0

/-- A property with a name and a value, or a method. -/
def namedProperty (g : Grammar) (modifiers : List Modifier) (entries : Entries) :
    Parser Entries := do
  let generator ← eatSymbol "*"
  let context ← context
  let isShort := match ← token with
    | .word w _ => isFree w || (w == "await" && !context.awaits) || (w == "yield" && !context.yields)
    | _ => false
  let endsShort := fun t (_ : Bool) => !(opensSignature t || t == .symbol ":")
  if isShort && !generator && (← nextIs endsShort) then
    Modifier.allow [] modifiers
    shortProperty g entries
  else
    propertyName g
    if generator || opensSignature (← token) then
      Modifier.allow [.async] modifiers
      let _ ← objectMethod g (modifiers.contains .async) generator
      return entries.add false 0
    else
      Modifier.allow [] modifiers
      symbol ":"
      let value ← g (.assignment false)
      return entries.add value.isEntry value.pending

/-- A property of an object behind others. -/
def objectProperty (g : Grammar) (entries : Entries) : Parser Entries := do
  if ← eatSymbol "..." then
    let value ← g (.assignment false)
    return entries.add (value.isPlace && (← atSymbol "\x7d")) value.pending
  else
    let modifiers ← Modifier.ofMember false false
    if ← Modifier.eatAccessor "get" then
      objectAccessor g modifiers false
      return entries.add false 0
    else if ← Modifier.eatAccessor "set" then
      objectAccessor g modifiers true
      return entries.add false 0
    else namedProperty g modifiers entries

def objectLiteral (g : Grammar) : Parser Shape := do
  symbol "\x7b"
  let entries ← enclosed (commaFold "\x7d" (objectProperty g) {})
  symbol "\x7d"
  return .collection entries.assignable entries.pending

/-! ## Primary expressions -/

/-- `import` as an expression: a call or a property of the module. -/
def importExpression (g : Grammar) : Parser Shape := do
  word "import"
  if ← eatSymbol "." then
    if ← eatWord "meta" then return .other
    require (← eatWord "defer" <||> eatWord "source")
  symbol "("
  enclosed do
    let _ ← g (.assignment false)
    if (← atSymbol ",") && !(← nextSymbol ")") then
      advance
      let _ ← g (.assignment false)
    let _ ← eatSymbol ","
  symbol ")"
  return .importCall

/-- A primary expression that begins with a word. -/
def wordExpression (g : Grammar) (w : String) : Parser Shape := do
  if w == "this" || w == "null" then
    advance
    return .other
  else if w == "true" || w == "false" then
    advance
    return .boolean (w == "true")
  else if w == "function" then
    functionTail g .expression false false
    return .other
  else if w == "class" then
    classTail g []
    return .other
  else if w == "super" then
    advance
    flawIf !(← token).isSymbolIn ["(", ".", "["]
    return .other
  else if w == "import" then importExpression g
  else if w == "async" && (← nextWordHere "function") then
    advance
    functionTail g .expression true false
    return .other
  else return .name (← name)

def primary (g : Grammar) : Parser Shape := do
  match ← token with
  | .word w _ => wordExpression g w
  | .string value _ =>
    advance
    return .string value
  | .number value =>
    advance
    return .number value
  | .bigint =>
    advance
    return .other
  | .template .. =>
    template false (substitution g)
    return .other
  | .symbol "(" =>
    advance
    let inner ← enclosed (g .expression)
    symbol ")"
    return .parenthesized inner
  | .symbol "[" => listLiteral g
  | .symbol "\x7b" => objectLiteral g
  | .symbol "/" | .symbol "/=" =>
    match readRegularExpression ((← get).lexeme.here.drop 1) with
    | some rest =>
      moveTo rest
      return .other
    | none => failure
  | .symbol "@" =>
    let _ ← decorators g
    classTail g []
    return .other
  | _ => failure

/-- `new` with what it applies to and, if there are any, arguments. -/
def newExpression (g : Grammar) : Parser Shape := do
  word "new"
  if ← eatSymbol "." then word "target"
  else
    let callee ← g (.access false)
    flawIf (callee == .importCall)
    if ← atSymbol "(" then arguments g
  return .other

/-- A primary expression with accesses behind it. -/
def access (g : Grammar) (calls : Bool) : Parser Shape := do
  let base ← if ← atWord "new" then newExpression g else primary g
  growing (accessStep g calls) base

/-! ## Operands -/

/-- Skips an operator that changes the value of a place, if there is one. -/
def eatUpdate : Parser Bool := eatSymbol "++" <||> eatSymbol "--"

/-- Whether the current token is an operator before its operand. -/
def atUnaryOperator : Parser Bool := do
  match ← token with
  | .symbol text => return ["+", "-", "~", "!"].contains text
  | .word w _ => return ["typeof", "void", "delete"].contains w
  | _ => return false

/-- Whether the current word is an operator where some surroundings make it one. Before an operand
on the same line it cannot be a name. -/
def atSuspending (w : String) (isOperator : Bool) : Parser Bool := do
  if !(← atWord w) then return false
  if isOperator then return true
  nextIs fun t newline => !newline && (t.isWord || t.isLiteral)

def unary (g : Grammar) : Parser Shape := do
  if ← atUnaryOperator then
    advance
    let _ ← g .unary
    return .unary
  else if ← atSuspending "await" (← context).awaits then
    flawIf !(← context).awaits
    advance
    let _ ← g .unary
    return .unary
  else if ← eatUpdate then
    require (← g .unary).isPlace
    return .other
  else if ← atSymbol "<" then
    g (.markup false)
    return .other
  else
    let operand ← g (.access true)
    if (← token).isSymbolIn ["++", "--"] && !(← newlineBefore) then
      require operand.isPlace
      advance
      return .other
    else return operand

/-- One more operator and operand behind an expression, if the operator binds tighter than
`level`. An operand that begins with a parenthesis escapes the rules on mixed operators. -/
def binaryStep (g : Grammar) (level : Nat) (parenthesized : Bool) (left : Shape) :
    Parser (Option Shape) := do
  let some (text, operatorLevel) ← binaryOperator | return none
  if operatorLevel ≤ level then return none
  skipOperator text
  if text == "as" || text == "satisfies" then
    let _ ← g .type
    return some (.cast left)
  else
    let rightParenthesized ← atSymbol "("
    let right ← g (.binary (if text == "**" then operatorLevel - 1 else operatorLevel))
    if text == "**" then flawIf (left == .unary && !parenthesized)
    if text == "??" then
      flawIf ((right == .logical && !rightParenthesized) || (left == .logical && !parenthesized))
      return some .other
    else return some (if text == "||" || text == "&&" then .logical else .other)

/-- A private name and the `in` behind it, as an operand. -/
def privateOperand (g : Grammar) : Parser Shape := do
  advance
  word "in"
  let right ← g (.binary 8)
  require (right != .privateIn)
  return .privateIn

def binary (g : Grammar) (level : Nat) : Parser Shape := do
  let parenthesized ← atSymbol "("
  let left ← match ← token with
    | .privateName _ => do
      require (← context).inOperator
      privateOperand g
    | _ => g .unary
  growing (binaryStep g level parenthesized) left

/-! ## Expressions -/

/-- The symbols that leave a `yield` without an operand. -/
def endsYield (t : Token) : Bool :=
  t == .endOfInput || t.isSymbolIn [";", "\x7d", ")", "]", ":", ","] || t.isWordOf "in"

/-- `yield` with its operand, if it has one. -/
def yieldExpression (g : Grammar) : Parser Unit := do
  flawIf !(← context).yields
  word "yield"
  if ← newlineBefore then return
  if (← eatSymbol "*") || !endsYield (← token) then
    let _ ← g (.assignment false)

def conditionalRest (g : Grammar) (branch : Bool) (test : Shape) : Parser Shape := do
  if ← eatSymbol "?" then
    let _ ← enclosed (g (.assignment true))
    symbol ":"
    let _ ← g (.assignment branch)
    return .other
  else return test

/-- What follows operands with operators between them: an arrow, an assignment, a condition, or
nothing. -/
def assignmentRest (g : Grammar) (branch : Bool) (left : Shape) : Parser Shape := do
  let text := (← operatorText).getD ""
  if text == "=>" && left.isName then
    arrow
    arrowBody g false branch
    return .other
  else if text == "=" then
    useAsTarget left
    advance
    let _ ← g (.assignment branch)
    return .assignment
  else if updatingOperators.contains text then
    require left.isPlace
    skipOperator text
    let _ ← g (.assignment branch)
    return .other
  else conditionalRest g branch left

/-- An expression without a comma at its top. -/
def assignment (g : Grammar) (branch : Bool) : Parser Shape := do
  if ← atSuspending "yield" (← context).yields then
    yieldExpression g
    return .other
  else if ← parenthesizedArrow g branch <||> asyncLoneArrow g branch then return .other
  else assignmentRest g branch (← g (.binary 0))

def expression (g : Grammar) : Parser Shape := do
  let first ← g (.assignment false)
  if ← atSymbol "," then
    repeatWhile do
      if ← eatSymbol "," then
        let _ ← g (.assignment false)
        return true
      else return false
    return .sequence
  else return first

end OriginTags.Tsx
