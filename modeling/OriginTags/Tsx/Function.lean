import OriginTags.Tsx.Type
/-!
# Functions

Functions with a body of their own and arrow functions. A function decides for its body whether
`await` and `yield` are operators.
-/

namespace OriginTags.Tsx

open Tsx.Parser

/-! ## Functions -/

def Context.inFunction (async generator : Bool) (c : Context) : Context :=
  { c with awaits := async, yields := generator, inOperator := true }

def functionBody (g : Grammar) : Parser Unit :=
  inContext ({ · with returns := true }) (g .block)

/-- A function from its type parameters on; tells whether it has a body. -/
def functionRest (g : Grammar) (owner : Owner) (async generator : Bool) :
    Parser (Signature × Bool) :=
  inContext (Context.inFunction async generator) do
    let found ← signature g owner
    let hasBody ← atSymbol "\x7b"
    if hasBody then functionBody g
    return (found, hasBody)

inductive FunctionUse
  | declaration
  | defaultExport
  | expression
deriving DecidableEq, Repr

def functionName (use : FunctionUse) (async generator : Bool) : Parser Unit := do
  match use with
  | .declaration =>
    let _ ← name
  | .defaultExport =>
    if ← atBindingName then
      let _ ← name
  | .expression =>
    if ← atBindingName then
      let _ ← inContext ({ · with awaits := async, yields := generator }) name

/-- A function from the word `function` on. An expression has a body; a declaration has none if it
has modifiers that make it ambient. -/
def functionTail (g : Grammar) (use : FunctionUse) (async declared : Bool) : Parser Unit := do
  word "function"
  let generator ← eatSymbol "*"
  functionName use async generator
  let (_, hasBody) ← functionRest g .function async generator
  if hasBody then flawIf declared
  else
    require (use != .expression)
    endOfStatement

/-- Checks the parameters of an accessor: a getter has none, and a setter has one and gives no
result. -/
def checkAccessor (isSetter : Bool) (found : Signature) : Parser Unit :=
  if isSetter then
    flawIf (found.parameters.count != 1 || found.parameters.rest || found.parameters.hasDefault ||
      found.typed)
  else flawIf (found.parameters.count != 0 || found.parameters.rest)

/-! ## Arrow functions -/

def arrowBody (g : Grammar) (async branch : Bool) : Parser Unit :=
  inContext ({ · with awaits := async, yields := false }) do
    if ← atSymbol "\x7b" then functionBody g
    else
      let _ ← g (.assignment branch)

/-- The arrow, on the same line as what is before it. -/
def arrow : Parser Unit := do
  flawIf (← newlineBefore)
  symbol "=>"

/-- As much of an arrow function before its body as is needed to read on. -/
structure ArrowHead where
  async : Bool
  /-- The type of its result is given. -/
  typed : Bool
deriving DecidableEq, Repr

/-- An arrow function with parentheses up to its arrow. -/
def arrowHead (g : Grammar) : Parser ArrowHead := do
  let async ← eatWord "async"
  let found ← inContext (fun c => { c with awaits := c.awaits || async }) (signature g .function)
  flawIf found.parameters.this
  arrow
  return { async, typed := found.typed }

/-- Whether an arrow function with parentheses begins at a token, as far as a few tokens tell. -/
inductive Verdict
  | never
  | perhaps
  | always
deriving DecidableEq, Repr

/-- A verdict on what follows a name that is the first thing in parentheses. -/
def verdictAfterName : Parser Verdict := do
  match ← token with
  | .symbol ":" => return .always
  | .symbol "?" =>
    advance
    return if (← token).isSymbolIn [":", ",", "=", ")"] then .always else .never
  | .symbol "," | .symbol "=" | .symbol ")" => return .perhaps
  | _ => return .never

/-- A verdict on what follows the dots that are the first thing in parentheses: a name, a literal,
which is an argument, or a pattern. -/
def verdictAfterDots (t : Token) : Verdict :=
  match t with
  | .word w _ => if !isKeyword w then .always else if t.isLiteral then .never else .perhaps
  | _ => if t.isLiteral then .never else .perhaps

def verdictInParentheses : Parser Verdict := do
  match ← token with
  | .symbol ")" =>
    advance
    match ← token with
    | .symbol ":" => return .perhaps
    | .symbol "=>" | .symbol "\x7b" => return .always
    | _ => return .never
  | .symbol "..." =>
    advance
    return verdictAfterDots (← token)
  | .symbol "[" | .symbol "\x7b" => return .perhaps
  | .word w _ =>
    let isModifier := (Modifier.words.lookup w).isSome && w != "async"
    if isModifier && (← nextIs fun t _ => t.isFreeName) then
      return if ← nextWord "as" then .never else .always
    if !(isBindable w || w == "this") then return .never
    passName
    verdictAfterName
  | _ => return .never

/-- A verdict on what follows a `<`, which otherwise begins an element. -/
def verdictInBrackets : Parser Verdict := do
  let _ ← eatWord "const"
  require (← token).isFreeName
  passName
  if ← eatWord "extends" then
    return if (← token).isSymbolIn ["=", ">", "/"] then .never else .always
  else return if (← token).isSymbolIn [",", "="] then .always else .never

def arrowVerdict : Parser Verdict :=
  answerOf (do
    if ← eatWord "async" then require !(← newlineBefore)
    if ← eatSymbol "(" then verdictInParentheses
    else if ← eatSymbol "<" then verdictInBrackets
    else return .never) .never

/-- An arrow function that perhaps begins here; tells whether it does. In a branch, the type of a
result is one only if a colon follows the function. -/
def possibleArrow (g : Grammar) (branch : Bool) : Parser Bool := do
  let here ← place
  if ← isKnownPlace here then return false
  let start ← get
  match ← attempt (arrowHead g) with
  | none =>
    notePlace here
    return false
  | some head =>
    if branch && head.typed then
      match ← attempt (do arrowBody g head.async true; require (← atSymbol ":")) with
      | some () => return true
      | none =>
        set start
        notePlace here
        return false
    else
      arrowBody g head.async branch
      return true

/-- An arrow function with parentheses, if there is one; tells whether there is. -/
def parenthesizedArrow (g : Grammar) (branch : Bool) : Parser Bool := do
  match ← arrowVerdict with
  | .never => return false
  | .perhaps => possibleArrow g branch
  | .always =>
    let head ← arrowHead g
    arrowBody g head.async false
    return true

/-- An asynchronous arrow function with a lone parameter, if there is one; tells whether there
is. -/
def asyncLoneArrow (g : Grammar) (branch : Bool) : Parser Bool := do
  if !(← atWord "async") then return false
  let opens ← lookahead do
    advance
    require ((← atBindingName) && !(← newlineBefore))
    nextSymbol "=>"
  if !opens then return false
  advance
  let _ ← inContext ({ · with awaits := true }) name
  arrow
  arrowBody g true branch
  return true

end OriginTags.Tsx
