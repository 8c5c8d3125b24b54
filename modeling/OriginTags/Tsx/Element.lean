import OriginTags.Tsx.Expression
/-!
# Elements

Elements and fragments. Between tags, text is taken as written; inside tags and braces the tokens
are those of the language around them.
-/

namespace OriginTags.Tsx

open Tsx.Parser
open Markup (Attribute Literal OpeningTag TagName Tree)

/-! ## Names -/

/-- A word in a tag as it is written. Behind a hyphen it goes on with more hyphens and characters of
names. -/
def tagWord : Parser String := do
  let .word w escaped ← token | failure
  let lexeme := (← get).lexeme
  let written :=
    if escaped then String.ofList (lexeme.here.take (lexeme.here.length - lexeme.rest.length)) else w
  match lexeme.rest with
  | '-' :: _ =>
    let (more, rest) := lexeme.rest.span fun c => Text.isIdentifierPart c || c == '-'
    moveTo rest
    return written ++ String.ofList more
  | _ =>
    advance
    return written

def tagName : Parser TagName := do
  let first ← tagWord
  if ← eatSymbol ":" then
    return .namespaced first (← tagWord)
  else if ← atSymbol "." then
    let parts ← growing (fun parts => do
      if ← eatSymbol "." then
        let part ← tagWord
        require !(part.toList.contains '-')
        return some (parts ++ [part])
      else return none) [first]
    return .member parts
  else return .plain first

/-! ## Attributes -/

def Shape.literal? : Shape → Option Literal
  | .string s => some (.string s)
  | .number x => some (.number x)
  | .boolean b => some (.bool b)
  | _ => none

/-- A quoted attribute value, taken as written. -/
def rawString (cs : List Char) : Option (String × List Char) :=
  match cs with
  | quote :: rest =>
    if quote == '"' || quote == '\'' then
      let (value, rest) := rest.span (· != quote)
      match rest with
      | _ :: rest => some (String.ofList value, rest)
      | [] => none
    else none
  | [] => none

def Context.inBraces (c : Context) : Context := { awaits := c.awaits }

def bracedExpression (g : Grammar) : Parser Shape := do
  let shape ← inContext Context.inBraces (g .expression)
  require (← atSymbol "\x7d")
  return shape

/-- The value of an attribute after its `=`, as a literal if it is one. -/
def attributeValue (g : Grammar) : Parser (Option Literal) := do
  require (← atSymbol "=")
  let some (_, here) := skipTrivia .between false (← get).lexeme.rest | failure
  match rawString here with
  | some (value, rest) =>
    moveTo rest
    return some (.string value)
  | none =>
    advance
    match ← token with
    | .symbol "\x7b" =>
      advance
      let shape ← bracedExpression g
      advance
      return shape.literal?
    | .symbol "<" =>
      g (.markup false)
      return none
    | _ => failure

def tagAttribute (g : Grammar) : Parser Attribute := do
  if ← eatSymbol "\x7b" then
    symbol "..."
    let _ ← bracedExpression g
    advance
    return .spread
  let first ← tagWord
  let name ← if ← eatSymbol ":" then pure (first ++ ":" ++ (← tagWord)) else pure first
  if ← atSymbol "=" then
    match ← attributeValue g with
    | some value => return .literal name value
    | none => return .expression name
  else return .literal name (.bool true)

/-- The attributes of a tag, up to the `/` or `>` that ends it. -/
def tagAttributes (g : Grammar) : Parser (List Attribute) := do
  let found ← growing (fun (found : List Attribute) => do
    match ← token with
    | .symbol "/" | .symbol ">" => return none
    | _ => return some ((← tagAttribute g) :: found)) []
  return found.reverse

/-! ## Children -/

/-- An expression among children, with its braces. It may be empty, and it may be spread. The cursor
stops at the closing brace. -/
def childExpression (g : Grammar) : Parser Unit := do
  symbol "\x7b"
  let (_, parts) ← collect do
    if !(← atSymbol "\x7d") then
      let _ ← eatSymbol "..."
      let _ ← bracedExpression g
  if !parts.isEmpty then emit (.embedded parts)

def childText : Parser Unit := do
  let (text, rest) := (← get).lexeme.rest.span fun c => c != '<' && c != '\x7b'
  require (text.all fun c => c != '>' && c != '\x7d')
  if !text.isEmpty then emit (.text (String.ofList text))
  moveTo rest

/-- The expression or element behind a text among children; tells whether there is one, and no closing
tag. -/
def childNode (g : Grammar) : Parser Bool := do
  match ← token with
  | .symbol "\x7b" =>
    childExpression g
    return true
  | .symbol _ =>
    splitSymbol "<"
    if ← nextSymbol "/" then return false
    g (.markup true)
    return true
  | _ => failure

def children (g : Grammar) : Parser Unit :=
  repeatWhile do
    childText
    childNode g

def closingTag (name : Option TagName) : Parser Unit := do
  symbol "<"
  symbol "/"
  match name with
  | some expected =>
    let found ← tagName
    require (found == expected)
  | none => pure ()
  require (← atSymbol ">")

/-! ## Elements -/

/-- What is between the `<` and the end of an opening tag. The cursor stops at the `>`. -/
def openingTag (g : Grammar) (start : Nat) : Parser OpeningTag := do
  let name ← tagName
  plainTypeArguments g
  let attributes ← tagAttributes g
  let selfClosing ← eatSymbol "/"
  require (← atSymbol ">")
  let stop ← offsetOf (← get).lexeme.rest
  return { name, span := ⟨start, stop⟩, selfClosing, attributes }

/-- An element or fragment from its `<` on. The cursor stops at its last `>`. -/
def markupNode (g : Grammar) : Parser Unit := do
  let start ← offsetOf (← get).lexeme.here
  symbol "<"
  if ← atSymbol ">" then
    let (_, inside) ← collect (children g)
    closingTag none
    emit (.fragment inside)
  else
    let (tag, inAttributes) ← collect (openingTag g start)
    if tag.selfClosing then emit (.element tag inAttributes [])
    else
      let (_, inside) ← collect (children g)
      closingTag (some tag.name)
      emit (.element tag inAttributes inside)

/-- An element or fragment. Among children the text goes on right behind it, so the cursor stops at
its last `>`; elsewhere it moves on. -/
def markup (g : Grammar) (child : Bool) : Parser Unit := do
  markupNode g
  if !child then advance

end OriginTags.Tsx
