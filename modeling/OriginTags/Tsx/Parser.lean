import OriginTags.Markup.Tree
import OriginTags.Tsx.Scanner
/-!
# Parsers

A parser moves a cursor over the tokens of a source and either succeeds or fails. The cursor holds
the text from the current token on, so that a parser that gives up leaves nothing behind, and the
markup that was met on the way. A source may also be read to its end and yet be flawed: the cursor
remembers that a rule was broken where this does not change how the rest is read. Only what is known
about the places of a source outlives a parser that fails.
-/

namespace OriginTags.Tsx

open Markup (Tree)

/-! ## Cursors -/

/-- What the surroundings of a construct permit in it. -/
structure Context where
  /-- `in` is an operator. -/
  inOperator : Bool := true
  /-- `yield` is an operator. -/
  yields : Bool := false
  /-- `await` is an operator. -/
  awaits : Bool := true
  /-- `return` is a statement. -/
  returns : Bool := false
  /-- Declarations need no values. -/
  ambient : Bool := false
  /-- The expression of a decorator, which ends before a `[`. -/
  decorator : Bool := false
  /-- A type may go on with `extends`. -/
  conditionalTypes : Bool := true

structure Cursor where
  lexeme : Lexeme
  context : Context := {}
  /-- The markup met so far, last first. -/
  markup : List Tree := []
  /-- Whether a rule was broken on the way. -/
  flawed : Bool := false
  /-- The number of short properties with default values, as in `{a = 1}`, that are in no pattern
  yet. -/
  unsettled : Nat := 0
  /-- More than the number of characters of the source, a bound for every loop. -/
  limit : Nat
  /-- The number of bytes of the source. -/
  size : Nat

/-- What is known about the places of a source, each given by the number of characters from it to
the end: where no arrow function with parentheses begins. -/
abbrev Known := List Nat

abbrev Parser := StateT Cursor (OptionT (StateM Known))

namespace Parser

/-- The result of a parser from a place on, where nothing is known yet. -/
def runFrom {α : Type} (p : Parser α) (start : Cursor) : Option (α × Cursor) := (p start []).1

def token : Parser Token := return (← get).lexeme.token

def newlineBefore : Parser Bool := return (← get).lexeme.newline

def context : Parser Context := return (← get).context

def moveTo (cs : List Char) : Parser Unit :=
  modify fun c => { c with lexeme := scan c.limit cs }

/-- Moves to the next token from a name, which may have any spelling. -/
def passName : Parser Unit := do moveTo (← get).lexeme.rest

/-- The byte offset of a text that the source ends with. -/
def offsetOf (cs : List Char) : Parser Nat := return (← get).size - Text.byteSize cs

def require (condition : Bool) : Parser Unit :=
  if condition then pure () else failure

/-- Goes on, but with a flaw if a rule is broken. -/
def flawIf (broken : Bool) : Parser Unit :=
  if broken then modify fun c => { c with flawed := true } else pure ()

/-- Moves to the next token. A word that stands for itself is written without escapes. -/
def advance : Parser Unit := do
  match ← token with
  | .word name true => flawIf (isKeyword name)
  | _ => pure ()
  passName

/-! ## Trying -/

/-- Runs a parser and goes back if it fails. -/
def attempt {α : Type} (p : Parser α) : Parser (Option α) := fun c known =>
  match p c known with
  | (some (a, c), known) => (some (some a, c), known)
  | (none, known) => (some (none, c), known)

/-- The answer of a parser, without moving. A failure counts as another answer. -/
def answerOf {α : Type} (p : Parser α) (otherwise : α) : Parser α := fun c known =>
  match p c known with
  | (some (answer, _), known) => (some (answer, c), known)
  | (none, known) => (some (otherwise, c), known)

/-- The answer of a parser, without moving. A failure counts as a no. -/
def lookahead (p : Parser Bool) : Parser Bool := answerOf p false

/-- Whether the token after the current one has a property. -/
def nextIs (property : Token → (newline : Bool) → Bool) : Parser Bool :=
  lookahead do
    passName
    return property (← token) (← newlineBefore)

def inContext {α : Type} (change : Context → Context) (p : Parser α) : Parser α := do
  let outer ← context
  modify fun c => { c with context := change outer }
  let a ← p
  modify fun c => { c with context := outer }
  return a

/-- Runs a parser and sets the markup that it meets apart. -/
def collect {α : Type} (p : Parser α) : Parser (α × List Tree) := do
  let outer := (← get).markup
  modify fun c => { c with markup := [] }
  let a ← p
  let inner := (← get).markup
  modify fun c => { c with markup := outer }
  return (a, inner.reverse)

def emit (tree : Tree) : Parser Unit :=
  modify fun c => { c with markup := tree :: c.markup }

/-- The current place: the number of characters from the current token to the end. -/
def place : Parser Nat := return (← get).lexeme.here.length

def isKnownPlace (place : Nat) : Parser Bool := return (← getThe Known).contains place

/-- Notes that no arrow function with parentheses begins at a place. -/
def notePlace (place : Nat) : Parser Unit := modifyThe Known (place :: ·)

/-! ## Tokens -/

def atSymbol (text : String) : Parser Bool :=
  return (← token) == .symbol text

def atWord (name : String) : Parser Bool :=
  return (← token).isWordOf name

def eatSymbol (text : String) : Parser Bool := do
  if ← atSymbol text then
    advance
    return true
  else return false

def eatWord (name : String) : Parser Bool := do
  if ← atWord name then
    advance
    return true
  else return false

def symbol (text : String) : Parser Unit := do require (← eatSymbol text)

def word (name : String) : Parser Unit := do require (← eatWord name)

def nextSymbol (text : String) : Parser Bool := nextIs fun t _ => t == .symbol text

def nextWord (name : String) : Parser Bool := nextIs fun t _ => t.isWordOf name

def nextWordHere (name : String) : Parser Bool := nextIs fun t newline => t.isWordOf name && !newline

/-- The part of a symbol that comes first, as a token of its own. Type arguments may begin with the
first character of a longer symbol. -/
def splitSymbol (first : String) : Parser Unit := do
  let here := (← get).lexeme.here
  match Text.stripLead? first.toList here with
  | some rest =>
    modify fun c => { c with lexeme := { c.lexeme with token := .symbol first, rest := rest } }
  | none => failure

/-! ## Repetition -/

/-- Runs a parser until it says no, at most `fuel` times. -/
def loop : (fuel : Nat) → Parser Bool → Parser Unit
  | 0, _ => failure
  | fuel + 1, p => do
    if ← p then loop fuel p else pure ()

/-- Runs a parser until it says no. -/
def repeatWhile (p : Parser Bool) : Parser Unit := do loop (← get).limit p

/-- Runs a parser on a value until it gives no new one, at most `fuel` times. -/
def iterate {α : Type} : (fuel : Nat) → (α → Parser (Option α)) → α → Parser α
  | 0, _, _ => failure
  | fuel + 1, step, a => do
    match ← step a with
    | some a => iterate fuel step a
    | none => pure a

/-- Runs a parser on a value until it gives no new one. -/
def growing {α : Type} (step : α → Parser (Option α)) (a : α) : Parser α := do
  iterate (← get).limit step a

/-- A value grown by items with commas between and perhaps after them. The cursor stops at the
closing symbol. -/
def commaFold {α : Type} (close : String) (item : α → Parser α) : α → Parser α :=
  growing fun a => do
    if ← atSymbol close then return none
    let a ← item a
    if !(← atSymbol close) then symbol ","
    return some a

/-- Items with commas between and perhaps after them, with the closing symbol. -/
def commaList (close : String) (item : Parser Unit) : Parser Unit := do
  commaFold close (fun _ => item) ()
  symbol close

def separatedBy (separator : String) (item : Parser Unit) : Parser Unit := do
  item
  repeatWhile do
    if ← eatSymbol separator then
      item
      return true
    else return false

/-- Whether a statement may end before the current token. -/
def canEndStatement : Parser Bool := do
  match ← token with
  | .endOfInput | .symbol ";" | .symbol "\x7d" => return true
  | _ => newlineBefore

/-- The end of a statement: a semicolon, or a place where one may be left out. -/
def endOfStatement : Parser Unit := do
  if !(← eatSymbol ";") then require (← canEndStatement)

/-! ## Names -/

/-- Whether the current token may name a variable that is introduced. -/
def atBindingName : Parser Bool := return (← token).isBindingName

/-- The name of a variable. A word that is an operator here is no name. -/
def name : Parser String := do
  match ← token with
  | .word w _ =>
    require (isBindable w)
    let context ← context
    flawIf ((w == "await" && context.awaits) || (w == "yield" && context.yields))
    passName
    return w
  | _ => failure

def anyWord : Parser String := do
  match ← token with
  | .word w _ =>
    passName
    return w
  | _ => failure

def stringLiteral : Parser String := do
  match ← token with
  | .string value _ =>
    advance
    return value
  | _ => failure

end Parser

end OriginTags.Tsx
