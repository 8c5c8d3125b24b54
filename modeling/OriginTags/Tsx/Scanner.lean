import OriginTags.Tsx.Literal
/-!
# Scanning

Reads the token at the front of a text, after the blanks and comments before it.
-/

namespace OriginTags.Tsx

/-! ## Blanks and comments -/

/-- Where a walk over blanks and comments stands. -/
inductive Trivia
  | between
  | lineComment
  | blockComment

/-- The characters after the blanks and comments at the front of a text, and whether a line ended
among them. Nothing if a comment does not end. -/
def skipTrivia : Trivia → (newline : Bool) → List Char → Option (Bool × List Char)
  | .between, newline, [] => some (newline, [])
  | .between, newline, '/' :: '/' :: cs => skipTrivia .lineComment newline cs
  | .between, newline, '/' :: '*' :: cs => skipTrivia .blockComment newline cs
  | .between, newline, c :: cs =>
    if isLineEnd c then skipTrivia .between true cs
    else if isSpace c then skipTrivia .between newline cs
    else some (newline, c :: cs)
  | .lineComment, newline, [] => some (newline, [])
  | .lineComment, newline, c :: cs =>
    if isLineEnd c then skipTrivia .between true cs else skipTrivia .lineComment newline cs
  | .blockComment, _, [] => none
  | .blockComment, newline, '*' :: '/' :: cs => skipTrivia .between newline cs
  | .blockComment, newline, c :: cs => skipTrivia .blockComment (newline || isLineEnd c) cs

def skipHashbang : List Char → List Char
  | '#' :: '!' :: cs => cs.dropWhile fun c => !isLineEnd c
  | cs => cs

/-! ## Words -/

/-- The characters of a name with escapes; `steps` bounds their number. -/
def readEscapedName : Nat → List Char → Option (List Char × List Char)
  | 0, _ => none
  | _ + 1, [] => some ([], [])
  | steps + 1, c :: cs =>
    if c = '\\' then
      match cs with
      | 'u' :: rest => do
        let (n, _, rest) ← readCodePoint rest
        let (name, rest) ← readEscapedName steps rest
        return (Char.ofNat n :: name, rest)
      | _ => none
    else if Text.isIdentifierPart c then do
      let (name, rest) ← readEscapedName steps cs
      return (c :: name, rest)
    else some ([], c :: cs)

def isName : List Char → Bool
  | [] => false
  | c :: cs => Text.isIdentifierStart c && cs.all Text.isIdentifierPart

/-- A name and whether it is written with an escape. -/
def readName (steps : Nat) (cs : List Char) : Option (String × Bool × List Char) :=
  -- Most names have no escape and are read in one go.
  let (plain, rest) := cs.span Text.isIdentifierPart
  match rest with
  | '\\' :: _ => do
    let (name, rest) ← readEscapedName steps cs
    if isName name then return (String.ofList name, true, rest) else none
  | _ => if isName plain then some (String.ofList plain, false, rest) else none

/-! ## Tokens -/

/-- The symbols with their spellings, longer ones before their own beginnings. -/
def spellings : List (List Char × Token) := symbols.map fun s => (s.toList, .symbol s)

/-- The longest symbol at the front of a text. A `?` before a point and a digit stands alone. -/
def readSymbol (cs : List Char) : Option (Token × List Char) :=
  match cs with
  | '?' :: '.' :: d :: rest =>
    if d.isDigit then some (.symbol "?", '.' :: d :: rest) else some (.symbol "?.", d :: rest)
  | _ => spellings.findSome? fun (spelling, token) =>
    (Text.stripLead? spelling cs).map fun rest => (token, rest)

/-- The token at the front of a text that begins with no blank or comment. -/
def readToken (steps : Nat) (cs : List Char) : Option (Token × List Char) :=
  match cs with
  | [] => some (.endOfInput, [])
  | c :: rest =>
    if Text.isIdentifierStart c || c == '\\' then
      (readName steps cs).map fun (name, escaped, rest) => (.word name escaped, rest)
    else if c.isDigit then readNumber cs
    else if c == '"' || c == '\'' then readStringLiteral c steps rest
    else if c.toNat == 0x60 then readTemplate rest true
    else if c == '#' then
      (readName steps rest).map fun (name, _, rest) => (.privateName name, rest)
    -- A point begins a number only right before a digit.
    else if c == '.' && (rest.head?.any Char.isDigit) then readNumber cs
    else readSymbol cs

/-- A token with its surroundings: the text from its first character on, the text after it, and
whether a line ended before it. -/
structure Lexeme where
  token : Token
  newline : Bool
  here : List Char
  rest : List Char

/-- The first token of a text. -/
def scan (steps : Nat) (cs : List Char) : Lexeme :=
  match skipTrivia .between false cs with
  | none => ⟨.unreadable, false, cs, cs⟩
  | some (newline, here) =>
    match readToken steps here with
    | none => ⟨.unreadable, newline, here, here⟩
    | some (token, rest) => ⟨token, newline, here, rest⟩

end OriginTags.Tsx
