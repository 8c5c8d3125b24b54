import OriginTags.Tsx.Parser
/-!
# Modifiers

The words that stand before declarations, members and parameters, and the order that they keep.
-/

namespace OriginTags.Tsx

open Tsx.Parser

inductive Modifier
  | publicAccess
  | protectedAccess
  | privateAccess
  | abstract
  | accessor
  | async
  | const
  | declare
  | asDefault
  | exported
  /-- `in`, on a type parameter. -/
  | contravariant
  /-- `out`, on a type parameter. -/
  | covariant
  | override
  | readonly
  | static
deriving DecidableEq, Repr

namespace Modifier

def words : List (String × Modifier) :=
  [("public", .publicAccess), ("protected", .protectedAccess), ("private", .privateAccess),
   ("abstract", .abstract), ("accessor", .accessor), ("async", .async), ("const", .const),
   ("declare", .declare), ("default", .asDefault), ("export", .exported), ("in", .contravariant),
   ("out", .covariant), ("override", .override), ("readonly", .readonly), ("static", .static)]

def ofToken? : Token → Option Modifier
  | .word w _ => words.lookup w
  | _ => none

/-- The modifiers that tell who may use a member. -/
def accessLevels : List Modifier := [.publicAccess, .protectedAccess, .privateAccess]

def notBefore : Modifier → List Modifier
  | .publicAccess | .protectedAccess | .privateAccess =>
    accessLevels ++ [.override, .static, .accessor, .readonly, .async, .abstract]
  | .static => [.static, .readonly, .async, .accessor, .override]
  | .override => [.override, .readonly, .accessor, .async]
  | .abstract => [.abstract, .override]
  | .exported => [.exported, .declare, .abstract, .async]
  | modifier => [modifier]

def mayPrecede (t : Token) : Bool :=
  t.isPlainKey || t matches .privateName _ || t.isSymbolIn ["[", "\x7b", "*", "..."]

/-- Adds a modifier to those that stand before it, the last one first. -/
def add (modifier : Modifier) (found : List Modifier) : Parser (List Modifier) := do
  flawIf (found.any modifier.notBefore.contains)
  return modifier :: found

/-! ## Before members and parameters -/

/-- Whether the current word, a modifier, modifies the member or parameter that follows it. -/
def modifiesMember (modifier : Modifier) : Parser Bool :=
  nextIs fun t newline => mayPrecede t && (modifier == .static || !newline)

/-- The modifiers of a member or parameter. Where a class may have `blocks`, a `static` before a
brace opens one. The word `const` is a modifier only where it is `constants`. -/
def ofMember (constants blocks : Bool) : Parser (List Modifier) :=
  growing (fun found => do
    let some modifier := ofToken? (← token) | return none
    if modifier == .const && !constants then return none
    if modifier == .static && (found.contains .static || (blocks && (← nextSymbol "\x7b"))) then
      return none
    if !(← modifiesMember modifier) then return none
    advance
    return some (← add modifier found)) []

/-- Skips `get` or `set` if it opens an accessor. -/
def eatAccessor (w : String) : Parser Bool := do
  if (← atWord w) && (← nextIs fun t _ => mayPrecede t) then
    advance
    return true
  else return false

/-! ## Before declarations -/

/-- Whether a declaration that may be a default export begins at the current token. -/
def atDefaultDeclaration : Parser Bool := do
  match ← token with
  | .symbol "@" => return true
  | .word w _ =>
    if ["class", "function", "interface"].contains w then return true
    else if w == "abstract" then nextWordHere "class"
    else if w == "async" then nextWordHere "function"
    else return false
  | _ => return false

/-- Whether what follows the word `export` at the current token is a declaration. -/
def exportsDeclaration (t : Token) : Bool :=
  t == .symbol "@" || (mayPrecede t && !t.isSymbolIn ["*", "\x7b"] && !t.isWordOf "as")

/-- Whether the current word, a modifier, modifies the declaration that follows it. -/
def modifiesDeclaration (modifier : Modifier) : Parser Bool :=
  match modifier with
  | .const => nextWord "enum"
  | .exported => lookahead do
    advance
    if ← eatWord "default" then atDefaultDeclaration
    else
      let _ ← eatWord "type"
      return exportsDeclaration (← token)
  | .asDefault => lookahead do
    advance
    atDefaultDeclaration
  | .static | .accessor => nextIs fun t _ => mayPrecede t
  | _ => nextIs fun t newline => mayPrecede t && !newline

def ofDeclaration : Parser (List Modifier) :=
  growing (fun found => do
    let some modifier := ofToken? (← token) | return none
    if !(← modifiesDeclaration modifier) then return none
    advance
    return some (← add modifier found)) []

/-! ## Rules -/

def allow (allowed found : List Modifier) : Parser Unit :=
  flawIf (found.any fun m => !allowed.contains m)

def forbid (forbidden found : List Modifier) : Parser Unit :=
  flawIf (found.any forbidden.contains)

end Modifier

end OriginTags.Tsx
