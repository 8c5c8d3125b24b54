import OriginTags.Glob.Regex
import OriginTags.Log
import OriginTags.Trace
/-!
# Globs

A glob names paths: `*` and `?` stay within a segment, `**` spans segments, and braces hold
alternatives. It is turned into a regular expression once. A glob that is too long, has too many
wildcards or an open brace is rejected and matches nothing.
-/

namespace OriginTags.Glob

/-! ## Tokens -/

inductive Token
  /-- `**` before a slash, with the slash. -/
  | anyDirectories
  /-- `**` elsewhere. -/
  | anything
  /-- `*`. -/
  | anyName
  /-- `?`. -/
  | anyChar
  | openBrace
  | closeBrace
  /-- A comma in braces. -/
  | comma
  | literal (c : Char)
deriving DecidableEq, Repr

/-- The tokens of a run of stars that no slash follows. -/
def starTokens : Nat → List Token
  | 0 => []
  | 1 => [.anyName]
  | _ + 2 => [.anything]

/-- The token of a character inside `depth` braces. -/
def charToken (depth : Nat) (c : Char) : Token :=
  if c = '?' then .anyChar
  else if c = '\x7b' then .openBrace
  -- Outside of braces these two stand for themselves.
  else if c = '\x7d' && 0 < depth then .closeBrace
  else if c = ',' && 0 < depth then .comma
  else .literal c

/-- The number of open braces after a token. -/
def Token.depthAfter (depth : Nat) : Token → Nat
  | .openBrace => depth + 1
  | .closeBrace => depth - 1
  | _ => depth

/-- The tokens of a glob, after a run of `stars` stars and inside `depth` braces. -/
def tokens : List Char → (stars depth : Nat) → List Token
  | [], stars, _ => starTokens stars
  | c :: cs, stars, depth =>
    -- What a run of stars means is known only behind it.
    if c = '*' then tokens cs (stars + 1) depth
    else if c = '/' && 2 ≤ stars then .anyDirectories :: tokens cs 0 depth
    else
      let token := charToken depth c
      starTokens stars ++ token :: tokens cs 0 (token.depthAfter depth)

/-! ## Expressions -/

/-- The expression of a token that is no brace and no comma. -/
def Token.regex : Token → Regex
  | .anyDirectories => .optional (.group (.seq (.many .notNewline) (.char '/')))
  | .anything => .many .notNewline
  | .anyName => .many .notSlash
  | .anyChar => .one .notSlash
  | .literal c => .char c
  | .openBrace | .closeBrace | .comma => .empty

/-- What has been read of a list of alternatives: the complete ones and the current one. -/
structure Branches where
  complete : Option Regex
  current : Regex

namespace Branches

/-- Nothing read so far. -/
def start : Branches := ⟨none, .empty⟩

def push (b : Branches) (r : Regex) : Branches := { b with current := .seq b.current r }

def regex (b : Branches) : Regex :=
  match b.complete with
  | some r => .alt r b.current
  | none => b.current

/-- The current alternative is complete. -/
def next (b : Branches) : Branches := ⟨some b.regex, .empty⟩

end Branches

/-- Adds tokens to the innermost of some open braces; `outer` holds what is around it. Nothing if a
brace stays open. -/
def assemble : List Token → (outer : List Branches) → Branches → Option Regex
  | [], [], b => some b.regex
  | [], _ :: _, _ => none
  | .openBrace :: rest, outer, b => assemble rest (b :: outer) .start
  | .closeBrace :: rest, parent :: outer, b => assemble rest outer (parent.push (.group b.regex))
  | .closeBrace :: rest, [], b => assemble rest [] b
  | .comma :: rest, outer, b => assemble rest outer b.next
  | token :: rest, outer, b => assemble rest outer (b.push token.regex)

/-- A glob without one leading `./`. -/
def withoutDot (pattern : List Char) : List Char :=
  match pattern with
  | '.' :: '/' :: rest => rest
  | _ => pattern

/-- The expression of a glob, if its braces are closed. -/
def toRegex? (pattern : List Char) : Option Regex :=
  assemble (tokens (withoutDot pattern) 0 0) [] .start

/-! ## Limits -/

inductive Fault
  | tooLong
  | tooManyWildcards (count : Nat)
  | openBrace
deriving DecidableEq, Repr

def maxBytes : Nat := 200

def maxWildcards : Nat := 10

def Fault.reason : Fault → String
  | .tooLong => "longer than " ++ toString maxBytes ++ " characters"
  | .tooManyWildcards count =>
    toString count ++ " wildcards, at most " ++ toString maxWildcards ++ " allowed"
  | .openBrace => "unbalanced `\x7b`"

def Fault.message (pattern : String) (fault : Fault) : String :=
  "invalid glob pattern `" ++ pattern ++ "`: " ++ fault.reason

/-- The number of wildcards: a run of stars counts once, every question mark counts. -/
def countWildcards : List Char → (afterStar : Bool) → Nat
  | [], _ => 0
  | c :: cs, afterStar =>
    if c = '*' then (if afterStar then 0 else 1) + countWildcards cs true
    else if c = '?' then 1 + countWildcards cs false
    else countWildcards cs false

/-- The expression of a glob that keeps to the limits. -/
def compile (pattern : String) : Except Fault Regex :=
  let cs := pattern.toList
  let wildcards := countWildcards cs false
  if maxBytes < Text.byteSize cs then .error .tooLong
  else if maxWildcards < wildcards then .error (.tooManyWildcards wildcards)
  else
    match toRegex? cs with
    | some r => .ok r
    | none => .error .openBrace

/-! ## Patterns -/

/-- A glob with its expression, if it was not rejected. -/
structure Pattern where
  text : String
  matcher : Option Regex
deriving DecidableEq, Repr

/-- Whether a pattern matches a path. A rejected one matches none. -/
def Pattern.isMatch (p : Pattern) (path : String) : Bool :=
  match p.matcher with
  | some r => r.isMatch path.toList
  | none => false

/-- The pattern of a glob, with a warning if the glob is rejected. -/
def Pattern.ofText (text : String) : Traced Pattern :=
  match compile text with
  | .ok r => return ⟨text, some r⟩
  | .error fault => do
    warn [("pattern", text)] ("Ignoring path pattern: " ++ fault.message text)
    return ⟨text, none⟩

def compileAll : List String → Traced (List Pattern)
  | [] => return []
  | text :: texts => do
    let pattern ← Pattern.ofText text
    let patterns ← compileAll texts
    return pattern :: patterns

def anyMatch (patterns : List Pattern) (path : String) : Bool :=
  patterns.any fun p => p.isMatch path

/-- Whether a file passes the filters, given the spellings of its path. Some spelling must match an
included pattern, unless there is none, and no spelling may match an excluded one. -/
def shouldProcess (candidates : List String) (includes excludes : List Pattern) : Bool :=
  (includes.isEmpty || candidates.any (anyMatch includes)) && !candidates.any (anyMatch excludes)

end OriginTags.Glob
