import OriginTags.Tsx.Token
import OriginTags.Text.Bytes
import OriginTags.Text.Digit
/-!
# Literals

Numbers, strings, templates and regular expressions. A reader takes the characters from the place
where the literal, or what is left of it, begins.
-/

namespace OriginTags.Tsx

open Text (hexValue? digitValue hexDigit readUnit)

/-! ## Numbers -/

/-- Digits with single underscores between them, as they are written. -/
def readWrittenDigits (isDigit : Char → Bool) (cs : List Char) : Option (List Char × List Char) :=
  let (written, rest) := cs.span fun c => isDigit c || c == '_'
  let separated := Text.occursIn ['_', '_'] written || written.head? == some '_' ||
    written.getLast? == some '_'
  if written.isEmpty || separated then none else some (written, rest)

def readDigits (isDigit : Char → Bool) (cs : List Char) : Option (List Char × List Char) :=
  (readWrittenDigits isDigit cs).map fun (written, rest) => (written.filter (· != '_'), rest)

def digitsValue (radix : Nat) (digits : List Char) : Nat :=
  digits.foldl (fun n c => n * radix + (hexValue? c).getD 0) 0

/-- The double of an integer literal in a radix that is a power of two. Up to `limit` characters,
underscores among them, it is the nearest one; a longer literal is rounded after each digit. -/
def integerValue (radix limit : Nat) (written : List Char) : Binary64 :=
  let digits := written.filter (· != '_')
  if written.length ≤ limit then Binary64.ofNat (digitsValue radix digits)
  else digits.foldl (fun x c => x.scaleAdd radix ((hexValue? c).getD 0)) (Binary64.zero false)

def readPower (cs : List Char) : Option (Option Int × List Char) :=
  match cs with
  | 'e' :: rest | 'E' :: rest =>
    let (negative, rest) : Bool × List Char :=
      match rest with
      | '+' :: rest => (false, rest)
      | '-' :: rest => (true, rest)
      | _ => (false, rest)
    match readDigits Char.isDigit rest with
    | none => none
    | some (digits, rest) =>
      let n : Int := (digitsValue 10 digits : Nat)
      some (some (if negative then -n else n), rest)
  | _ => some (none, cs)

def readFraction (digits cs : List Char) : Option (Token × List Char) := do
  let (fraction, hasPoint, rest) ←
    match cs with
    | '.' :: rest =>
      match rest with
      | c :: _ =>
        if c.isDigit then do
          let (fraction, rest) ← readDigits Char.isDigit rest
          some (fraction, true, rest)
        else if c == '_' then none
        else some ([], true, rest)
      | [] => some ([], true, rest)
    | _ => some ([], false, cs)
  let (power, rest) ← readPower rest
  if !hasPoint && power.isNone then return (.number (Binary64.ofNat (digitsValue 10 digits)), rest)
  else
    let exponent := power.getD 0 - (fraction.length : Int)
    return (.number (Binary64.ofDecimal false (digitsValue 10 (digits ++ fraction)) exponent), rest)

/-- An integer literal in a radix, after its two leading characters. -/
def readRadix (radix limit : Nat) (cs : List Char) : Option (Token × List Char) := do
  let isDigit := fun c => match hexValue? c with
    | some n => decide (n < radix)
    | none => false
  let (written, rest) ← readWrittenDigits isDigit cs
  match rest with
  | 'n' :: rest => return (.bigint, rest)
  | _ => return (.number (integerValue radix limit written), rest)

/-- A number that begins with a digit or with a point and a digit. -/
def readNumeral (cs : List Char) : Option (Token × List Char) :=
  match cs with
  | '0' :: 'x' :: rest | '0' :: 'X' :: rest => readRadix 16 16 rest
  | '0' :: 'o' :: rest | '0' :: 'O' :: rest => readRadix 8 21 rest
  | '0' :: 'b' :: rest | '0' :: 'B' :: rest => readRadix 2 64 rest
  | '0' :: d :: rest =>
    if d.isDigit then
      let (digits, after) := rest.span Char.isDigit
      let digits := d :: digits
      if digits.all fun c => c.toNat < 0x38 then
        some (.number (integerValue 8 21 digits), after)
      else readFraction digits after
    else if d == '_' then none
    else if d == 'n' then some (.bigint, rest)
    else readFraction ['0'] (d :: rest)
  | '.' :: _ => readFraction [] cs
  | _ => do
    let (digits, rest) ← readDigits Char.isDigit cs
    match rest with
    | 'n' :: rest => return (.bigint, rest)
    | _ => readFraction digits rest

/-- A number. No name or digit may follow it directly. -/
def readNumber (cs : List Char) : Option (Token × List Char) := do
  let (token, rest) ← readNumeral cs
  match rest with
  | c :: _ => if Text.isIdentifierStart c || c.isDigit || c == '\\' then none else return (token, rest)
  | [] => return (token, rest)

/-! ## Escapes -/

/-- The number of a `\u` escape, whose `\u` has been read, and whether it is in braces. -/
def readCodePoint (cs : List Char) : Option (Nat × Bool × List Char) :=
  match cs with
  | '\x7b' :: rest =>
    let (digits, rest) := rest.span fun c => (hexValue? c).isSome
    match rest with
    | '\x7d' :: rest =>
      let n := digitsValue 16 digits
      if digits.isEmpty || 0x10FFFF < n then none else some (n, true, rest)
    | _ => none
  | _ => (readUnit cs).map fun (n, rest) => (n, false, rest)

/-- Up to `count` octal digits. -/
def takeOctal : Nat → List Char → Nat → Nat × List Char
  | 0, cs, n => (n, cs)
  | _ + 1, [], n => (n, [])
  | count + 1, c :: cs, n =>
    if 0x30 ≤ c.toNat && c.toNat < 0x38 then takeOctal count cs (n * 8 + digitValue c)
    else (n, c :: cs)

/-- The code points of an escape in a string, whose backslash has been read. -/
def readEscape (cs : List Char) : Option (List Nat × List Char) :=
  match cs with
  | [] => none
  | '\r' :: '\n' :: rest => some ([], rest)
  | 'n' :: rest => some ([0xA], rest)
  | 't' :: rest => some ([9], rest)
  | 'r' :: rest => some ([0xD], rest)
  | 'b' :: rest => some ([8], rest)
  | 'v' :: rest => some ([0xB], rest)
  | 'f' :: rest => some ([0xC], rest)
  | 'x' :: a :: b :: rest => do
    let a ← hexValue? a
    let b ← hexValue? b
    return ([a * 16 + b], rest)
  | 'x' :: _ => none
  | 'u' :: rest =>
    match readCodePoint rest with
    | none => none
    | some (n, braced, rest) =>
      if !braced && 0xD800 ≤ n && n ≤ 0xDBFF then
        match rest with
        | '\\' :: 'u' :: more =>
          match readCodePoint more with
          | some (low, false, after) =>
            if 0xDC00 ≤ low && low ≤ 0xDFFF then
              some ([0x10000 + (n - 0xD800) * 0x400 + (low - 0xDC00)], after)
            else some ([n], rest)
          | _ => some ([n], rest)
        | _ => some ([n], rest)
      else some ([n], rest)
  | c :: rest =>
    if isLineEnd c then some ([], rest)
    else if 0x30 ≤ c.toNat && c.toNat < 0x34 then
      let (n, rest) := takeOctal 2 rest (digitValue c)
      some ([n], rest)
    else if 0x34 ≤ c.toNat && c.toNat < 0x38 then
      let (n, rest) := takeOctal 1 rest (digitValue c)
      some ([n], rest)
    else some ([c.toNat], rest)

/-! ## Strings -/

def isSurrogate (n : Nat) : Bool := 0xD800 ≤ n && n ≤ 0xDFFF

def fourHexDigits (n : Nat) : List Char :=
  [hexDigit (n / 4096 % 16), hexDigit (n / 256 % 16), hexDigit (n / 16 % 16), hexDigit (n % 16)]

/-- The characters of some code points. A lone surrogate becomes `U+FFFD` and its four digits; where
there is one, a written `U+FFFD` gets its digits too. -/
def charsOfCodePoints (points : List Nat) : List Char :=
  if points.any isSurrogate then
    points.flatMap fun n =>
      if isSurrogate n || n == 0xFFFD then Char.ofNat 0xFFFD :: fourHexDigits n else [Char.ofNat n]
  else points.map Char.ofNat

/-- The code points of a string up to its closing quote; `steps` bounds their number. -/
def readStringPoints (quote : Char) : Nat → List Char → Option (List Nat × List Char)
  | 0, _ => none
  | _ + 1, [] => none
  | steps + 1, c :: cs =>
    if c = quote then some ([], cs)
    else if c = '\\' then do
      let (points, rest) ← readEscape cs
      let (more, rest) ← readStringPoints quote steps rest
      return (points ++ more, rest)
    else if c = '\n' || c = '\r' then none
    else do
      let (more, rest) ← readStringPoints quote steps cs
      return (c.toNat :: more, rest)

def readStringLiteral (quote : Char) (steps : Nat) (cs : List Char) : Option (Token × List Char) := do
  let (points, rest) ← readStringPoints quote steps cs
  return (.string (String.ofList (charsOfCodePoints points)) (points.any isSurrogate), rest)

/-! ## Templates -/

/-- Whether an escape, whose backslash has been read, may stand in a template that is a string. -/
def isTemplateEscape (cs : List Char) : Bool :=
  match cs with
  | '0' :: c :: _ => !c.isDigit
  | 'x' :: _ | 'u' :: _ => (readEscape cs).isSome
  | c :: _ => c == '0' || !c.isDigit
  | [] => false

/-- A piece of a template, up to a substitution or the end. -/
def readTemplate : List Char → (valid : Bool) → Option (Token × List Char)
  | [], _ => none
  | '\\' :: c :: cs, valid => readTemplate cs (valid && isTemplateEscape (c :: cs))
  | '$' :: '\x7b' :: cs, valid => some (.template false valid, cs)
  | c :: cs, valid => if c.toNat = 0x60 then some (.template true valid, cs) else readTemplate cs valid

/-! ## Regular expressions -/

/-- The rest of a regular expression after its first slash, up to the slash that ends it. -/
def readPattern : List Char → (inClass : Bool) → Option (List Char)
  | [], _ => none
  | '\\' :: c :: cs, inClass => if isLineEnd c then none else readPattern cs inClass
  | c :: cs, inClass =>
    if isLineEnd c then none
    else if c = '/' && !inClass then some cs
    else readPattern cs (if c = '[' then true else if c = ']' then false else inClass)

def areFlags (flags : List Char) : Bool :=
  flags.all (fun c => ['d', 'g', 'i', 'm', 's', 'u', 'v', 'y'].contains c) &&
  flags.eraseDups.length == flags.length && !(flags.contains 'u' && flags.contains 'v')

/-- The characters after a regular expression whose first slash has been read. -/
def readRegularExpression (cs : List Char) : Option (List Char) := do
  let rest ← readPattern cs false
  let (flags, rest) := rest.span Text.isIdentifierPart
  if areFlags flags then return rest else none

end OriginTags.Tsx
