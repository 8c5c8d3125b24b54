import OriginTags.Json.Basic
import OriginTags.Text.Bytes
import OriginTags.Text.Digit
/-!
# Reading JSON

A strict reader of JSON texts. Each reading function takes the characters from some place on and
gives what it read with the characters that follow, or nothing if the text is not as it should be.
-/

namespace OriginTags.Json

open Text (digitValue readUnit)

/-! ## Numbers -/

/-- Appends decimal digits to a number while it fits 64 bits, and counts the digits left over. -/
def absorbDigits : List Char → Nat → Nat × Nat
  | [], n => (n, 0)
  | c :: cs, n =>
    if n * 10 + digitValue c < Nat.pow 2 64 then absorbDigits cs (n * 10 + digitValue c)
    else (n, cs.length + 1)

def powerOfTen (n : Nat) : Binary64 := Binary64.ofNat (Nat.pow 10 n)

/-- Scales a double that is not negative by a power of ten, in steps of at most 308 decimal places
of which each one rounds. Nothing if the result would be infinite. -/
def scaleByTen : Nat → Binary64 → Int → Option Binary64
  | 0, x, _ => some x
  | steps + 1, x, exponent =>
    if 308 < exponent then if x.isZero then some x else none
    else if 0 ≤ exponent then
      let y := x.mul (powerOfTen exponent.toNat)
      if y.isInfinite then none else some y
    else if -308 ≤ exponent then some (x.div (powerOfTen (-exponent).toNat))
    else scaleByTen steps (x.div (powerOfTen 308)) (exponent + 308)

/-- The number `± significand * 10 ^ exponent` of a text with a fraction, with an exponent or with
more digits than fit 64 bits. -/
def scaledNumber? (negative : Bool) (significand : Nat) (exponent : Int) : Option Number :=
  (scaleByTen 8 (Binary64.ofNat significand) exponent).map fun x => .double (x.withSign negative)

def integerNumber (negative : Bool) (n : Nat) : Number :=
  if !negative then .int n
  -- No integer is a negative zero.
  else if n = 0 || Nat.pow 2 63 < n then .double ((Binary64.ofNat n).withSign true)
  else .int (-(n : Int))

def spanDigits (cs : List Char) : List Char × List Char := cs.span Char.isDigit

def readExponent (cs : List Char) : Option (Int × List Char) :=
  let (negative, cs) : Bool × List Char :=
    match cs with
    | '+' :: rest => (false, rest)
    | '-' :: rest => (true, rest)
    | _ => (false, cs)
  match spanDigits cs with
  | ([], _) => none
  | (digits, rest) =>
    let n : Int := (digits.foldl (fun n c => n * 10 + digitValue c) 0 : Nat)
    some (if negative then -n else n, rest)

def readUnsigned (negative : Bool) (cs : List Char) : Option (Number × List Char) :=
  match spanDigits cs with
  | ([], _) => none
  | ('0' :: _ :: _, _) => none
  | (digits, rest) => do
    -- Digits that do not fit any more only move the point.
    let (significand, dropped) := absorbDigits digits 0
    let (significand, exponent, hasFraction, rest) ←
      match rest with
      | '.' :: rest =>
        match spanDigits rest with
        | ([], _) => none
        | (fraction, rest) =>
          let (s, unread) := absorbDigits fraction significand
          some (s, (dropped : Int) - (fraction.length : Int) + (unread : Int), true, rest)
      | _ => some (significand, (dropped : Int), false, rest)
    match rest with
    | 'e' :: rest | 'E' :: rest =>
      let (power, rest) ← readExponent rest
      let n ← scaledNumber? negative significand (exponent + power)
      return (n, rest)
    | _ =>
      if hasFraction || 0 < dropped then
        let n ← scaledNumber? negative significand exponent
        return (n, rest)
      else return (integerNumber negative significand, rest)

def readNumber (cs : List Char) : Option (Number × List Char) :=
  match cs with
  | '-' :: rest => readUnsigned true rest
  | _ => readUnsigned false cs

/-! ## Strings -/

/-- The character of an escape by number, whose `\u` has been read. A character above `U+FFFF` is
written as a pair of surrogates. -/
def readUnicodeEscape (cs : List Char) : Option (Char × List Char) := do
  let (unit, rest) ← readUnit cs
  -- A low surrogate comes second, never first.
  if 0xDC00 ≤ unit && unit ≤ 0xDFFF then none
  else if 0xD800 ≤ unit && unit ≤ 0xDBFF then
    match rest with
    | '\\' :: 'u' :: rest => do
      let (low, rest) ← readUnit rest
      if 0xDC00 ≤ low && low ≤ 0xDFFF then
        return (Char.ofNat (0x10000 + (unit - 0xD800) * 0x400 + (low - 0xDC00)), rest)
      else none
    | _ => none
  else return (Char.ofNat unit, rest)

/-- The character of an escape, whose backslash has been read. -/
def readEscape : List Char → Option (Char × List Char)
  | '"' :: rest => some ('"', rest)
  | '\\' :: rest => some ('\\', rest)
  | '/' :: rest => some ('/', rest)
  | 'b' :: rest => some ('\x08', rest)
  | 'f' :: rest => some ('\x0c', rest)
  | 'n' :: rest => some ('\n', rest)
  | 'r' :: rest => some ('\r', rest)
  | 't' :: rest => some ('\t', rest)
  | 'u' :: rest => readUnicodeEscape rest
  | _ => none

/-- The characters of a string up to its closing quote. Every step reads a character, so the length
of the text bounds the number of steps. -/
def readString : Nat → List Char → Option (List Char × List Char)
  | 0, _ => none
  | _ + 1, [] => none
  | steps + 1, c :: cs =>
    if c = '"' then some ([], cs)
    else if c = '\\' then do
      let (e, rest) ← readEscape cs
      let (s, rest) ← readString steps rest
      return (e :: s, rest)
    else if c.toNat < 0x20 then none
    else do
      let (s, rest) ← readString steps cs
      return (c :: s, rest)

/-! ## Values -/

/-- A text without the JSON blanks at its front. -/
def skipBlanks (cs : List Char) : List Char :=
  cs.dropWhile fun c => c == ' ' || c == '\n' || c == '\t' || c == '\r'

def readWord (word : String) (value : Json) (cs : List Char) : Option (Json × List Char) :=
  (Text.stripLead? word.toList cs).map fun rest => (value, rest)

mutual

/-- A value. Containers nest at most `depth` deep; `fuel` bounds the number of steps. -/
def readValue : (fuel depth : Nat) → List Char → Option (Json × List Char)
  | 0, _, _ => none
  | fuel + 1, depth, cs =>
    match skipBlanks cs with
    | '"' :: rest => do
      let (s, rest) ← readString (rest.length + 1) rest
      return (.string (String.ofList s), rest)
    | '[' :: rest =>
      match depth with
      | 0 => none
      | depth + 1 =>
        match skipBlanks rest with
        | ']' :: rest => some (.array [], rest)
        | rest => do
          let (items, rest) ← readItems fuel depth rest
          return (.array items, rest)
    | '\x7b' :: rest =>
      match depth with
      | 0 => none
      | depth + 1 =>
        match skipBlanks rest with
        | '\x7d' :: rest => some (.object [], rest)
        | rest => do
          let (members, rest) ← readMembers fuel depth rest
          return (.object members, rest)
    | 't' :: rest => readWord "rue" (.bool true) rest
    | 'f' :: rest => readWord "alse" (.bool false) rest
    | 'n' :: rest => readWord "ull" .null rest
    | rest => do
      let (n, rest) ← readNumber rest
      return (.number n, rest)

/-- One or more items up to the closing bracket. -/
def readItems : (fuel depth : Nat) → List Char → Option (List Json × List Char)
  | 0, _, _ => none
  | fuel + 1, depth, cs => do
    let (item, rest) ← readValue fuel depth cs
    match skipBlanks rest with
    | ']' :: rest => return ([item], rest)
    | ',' :: rest =>
      let (items, rest) ← readItems fuel depth rest
      return (item :: items, rest)
    | _ => none

/-- One or more members up to the closing brace. -/
def readMembers : (fuel depth : Nat) → List Char → Option (List (String × Json) × List Char)
  | 0, _, _ => none
  | fuel + 1, depth, cs => do
    let '"' :: rest := skipBlanks cs | none
    let (key, rest) ← readString (rest.length + 1) rest
    let ':' :: rest := skipBlanks rest | none
    let (value, rest) ← readValue fuel depth rest
    match skipBlanks rest with
    | '\x7d' :: rest => return ([(String.ofList key, value)], rest)
    | ',' :: rest =>
      let (members, rest) ← readMembers fuel depth rest
      return ((String.ofList key, value) :: members, rest)
    | _ => none

end

/-- How deep the containers of a text may nest. -/
def depthLimit : Nat := 127

/-- The value of a JSON text, with the members of its objects as written. -/
def parse? (text : String) : Option Json := do
  let cs := text.toList
  let (value, rest) ← readValue (2 * cs.length + 2) depthLimit cs
  if (skipBlanks rest).isEmpty then return value else none

end OriginTags.Json
