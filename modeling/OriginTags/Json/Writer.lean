import OriginTags.Json.Basic
import OriginTags.Decimal.Shortest
import OriginTags.Text.Digit
/-!
# JSON text

The compact text of a value has no blanks, and its strings escape only what JSON requires. The
indented text puts every item and member on a line of its own.
-/

namespace OriginTags.Json

open Text (hexDigit)

/-! ## Numbers -/

def natText (n : Nat) : List Char := Nat.toDigits 10 n

def intText : Int → List Char
  | .ofNat n => natText n
  | .negSucc n => '-' :: natText (n + 1)

/-- The positional text of a decimal, which always has a fraction. -/
def positionalText (digits : List Char) (exponent : Int) : List Char :=
  let point := (digits.length : Int) + exponent
  if 0 ≤ exponent then digits ++ List.replicate exponent.toNat '0' ++ ['.', '0']
  else if 0 < point then digits.take point.toNat ++ '.' :: digits.drop point.toNat
  else '0' :: '.' :: (List.replicate (-point).toNat '0' ++ digits)

/-- The text of a decimal with one digit before the point and a signed exponent. -/
def scientificText (digits : List Char) (lead : Int) : List Char :=
  let fraction := if digits.length ≤ 1 then [] else '.' :: digits.drop 1
  let power := if 0 ≤ lead then '+' :: natText lead.toNat else '-' :: natText (-lead).toNat
  digits.take 1 ++ fraction ++ 'e' :: power

/-- The text of a decimal: positional from `1e-5` up to but not including `1e16`. -/
def decimalText (d : Decimal) : List Char :=
  let digits := natText d.digits
  let lead := (digits.length : Int) + d.exponent - 1
  if -5 ≤ lead && lead < 16 then positionalText digits d.exponent else scientificText digits lead

/-- The text of a double, in the fewest digits that read back. -/
def doubleText : Binary64 → List Char
  | .finite negative significand exponent =>
    let magnitude :=
      if significand = 0 then ['0', '.', '0'] else decimalText (Decimal.shortest significand exponent)
    if negative then '-' :: magnitude else magnitude
  | _ => ['n', 'u', 'l', 'l']

def Number.text : Number → List Char
  | .int n => intText n
  | .double x => doubleText x

/-! ## Strings -/

/-- A character inside a string: quotes, backslashes and control characters are escaped. -/
def escapeChar (c : Char) : List Char :=
  if c = '"' then ['\\', '"']
  else if c = '\\' then ['\\', '\\']
  else if 0x20 ≤ c.toNat then [c]
  else if c = '\n' then ['\\', 'n']
  else if c = '\t' then ['\\', 't']
  else if c = '\r' then ['\\', 'r']
  else if c.toNat = 8 then ['\\', 'b']
  else if c.toNat = 12 then ['\\', 'f']
  else ['\\', 'u', '0', '0', hexDigit (c.toNat / 16), hexDigit (c.toNat % 16)]

def quote (cs : List Char) : List Char :=
  '"' :: (cs.flatMap escapeChar ++ ['"'])

/-! ## Values -/

mutual

/-- The compact text of a value. -/
def write : Json → List Char
  | .null => ['n', 'u', 'l', 'l']
  | .bool true => ['t', 'r', 'u', 'e']
  | .bool false => ['f', 'a', 'l', 's', 'e']
  | .number n => n.text
  | .string s => quote s.toList
  | .array items => '[' :: (writeItems items ++ [']'])
  | .object members => '\x7b' :: (writeMembers members ++ ['\x7d'])

def writeItems : List Json → List Char
  | [] => []
  | item :: items => write item ++ writeMoreItems items

def writeMoreItems : List Json → List Char
  | [] => []
  | item :: items => ',' :: (write item ++ writeMoreItems items)

def writeMembers : List (String × Json) → List Char
  | [] => []
  | (key, value) :: members => quote key.toList ++ ':' :: (write value ++ writeMoreMembers members)

def writeMoreMembers : List (String × Json) → List Char
  | [] => []
  | (key, value) :: members =>
    ',' :: (quote key.toList ++ ':' :: (write value ++ writeMoreMembers members))

end

def compact (j : Json) : String := String.ofList (write j)

/-- A line feed and the blanks that indent a level by two. -/
def newline (level : Nat) : List Char := '\n' :: List.replicate (2 * level) ' '

mutual

/-- The indented text of a value that stands at a level. -/
def indent (level : Nat) : Json → List Char
  | .array [] => ['[', ']']
  | .array (item :: items) =>
    '[' :: (newline (level + 1) ++ indent (level + 1) item ++ indentItems (level + 1) items ++
      newline level ++ [']'])
  | .object [] => ['\x7b', '\x7d']
  | .object ((key, value) :: members) =>
    '\x7b' :: (newline (level + 1) ++ quote key.toList ++ [':', ' '] ++ indent (level + 1) value ++
      indentMembers (level + 1) members ++ newline level ++ ['\x7d'])
  | .null => write .null
  | .bool b => write (.bool b)
  | .number n => write (.number n)
  | .string s => write (.string s)

def indentItems (level : Nat) : List Json → List Char
  | [] => []
  | item :: items => ',' :: (newline level ++ indent level item ++ indentItems level items)

def indentMembers (level : Nat) : List (String × Json) → List Char
  | [] => []
  | (key, value) :: members =>
    ',' :: (newline level ++ quote key.toList ++ [':', ' '] ++ indent level value ++
      indentMembers level members)

end

/-- The text of a value over several lines, indented by two blanks a level. -/
def pretty (j : Json) : String := String.ofList (indent 0 j)

end OriginTags.Json
