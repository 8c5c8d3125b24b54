import OriginTags.Text.Bytes
/-!
# Bytes read as a text

Any bytes can be read as UTF-8. What is no character is replaced: the beginning of a character that is
not completed as a whole, and every other byte on its own.
-/

namespace OriginTags.Text

/-- The character for bytes that are no text. -/
def replacement : Char := Char.ofNat 0xfffd

/-- The beginning of a character of several bytes. -/
structure Partial where
  /-- How many bytes follow the next one. -/
  following : Nat
  /-- The next byte is not below this one, -/
  low : Nat
  /-- and not above this one. -/
  high : Nat
  /-- The number that the bytes so far are the digits of. -/
  digits : Nat
  low_ge : 0x80 ≤ low
deriving DecidableEq, Repr

/-- What the first byte of a character of several bytes begins. -/
def Partial.start? (b : Nat) : Option Partial :=
  if b < 0xc2 then none
  else if b < 0xe0 then some ⟨0, 0x80, 0xbf, b - 0xc0, by decide⟩
  else if b < 0xf0 then
    -- Not a character that has a shorter form, and not a surrogate.
    some ⟨1, if b = 0xe0 then 0xa0 else 0x80, if b = 0xed then 0x9f else 0xbf, b - 0xe0, by
      split <;> decide⟩
  else if b < 0xf5 then
    -- Not a character that has a shorter form, and none behind the last one.
    some ⟨2, if b = 0xf0 then 0x90 else 0x80, if b = 0xf4 then 0x8f else 0xbf, b - 0xf0, by
      split <;> decide⟩
  else none

/-- The characters that are complete with a byte, and what it begins, behind a complete character. -/
def begin (b : Nat) : List Char × Option Partial :=
  if b < 0x80 then ([Char.ofNat b], none)
  else
    match Partial.start? b with
    | some started => ([], some started)
    | none => ([replacement], none)

/-- The characters that are complete with a byte, and what is begun then. -/
def feed : Option Partial → Nat → List Char × Option Partial
  | none, b => begin b
  | some p, b =>
    if p.low ≤ b ∧ b ≤ p.high then
      match p.following with
      | 0 => ([Char.ofNat (p.digits * 64 + b % 64)], none)
      | k + 1 => ([], some ⟨k, 0x80, 0xbf, p.digits * 64 + b % 64, by decide⟩)
    else (replacement :: (begin b).1, (begin b).2)

/-- The text of bytes behind what was begun. -/
def decodeAfter (begun : Option Partial) : List UInt8 → List Char
  | [] => if begun.isSome then [replacement] else []
  | b :: bs => (feed begun b.toNat).1 ++ decodeAfter (feed begun b.toNat).2 bs

/-- The text of bytes. -/
def decode (bs : List UInt8) : List Char := decodeAfter none bs

end OriginTags.Text
