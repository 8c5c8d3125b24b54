import OriginTags.Text.Bytes
/-!
# Percent encoding

Letters, digits and a few marks stand for themselves; every byte of another character is written as
a percent sign and two hexadecimal digits.
-/

namespace OriginTags.Text.Percent

/-- Whether a character stands for itself. -/
def isPlain (c : Char) : Bool :=
  c.isAlphanum || ['-', '_', '.', '!', '~', '*', '\'', '(', ')'].contains c

/-- A hexadecimal digit, in upper case. -/
def hexDigit (n : Nat) : Char :=
  if n < 10 then Char.ofNat (0x30 + n) else Char.ofNat (0x37 + n)

def encodeByte (b : UInt8) : List Char :=
  ['%', hexDigit (b.toNat / 16), hexDigit (b.toNat % 16)]

def encodeChar (c : Char) : List Char :=
  if isPlain c then [c] else (bytes [c]).flatMap encodeByte

/-- A text with every character encoded that must be. -/
def encode (cs : List Char) : List Char := cs.flatMap encodeChar

end OriginTags.Text.Percent
