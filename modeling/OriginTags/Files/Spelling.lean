import OriginTags.Text.Decoding
/-!
# Paths and texts

A path is made of bytes, and these need not be a text. Here it is spelled with characters: those of its
bytes that are characters are spelled as such, and each other byte by one of the last 128 characters
there are. A text that holds one of these is spelled as a path byte by byte.
-/

namespace OriginTags.Path

/-- Whether a character stands for a single byte in a path. -/
def isStray (c : Char) : Bool := 0x10ff80 ≤ c.toNat

/-- The character that stands for a byte that is not in ASCII. -/
def stray (b : UInt8) : Char := Char.ofNat (0x10ff00 + b.toNat)

/-- The bytes of a character of a path. -/
def charBytes (c : Char) : List UInt8 :=
  if isStray c then [UInt8.ofNat c.toNat] else String.utf8EncodeChar c

def bytes (path : List Char) : List UInt8 := path.flatMap charBytes

def byteSize (path : List Char) : Nat := (bytes path).length

/-- The spelling of a character of a text in a path. -/
def spell (c : Char) : List Char :=
  if isStray c then (String.utf8EncodeChar c).map stray else [c]

def ofText (text : List Char) : List Char := text.flatMap spell

/-- A path as a text, with replacements for what is none. -/
def toText (path : List Char) : List Char := Text.decode (bytes path)

/-- The path that a text is. -/
def ofString (text : String) : String := String.ofList (ofText text.toList)

/-- A path as it is shown. -/
def display (path : String) : String := String.ofList (toText path.toList)

end OriginTags.Path
