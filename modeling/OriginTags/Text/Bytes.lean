/-!
# Texts and their byte offsets

A text is a list of characters. Offsets into it count the bytes of its UTF-8 form, so only some
offsets, the boundaries, lie between two characters.
-/

namespace OriginTags.Text

/-! ## Sizes -/

/-- The number of bytes of a text in UTF-8. -/
def byteSize : List Char → Nat
  | [] => 0
  | c :: cs => c.utf8Size + byteSize cs

/-- The number of 16-bit units of a character in UTF-16. -/
def unitWidth (c : Char) : Nat :=
  if c.toNat < 0x10000 then 1 else 2

def bytes (cs : List Char) : List UInt8 :=
  cs.flatMap String.utf8EncodeChar

/-! ## Boundaries -/

/-- Whether an offset lies between two characters, or at an end of the text. -/
def isBoundary : List Char → Nat → Bool
  | _, 0 => true
  | [], _ + 1 => false
  | c :: cs, n + 1 => if n + 1 < c.utf8Size then false else isBoundary cs (n + 1 - c.utf8Size)

/-- The largest boundary that is not above an offset. -/
def floorBoundary : List Char → Nat → Nat
  | [], _ => 0
  | c :: cs, n => if n < c.utf8Size then 0 else c.utf8Size + floorBoundary cs (n - c.utf8Size)

/-- The characters before the largest boundary that is not above an offset. -/
def takeBytes : List Char → Nat → List Char
  | [], _ => []
  | c :: cs, n => if n < c.utf8Size then [] else c :: takeBytes cs (n - c.utf8Size)

/-- The characters after the largest boundary that is not above an offset. -/
def dropBytes : List Char → Nat → List Char
  | [], _ => []
  | c :: cs, n => if n < c.utf8Size then c :: cs else dropBytes cs (n - c.utf8Size)

/-- The text between two offsets, if both are boundaries in order. -/
def slice? (cs : List Char) (start stop : Nat) : Option (List Char) :=
  if start ≤ stop && isBoundary cs start && isBoundary cs stop then
    some (takeBytes (dropBytes cs start) (stop - start))
  else none

/-! ## Searching -/

def startsWith (cs lead : List Char) : Bool :=
  lead.isPrefixOf cs

/-- A text without a leading part, if it begins with that part. -/
def stripLead? : List Char → List Char → Option (List Char)
  | [], cs => some cs
  | _ :: _, [] => none
  | l :: ls, c :: cs => if l = c then stripLead? ls cs else none

/-- Whether a text occurs inside another one. -/
def occursIn (part : List Char) : List Char → Bool
  | [] => part.isEmpty
  | c :: cs => startsWith (c :: cs) part || occursIn part cs

def endsWith (cs tail : List Char) : Bool :=
  tail.isSuffixOf cs

/-- The byte offset of the last occurrence of a part in a text. -/
def lastOccurrence? (part : List Char) : List Char → Option Nat
  | [] => if part.isEmpty then some 0 else none
  | c :: cs =>
    match lastOccurrence? part cs with
    | some n => some (c.utf8Size + n)
    | none => if startsWith (c :: cs) part then some 0 else none

/-- Every occurrence of a character replaced by another one. -/
def replaceChar (old new : Char) (cs : List Char) : List Char :=
  cs.map fun c => if c = old then new else c

end OriginTags.Text
