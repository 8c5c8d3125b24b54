import OriginTags.Text.Bytes
/-!
# Lines, columns and spans

A position names a place in a text for people: a line counted from one and a column counted in
characters from zero. Lines end at a line feed only.
-/

namespace OriginTags

/-- A byte range of a source, its end excluded. -/
structure Span where
  start : Nat
  stop : Nat
deriving DecidableEq, Repr, Inhabited

/-- A line, counted from one, and a column, counted from zero. -/
structure Position where
  line : Nat := 1
  column : Nat := 0
deriving DecidableEq, Repr, Inhabited

namespace Position

/-- Walks over `n` bytes of a text. The walk stands on line `line`, after `column` characters and
`width` bytes of it; inside a character the column is counted in bytes. -/
def walk : List Char → Nat → (line column width : Nat) → Position
  | [], _, line, column, _ => ⟨line, column⟩
  | c :: cs, n, line, column, width =>
    if n = 0 then ⟨line, column⟩
    else if n < c.utf8Size then ⟨line, width + n⟩
    else if c = '\n' then walk cs (n - c.utf8Size) (line + 1) 0 0
    else walk cs (n - c.utf8Size) line (column + 1) (width + c.utf8Size)

/-- The position of a byte offset. An offset past the end stands for the end. -/
def ofOffset (source : List Char) (offset : Nat) : Position :=
  walk source offset 1 0 0

end Position

end OriginTags
