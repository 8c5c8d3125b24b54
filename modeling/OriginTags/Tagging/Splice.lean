import OriginTags.Json.Writer
import OriginTags.Text.Base64
import OriginTags.Text.Bytes
/-!
# Splicing

Texts are inserted into a source, and a source map leads back. Every line of the source, and every
stretch of it behind an insertion, has a segment in the map.
-/

namespace OriginTags

/-- A text to insert before a byte offset of a source. -/
structure Insertion where
  offset : Nat
  text : String
deriving DecidableEq, Repr

/-- A source with insertions, and its map. -/
structure Spliced where
  code : String
  map : String
deriving DecidableEq, Repr

namespace Splice

/-! ## Pieces -/

/-- A part of the new text: kept from the source, or inserted. -/
inductive Piece
  | kept (text : List Char)
  | inserted (text : List Char)
deriving DecidableEq, Repr

def Piece.text : Piece → List Char
  | .kept text => text
  | .inserted text => text

/-- An insertion at the largest boundary that is not above its offset. -/
def settle (source : List Char) (i : Insertion) : Insertion :=
  { i with offset := Text.floorBoundary source i.offset }

/-- Insertions by offset; those at one offset keep their order. -/
def arrange (source : List Char) (insertions : List Insertion) : List Insertion :=
  (insertions.map (settle source)).mergeSort fun a b => decide (a.offset ≤ b.offset)

/-- The pieces of a text that begins at a byte offset of the source. -/
def pieces : List Insertion → (start : Nat) → List Char → List Piece
  | [], _, rest => [.kept rest]
  | i :: others, start, rest =>
    .kept (Text.takeBytes rest (i.offset - start)) :: .inserted i.text.toList ::
      pieces others i.offset (Text.dropBytes rest (i.offset - start))

/-! ## Segments -/

/-- A place in a text: line and column from zero, columns in 16-bit units. -/
structure Mark where
  line : Nat := 0
  column : Nat := 0
deriving DecidableEq, Repr

def Mark.after (m : Mark) (c : Char) : Mark :=
  if c = '\n' then ⟨m.line + 1, 0⟩ else ⟨m.line, m.column + Text.unitWidth c⟩

/-- A segment of a source map: a place in the new text and where it comes from. -/
structure Segment where
  output : Mark
  source : Mark
deriving DecidableEq, Repr

/-- Where the map of a text stands: the places in the new text and in the source, and whether the
next character that is kept begins a segment. -/
structure Mapper where
  output : Mark := {}
  source : Mark := {}
  pending : Bool := true

def Mapper.keep (m : Mapper) (c : Char) : Mapper where
  output := m.output.after c
  source := m.source.after c
  pending := c == '\n'

def Mapper.insert (m : Mapper) (c : Char) : Mapper := { m with output := m.output.after c }

/-- The segments of characters that are kept, and where the map stands behind them. -/
def keptSegments : List Char → Mapper → List Segment × Mapper
  | [], m => ([], m)
  | c :: cs, m =>
    let (segments, last) := keptSegments cs (m.keep c)
    (if m.pending then ⟨m.output, m.source⟩ :: segments else segments, last)

def segments : List Piece → Mapper → List Segment
  | [], _ => []
  | .kept text :: rest, m =>
    let (found, m) := keptSegments text m
    found ++ segments rest m
  | .inserted text :: rest, m =>
    segments rest { text.foldl Mapper.insert m with pending := true }

/-! ## Mappings -/

/-- The digits of a number in base 32, least first, all but the last with a mark that more follow;
`fuel` bounds their number. -/
def digitsOf32 : (fuel : Nat) → Nat → List Char
  | 0, _ => []
  | fuel + 1, n =>
    if n < 32 then [Text.Base64.digit n]
    else Text.Base64.digit (n % 32 + 32) :: digitsOf32 fuel (n / 32)

/-- A signed number as digits; the sign is the lowest bit. -/
def signedDigits (n : Int) : List Char :=
  let bits := if n < 0 then 2 * n.natAbs + 1 else 2 * n.natAbs
  digitsOf32 (bits + 1) bits

def delta (new old : Nat) : List Char := signedDigits ((new : Int) - (old : Int))

/-- The text of a segment relative to the one before it; `column` is the column to count from. -/
def segmentText (s previous : Segment) (column : Nat) : List Char :=
  -- The second number is the source, which is always the same one.
  delta s.output.column column ++ ['A'] ++ delta s.source.line previous.source.line ++
    delta s.source.column previous.source.column

/-- The text of the segments behind another one. Lines are ended by semicolons, and segments of one
line are separated by commas. -/
def mappingsAfter (previous : Segment) : List Segment → List Char
  | [] => []
  | s :: rest =>
    let lines := s.output.line - previous.output.line
    -- On a new line the columns count from zero again.
    let lead :=
      if lines = 0 then ',' :: segmentText s previous previous.output.column
      else List.replicate lines ';' ++ segmentText s previous 0
    lead ++ mappingsAfter s rest

/-- The text of all segments of a map. -/
def mappings : List Segment → List Char
  | [] => []
  | s :: rest =>
    List.replicate s.output.line ';' ++ segmentText s ⟨{}, {}⟩ 0 ++ mappingsAfter s rest

/-- The source map with the given mappings. -/
def mapJson (name source : String) (segments : List Segment) : Json :=
  .object
    [("version", .ofNat 3),
     ("names", .array []),
     ("sources", .array [.string name]),
     ("sourcesContent", .array [.string source]),
     ("mappings", .string (String.ofList (mappings segments)))]

/-- A source with insertions, and a map that names the source. -/
def finish (source : String) (insertions : List Insertion) (name : String) : Spliced :=
  let cs := source.toList
  let parts := pieces (arrange cs insertions) 0 cs
  { code := String.ofList (parts.flatMap Piece.text)
    map := (mapJson name source (segments parts {})).compact }

end Splice

end OriginTags
