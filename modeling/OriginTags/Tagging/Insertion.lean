import OriginTags.Text.Position
import OriginTags.Trace
/-!
# Insertion points

Attributes go right before the end of an opening tag, which is the last `>` or `/>` of its text.
-/

namespace OriginTags

def closingDelimiter (selfClosing : Bool) : List Char :=
  if selfClosing then ['/', '>'] else ['>']

/-- The byte offset where attributes go into the tag of a span. Where the tag does not end as it
should, they go near its end. -/
def insertionPoint (source : List Char) (span : Span) (selfClosing : Bool) : Traced Nat := do
  -- A span may come from elsewhere and reach past the source.
  let stop := min span.stop (Text.byteSize source)
  let start := min span.start stop
  let delimiter := closingDelimiter selfClosing
  match Text.lastOccurrence? delimiter ((Text.slice? source start stop).getD []) with
  | some offset => return start + offset
  | none =>
    warn [("start", toString start), ("end", toString stop)]
      ("No `" ++ String.ofList delimiter ++ "` found in opening tag, inserting near the end")
    return Text.floorBoundary source (max (stop - delimiter.length) start)

end OriginTags
