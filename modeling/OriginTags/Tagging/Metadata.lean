import OriginTags.Json.Writer
import OriginTags.Options.Basic
import OriginTags.Text.Base64
import OriginTags.Text.Percent
/-!
# Metadata

The captured data of an element as a JSON text of bounded size, and the encodings of such texts.
-/

namespace OriginTags.Metadata

/-- The most bytes of a text before it is cut. -/
def maxBytes : Nat := 10 * 1024

/-- What a text that was cut ends with. -/
def sentinel : String := "...[truncated]"

/-- The members with a mark that they are too large, and their size. -/
def mark (members : Json.Members) (size : Nat) : Json.Members :=
  Json.Members.insert "_originalSize" (.ofNat size)
    (Json.Members.insert "_truncated" (.bool true) members)

/-- The text of an object, of bounded size. An object that is too large is marked as such, and its
text is cut if it still is too large. -/
def bound (members : Json.Members) : String :=
  let text := (Json.object members).write
  let size := Text.byteSize text
  if size ≤ maxBytes then String.ofList text
  else
    -- The mark makes the object larger still, but it says how large it was.
    let marked := (Json.object (mark members size)).write
    if Text.byteSize marked ≤ maxBytes then String.ofList marked
    else String.ofList (Text.takeBytes marked maxBytes ++ sentinel.toList)

/-- The captured data of an element: its literal attributes, and its text under `text`. -/
def members (context : ElementContext) : Json.Members :=
  let props := context.props.getD []
  match context.content with
  | some text => props.insert "text" (.string text)
  | none => props

/-- The captured data of an element as a text, if there is any. -/
def ofContext (context : ElementContext) : Option String :=
  match members context with
  | [] => none
  | found => some (bound found)

end OriginTags.Metadata

namespace OriginTags.MetadataEncoding

def encode (encoding : MetadataEncoding) (text : String) : String :=
  match encoding with
  | .json => String.ofList (Text.Percent.encode text.toList)
  | .base64 => String.ofList (Text.Base64.encode (Text.bytes text.toList))
  | .none => text

end OriginTags.MetadataEncoding
