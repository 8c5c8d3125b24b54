/-!
# Entities

The characters that could end an attribute value or begin markup are written as entities.
-/

namespace OriginTags.Text.Entity

def encodeChar (c : Char) : List Char :=
  if c = '&' then "&amp;".toList
  else if c = '<' then "&lt;".toList
  else if c = '>' then "&gt;".toList
  else if c = '"' then "&quot;".toList
  else if c = '\'' then "&#39;".toList
  else [c]

/-- A text that may stand between quotes. -/
def encode (cs : List Char) : List Char := cs.flatMap encodeChar

/-- A string that may stand between quotes. -/
def escape (s : String) : String := String.ofList (encode s.toList)

end OriginTags.Text.Entity
