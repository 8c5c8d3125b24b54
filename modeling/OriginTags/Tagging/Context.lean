import OriginTags.Files.Path
import OriginTags.Files.Spelling
import OriginTags.Json.Basic
import OriginTags.Markup.Basic
/-!
# Contexts

What is known about a file and about one element of it while the element is tagged.
-/

namespace OriginTags

/-! ## Files -/

/-- The facts about a file that all its elements share. -/
structure FileInfo where
  /-- The path below the project's root, with forward slashes. -/
  relativePath : String
  fileName : String
deriving DecidableEq, Repr

/-- The facts about the file at a path. A path outside of the root stands for itself; a relative one
loses one leading `./`. -/
def FileInfo.ofPath (root path : String) : FileInfo :=
  let cs := path.toList
  -- Only what is below the root has its slashes turned.
  let relative :=
    if Path.isAbsolute cs then
      match Path.stripBase? root.toList (Path.ofText cs) with
      | some rest => Text.replaceChar '\\' '/' (Path.toText rest)
      | none => cs
    else (Text.stripLead? ['.', '/'] cs).getD cs
  { relativePath := String.ofList relative
    fileName := String.ofList ((Path.fileName? cs).getD relative) }

/-! ## Elements -/

/-- What hooks and attributes may depend on. -/
structure ElementContext where
  elementName : String
  filePath : String
  /-- Counted from one. -/
  line : Nat
  /-- Counted from zero. -/
  column : Nat
  fileName : String
  /-- One for an outermost element. -/
  depth : Nat
  /-- The attributes with literal values, if they are captured and there are any. -/
  props : Option Json.Members := none
  /-- The text of the element, if it is captured and there is any. -/
  content : Option String := none

def Markup.Literal.toJson : Markup.Literal → Json
  | .string s => .string s
  | .number x => Json.ofDouble x
  | .bool b => .bool b

/-- The name and value of an attribute with a literal value. -/
def Markup.Attribute.entry? : Markup.Attribute → Option (String × Json)
  | .literal name value => some (name, value.toJson)
  | .expression _ | .spread => none

/-- The literal attributes of a tag by name, if there are any. -/
def literalProps (tag : Markup.OpeningTag) : Option Json.Members :=
  match tag.attributes.filterMap Markup.Attribute.entry? with
  | [] => none
  | entries => some (Json.Members.ofList entries)

/-- The context of an element. An element without a known place stands at the start of its file. -/
def ElementContext.ofElement (tag : Markup.OpeningTag) (location : Option Position)
    (children : List Markup.Node) (file : FileInfo) (depth : Nat)
    (captureProps captureContent : Bool) : ElementContext :=
  let position := location.getD {}
  { elementName := tag.name.display
    filePath := file.relativePath
    line := max position.line 1
    column := position.column
    fileName := file.fileName
    depth
    props := if captureProps then literalProps tag else none
    content := if captureContent then Markup.flattenedText children else none }

end OriginTags
