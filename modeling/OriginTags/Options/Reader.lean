import OriginTags.Files.Spelling
import OriginTags.Json.Skip
import OriginTags.Options.Basic
/-!
# Reading options

Options as JSON: an object with the options by name, or a list of their values in order. A `null`
leaves an option unset, and other names are ignored, but a value of the wrong type is refused, and
so is an option that is given twice.
-/

namespace OriginTags.Options

/-! ## Values -/

def readBool : Json → Option (Option Bool)
  | .null => some none
  | .bool b => some (some b)
  | _ => none

def readString : Json → Option (Option String)
  | .null => some none
  | .string s => some (some s)
  | _ => none

/-- A path given as a text, or nothing. -/
def readPath (value : Json) : Option (Option String) :=
  (readString value).map fun text => text.map Path.ofString

def allStrings : List Json → Option (List String)
  | [] => some []
  | .string s :: rest => (allStrings rest).map (s :: ·)
  | _ :: _ => none

def readStrings : Json → Option (Option (List String))
  | .null => some none
  | .array items => (allStrings items).map some
  | _ => none

def readInt : Json → Option (Option Int)
  | .null => some none
  | .number (.int n) =>
    if -0x8000000000000000 ≤ n ∧ n < 0x8000000000000000 then some (some n) else none
  | _ => none

def encodingOfName? : String → Option MetadataEncoding
  | "json" => some .json
  | "base64" => some .base64
  | "none" => some .none
  | _ => none

/-- An encoding by its name, or nothing. The name may also be the only key of an object. -/
def readEncoding : Json → Option (Option MetadataEncoding)
  | .null => some none
  | .string name => (encodingOfName? name).map some
  | .object [(name, .null)] => (encodingOfName? name).map some
  | _ => none

/-! ## Fields -/

/-- A field of the options and how it is set from a value. -/
structure Field where
  name : String
  set : Json → Options → Option Options

/-- The field that a reader gives the value of. -/
def field {α : Type} (name : String) (read : Json → Option (Option α))
    (put : Option α → Options → Options) : Field where
  name := name
  set value options := (read value).map fun a => put a options

/-- The fields that can be read, in order. -/
def fields : List Field :=
  [field "enabled" readBool fun v o => { o with enabled := v },
   field "debug" readBool fun v o => { o with debug := v },
   field "extensions" readStrings fun v o => { o with extensions := v },
   field "attributePrefix" readString fun v o => { o with attributePrefix := v },
   field "excludeElements" readStrings fun v o => { o with excludeElements := v },
   field "customExcludes" readStrings fun v o => { o with customExcludes := v },
   field "includeProps" readBool fun v o => { o with includeProps := v },
   field "includeContent" readBool fun v o => { o with includeContent := v },
   field "includeAttributes" readStrings fun v o => { o with includeAttributes := v },
   field "excludeAttributes" readStrings fun v o => { o with excludeAttributes := v },
   field "includePaths" readStrings fun v o => { o with includePaths := v },
   field "excludePaths" readStrings fun v o => { o with excludePaths := v },
   field "metadataEncoding" readEncoding fun v o => { o with metadataEncoding := v },
   field "minDepth" readInt fun v o => { o with minDepth := v },
   field "maxDepth" readInt fun v o => { o with maxDepth := v },
   field "tagOnlyRoots" readBool fun v o => { o with tagOnlyRoots := v },
   field "exportStats" readString fun v o => { o with exportStats := v },
   field "preset" readString fun v o => { o with preset := v },
   field "includeSourceMap" readBool fun v o => { o with includeSourceMap := v },
   field "groupAttributes" readBool fun v o => { o with groupAttributes := v },
   field "root" readPath fun v o => { o with root := v }]

/-- Sets the fields that some members name; `seen` holds the names of earlier members. -/
def setMembers : List (String × Json) → (seen : List String) → Options → Option Options
  | [], _, options => some options
  | (name, value) :: members, seen, options =>
    match fields.find? fun f => f.name == name with
    | none => setMembers members seen options
    | some f =>
      if seen.contains name then none
      else
        match f.set value options with
        | none => none
        | some options => setMembers members (name :: seen) options

/-- Sets fields to some values, one after the other. -/
def setInOrder : List Field → List Json → Options → Option Options
  | _, [], options => some options
  | [], _ :: _, _ => none
  | f :: fields, value :: values, options =>
    match f.set value options with
    | none => none
    | some options => setInOrder fields values options

def ofJson? : Json → Option Options
  | .object members => setMembers members [] {}
  | .array values => setInOrder fields values {}
  | _ => none

/-! ## Texts -/

/-- Sets the fields that the members of an object name, from the first key of its text on. Members
that name no field are skipped. `seen` holds the names of earlier members, and `fuel` bounds their
number. -/
def readFields : (fuel : Nat) → (seen : List String) → Options → List Char →
    Option (Options × List Char)
  | 0, _, _, _ => none
  | fuel + 1, seen, options, cs => do
    let '"' :: rest := Json.skipBlanks cs | none
    let (key, rest) ← Json.readString (rest.length + 1) rest
    let ':' :: rest := Json.skipBlanks rest | none
    let name := String.ofList key
    let (seen, options, rest) ←
      match fields.find? fun f => f.name == name with
      | none => do
        let rest ← Json.skipValue (2 * rest.length + 2) rest
        some (seen, options, rest)
      | some f => do
        if seen.contains name then none
        let (value, rest) ← Json.readValue (2 * rest.length + 2) Json.depthLimit rest
        some (name :: seen, ← f.set value options, rest)
    match Json.skipBlanks rest with
    | '\x7d' :: rest => return (options, rest)
    | ',' :: rest => readFields fuel seen options rest
    | _ => none

def ofText? (text : String) : Option Options :=
  match Json.skipBlanks text.toList with
  | '\x7b' :: rest =>
    match Json.skipBlanks rest with
    | '\x7d' :: rest => if (Json.skipBlanks rest).isEmpty then some {} else none
    | rest => do
      let (options, rest) ← readFields (rest.length + 1) [] {} rest
      if (Json.skipBlanks rest).isEmpty then return options else none
  | _ => (Json.parse? text).bind ofJson?

end OriginTags.Options
