import OriginTags.Config
import OriginTags.Tagging.Metadata
import OriginTags.Text.Entity
/-!
# Attributes

The attributes that an element gets: those the library computes, those the user supplies, and their
text in a tag. Every value is escaped right before it is written.
-/

namespace OriginTags.Attributes

/-- Attributes in order: keys, without what their names begin with, and values. -/
abbrev Values := List (String × String)

/-! ## Computed attributes -/

/-- Where an element stands, as `path:line:column`. -/
def place (context : ElementContext) : String :=
  context.filePath ++ ":" ++ toString context.line ++ ":" ++ toString context.column

/-- The value of an attribute after its transformer, if it has one. A transformer that fails, or
gives no string, changes nothing. -/
def transform (config : Config) (context : ElementContext) (key value : String) : Traced String := do
  match config.transformers.get? key with
  | none => return value
  | some transformer =>
    match ← invoke (.transformer key value) transformer value (some context) with
    | .ok (.string changed) => return changed
    | .ok other =>
      warn [("attribute", key)]
        ("Transformer returned a non-string (" ++ other.compact ++ "), keeping original value")
      return value
    | .error failure =>
      warn [("attribute", key)] ("Transformer failed, keeping original value: " ++ failure.message)
      return value

/-- The attributes that transformers may change, before they do. -/
def plainValues (context : ElementContext) : Values :=
  [("id", place context),
   ("name", context.elementName),
   ("path", context.filePath),
   ("line", toString context.line),
   ("file", context.fileName),
   ("component", context.elementName)]

def transformAll (config : Config) (context : ElementContext) : Values → Traced Values
  | [] => return []
  | (key, value) :: rest => do
    let changed ← transform config context key value
    let others ← transformAll config context rest
    return (key, changed) :: others

/-- The captured data as an attribute, if it is enabled and there is any. -/
def metadataValues (config : Config) (context : ElementContext) : Values :=
  if config.attributeEnabled "metadata" then
    match Metadata.ofContext context with
    | some text => [("metadata", config.metadataEncoding.encode text)]
    | none => []
  else []

/-- The place of the element as an attribute, if it is asked for. -/
def sourceMapValues (config : Config) (context : ElementContext) : Values :=
  -- The place holds the path, so a hidden path hides the place as well.
  if config.includeSourceMap && config.attributeEnabled "sourcemap" && config.attributeEnabled "path"
  then [("sourcemap", "source://" ++ place context)]
  else []

def builtinValues (config : Config) (context : ElementContext) : Traced Values := do
  let enabled := (plainValues context).filter fun v => config.attributeEnabled v.1
  let plain ← transformAll config context enabled
  return plain ++ metadataValues config context ++ sourceMapValues config context

/-! ## Custom attributes -/

def maxCustom : Nat := 50

/-- The most characters of a supplied value. -/
def maxCustomChars : Nat := 1000

def forbiddenKeys : List String := ["__proto__", "constructor", "prototype"]

def isKey : List Char → Bool
  | [] => false
  | c :: cs =>
    (c.isAlphanum || c == '_') && cs.all fun c => c.isAlphanum || ['_', '.', ':', '-'].contains c

/-- A key without what the names of attributes begin with. -/
def stripOwn (config : Config) (key : String) : String :=
  match Text.stripLead? (config.attributePrefix ++ "-").toList key.toList with
  | some rest => String.ofList rest
  | none => key

/-- A supplied value as a text; nothing for `null`. -/
def customText : Json → Option String
  | .null => none
  | .string s => some s
  | other => some other.compact

/-- A supplied value, cut if it is too long. -/
def truncate (key value : String) : Traced String :=
  let cs := value.toList
  if cs.length ≤ maxCustomChars then return value
  else do
    warn [("key", key)]
      ("Custom attribute value longer than " ++ toString maxCustomChars ++ " characters, truncating")
    return String.ofList (cs.take maxCustomChars ++ ['.', '.', '.'])

/-- The supplied attributes that are written, after `accepted` of them and with the keys `taken`. -/
def acceptCustom (config : Config) (context : ElementContext) :
    List (String × Json) → (accepted : Nat) → (taken : List String) → Traced Values
  | [], _, _ => return []
  | (raw, value) :: rest, accepted, taken => do
    let key := stripOwn config raw
    -- A forbidden key may hide behind what the names of attributes begin with.
    if forbiddenKeys.contains raw || forbiddenKeys.contains key then
      warn [("key", raw)] "Dropping forbidden custom attribute key"
      acceptCustom config context rest accepted taken
    -- What was dropped before does not count towards the limit.
    else if maxCustom ≤ accepted then
      warn [("element", context.elementName)]
        ("More than " ++ toString maxCustom ++ " custom attributes, ignoring the rest")
      return []
    else if !isKey key.toList then
      warn [("key", key)] "Dropping custom attribute with an invalid name"
      acceptCustom config context rest accepted taken
    else if taken.contains key then
      warn [("key", key)] "Custom attribute clashes with a generated one, skipping"
      acceptCustom config context rest accepted taken
    else
      match customText value with
      | none => acceptCustom config context rest accepted taken
      | some text =>
        let text ← truncate key text
        let others ← acceptCustom config context rest (accepted + 1) (key :: taken)
        return (key, text) :: others

/-- The attributes that the user supplies. A provider that fails supplies none. -/
def customValues (config : Config) (context : ElementContext) (builtin : Values) : Traced Values := do
  match config.customAttributes with
  | none => return []
  | some provider =>
    match ← invoke (.customAttributes context) provider context (some context) with
    | .ok entries => acceptCustom config context entries 0 (builtin.map Prod.fst)
    | .error failure =>
      warn
        [("element", context.elementName), ("file", context.filePath), ("line", toString context.line)]
        ("customAttributes failed, adding none: " ++ failure.message)
      return []

def values (config : Config) (context : ElementContext) : Traced Values := do
  let builtin ← builtinValues config context
  let custom ← customValues config context builtin
  return builtin ++ custom

/-! ## Text -/

def assignment (name value : String) : String :=
  name ++ "=\"" ++ Text.Entity.escape value ++ "\""

/-- The values of all attributes as one JSON text. -/
def grouped (vs : Values) : String :=
  (Json.object (Json.Members.ofList (vs.map fun (key, value) => (key, .string value)))).compact

/-- The text of some attributes: each on its own, or all in one. -/
def render (config : Config) (vs : Values) : String :=
  if vs.isEmpty then ""
  else if config.groupAttributes then
    assignment config.attributePrefix (config.metadataEncoding.encode (grouped vs))
  else
    String.intercalate " "
      (vs.map fun (key, value) => assignment (config.attributePrefix ++ "-" ++ key) value)

/-- The text of the attributes of an element; empty if there are none. -/
def generate (config : Config) (context : ElementContext) : Traced String := do
  let vs ← values config context
  return render config vs

end OriginTags.Attributes
