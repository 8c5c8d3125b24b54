import OriginTags.Glob.Pattern
import OriginTags.Options.Basic
import OriginTags.Tagging.Export
/-!
# Configurations

The options of a user, completed and checked. Nothing here fails: a bad value is replaced by a safe
one and a warning is logged.
-/

namespace OriginTags

/-! ## Values -/

/-- The attributes that the library computes, in the order in which they are written. -/
def builtinAttributes : List String :=
  ["id", "name", "path", "line", "file", "component", "metadata", "sourcemap"]

/-- What the names of attributes begin with, unless the user chooses something else. -/
def defaultAttributePrefix : String := "data-dev"

def maxDepthCeiling : Nat := 50

/-- The elements that are not tagged, unless the user chooses others. -/
def defaultExcludedElements : List String := ["Fragment", "React.Fragment"]

/-- Elements that are drawn on a canvas and never become part of a document. -/
def defaultCustomExcludes : List String :=
  ["mesh", "group", "scene", "primitive", "ambientLight", "pointLight", "directionalLight",
   "spotLight", "hemisphereLight", "perspectiveCamera", "orthographicCamera", "boxGeometry",
   "sphereGeometry", "planeGeometry", "cylinderGeometry", "bufferGeometry", "meshBasicMaterial",
   "meshStandardMaterial", "meshPhongMaterial", "meshLambertMaterial", "points", "line",
   "lineSegments", "instancedMesh", "sprite", "fog", "color"]

def defaultExtensions : List String := [".jsx", ".tsx"]

/-! ## Configurations -/

structure Config where
  enabled : Bool := true
  debug : Bool := false
  extensions : List String := defaultExtensions
  attributePrefix : String := defaultAttributePrefix
  excludeElements : List String := defaultExcludedElements
  customExcludes : List String := defaultCustomExcludes
  includeProps : Bool := false
  includeContent : Bool := false
  includeAttributes : Option (List String) := none
  excludeAttributes : Option (List String) := none
  includePaths : List Glob.Pattern := []
  excludePaths : List Glob.Pattern := []
  transformers : Dictionary Transformer := .empty
  shouldTag : Option TagPredicate := none
  customAttributes : Option AttributeProvider := none
  metadataEncoding : MetadataEncoding := .json
  /-- Zero means no bound. -/
  minDepth : Nat := 0
  /-- Zero means no bound. -/
  maxDepth : Nat := 0
  tagOnlyRoots : Bool := false
  onTransform : Option FileHook := none
  onComplete : Option RunHook := none
  exportStats : Option String := none
  includeSourceMap : Bool := false
  groupAttributes : Bool := false
  root : String := "."

namespace Config

/-- Whether an attribute is written. A list of included attributes decides alone. -/
def attributeEnabled (config : Config) (key : String) : Bool :=
  match config.includeAttributes, config.excludeAttributes with
  | some included, _ => included.contains key
  | none, some excluded => !excluded.contains key
  | none, none => true

/-! ## Resolution -/

/-- The preset that is asked for, with a warning if it is unknown. -/
def choosePreset : Option String → Traced (Option Preset)
  | none => return none
  | some name =>
    match Preset.ofName? name with
    | some preset => return some preset
    | none => do
      warn [("preset", name)] "Unknown preset, continuing without one"
      return none

/-- A smallest depth that is not negative. -/
def clampMin (depth : Int) : Traced Nat :=
  if depth < 0 then do
    warn [("min_depth", toString depth)] "minDepth cannot be negative, using 0"
    return 0
  else return depth.toNat

/-- A largest depth that is not negative and not above the ceiling. -/
def clampMax (depth : Int) : Traced Nat :=
  if 0 ≤ depth ∧ depth ≤ maxDepthCeiling then return depth.toNat
  else do
    warn [("max_depth", toString depth)]
      ("maxDepth must be within 0..=" ++ toString maxDepthCeiling ++ ", using 0 (unbounded)")
    return 0

/-- A smallest and a largest depth, in order. -/
def clampDepths (minDepth maxDepth : Option Int) : Traced (Nat × Nat) := do
  let low ← clampMin (minDepth.getD 0)
  let high ← clampMax (maxDepth.getD 0)
  -- Zero is no bound, so it is never out of order.
  if 0 < low ∧ 0 < high ∧ high < low then
    warn [("min_depth", toString low), ("max_depth", toString high)]
      "minDepth is greater than maxDepth, swapping"
    return (high, low)
  else return (low, high)

/-- The file for the statistics, with a warning if it is not below the root. -/
def checkExport (files : FileTree) (root : String) : Option String → Traced (Option String)
  | none => return none
  | some raw =>
    match Export.resolvePath files root raw with
    | .ok path => return some path
    | .error e => do
      warn [("path", raw)] ("Security: ignoring exportStats: " ++ e.message)
      return none

/-- Whether names of attributes may begin with a text: a letter, then letters, digits and a few
marks. -/
def isAttributePrefix : List Char → Bool
  | [] => false
  | c :: cs => c.isAlpha && cs.all fun c => c.isAlphanum || ['_', ':', '.', '-'].contains c

/-- What the names of attributes begin with, with a warning if the user's choice is not possible. -/
def checkPrefix : Option String → Traced String
  | none => return defaultAttributePrefix
  | some text =>
    if isAttributePrefix text.toList then return text
    else do
      warn [("prefix", text)] ("Invalid attribute prefix, using " ++ defaultAttributePrefix)
      return defaultAttributePrefix

/-- Warns about names that no attribute has. -/
def checkAttributeNames : List String → Traced Unit
  | [] => return ()
  | key :: keys => do
    if !builtinAttributes.contains key then
      warn [("attribute", key)] "Unknown attribute in include/excludeAttributes"
    checkAttributeNames keys

/-- The root that is asked for, or else the directory that the program works in. -/
def chooseRoot (workingDirectory : Option String) (root : Option String) : String :=
  (root <|> workingDirectory).getD "."

/-- A path seen from the directory that the program works in. The empty path is seen from nowhere. -/
def seenFrom (workingDirectory : Option String) (path : List Char) : List Char :=
  match workingDirectory with
  | some directory => if path = [] then [] else Path.join directory.toList path
  | none => path

/-- The path of the root with all links followed, if it exists. -/
def canonicalRoot (files : FileTree) (root : String) (workingDirectory : Option String := none) :
    String :=
  match files.canonicalize (seenFrom workingDirectory root.toList) with
  | some path => String.ofList path
  | none => root

/-- The configuration of options that no preset completes any more. -/
def complete (files : FileTree) (options : Options) (workingDirectory : Option String := none) :
    Traced Config := do
  let (minDepth, maxDepth) ← clampDepths options.minDepth options.maxDepth
  -- The export is checked against the root that all files are seen from.
  let root := canonicalRoot files (chooseRoot workingDirectory options.root) workingDirectory
  let exportStats ← checkExport files root options.exportStats
  let attributePrefix ← checkPrefix options.attributePrefix
  checkAttributeNames (options.includeAttributes.getD [] ++ options.excludeAttributes.getD [])
  let includePaths ← Glob.compileAll (options.includePaths.getD [])
  let excludePaths ← Glob.compileAll (options.excludePaths.getD [])
  return {
    enabled := options.enabled.getD true
    debug := options.debug.getD false
    extensions := options.extensions.getD defaultExtensions
    attributePrefix
    excludeElements := options.excludeElements.getD defaultExcludedElements
    customExcludes := options.customExcludes.getD defaultCustomExcludes
    includeProps := options.includeProps.getD false
    includeContent := options.includeContent.getD false
    includeAttributes := options.includeAttributes
    excludeAttributes := options.excludeAttributes
    includePaths
    excludePaths
    transformers := options.transformers.getD .empty
    shouldTag := options.shouldTag
    customAttributes := options.customAttributes
    metadataEncoding := options.metadataEncoding.getD .json
    minDepth
    maxDepth
    tagOnlyRoots := options.tagOnlyRoots.getD false
    onTransform := options.onTransform
    onComplete := options.onComplete
    exportStats
    includeSourceMap := options.includeSourceMap.getD false
    groupAttributes := options.groupAttributes.getD false
    root }

/-- The configuration of some options. A preset stands under what the user sets. -/
def resolve (files : FileTree) (options : Options) (workingDirectory : Option String := none) :
    Traced Config := do
  match ← choosePreset options.preset with
  | some preset => complete files (options.layeredOn preset.options) workingDirectory
  | none => complete files options workingDirectory

end Config

end OriginTags
