import OriginTags.Trace
/-!
# Options

What a user may set. An option that is not set falls back to a preset and then to a default.
-/

namespace OriginTags

/-- How captured data is written into an attribute. -/
inductive MetadataEncoding
  | json
  | base64
  | none
deriving DecidableEq, Repr, Inhabited

/-- The options of a user; `none` means that an option is not set. -/
structure Options where
  enabled : Option Bool := none
  debug : Option Bool := none
  extensions : Option (List String) := none
  attributePrefix : Option String := none
  excludeElements : Option (List String) := none
  customExcludes : Option (List String) := none
  includeProps : Option Bool := none
  includeContent : Option Bool := none
  includeAttributes : Option (List String) := none
  excludeAttributes : Option (List String) := none
  includePaths : Option (List String) := none
  excludePaths : Option (List String) := none
  metadataEncoding : Option MetadataEncoding := none
  minDepth : Option Int := none
  maxDepth : Option Int := none
  tagOnlyRoots : Option Bool := none
  exportStats : Option String := none
  preset : Option String := none
  includeSourceMap : Option Bool := none
  groupAttributes : Option Bool := none
  root : Option String := none
  transformers : Option (Dictionary Transformer) := none
  shouldTag : Option TagPredicate := none
  customAttributes : Option AttributeProvider := none
  onTransform : Option FileHook := none
  onComplete : Option RunHook := none
deriving Inhabited

namespace Options

/-- The transformers of two layers, key by key. -/
def mergeTransformers :
    (upper base : Option (Dictionary Transformer)) → Option (Dictionary Transformer)
  | none, none => none
  | upper, base => some ((upper.getD .empty).merge (base.getD .empty))

/-- The options of a layer over another one: what is set in the upper layer counts. -/
def layeredOn (upper base : Options) : Options where
  enabled := upper.enabled <|> base.enabled
  debug := upper.debug <|> base.debug
  extensions := upper.extensions <|> base.extensions
  attributePrefix := upper.attributePrefix <|> base.attributePrefix
  excludeElements := upper.excludeElements <|> base.excludeElements
  customExcludes := upper.customExcludes <|> base.customExcludes
  includeProps := upper.includeProps <|> base.includeProps
  includeContent := upper.includeContent <|> base.includeContent
  includeAttributes := upper.includeAttributes <|> base.includeAttributes
  excludeAttributes := upper.excludeAttributes <|> base.excludeAttributes
  includePaths := upper.includePaths <|> base.includePaths
  excludePaths := upper.excludePaths <|> base.excludePaths
  metadataEncoding := upper.metadataEncoding <|> base.metadataEncoding
  minDepth := upper.minDepth <|> base.minDepth
  maxDepth := upper.maxDepth <|> base.maxDepth
  tagOnlyRoots := upper.tagOnlyRoots <|> base.tagOnlyRoots
  exportStats := upper.exportStats <|> base.exportStats
  preset := upper.preset <|> base.preset
  includeSourceMap := upper.includeSourceMap <|> base.includeSourceMap
  groupAttributes := upper.groupAttributes <|> base.groupAttributes
  root := upper.root <|> base.root
  transformers := mergeTransformers upper.transformers base.transformers
  shouldTag := upper.shouldTag <|> base.shouldTag
  customAttributes := upper.customAttributes <|> base.customAttributes
  onTransform := upper.onTransform <|> base.onTransform
  onComplete := upper.onComplete <|> base.onComplete

end Options

/-! ## Presets -/

inductive Preset
  | minimal
  | testing
  | debugging
  | production
deriving DecidableEq, Repr

namespace Preset

def ofName? : String → Option Preset
  | "minimal" => some .minimal
  | "testing" => some .testing
  | "debugging" => some .debugging
  | "production" => some .production
  | _ => none

def options : Preset → Options
  | .minimal => { includeAttributes := some ["id"] }
  | .testing =>
    { includeAttributes := some ["id", "name", "component"]
      includeProps := some false
      includeContent := some false }
  | .debugging =>
    { includeProps := some true
      includeContent := some true
      includeSourceMap := some true
      debug := some true }
  | .production =>
    { includeAttributes := some ["id", "line"]
      excludePaths := some ["**/*.test.*", "**/*.spec.*", "**/*.stories.*"] }

end Preset

end OriginTags
