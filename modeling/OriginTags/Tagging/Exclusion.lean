import OriginTags.Config
import OriginTags.Tagging.Library
/-!
# Exclusions

The reasons for which an element is not tagged: its name, its depth, and at last the user's own
predicate.
-/

namespace OriginTags

inductive Exclusion
  | excludeList
  | customExclude
  | libraryImport
  | libraryNamespace
  | rootOnly
  | belowMinDepth
  | aboveMaxDepth
deriving DecidableEq, Repr

def depthExclusion (config : Config) (depth : Nat) : Option Exclusion :=
  if config.tagOnlyRoots then if depth ≠ 1 then some .rootOnly else none
  else if 0 < config.minDepth ∧ depth < config.minDepth then some .belowMinDepth
  else if 0 < config.maxDepth ∧ config.maxDepth < depth then some .aboveMaxDepth
  else none

/-- The first reason for which an element is not eligible. -/
def exclusion (config : Config) (library : LibraryBindings) (name : Markup.TagName) (depth : Nat) :
    Option Exclusion :=
  if config.excludeElements.contains name.display then some .excludeList
  else if config.customExcludes.contains name.display then some .customExclude
  else if library.named.contains name.display then some .libraryImport
  else if name.isMember && library.namespaces.contains name.root then some .libraryNamespace
  else depthExclusion config depth

/-- Whether an element may be tagged, as far as its name and depth tell. -/
def isEligible (config : Config) (library : LibraryBindings) (name : Markup.TagName) (depth : Nat) :
    Bool :=
  (exclusion config library name depth).isNone

/-- Asks the user's predicate. Without one, and where it fails, the element is tagged. -/
def passesPredicate (config : Config) (context : ElementContext) : Traced Bool := do
  match config.shouldTag with
  | none => return true
  | some predicate =>
    match ← invoke (.shouldTag context) predicate context (some context) with
    | .ok keep => return keep
    | .error failure =>
      warn
        [("element", context.elementName), ("file", context.filePath), ("line", toString context.line)]
        ("shouldTag failed, tagging anyway: " ++ failure.message)
      return true

end OriginTags
