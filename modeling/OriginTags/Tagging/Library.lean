import OriginTags.Markup.Import
import OriginTags.Text.Bytes
/-!
# Library imports

The names that a file imports from libraries whose elements are drawn on a canvas.
-/

namespace OriginTags

/-- The parts of module names that mark such a library. -/
def libraryMarkers : List String := ["three", "@react-three/fiber", "@react-three/drei"]

def isLibrarySource (source : String) : Bool :=
  libraryMarkers.any fun marker => Text.occursIn marker.toList source.toList

/-- The names that a file binds to parts of such libraries. -/
structure LibraryBindings where
  /-- Named and default bindings. -/
  named : List String := []
  /-- Bindings of whole modules. -/
  namespaces : List String := []
deriving DecidableEq, Repr

namespace LibraryBindings

def isEmpty (b : LibraryBindings) : Bool := b.named.isEmpty && b.namespaces.isEmpty

def ofImports (imports : List Markup.Import) : LibraryBindings :=
  let bindings := (imports.filter fun i => isLibrarySource i.source).flatMap (·.bindings)
  { named := (bindings.filter fun b => b.kind != .namespaced).map (·.name)
    namespaces := (bindings.filter fun b => b.kind == .namespaced).map (·.name) }

end LibraryBindings

end OriginTags
