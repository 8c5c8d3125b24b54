/-!
# Imports

The import declarations of a module and the names that they bind.
-/

namespace OriginTags.Markup

inductive ImportKind
  | named
  | default
  | namespaced
deriving DecidableEq, Repr

structure ImportBinding where
  kind : ImportKind
  name : String
deriving DecidableEq, Repr

/-- An import declaration: the module it names and the names it binds, in order. -/
structure Import where
  source : String
  bindings : List ImportBinding
deriving DecidableEq, Repr

end OriginTags.Markup
