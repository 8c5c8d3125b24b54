import OriginTags.Markup.Basic
/-!
# The markup of a program

A parsed program keeps the nesting of its markup, wherever it stands: among the children of an
element, in attribute values, in embedded expressions. The forest of the program has the elements
and texts only: each of them hangs below the nearest element around it.
-/

namespace OriginTags.Markup

/-- Markup as it is nested in a program. -/
inductive Tree
  /-- An element, with the markup of its attribute values and that of its children. -/
  | element (tag : OpeningTag) (inAttributes children : List Tree)
  /-- A fragment, written as a tag without a name. -/
  | fragment (children : List Tree)
  /-- Text among the children of an element or fragment. -/
  | text (value : String)
  /-- The markup of an embedded expression. -/
  | embedded (parts : List Tree)
deriving Repr, Inhabited

mutual

/-- The nodes of a tree. Fragments and expressions leave no trace. -/
def Tree.nodes (source : List Char) : Tree → List Node
  | .element tag inAttributes children =>
    [.element tag (some (Position.ofOffset source tag.span.start))
      (nodesOf source inAttributes ++ nodesOf source children)]
  | .fragment children => nodesOf source children
  | .text value => [.text value]
  | .embedded parts => nodesOf source parts

/-- The nodes of some trees, in source order. -/
def nodesOf (source : List Char) : List Tree → List Node
  | [] => []
  | tree :: trees => tree.nodes source ++ nodesOf source trees

end

/-- The elements of a program. Text outside of every element is dropped. -/
def forest (source : List Char) (trees : List Tree) : List Node :=
  (nodesOf source trees).filter Node.isElement

end OriginTags.Markup
