import OriginTags.Decimal.Binary64
import OriginTags.Text.Blank
import OriginTags.Text.Position
/-!
# Markup

The elements of a source file and the text between them. An element is described by its opening
tag; whatever else the file holds is of no interest here.
-/

namespace OriginTags.Markup

/-! ## Tags -/

inductive TagName
  | plain (name : String)
  /-- `a.b.c`, outermost object first. -/
  | member (parts : List String)
  /-- `space:name`. -/
  | namespaced (space name : String)
deriving DecidableEq, Repr

namespace TagName

/-- The name as it is written in a tag. -/
def display : TagName → String
  | .plain name => name
  | .member parts => String.intercalate "." parts
  | .namespaced space name => space ++ ":" ++ name

/-- The leftmost part of the name. -/
def root : TagName → String
  | .plain name => name
  | .member parts => parts.headD ""
  | .namespaced space _ => space

def isMember : TagName → Bool
  | .member _ => true
  | _ => false

end TagName

inductive Literal
  | string (s : String)
  | number (x : Binary64)
  | bool (b : Bool)
deriving DecidableEq, Repr

inductive Attribute
  /-- `name="v"`, `name={1}`, `name={true}` or a bare `name`. -/
  | literal (name : String) (value : Literal)
  /-- `name={e}` where `e` is no literal. -/
  | expression (name : String)
  /-- `{...e}`. -/
  | spread
deriving DecidableEq, Repr

/-- An opening tag. The span reaches from its `<` to its closing `>` or `/>`. -/
structure OpeningTag where
  name : TagName
  span : Span
  selfClosing : Bool
  attributes : List Attribute
deriving DecidableEq, Repr

/-! ## Nodes -/

/-- An element with what it holds, or a text. -/
inductive Node
  | element (tag : OpeningTag) (location : Option Position) (children : List Node)
  | text (value : String)
deriving Repr, Inhabited

namespace Node

def isElement : Node → Bool
  | .element .. => true
  | .text _ => false

/-- The text of a node, trimmed, if it is a text with more than white space. -/
def trimmedText? : Node → Option (List Char)
  | .element .. => none
  | .text value =>
    let trimmed := Text.trim value.toList
    if trimmed.isEmpty then none else some trimmed

end Node

/-- The texts directly below an element, trimmed and joined by single spaces. -/
def flattenedText (children : List Node) : Option String :=
  match children.filterMap Node.trimmedText? with
  | [] => none
  | words => some (String.ofList ([' '].intercalate words))

/-! ## Walks -/

/-- What a walk over a forest meets: an element at its depth, or a text below an element of a
depth. The outermost elements have depth one. -/
inductive Visit
  | element (depth : Nat) (tag : OpeningTag) (location : Option Position) (children : List Node)
  | text (depth : Nat) (value : String)
deriving Repr

mutual

/-- What a walk over a node meets, parents before children, below `depth` open elements. -/
def Node.visits (depth : Nat) : Node → List Visit
  | .element tag location children =>
    .element (depth + 1) tag location children :: visitsOf (depth + 1) children
  | .text value => [.text depth value]

/-- What a walk over a forest meets, in source order. -/
def visitsOf (depth : Nat) : List Node → List Visit
  | [] => []
  | node :: nodes => node.visits depth ++ visitsOf depth nodes

end

end OriginTags.Markup
