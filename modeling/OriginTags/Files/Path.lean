/-!
# Paths

Paths with slashes, compared by their components. Repeated slashes and inner dots have no meaning,
but a part of a path keeps its spelling.
-/

namespace OriginTags.Path

inductive Component
  | root
  /-- A leading `.` of a relative path. -/
  | current
  /-- `..`. -/
  | parent
  | normal (name : List Char)
deriving DecidableEq, Repr

/-- The component of a segment, if it has a meaning. -/
def segmentComponent (s : List Char) : Option Component :=
  if s = [] || s = ['.'] then none
  else if s = ['.', '.'] then some .parent
  else some (.normal s)

/-- Whether a path begins at the root. -/
def isAbsolute : List Char → Bool
  | '/' :: _ => true
  | _ => false

def components : List Char → List Component
  | '/' :: body => .root :: (body.splitOn '/').filterMap segmentComponent
  | path =>
    match path.splitOn '/' with
    | ['.'] :: rest => .current :: rest.filterMap segmentComponent
    | all => all.filterMap segmentComponent

def Component.text : Component → List Char
  | .root => []
  | .current => ['.']
  | .parent => ['.', '.']
  | .normal name => name

/-- The plain spelling of some components. -/
def ofComponents : List Component → List Char
  | .root :: rest => '/' :: ['/'].intercalate (rest.map Component.text)
  | all => ['/'].intercalate (all.map Component.text)

/-- A path followed by another one, which replaces it if it is absolute. -/
def join (base path : List Char) : List Char :=
  if isAbsolute path || base = [] then path
  else if base.getLast? = some '/' then base ++ path
  else base ++ '/' :: path

/-- The name of the file that a path leads to: its last component, if that is a normal one. -/
def fileName? (path : List Char) : Option (List Char) :=
  match (components path).getLast? with
  | some (.normal name) => some name
  | _ => none

/-! ## Relative paths -/

/-- Segments without those at the end that have no meaning. -/
def trimRight (parts : List (List Char)) : List (List Char) :=
  (parts.reverse.dropWhile fun s => (segmentComponent s).isNone).reverse

/-- Segments without those at the front that have no meaning. -/
def trimLeft (parts : List (List Char)) : List (List Char) :=
  parts.dropWhile fun s => (segmentComponent s).isNone

/-- The segments after those of some components. -/
def stripSegments : List Component → List (List Char) → Option (List (List Char))
  | [], parts => some parts
  | _ :: _, [] => none
  | c :: cs, s :: parts =>
    match segmentComponent s with
    | none => stripSegments (c :: cs) parts
    | some found => if found = c then stripSegments cs parts else none

/-- What follows the components of a base in an absolute path, as it is spelled, if the path begins
with them. -/
def stripBase? (base path : List Char) : Option (List Char) :=
  match path with
  | '/' :: body =>
    match components base with
    | [] => some ('/' :: ['/'].intercalate (trimRight (body.splitOn '/')))
    | .root :: rest =>
      (stripSegments rest (body.splitOn '/')).map fun parts =>
        ['/'].intercalate (trimRight (trimLeft parts))
    | _ => none
  | _ => none

end OriginTags.Path
