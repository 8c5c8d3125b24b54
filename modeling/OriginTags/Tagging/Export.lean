import OriginTags.Files.Tree
import OriginTags.Json.Writer
import OriginTags.Trace
/-!
# Exported statistics

The statistics may be written to a file below the project's root. A path that leads out of the root,
by its text or through links, is refused, when the options are resolved and again before writing.
-/

namespace OriginTags.Export

open OriginTags.Path (Component components ofComponents)

inductive ExportError
  | outsideRoot (path : String)
  | io
deriving DecidableEq, Repr

def ExportError.message : ExportError → String
  | .outsideRoot path => "refusing to write outside the project root: " ++ Path.display path
  | .io => "I/O error"

/-- The beginnings of a list, shortest first. -/
def beginnings : List Component → List (List Component)
  | [] => [[]]
  | c :: cs => [] :: (beginnings cs).map (c :: ·)

/-- The directories around a path, innermost first, from the path itself on. -/
def ancestors : List Component → List (List Component)
  | .root :: rest => (beginnings rest).reverse.map (.root :: ·)
  | parts => (beginnings parts).reverse

def isBelow (root parts : List Component) : Bool := root.isPrefixOf parts

/-- Whether what exists of a path lies below a root once all links are followed. -/
def staysBelow (files : FileTree) (canonicalRoot : List Char) (parts : List Component) : Bool :=
  -- A link that leads nowhere exists too, and stops the search.
  match (ancestors parts).find? fun a => files.isPresent (ofComponents a) with
  | none => true
  | some existing =>
    match files.canonicalize (ofComponents existing) with
    | some place => isBelow (components canonicalRoot) (components place)
    | none => false

/-- The components of the file that a text names, seen from a root. -/
def requestedComponents (root raw : List Char) : List Component :=
  (components (Path.join root raw)).filter (· != .current)

/-- The file that a path leads to, seen from a root, if it is below that root. -/
def confine (files : FileTree) (root requested : String) : Except ExportError String :=
  if (components requested.toList).contains .parent then .error (.outsideRoot requested)
  else
    let parts := requestedComponents root.toList requested.toList
    let path := String.ofList (ofComponents parts)
    let rootParts := components root.toList
    if !isBelow rootParts parts || parts == rootParts then .error (.outsideRoot path)
    else
      match files.canonicalize root.toList with
      | none => .error .io
      | some canonicalRoot =>
        if staysBelow files canonicalRoot parts then .ok path else .error (.outsideRoot path)

/-- The file that a text names, seen from a root, if it is below that root. -/
def resolvePath (files : FileTree) (root raw : String) : Except ExportError String :=
  confine files root (Path.ofString raw)

/-- Writes statistics to the file that a path leads to. Gives the path of the file and the new tree; on
an error the tree may have new directories. -/
def write (files : FileTree) (root target : String) (statistics : Statistics)
    (order : Statistics.Order := .sorted) : Except ExportError String × FileTree :=
  match resolvePath files root (Path.display target) with
  | .error e => (.error e, files)
  | .ok path =>
    let parents := ((ancestors (components path.toList)).drop 1).map ofComponents
    match files.makeDirectories parents with
    | (files, false) => (.error .io, files)
    | (files, true) =>
      -- Directories may have appeared since the first check.
      match resolvePath files root (Path.display path) with
      | .error e => (.error e, files)
      | .ok path =>
        match files.write path.toList (statistics.toJson order).pretty with
        | none => (.error .io, files)
        | some files => (.ok path, files)

/-- Writes statistics and logs what came of it. -/
def writeLogged (files : FileTree) (root target : String) (statistics : Statistics)
    (order : Statistics.Order := .sorted) : Traced FileTree := do
  let (result, files) := write files root target statistics order
  match result with
  | .ok path => log .info [("path", Path.display path)] "Exported tagging statistics"
  | .error (.outsideRoot path) =>
    warn [("path", Path.display path)] "Security: stats export path escapes the project root, not writing"
  | .error .io => log .error [] ("Failed to export tagging statistics: " ++ ExportError.io.message)
  return files

end OriginTags.Export
