import OriginTags.Files.Path
import OriginTags.Files.Spelling
/-!
# File trees

A finite tree of directories, files and symbolic links, and the operations on it. A place in the
tree is the list of names that lead to it from the root; the text of a path leads to a place through
links, dots and double dots.
-/

namespace OriginTags

inductive FileEntry
  | directory
  | file (content : String)
  | link (target : String)
deriving DecidableEq, Repr

/-- A place in a file tree: the names from the root to it. -/
abbrev Place := List String

/-- A finite file tree: what its places hold. The root is always a directory. -/
structure FileTree where
  entries : List (Place × FileEntry)
deriving DecidableEq, Repr, Inhabited

namespace FileTree

def get? (t : FileTree) (place : Place) : Option FileEntry :=
  if place = [] then some .directory else t.entries.lookup place

/-- Puts an entry at a place, instead of what was there. -/
def put (t : FileTree) (place : Place) (entry : FileEntry) : FileTree :=
  if (t.entries.lookup place).isSome then
    ⟨t.entries.map fun e => if e.1 = place then (place, entry) else e⟩
  else ⟨t.entries ++ [(place, entry)]⟩

/-! ## Resolution -/

/-- Where a path leads. -/
inductive Resolution
  | found (place : Place) (entry : FileEntry)
  /-- Only the last name is missing, in a directory that exists. -/
  | missing (place : Place)
  /-- The way there does not exist. -/
  | noDirectory
  /-- The way there leads through a file, through too many links or to a name that is too long. -/
  | blocked
deriving DecidableEq, Repr

/-- The names of a path between its slashes. -/
def names (path : List Char) : List String := (path.splitOn '/').map String.ofList

def maxNameBytes : Nat := 255

/-- Whether a name may stand in a directory: it is not too long. -/
def isShort (name : String) : Bool := Path.byteSize name.toList ≤ maxNameBytes

/-- Follows names from a directory, to places that are allowed. A link on the way goes on with
`again`; one at the end does so only if it is to be followed. -/
def follow (t : FileTree) (allowed : Place → Bool) (again : Place → List String → Resolution)
    (followLast : Bool) : Place → List String → Resolution
  | place, [] => .found place .directory
  | place, name :: rest =>
    if name = "" || name = "." then follow t allowed again followLast place rest
    else if name = ".." then follow t allowed again followLast place.dropLast rest
    else
      let next := place ++ [name]
      if isShort name && allowed next then
        match t.get? next with
        | none => if rest.isEmpty then .missing next else .noDirectory
        | some .directory => follow t allowed again followLast next rest
        | some (.file content) => if rest.isEmpty then .found next (.file content) else .blocked
        | some (.link target) =>
          if rest.isEmpty && !followLast then .found next (.link target)
          else
            -- A relative target is seen from the directory that the link stands in.
            let start := if Path.isAbsolute target.toList then [] else place
            again start (names target.toList ++ rest)
      else .blocked

/-- Follows names from a directory through at most `links` links. -/
def resolveFrom (t : FileTree) (allowed : Place → Bool) (followLast : Bool) :
    (links : Nat) → Place → List String → Resolution
  | 0 => fun _ _ => .blocked
  | links + 1 => t.follow allowed (resolveFrom t allowed followLast links) followLast

def maxLinks : Nat := 41

/-- Where a path leads through places that are allowed. There is no current directory, so a relative
path leads nowhere, and no name holds a null character. -/
def resolveWithin (t : FileTree) (allowed : Place → Bool) (followLast : Bool) (path : List Char) :
    Resolution :=
  if path.contains '\x00' then .blocked
  else if Path.isAbsolute path then t.resolveFrom allowed followLast maxLinks [] (names path)
  else .noDirectory

def maxPathBytes : Nat := 4095

/-- Where a path leads. -/
def resolve (t : FileTree) (followLast : Bool) (path : List Char) : Resolution :=
  if maxPathBytes < Path.byteSize path then .blocked
  else t.resolveWithin (fun _ => true) followLast path

/-! ## Operations -/

/-- The text of a place. -/
def placeText (place : Place) : List Char :=
  '/' :: ['/'].intercalate (place.map String.toList)

/-- Whether the text of a place may be a path. -/
def isReachable (place : Place) : Bool := Path.byteSize (placeText place) ≤ maxPathBytes

/-- The place that a path leads to, with every link followed, as a path. It is found name by name, so
it and the places on the way must have texts that may be paths, though the path itself need not. -/
def canonicalize (t : FileTree) (path : List Char) : Option (List Char) :=
  match t.resolveWithin isReachable true path with
  | .found place _ => some (placeText place)
  | _ => none

/-- Whether a path leads to something, even to a link that leads nowhere. -/
def isPresent (t : FileTree) (path : List Char) : Bool :=
  t.resolve false path matches .found ..

def isDirectory (t : FileTree) (path : List Char) : Bool :=
  t.resolve true path matches .found _ .directory

/-- Makes the directories of a path that do not exist, outermost first, and tells whether all of
them exist then. Those that were made before a failure stay. -/
def makeDirectories (t : FileTree) : (parents : List (List Char)) → FileTree × Bool
  | [] => (t, true)
  | path :: parents =>
    match t.resolve false path with
    | .missing place => (t.put place .directory, true)
    | .noDirectory =>
      -- Only a way that does not exist is a reason to make the directories around.
      let (t, made) := makeDirectories t parents
      if !made then (t, false)
      else
        match t.resolve false path with
        | .missing place => (t.put place .directory, true)
        | _ => (t, t.isDirectory path)
    | _ => (t, t.isDirectory path)

/-- Writes a file, which a path leads to. Nothing if that is not possible. -/
def write (t : FileTree) (path : List Char) (content : String) : Option FileTree :=
  match t.resolve true path with
  | .found place (.file _) => some (t.put place (.file content))
  | .missing place => some (t.put place (.file content))
  | _ => none

end FileTree

end OriginTags
