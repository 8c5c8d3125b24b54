import OriginTags.Tagging.Attributes
import OriginTags.Tagging.Exclusion
import OriginTags.Tagging.Insertion
import OriginTags.Tagging.Splice
import OriginTags.Tsx.Program
/-!
# Tagging

Every eligible element of a file gets attributes that tell where it stands. A tagger does so for the
files of a run, one after the other, and counts what it did.
-/

namespace OriginTags

/-! ## Files -/

/-- A file that is no program. What the parser has to say about it is not kept. -/
structure ParseError where
  file : String
deriving DecidableEq, Repr

def ParseError.message (e : ParseError) : String := "failed to parse " ++ e.file

/-- The elements and imports of a source. -/
structure SourceModule where
  imports : List Markup.Import
  elements : List Markup.Node
deriving Repr

/-- The elements and imports of a source, if it is a program. -/
def SourceModule.parse (source file : String) : Except ParseError SourceModule :=
  match Tsx.parse? source.toList with
  | some program => .ok ⟨program.imports, Markup.forest source.toList program.markup⟩
  | none => .error ⟨file⟩

/-- Whether a source is a program. -/
def isValidSource (source : String) : Bool := (Tsx.parse? source.toList).isSome

/-- What the tagging of a file goes by. -/
structure FileTask where
  config : Config
  library : LibraryBindings
  file : FileInfo
  source : List Char

def FileTask.ofModule (config : Config) (source : String) (file : FileInfo) (m : SourceModule) :
    FileTask :=
  { config, library := LibraryBindings.ofImports m.imports, file, source := source.toList }

/-- The context of an element of the file at a depth. -/
def FileTask.context (task : FileTask) (depth : Nat) (tag : Markup.OpeningTag)
    (location : Option Position) (children : List Markup.Node) : ElementContext :=
  ElementContext.ofElement tag location children task.file depth
    task.config.includeProps task.config.includeContent

/-- How far the tagging of a file has come. -/
structure Pass where
  /-- The opening tags of the elements around, innermost first. There are as many of them as the
  current depth. -/
  opened : List Span := []
  /-- What goes into the source, in the order in which elements were met. -/
  insertions : List Insertion := []
  /-- The names of the tagged elements, in the same order. -/
  tagged : List String := []
deriving DecidableEq, Repr

namespace Pass

def enter (p : Pass) (span : Span) : Pass := { p with opened := span :: p.opened }

/-- Leaves the innermost element. -/
def leave (p : Pass) : Pass := { p with opened := p.opened.tail }

def note (p : Pass) (name : String) (insertion : Insertion) : Pass :=
  { p with insertions := p.insertions ++ [insertion], tagged := p.tagged ++ [name] }

/-- Tags the element that was entered last, unless it is excluded or has no attributes to get. -/
def tagElement (task : FileTask) (tag : Markup.OpeningTag) (location : Option Position)
    (children : List Markup.Node) (p : Pass) : Traced Pass := do
  -- The element itself is on the stack already.
  let depth := p.opened.length
  if !isEligible task.config task.library tag.name depth then return p
  else
    let context := task.context depth tag location children
    if ← passesPredicate task.config context then
      let text ← Attributes.generate task.config context
      if text.isEmpty then return p
      else
        let offset ← insertionPoint task.source tag.span tag.selfClosing
        return p.note context.elementName ⟨offset, " " ++ text⟩
    else return p

mutual

/-- Tags an element and all elements below it, parents before children. -/
def visit (task : FileTask) : Markup.Node → Pass → Traced Pass
  | .element tag location children, p => do
    let p ← (p.enter tag.span).tagElement task tag location children
    let p ← visitAll task children p
    return p.leave
  | .text _, p => return p

/-- Tags the elements of a forest, in source order. -/
def visitAll (task : FileTask) : List Markup.Node → Pass → Traced Pass
  | [], p => return p
  | node :: nodes, p => do
    let p ← visit task node p
    visitAll task nodes p

end

end Pass

/-- What came of tagging a file. -/
structure Outcome where
  /-- The names of the tagged elements, in source order. -/
  tagged : List String
  /-- The new text, if anything was inserted. -/
  output : Option Spliced
deriving DecidableEq, Repr

/-- Names in quotes, sorted, for a log record. -/
def quotedNames (names : List String) : String :=
  let sorted := (Dictionary.ofList (names.map fun name => (name, ()))).keys
  "\x7b" ++ String.intercalate ", " (sorted.map fun name => (Json.string name).compact) ++ "\x7d"

def noteLibrary (file : FileInfo) (library : LibraryBindings) : Traced Unit :=
  if library.isEmpty then return ()
  else
    log .debug [("file", file.relativePath)]
      ("Library imports: " ++ quotedNames library.named ++ " / namespaces " ++
        quotedNames library.namespaces)

def tagModule (config : Config) (source : String) (file : FileInfo) (m : SourceModule) :
    Traced Outcome := do
  let task := FileTask.ofModule config source file m
  noteLibrary file task.library
  let pass ← Pass.visitAll task m.elements {}
  return {
    tagged := pass.tagged
    output :=
      if pass.insertions.isEmpty then none
      else some (Splice.finish source pass.insertions file.relativePath) }

def tagFile (config : Config) (source path : String) (file : FileInfo) :
    Traced (Except ParseError Outcome) := do
  match SourceModule.parse source path with
  | .error e => return .error e
  | .ok m =>
    let outcome ← tagModule config source file m
    return .ok outcome

/-! ## Runs -/

/-- The path of a module: what is before the first `?`, with forward slashes. -/
def modulePath (id : String) : String :=
  String.ofList (Text.replaceChar '\\' '/' (id.toList.takeWhile (· != '?')))

/-- Whether a path leads through a directory of installed packages. -/
def isVendored (path : String) : Bool :=
  Text.startsWith path.toList "node_modules/".toList ||
    Text.occursIn "/node_modules/".toList path.toList

/-- A run: its configuration and its counters. -/
structure Tagger where
  config : Config
  statistics : Statistics := {}

namespace Tagger

/-- A new run with some options. -/
def start (files : FileTree) (options : Options) (workingDirectory : Option String := none) :
    Traced Tagger := do
  let config ← Config.resolve files options workingDirectory
  return { config }

/-- Whether a path has one of the file extensions to process. -/
def hasSupportedExtension (config : Config) (path : String) : Bool :=
  config.extensions.any fun ext => Text.endsWith path.toList ext.toList

/-- Logs what became of a file. -/
def note (config : Config) (message : String) : Traced Unit :=
  log (if config.debug then .info else .debug) [] ("[dev-tagger] " ++ message)

/-- Tells the user's hook about a file. -/
def reportFile (config : Config) (file : FileInfo) (tagged : List String) : Traced Unit := do
  match config.onTransform with
  | none => return ()
  | some hook =>
    let report := FileReport.ofTagged file.relativePath tagged
    match ← invoke (.onTransform report) hook report with
    | .ok () => return ()
    | .error failure =>
      warn [("file", report.filePath)] ("onTransform failed: " ++ failure.message)

/-- Tags a file that is to be processed and counts it. -/
def process (t : Tagger) (code path : String) (file : FileInfo) :
    Traced (Tagger × Option Spliced) := do
  -- A file counts even if it turns out to be no program.
  let begun := { t.statistics with totalFiles := t.statistics.totalFiles + 1 }
  match ← tagFile t.config code path file with
  | .ok outcome =>
    reportFile t.config file outcome.tagged
    note t.config
      ("Tagged " ++ toString outcome.tagged.length ++ " elements in " ++ file.relativePath)
    return ({ t with statistics := begun.commit outcome.tagged }, outcome.output)
  | .error e =>
    log .error [("file", file.relativePath)] ("Skipping file: " ++ e.message)
    return ({ t with statistics := { begun with errors := begun.errors + 1 } }, none)

/-- Whether a module is left alone, whatever the path filters say. -/
def isGated (config : Config) (path : String) : Bool :=
  !config.enabled || !hasSupportedExtension config path || isVendored path

/-- Tags a module. Gives its new text, or nothing if it is left as it is. -/
def transform (t : Tagger) (code id : String) : Traced (Tagger × Option Spliced) := do
  let path := modulePath id
  if isGated t.config path then return (t, none)
  else
    let file := FileInfo.ofPath t.config.root path
    -- A pattern may be meant for the path below the root or for the path as it was given.
    if Glob.shouldProcess [file.relativePath, path] t.config.includePaths t.config.excludePaths then
      t.process code path file
    else
      note t.config ("Skipping " ++ file.relativePath ++ " (path filter)")
      return (t, none)

/-- Ends a run: a summary, the user's hook, and the exported statistics. -/
def finish (t : Tagger) (files : FileTree) (order : Statistics.Order := .sorted) :
    Traced FileTree := do
  log .info [] ("[dev-tagger] " ++ t.statistics.summary)
  match t.config.onComplete with
  | none => pure ()
  | some hook =>
    match ← invoke (.onComplete t.statistics) hook t.statistics with
    | .ok () => pure ()
    | .error failure => warn [] ("onComplete failed: " ++ failure.message)
  -- A hook that fails does not keep the statistics from being exported.
  match t.config.exportStats with
  | none => return files
  | some target => Export.writeLogged files t.config.root target t.statistics order

end Tagger

end OriginTags
