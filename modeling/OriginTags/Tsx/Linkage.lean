import OriginTags.Markup.Import
import OriginTags.Tsx.Statement
/-!
# Imports and exports

The declarations that tie a module to others.
-/

namespace OriginTags.Tsx

open Tsx.Parser
open Markup (Import ImportBinding)

/-! ## Shared parts -/

/-- Whether a token is a name that other modules see: a word or a string. -/
def isSharedName : Token → Bool
  | .word .. | .string .. => true
  | _ => false

/-- A name that other modules see. A string of them is made of whole characters. -/
def sharedName : Parser String := do
  match ← token with
  | .word w _ =>
    passName
    return w
  | .string value lone =>
    flawIf lone
    advance
    return value
  | _ => failure

/-- An attribute of an import, whose key is none of those before it. -/
def importAttribute (keys : List String) : Parser (List String) := do
  let key ← match ← token with
    | .string value _ => do
      advance
      pure value
    | _ => anyWord
  flawIf (keys.contains key)
  symbol ":"
  let _ ← stringLiteral
  return key :: keys

def importAttributes : Parser Unit := do
  if (← atWord "with") || ((← atWord "assert") && !(← newlineBefore)) then
    advance
    symbol "\x7b"
    let _ ← commaFold "\x7d" importAttribute []
    symbol "\x7d"

def fromClause : Parser String := do
  word "from"
  let source ← stringLiteral
  importAttributes
  return source

/-- Whether the current `type` modifies the name that follows it in braces, and is no name
itself. -/
def modifiesSpecifier : Parser Bool :=
  lookahead do
    word "type"
    if ← eatWord "as" then
      if ← eatWord "as" then return isSharedName (← token)
      else return !isSharedName (← token)
    else return isSharedName (← token)

/-- Skips the `type` that modifies a name in braces, where not all names are those of types. -/
def specifierType (typeOnly : Bool) : Parser Unit := do
  if ← modifiesSpecifier then
    flawIf typeOnly
    advance

/-! ## Imports -/

def localName : Parser String := do
  flawIf !(← token).isFreeName
  anyWord

def importSpecifier (typeOnly : Bool) : Parser ImportBinding := do
  specifierType typeOnly
  require (isSharedName (← token))
  if ← nextWord "as" then
    let _ ← sharedName
    advance
  return ⟨.named, ← localName⟩

def importSpecifiers (typeOnly : Bool) : Parser (List ImportBinding) := do
  symbol "\x7b"
  let found ← commaFold "\x7d" (fun found => do return (← importSpecifier typeOnly) :: found) []
  symbol "\x7d"
  return found.reverse

/-- The names of an import that are not its default: a namespace or names in braces. -/
def importedNames (typeOnly : Bool) : Parser (List ImportBinding) := do
  if ← eatSymbol "*" then
    word "as"
    return [⟨.namespaced, ← name⟩]
  else importSpecifiers typeOnly

def modifiesImport : Parser Bool :=
  lookahead do
    advance
    match ← token with
    | .symbol "\x7b" | .symbol "*" => return true
    | .word "from" _ =>
      advance
      return (← atWord "from") || (← atSymbol "=")
    | t => return t.isBindingName

/-- Whether the current word tells when the imported module is run. -/
def delaysImport : Parser Bool := do
  if ← atWord "defer" then nextSymbol "*"
  else if ← atWord "source" then
    lookahead do
      advance
      require (← atBindingName)
      nextWord "from"
  else return false

/-- An import declaration. An import by assignment binds a name in this module only. -/
def importDeclaration : Parser (Option Import) := do
  word "import"
  match ← token with
  | .string source _ =>
    advance
    importAttributes
    endOfStatement
    return some ⟨source, []⟩
  | _ =>
    let typeOnly ← if ← atWord "type" then modifiesImport else pure false
    if typeOnly || (← delaysImport) then advance
    if (← token).isSymbolIn ["*", "\x7b"] then
      let names ← importedNames typeOnly
      let source ← fromClause
      endOfStatement
      return some ⟨source, names⟩
    else
      let first ← name
      if ← atSymbol "=" then
        importAssignment
        return none
      else
        let isJoined ← eatSymbol ","
        flawIf (isJoined && typeOnly)
        let names ← if isJoined then importedNames typeOnly else pure []
        let source ← fromClause
        endOfStatement
        return some ⟨source, ⟨.default, first⟩ :: names⟩

/-! ## Exports -/

/-- A name in the braces of an export; tells whether it may name a variable of the module. -/
def exportSpecifier (typeOnly : Bool) : Parser Bool := do
  specifierType typeOnly
  let isLocal := match ← token with
    | .word w _ => isFree w && !strictWords.contains w
    | _ => false
  let _ ← sharedName
  if ← eatWord "as" then
    let _ ← sharedName
  return isLocal

/-- The names in the braces of an export; tells whether all may name variables of the module. -/
def exportSpecifiers (typeOnly : Bool) : Parser Bool := do
  symbol "\x7b"
  let areLocal ← commaFold "\x7d" (fun areLocal => do
    return (← exportSpecifier typeOnly) && areLocal) true
  symbol "\x7d"
  return areLocal

/-- The module that names in braces come from, if there is one; tells whether there is. The word
`from` may stand alone. -/
def exportSource : Parser Bool := do
  if !(← atWord "from") then return false
  if ← nextIs fun t _ => t.isLiteral then
    let _ ← fromClause
    return true
  else
    advance
    return false

def exportedNames (typeOnly : Bool) : Parser Unit := do
  if ← eatSymbol "*" then
    if ← eatWord "as" then
      let _ ← sharedName
    let _ ← fromClause
  else
    let areLocal ← exportSpecifiers typeOnly
    let hasSource ← exportSource
    flawIf !(hasSource || areLocal)
  endOfStatement

/-- The decorators before an exported class, which stand before `export` or behind it. -/
def exportedDecorators (g : Grammar) (decorated : Bool) : Parser Bool := do
  let further ← decorators g
  flawIf (decorated && further)
  return decorated || further

/-- What the default export is, behind its words. -/
def exportDefault (g : Grammar) (decorated : Bool) : Parser Unit := do
  word "default"
  let decorated ← exportedDecorators g decorated
  if ← atWord "class" then classTail g []
  else if (← atWord "abstract") && (← nextWordHere "class") then
    advance
    classTail g [.abstract]
  else
    flawIf decorated
    if ← atWord "function" then functionTail g .defaultExport false false
    else if (← atWord "async") && (← nextWordHere "function") then
      advance
      functionTail g .defaultExport true false
    else if ← atWord "interface" then interfaceTail g []
    else
      let _ ← g (.assignment false)
      endOfStatement

def exportedDeclaration (g : Grammar) (decorated : Bool) : Parser Unit := do
  let decorated ← exportedDecorators g decorated
  let modifiers ← Modifier.ofDeclaration
  inContext (Context.withModifiers modifiers) (declarationTail g modifiers decorated)

def exportDeclaration (g : Grammar) (decorated : Bool) : Parser Unit := do
  word "export"
  match ← token with
  | .symbol "=" =>
    advance
    let _ ← g (.assignment false)
    endOfStatement
  | .symbol "*" | .symbol "\x7b" => exportedNames false
  | .word w _ =>
    if w == "default" then exportDefault g decorated
    else if w == "as" then
      advance
      word "namespace"
      let _ ← anyWord
      endOfStatement
    else if w == "import" then require (← importDeclaration).isNone
    else if w == "type" && (← nextIs fun t _ => t.isSymbolIn ["*", "\x7b"]) then
      advance
      exportedNames true
    else exportedDeclaration g decorated
  | _ => exportedDeclaration g decorated

/-! ## Statements of every kind -/

/-- Whether the current `import` begins a declaration and no expression. -/
def atImportDeclaration : Parser Bool := do
  if ← atWord "import" then nextIs fun t _ => !t.isSymbolIn ["(", "."] else return false

/-- A statement behind decorators: an export or a class. -/
def decoratedStatement (g : Grammar) : Parser Unit := do
  let _ ← decorators g
  if ← atWord "export" then exportDeclaration g true
  else
    let modifiers ← Modifier.ofDeclaration
    classTail g modifiers

def statement (g : Grammar) (position : Position) : Parser Unit := do
  match ← token with
  | .symbol "\x7b" => g .block
  | .symbol ";" => advance
  | .symbol "@" => decoratedStatement g
  | .word w escaped =>
    if ← atImportDeclaration then
      let _ ← importDeclaration
    else if w == "export" then exportDeclaration g false
    else wordStatement g position w escaped
  | _ => plainStatement g

end OriginTags.Tsx
