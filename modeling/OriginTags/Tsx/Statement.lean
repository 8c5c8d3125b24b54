import OriginTags.Tsx.Expression
/-!
# Statements

Statements and declarations inside a module. The declarations that tie modules together are in a
module of their own.
-/

namespace OriginTags.Tsx

open Tsx.Parser

/-! ## Variables -/

inductive VariableKind
  /-- By `var` or `let`. -/
  | changeable
  /-- By `const`. -/
  | constant
  /-- By `using`. -/
  | resource
deriving DecidableEq, Repr

/-- One variable with its type and value; tells whether it lacks a value that it needs. A name that
is said to have a value has a type and none here. -/
def declarator (g : Grammar) (kind : VariableKind) : Parser Bool := do
  let isName ← atBindingName
  g .binding
  let isDefinite ← if isName && !(← newlineBefore) then eatSymbol "!" else pure false
  let isTyped ← atSymbol ":"
  typeAnnotation g
  let hasValue ← eatSymbol "="
  if hasValue then
    let _ ← g (.assignment false)
  flawIf (isDefinite && (hasValue || !isTyped))
  flawIf (kind == .resource && !isName)
  return !hasValue && (kind != .changeable || !isName)

/-- Variables with commas between them; tells whether some lacks a value that it needs. -/
def declarators (g : Grammar) (kind : VariableKind) : Parser Bool := do
  growing (fun lacking => do
    if ← eatSymbol "," then return some ((← declarator g kind) || lacking)
    else return none) (← declarator g kind)

/-- Variables as a statement, after the word that declares them. Only ambient ones need no
values. -/
def declaredVariables (g : Grammar) (kind : VariableKind) : Parser Unit := do
  let lacking ← declarators g kind
  flawIf (lacking && !(← context).ambient)
  endOfStatement

def operatorSymbols : List String :=
  ["==", "!=", "===", "!==", "<", "<=", ">", "<<", "+", "-", "*", "/", "%", "**", "|", "^", "&",
   "=", "+=", "-=", "*=", "/=", "%=", "**=", "<<=", "&=", "|=", "^=", "&&=", "||=", "??="]

/-- A statement that begins with `let`: a declaration, unless an operator or an access follows the
word, or the end of the statement. -/
def letStatement (g : Grammar) (position : Position) : Parser Unit := do
  let next ← answerOf (do advance; token) .endOfInput
  if next.isSymbolIn operatorSymbols || next.isWordOf "in" || next.isWordOf "instanceof" then
    let _ ← g (.assignment false)
    endOfStatement
  else if next.isSymbolIn [".", "("] then
    let _ ← g .expression
  else if next == .symbol ";" || (position == .single && next != .symbol "[") then
    let _ ← name
    endOfStatement
  else
    advance
    flawIf (position == .single)
    declaredVariables g .changeable

def atUsing : Parser Bool := do
  if ← atWord "using" then nextIs fun t newline => t.isBindingName && !newline else return false

/-- Whether the current `await` and what follows it declare variables. -/
def atAwaitUsing : Parser Bool := do
  if ← atWord "await" then
    lookahead do
      advance
      require !(← newlineBefore)
      atUsing
  else return false

def usingStatement (g : Grammar) : Parser Unit := do
  let _ ← eatWord "await"
  word "using"
  declaredVariables g .resource

/-! ## Loops -/

def condition (g : Grammar) : Parser Unit := do
  symbol "("
  let _ ← g .expression
  symbol ")"

def body (g : Grammar) : Parser Unit := g (.statement .single)

/-- The permissions in the first part of the head of a loop. -/
def Context.inLoopHead (c : Context) : Context := { c with inOperator := false }

/-- What follows the first part of the head of a loop over values or keys. -/
def loopOver (g : Grammar) (awaits : Bool) : Parser Unit := do
  if ← eatWord "of" then
    let _ ← g (.assignment false)
  else
    word "in"
    flawIf awaits
    let _ ← g .expression

def loopCount (g : Grammar) (awaits : Bool) : Parser Unit := do
  flawIf awaits
  symbol ";"
  if !(← atSymbol ";") then
    let _ ← g .expression
  symbol ";"
  if !(← atSymbol ")") then
    let _ ← g .expression

/-- Whether the first part of the head of a loop over values or keys ends here. -/
def atLoopWord : Parser Bool := return (← token).isWordOf "of" || (← token).isWordOf "in"

/-- The head of a loop that declares variables, after the word that declares them. -/
def variableLoop (g : Grammar) (awaits : Bool) (kind : VariableKind) : Parser Unit := do
  let lacking ← inContext Context.inLoopHead (declarators g kind)
  if ← atLoopWord then
    flawIf (kind == .resource && (← atWord "in"))
    loopOver g awaits
  else
    flawIf (lacking && kind != .resource && !(← context).ambient)
    loopCount g awaits

/-- Whether the current `let` declares the variables of a loop. -/
def atLoopLet : Parser Bool := do
  match ← token with
  | .word "let" false =>
    nextIs fun t _ => t.isSymbolIn ["\x7b", "["] || (t.isWord && !t.isWordOf "in")
  | _ => return false

/-- Whether the current `using` declares the variables of a loop. One that is named `of` shows by
what follows it. -/
def atLoopUsing : Parser Bool :=
  lookahead do
    word "using"
    require ((← atBindingName) && !(← newlineBefore))
    if ← atWord "of" then nextIs fun t _ => t.isSymbolIn ["=", ";", ":"] else return true

/-- The head of a loop that begins with an expression. -/
def expressionLoop (g : Grammar) (awaits : Bool) : Parser Unit := do
  let isAsync ← atWord "async"
  let isLet ← atWord "let"
  let target ← inContext Context.inLoopHead (g .expression)
  if ← atLoopWord then
    flawIf ((← atWord "of") && (isLet || (isAsync && !awaits && target.isName)))
    useAsTarget target
    loopOver g awaits
  else loopCount g awaits

def loopHead (g : Grammar) (awaits : Bool) : Parser Unit := do
  if ← atSymbol ";" then loopCount g awaits
  else if ← eatWord "const" then variableLoop g awaits .constant
  else if ← eatWord "var" then variableLoop g awaits .changeable
  else if ← atLoopLet then
    advance
    variableLoop g awaits .changeable
  else if ← atLoopUsing then
    advance
    variableLoop g awaits .resource
  else if ← atAwaitUsing then
    advance
    advance
    variableLoop g awaits .resource
  else expressionLoop g awaits

def forStatement (g : Grammar) : Parser Unit := do
  word "for"
  let awaits ← eatWord "await"
  flawIf (awaits && !(← context).awaits)
  symbol "("
  loopHead g awaits
  symbol ")"
  body g

def whileStatement (g : Grammar) : Parser Unit := do
  advance
  condition g
  body g

def doStatement (g : Grammar) : Parser Unit := do
  word "do"
  body g
  word "while"
  condition g
  let _ ← eatSymbol ";"

/-! ## Control flow -/

def ifStatement (g : Grammar) : Parser Unit := do
  word "if"
  condition g
  body g
  if ← eatWord "else" then body g

def caseBody (g : Grammar) : Parser Unit :=
  repeatWhile do
    if (← atSymbol "\x7d") || (← atWord "case") || (← atWord "default") then return false
    flawIf ((← atUsing) || (← atAwaitUsing))
    g (.statement .listed)
    return true

def switchStatement (g : Grammar) : Parser Unit := do
  word "switch"
  condition g
  symbol "\x7b"
  repeatWhile do
    if ← atSymbol "\x7d" then return false
    if ← eatWord "case" then
      let _ ← g .expression
    else word "default"
    symbol ":"
    caseBody g
    return true
  symbol "\x7d"

def tryStatement (g : Grammar) : Parser Unit := do
  word "try"
  g .block
  let handled ← eatWord "catch"
  if handled then
    if ← eatSymbol "(" then
      g .binding
      typeAnnotation g
      symbol ")"
    g .block
  let finished ← eatWord "finally"
  if finished then g .block
  flawIf !(handled || finished)

def returnStatement (g : Grammar) : Parser Unit := do
  word "return"
  flawIf !(← context).returns
  if !(← canEndStatement) then
    let _ ← g .expression
  endOfStatement

def throwStatement (g : Grammar) : Parser Unit := do
  word "throw"
  flawIf (← newlineBefore)
  let _ ← g .expression
  endOfStatement

def jumpStatement : Parser Unit := do
  advance
  if !(← canEndStatement) then
    let _ ← name
  endOfStatement

/-! ## Declarations of types and namespaces -/

def enumMember (g : Grammar) : Parser Unit := do
  match ← token with
  | .word .. => passName
  | .string .. => advance
  | .symbol "[" =>
    advance
    match ← token with
    | .string .. => advance
    | .template true _ => advance
    | _ => failure
    symbol "]"
  | _ => failure
  let _ ← defaultValue g

def enumTail (g : Grammar) (modifiers : List Modifier) : Parser Unit := do
  Modifier.allow [.declare, .const] modifiers
  word "enum"
  let _ ← name
  symbol "\x7b"
  commaList "\x7d" (enumMember g)

/-- An interface from the word `interface` on. It extends dotted names and implements nothing. -/
def interfaceTail (g : Grammar) (modifiers : List Modifier) : Parser Unit := do
  Modifier.allow [.declare] modifiers
  word "interface"
  let _ ← name
  let _ ← typeParameters g
  let found ← heritage g
  flawIf (found.implements || !(found.parents.getD []).all Shape.isDotted)
  typeMembers g

/-- A name for a type from the word `type` on. -/
def typeTail (g : Grammar) (modifiers : List Modifier) : Parser Unit := do
  Modifier.allow [.declare] modifiers
  word "type"
  let _ ← name
  let _ ← typeParameters g
  symbol "="
  let _ ← g .type
  endOfStatement

/-- A namespace, or the declaration of a module, which has a string for its name. -/
def namespaceTail (g : Grammar) (modifiers : List Modifier) : Parser Unit := do
  Modifier.allow [.declare] modifiers
  let isModule ← atWord "module"
  advance
  match ← token with
  | .string .. =>
    require isModule
    advance
    if ← atSymbol "\x7b" then g .block else endOfStatement
  | _ =>
    separatedBy "." (do let _ ← name)
    g .block

def globalTail (g : Grammar) (modifiers : List Modifier) : Parser Unit := do
  Modifier.allow [.declare] modifiers
  word "global"
  g .block

/-- The value of an import by assignment: a module or a dotted name. -/
def importAssignment : Parser Unit := do
  symbol "="
  if ← eatWord "require" then
    symbol "("
    let _ ← stringLiteral
    symbol ")"
  else
    let _ ← anyWord
    dottedWords
  endOfStatement

def variableTail (g : Grammar) (modifiers : List Modifier) : Parser Unit := do
  Modifier.allow [.declare] modifiers
  let isConstant ← atWord "const"
  advance
  declaredVariables g (if isConstant then .constant else .changeable)

/-- A declaration behind its decorators and modifiers. Only classes have decorators. -/
def declarationTail (g : Grammar) (modifiers : List Modifier) (decorated : Bool) : Parser Unit := do
  let .word w _ ← token | failure
  flawIf (decorated && w != "class")
  if w == "var" || w == "let" || w == "const" then variableTail g modifiers
  else if w == "function" then
    Modifier.allow [.declare, .async] modifiers
    functionTail g .declaration (modifiers.contains .async) (modifiers.contains .declare)
  else if w == "class" then classTail g modifiers
  else if w == "enum" then enumTail g modifiers
  else if w == "interface" then interfaceTail g modifiers
  else if w == "type" then typeTail g modifiers
  else if w == "module" || w == "namespace" then namespaceTail g modifiers
  else if w == "global" then globalTail g modifiers
  else if w == "import" then
    advance
    let _ ← name
    importAssignment
  else failure

/-- The permissions in a declaration with some modifiers. -/
def Context.withModifiers (modifiers : List Modifier) (c : Context) : Context :=
  { c with ambient := c.ambient || modifiers.contains .declare }

/-- The words that may stand before a declaration on the same line. -/
def leadingWords : List String :=
  ["abstract", "accessor", "async", "declare", "private", "protected", "public", "readonly"]

/-- Whether what is at the cursor is a declaration, behind words that may stand before one. -/
def opensDeclaration : Parser Bool := do
  let .word w _ ← token | return false
  advance
  let t ← token
  let newline ← newlineBefore
  if ["var", "let", "const", "function", "class", "enum"].contains w then return true
  else if w == "interface" || w == "type" then return t.isBindingName && !newline
  else if w == "module" || w == "namespace" then
    return (t.isBindingName || t matches .string ..) && !newline
  else if w == "global" then
    return t.isFreeName || t == .symbol "\x7b" || t.isWordOf "export"
  else if w == "import" then return t.isWord || t matches .string .. || t.isSymbolIn ["*", "\x7b"]
  else if w == "export" then
    return t.isSymbolIn ["=", "*", "\x7b", "@"] || t.isWordOf "default" || t.isWordOf "as"
  else return false

/-- Whether a declaration that only programs with types have begins here. -/
def atTypedDeclaration : Parser Bool :=
  lookahead do
    repeatWhile do
      match ← token with
      | .word w _ =>
        if leadingWords.contains w then
          advance
          require !(← newlineBefore)
          return true
        else eatWord "static"
      | _ => return false
    opensDeclaration

/-- A declaration that only programs with types have. Outside of functions `await` is a name in
it. -/
def typedDeclaration (g : Grammar) : Parser Unit := do
  let modifiers ← Modifier.ofDeclaration
  inContext (fun c => { c.withModifiers modifiers with awaits := false })
    (declarationTail g modifiers false)

/-! ## Statements -/

def block (g : Grammar) : Parser Unit := do
  symbol "\x7b"
  repeatWhile do
    if ← atSymbol "\x7d" then return false
    g (.statement .listed)
    return true
  symbol "\x7d"

/-- An expression as a statement, or a statement with a label. -/
def plainStatement (g : Grammar) : Parser Unit := do
  let shape ← g .expression
  if shape.isName && (← atSymbol ":") then
    advance
    body g
  else endOfStatement

/-- A declaration that every program may have, if there is one; tells whether there is. -/
def plainDeclaration (g : Grammar) (position : Position) (w : String) : Parser Bool := do
  let isSingle := position == .single
  if w == "function" then
    flawIf (isSingle && (← nextSymbol "*"))
    functionTail g .declaration false false
    return true
  else if w == "async" && (← nextWordHere "function") then
    flawIf isSingle
    advance
    functionTail g .declaration true false
    return true
  else if w == "class" then
    flawIf isSingle
    classTail g []
    return true
  else if w == "const" && (← nextWord "enum") then
    advance
    enumTail g [.const]
    return true
  else if w == "var" || w == "const" then
    flawIf (isSingle && w == "const")
    variableTail g []
    return true
  else if (← atUsing) || (← atAwaitUsing) then
    flawIf isSingle
    usingStatement g
    return true
  else return false

/-- The words that begin a declaration that only programs with types have. -/
def typedWords : List String :=
  ["interface", "type", "module", "namespace", "declare", "enum", "private", "protected", "public",
   "abstract", "accessor", "static", "readonly", "global"]

/-- A statement that begins with a word. -/
def wordStatement (g : Grammar) (position : Position) (w : String) (escaped : Bool) :
    Parser Unit := do
  if w == "if" then ifStatement g
  else if w == "for" then forStatement g
  else if w == "while" || w == "with" then whileStatement g
  else if w == "do" then doStatement g
  else if w == "return" then returnStatement g
  else if w == "break" || w == "continue" then jumpStatement
  else if w == "throw" then throwStatement g
  else if w == "try" then tryStatement g
  else if w == "switch" then switchStatement g
  else if w == "debugger" then
    advance
    endOfStatement
  else if w == "let" && !escaped then letStatement g position
  else if typedWords.contains w && (← atTypedDeclaration) then typedDeclaration g
  else if !(← plainDeclaration g position w) then plainStatement g

end OriginTags.Tsx
