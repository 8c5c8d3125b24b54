import OriginTags.Tsx.Pattern
/-!
# Types

Types leave no markup behind, but where they end decides how the program around them is read.
-/

namespace OriginTags.Tsx

open Tsx.Parser

/-! ## Templates -/

/-- A template: its pieces and the substitutions between them. Behind a tag its escapes are free. -/
def template (tagged : Bool) (substitution : Parser Unit) : Parser Unit := do
  let .template ended valid ← token | failure
  require (valid || tagged)
  advance
  if ended then return
  repeatWhile do
    substitution
    require (← atSymbol "\x7d")
    match readTemplate (← get).lexeme.rest true with
    | some (.template ended valid, rest) =>
      require (valid || tagged)
      moveTo rest
      return !ended
    | _ => failure

/-! ## Arguments and parameters of types -/

def anyType (g : Grammar) : Parser TypeForm :=
  inContext ({ · with conditionalTypes := true }) (g .type)

def atTypeArguments : Parser Bool := return (← token).isSymbolIn ["<", "<<"]

/-- One or more types after an opening angle bracket. The cursor stops at the closing one. -/
def typeArgumentItems (g : Grammar) : Parser Unit := do
  require (← atTypeArguments)
  splitSymbol "<"
  advance
  require !(← atSymbol ">")
  commaFold ">" (fun _ => do let _ ← anyType g) ()

def typeArguments (g : Grammar) : Parser Unit := do
  typeArgumentItems g
  symbol ">"

/-- Types in angle brackets, if there are any. Here no longer symbol opens them. -/
def plainTypeArguments (g : Grammar) : Parser Unit := do
  if ← atSymbol "<" then typeArguments g

def typeParameter (g : Grammar) : Parser Unit := do
  Modifier.allow [.contravariant, .covariant, .const] (← Modifier.ofMember true false)
  let _ ← name
  if ← eatWord "extends" then
    let _ ← g .type
  if ← eatSymbol "=" then
    let _ ← g .type

/-- Type parameters in angle brackets, if there are any; tells whether there are. -/
def typeParameters (g : Grammar) : Parser Bool := do
  if ← eatSymbol "<" then
    require !(← atSymbol ">")
    commaList ">" (typeParameter g)
    return true
  else return false

/-! ## Signatures -/

/-- A type, or a statement about a parameter. -/
def typeOrPredicate (g : Grammar) : Parser Unit := do
  if (← token).isWord && (← nextWordHere "is") then
    passName
    advance
  let _ ← g .type

/-- The type of a result after its introduction. -/
def resultTypeTail (g : Grammar) : Parser Unit :=
  inContext ({ · with conditionalTypes := true }) (typeOrPredicate g)

def resultType (g : Grammar) : Parser Bool := do
  if ← eatSymbol ":" then
    resultTypeTail g
    return true
  else return false

/-- As much of a function without its body as its surroundings need to know. -/
structure Signature where
  /-- It has type parameters. -/
  generic : Bool
  parameters : Parameters
  /-- The type of its result is given. -/
  typed : Bool
deriving DecidableEq, Repr

/-- The parameters and the result of a function. -/
def signature (g : Grammar) (owner : Owner) : Parser Signature := do
  let generic ← typeParameters g
  let parameters ← parameters g owner
  let typed ← resultType g
  return { generic, parameters, typed }

def opensSignature (t : Token) : Bool := t.isSymbolIn ["(", "<"]

/-! ## Members -/

/-- The end of a member of a type, where a comma or a semicolon may stand. -/
def endOfTypeMember : Parser Unit := do
  if !(← eatSymbol ",") then
    let _ ← eatSymbol ";"

/-- Whether the current `[` opens an index signature. -/
def atIndexSignature : Parser Bool := do
  if !(← atSymbol "[") then return false
  lookahead do
    advance
    if (← token).isSymbolIn ["...", "]"] then return true
    if (Modifier.ofToken? (← token)).isSome then
      advance
      if (← token).isFreeName then return true
    else
      require (← token).isFreeName
      passName
    if (← token).isSymbolIn [":", ","] then return true
    symbol "?"
    return (← token).isSymbolIn [":", ",", "]"]

/-- An index signature: one parameter with its type, and the type of what it leads to. -/
def indexSignature (g : Grammar) (modifiers : List Modifier) : Parser Unit := do
  Modifier.allow [.readonly, .static] modifiers
  symbol "["
  let _ ← name
  symbol ":"
  let _ ← g .type
  symbol "]"
  symbol ":"
  let _ ← g .type
  endOfTypeMember

def accessorSignature (g : Grammar) (isSetter : Bool) : Parser Unit := do
  propertyName g
  let _ ← parameters g .function
  flawIf ((← resultType g) && isSetter)

def typeMember (g : Grammar) : Parser Unit := do
  if opensSignature (← token) then
    let _ ← signature g .function
  else if (← atWord "new") && (← nextIs fun t _ => opensSignature t) then
    advance
    flawIf (← signature g .function).parameters.this
  else
    let modifiers ← Modifier.ofMember false false
    if ← Modifier.eatAccessor "get" then
      Modifier.allow [] modifiers
      accessorSignature g false
    else if ← Modifier.eatAccessor "set" then
      Modifier.allow [] modifiers
      accessorSignature g true
    else if ← atIndexSignature then indexSignature g modifiers
    else
      propertyName g
      let _ ← eatSymbol "?"
      if opensSignature (← token) then
        Modifier.allow [] modifiers
        let _ ← signature g .function
      else
        Modifier.allow [.readonly] modifiers
        typeAnnotation g
  endOfTypeMember

/-- The members of an object type or interface in braces. -/
def typeMembers (g : Grammar) : Parser Unit := do
  symbol "\x7b"
  repeatWhile do
    if ← atSymbol "\x7d" then return false
    typeMember g
    return true
  symbol "\x7d"

/-- Skips a plus or minus sign; tells whether there is one. -/
def eatSign : Parser Bool := eatSymbol "+" <||> eatSymbol "-"

def atMappedType : Parser Bool :=
  lookahead do
    symbol "\x7b"
    if ← eatSign then atWord "readonly"
    else
      let _ ← eatWord "readonly"
      symbol "["
      let _ ← anyWord
      atWord "in"

def mappedType (g : Grammar) : Parser Unit := do
  symbol "\x7b"
  if ← eatSign then word "readonly"
  else
    let _ ← eatWord "readonly"
  symbol "["
  let _ ← name
  word "in"
  let _ ← g .type
  if ← eatWord "as" then
    let _ ← g .type
  symbol "]"
  if ← eatSign then symbol "?"
  else
    let _ ← eatSymbol "?"
  typeAnnotation g
  let _ ← eatSymbol ";"
  symbol "\x7d"

/-! ## Tuples -/

inductive TupleElement
  | required
  | optional
  /-- Any number of elements; `isArray` tells whether they are those of an array type. -/
  | rest (isArray : Bool)
deriving DecidableEq, Repr

/-- An element of a tuple without its label. -/
def tupleElementType (g : Grammar) : Parser TupleElement := do
  if ← eatSymbol "..." then return .rest ((← g .type) == .array)
  else if (← g .type) == .nullable then return .optional
  else return .required

/-- Whether the current element of a tuple has a label. -/
def atTupleLabel : Parser Bool :=
  lookahead do
    let _ ← eatSymbol "..."
    let _ ← anyWord
    let _ ← eatSymbol "?"
    atSymbol ":"

/-- An element of a tuple with its label, if it has one. Dots and question marks belong to the
label. -/
def tupleElement (g : Grammar) : Parser TupleElement := do
  if !(← atTupleLabel) then tupleElementType g
  else
    let isRest ← eatSymbol "..."
    let _ ← anyWord
    let isOptional ← eatSymbol "?"
    flawIf (isRest && isOptional)
    symbol ":"
    let spread ← atSymbol "..."
    flawIf (isRest && spread)
    let _ ← eatSymbol "..."
    let form ← g .type
    flawIf (form == .nullable && !spread)
    return if isRest || spread then .rest (form == .array)
      else if isOptional then .optional
      else .required

/-- The last kinds of elements of a tuple that restrict those behind them. -/
structure TupleOrder where
  hasOptional : Bool := false
  hasRest : Bool := false

/-- Adds an element to a tuple: a required one follows no optional one, and what follows the elements
of an array is required. -/
def TupleOrder.add (order : TupleOrder) : TupleElement → Parser TupleOrder
  | .required => do
    flawIf order.hasOptional
    return order
  | .optional => do
    flawIf order.hasRest
    return { order with hasOptional := true }
  | .rest isArray => do
    flawIf (order.hasRest && isArray)
    return { order with hasRest := order.hasRest || isArray }

def tupleType (g : Grammar) : Parser Unit := do
  symbol "["
  let _ ← commaFold "]" (fun order : TupleOrder => do order.add (← tupleElement g)) {}
  symbol "]"

/-! ## Operands -/

def dottedWords : Parser Unit :=
  repeatWhile do
    if ← eatSymbol "." then
      let _ ← anyWord
      return true
    else return false

/-- Type arguments behind a name, if there are any on the same line. -/
def typeArgumentsHere (g : Grammar) : Parser Unit := do
  if (← atTypeArguments) && !(← newlineBefore) then typeArguments g

def importOptions (g : Grammar) : Parser Unit := do
  require (← atSymbol "\x7b")
  let _ ← enclosed (g (.access false))
  let _ ← eatSymbol ","

def importType (g : Grammar) : Parser Unit := do
  word "import"
  symbol "("
  let _ ← stringLiteral
  if ← eatSymbol "," then importOptions g
  symbol ")"
  dottedWords
  typeArgumentsHere g

def typeQuery (g : Grammar) : Parser Unit := do
  word "typeof"
  if ← atWord "import" then importType g
  else
    let _ ← anyWord
    dottedWords
    if !(← newlineBefore) then plainTypeArguments g

def typeReference (g : Grammar) : Parser Unit := do
  let _ ← anyWord
  dottedWords
  typeArgumentsHere g

/-- The words for types, which have no arguments. Behind some a point turns them into names. -/
def typeWords : List String :=
  ["any", "unknown", "string", "number", "bigint", "symbol", "boolean", "undefined", "never",
   "object"]

def wordType (g : Grammar) (w : String) : Parser Unit := do
  if ["void", "null", "true", "false"].contains w then advance
  else if w == "this" then
    advance
    if (← atWord "is") && !(← newlineBefore) then
      advance
      let _ ← g .type
  else if w == "typeof" then typeQuery g
  else if w == "import" then importType g
  else if w == "asserts" && (← nextIs fun t newline => t.isWord && !newline) then
    advance
    let _ ← anyWord
    if ← eatWord "is" then
      let _ ← g .type
  else if typeWords.contains w && !(← nextSymbol ".") then advance
  else typeReference g

def optionalType (g : Grammar) : Parser Unit := do
  symbol "?"
  if !(← token).isSymbolIn [",", "\x7d", ")", ">", "=", "|"] then
    let _ ← g .type

def primaryType (g : Grammar) : Parser TypeForm := do
  match ← token with
  | .string .. | .number _ | .bigint => advance
  | .template .. => template false (do let _ ← anyType g)
  | .symbol "-" =>
    advance
    require (← token).isNumeral
    advance
  | .symbol "?" => optionalType g
  | .symbol "!" =>
    advance
    let _ ← g .typePrimary
  | .symbol "\x7b" => if ← atMappedType then mappedType g else typeMembers g
  | .symbol "[" =>
    tupleType g
    return .tuple
  | .symbol "(" =>
    advance
    let _ ← g .type
    symbol ")"
  | .word w _ => wordType g w
  | _ => failure
  return .other

/-! ## Where types begin -/

def typeSymbols : List String := ["\x7b", "[", "<", "|", "&", "*", "?", "!", "..."]

def beginsType : Token → Bool
  | .word w _ =>
    isFree w ||
    ["void", "null", "this", "typeof", "new", "true", "false", "import", "function"].contains w
  | .string .. | .number _ | .bigint | .template .. => true
  | .symbol text => typeSymbols.contains text
  | _ => false

/-- Whether a token begins a parameter or ends the parameters. -/
def beginsParameter (t : Token) : Bool :=
  t.isSymbolIn [")", "@"] || t.isBindingName || t matches .privateName _ ||
  (Modifier.ofToken? t).isSome || beginsType t

def atType : Parser Bool := do
  match ← token with
  | .symbol "-" => nextIs fun t _ => t.isNumeral
  | .symbol "(" =>
    lookahead do
      repeatWhile (eatSymbol "(")
      if ← atSymbol "-" then nextIs fun t _ => t.isNumeral
      else return beginsParameter (← token)
  | t => return beginsType t

/-! ## Operators -/

/-- One more mark behind a type: a bracket, or a sign that a value may be or is not absent. -/
def postfixStep (g : Grammar) : Parser (Option TypeForm) := do
  if ← newlineBefore then return none
  match ← token with
  | .symbol "!" =>
    advance
    return some .other
  | .symbol "?" =>
    let goesOn ← lookahead do
      advance
      atType
    if goesOn then return none
    advance
    return some .nullable
  | .symbol "[" =>
    advance
    if ← atType then
      let _ ← g .type
      symbol "]"
      return some .other
    else
      symbol "]"
      return some .array
  | _ => return none

def postfixType (g : Grammar) : Parser TypeForm := do
  growing (fun _ => postfixStep g) (← g .typePrimary)

/-- The bound of an inferred type. Before a `?` the bound belongs to a conditional type. -/
def inferredBound (g : Grammar) : Parser Unit := do
  let mayBeCondition := (← context).conditionalTypes
  let _ ← attempt do
    word "extends"
    let _ ← inContext ({ · with conditionalTypes := false }) (g .type)
    require (!mayBeCondition || !(← atSymbol "?"))

/-- A type with operators before it. Only an array or a tuple is `readonly`. -/
def operatorType (g : Grammar) : Parser TypeForm := do
  if (← atWord "keyof") || (← atWord "unique") || (← atWord "readonly") then
    let isReadonly ← atWord "readonly"
    advance
    let form ← g .typeOperator
    flawIf (isReadonly && form != .array && form != .tuple)
    return .other
  else if ← eatWord "infer" then
    let _ ← name
    inferredBound g
    return .other
  else inContext ({ · with conditionalTypes := true }) (postfixType g)

/-- Types with an operator between them, which may stand before the first one as well. -/
def joinedTypes (operator : String) (operand : Parser TypeForm) : Parser TypeForm := do
  let leads ← eatSymbol operator
  let first ← operand
  if leads || (← atSymbol operator) then
    repeatWhile do
      if ← eatSymbol operator then
        let _ ← operand
        return true
      else return false
    return .other
  else return first

/-- Types with `&` and `|` between them. -/
def unionType (g : Grammar) : Parser TypeForm :=
  joinedTypes "|" (joinedTypes "&" (operatorType g))

/-! ## Types of functions -/

/-- Moves behind the first part of a parameter; tells whether there is one. -/
def skipParameterStart (g : Grammar) : Parser Bool := do
  let _ ← Modifier.ofMember false false
  match ← token with
  | .word w _ =>
    require (isFree w || w == "this")
    passName
    return true
  | .symbol "[" | .symbol "\x7b" =>
    let before := (← get).flawed
    g .binding
    return (← get).flawed == before
  | _ => return false

def opensParameters (g : Grammar) : Parser Bool :=
  lookahead do
    symbol "("
    if (← token).isSymbolIn [")", "..."] then return true
    require (← skipParameterStart g)
    if ← eatSymbol ")" then atSymbol "=>"
    else return (← token).isSymbolIn [":", ",", "?", "="]

/-- Whether the current token begins the type of a function or constructor. -/
def atFunctionType (g : Grammar) : Parser Bool := do
  match ← token with
  | .symbol "<" => return true
  | .symbol "(" => opensParameters g
  | .word "new" _ => return true
  | .word "abstract" _ => nextWord "new"
  | _ => return false

/-- The type of a function or constructor. Whatever stands for the arrow introduces the result. -/
def functionType (g : Grammar) : Parser Unit := do
  let _ ← eatWord "abstract"
  let constructs ← eatWord "new"
  let _ ← typeParameters g
  let found ← parameters g .function
  flawIf (constructs && found.this)
  advance
  resultTypeTail g

/-! ## Types -/

def type (g : Grammar) : Parser TypeForm := do
  if ← atFunctionType g then
    functionType g
    return .other
  let form ← unionType g
  if (← context).conditionalTypes && !(← newlineBefore) && (← atWord "extends") then
    advance
    let _ ← inContext ({ · with conditionalTypes := false }) (g .type)
    symbol "?"
    let _ ← anyType g
    symbol ":"
    let _ ← anyType g
    return .other
  else return form

end OriginTags.Tsx
