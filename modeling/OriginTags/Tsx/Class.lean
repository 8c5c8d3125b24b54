import OriginTags.Tsx.Function
/-!
# Classes

Classes with their heritage, and the members of their bodies.
-/

namespace OriginTags.Tsx

open Tsx.Parser

/-! ## Names of members -/

/-- As much of the name of a member as its rules need to know. -/
inductive MemberName
  | constructor
  | prototype
  | privateName
  | other
deriving DecidableEq, Repr

def MemberName.ofToken : Token → MemberName
  | .word "constructor" _ | .string "constructor" _ => .constructor
  | .word "prototype" _ | .string "prototype" _ => .prototype
  | .privateName _ => .privateName
  | _ => .other

def memberName (g : Grammar) (modifiers : List Modifier) : Parser MemberName := do
  let found := MemberName.ofToken (← token)
  match ← token with
  | .privateName text =>
    flawIf (text == "constructor")
    Modifier.forbid Modifier.accessLevels modifiers
    advance
  | _ => propertyName g
  flawIf (found == .prototype && modifiers.contains .static)
  return found

/-! ## Members -/

/-- A method without a body ends like a statement. -/
def memberBody (hasBody : Bool) : Parser Unit :=
  if hasBody then pure () else endOfStatement

def notOnMethods : List Modifier :=
  [.declare, .readonly, .accessor, .const, .exported, .contravariant, .covariant]

def notOnFields : List Modifier := [.const, .exported, .async, .contravariant, .covariant]

def notOnAccessors : List Modifier := [.declare, .readonly, .asDefault] ++ notOnFields

/-- A getter or setter from its name on. An abstract one has no body. -/
def accessorMember (g : Grammar) (modifiers : List Modifier) (isSetter : Bool) : Parser Unit := do
  Modifier.forbid (.async :: notOnMethods) modifiers
  let found ← memberName g modifiers
  flawIf (found == .constructor && !modifiers.contains .static)
  let (signature, hasBody) ← functionRest g .method false false
  checkAccessor isSetter signature
  flawIf (hasBody && modifiers.contains .abstract)
  memberBody hasBody

/-- A constructor from its name on. It has no decorators, no type parameters and no result. -/
def constructorMember (g : Grammar) (modifiers : List Modifier) (decorated : Bool) :
    Parser Unit := do
  flawIf decorated
  Modifier.forbid [.async] modifiers
  let _ ← memberName g modifiers
  let (signature, hasBody) ← functionRest g .constructor false false
  flawIf (signature.generic || signature.typed || signature.parameters.this)
  memberBody hasBody

/-- A method from its parameters on. Decorators belong to the one that has a body. -/
def methodMember (g : Grammar) (modifiers : List Modifier) (decorated generator : Bool) :
    Parser Unit := do
  Modifier.forbid notOnMethods modifiers
  let (_, hasBody) ← functionRest g .method (modifiers.contains .async) generator
  flawIf (decorated && !hasBody)
  memberBody hasBody

def Context.inField (c : Context) : Context :=
  { c with awaits := false, yields := false, inOperator := true }

/-- A field from what follows its name on. -/
def fieldMember (g : Grammar) (modifiers : List Modifier) (isOptional : Bool) : Parser Unit := do
  let isDefinite ← eatSymbol "!"
  let isAccessor := modifiers.contains .accessor
  flawIf (isOptional && (isDefinite || isAccessor))
  Modifier.forbid (if isAccessor then notOnAccessors else notOnFields) modifiers
  typeAnnotation g
  if ← eatSymbol "=" then
    let _ ← inContext Context.inField (g (.assignment false))
  endOfStatement

/-- A method or field. -/
def namedMember (g : Grammar) (modifiers : List Modifier) (decorated : Bool) : Parser Unit := do
  let generator ← eatSymbol "*"
  let found ← memberName g modifiers
  let isOptional ← eatSymbol "?"
  if generator || opensSignature (← token) then
    flawIf (found == .constructor && !modifiers.contains .static)
    methodMember g modifiers decorated generator
  else
    flawIf (found == .constructor)
    fieldMember g modifiers isOptional

/-- Whether the current token names the constructor. -/
def atConstructor (modifiers : List Modifier) : Parser Bool := do
  if MemberName.ofToken (← token) == .constructor && !modifiers.contains .static then
    nextIs fun t _ => opensSignature t
  else return false

def Context.inStaticBlock (c : Context) : Context :=
  { c with awaits := true, yields := false, returns := false, inOperator := true }

def classMember (g : Grammar) : Parser Unit := do
  if ← eatSymbol ";" then return
  let decorated ← decorators g
  let modifiers ← Modifier.ofMember true true
  if (← atWord "static") && (← nextSymbol "\x7b") then
    advance
    flawIf (decorated || !modifiers.isEmpty)
    inContext Context.inStaticBlock (g .block)
  else if ← Modifier.eatAccessor "get" then accessorMember g modifiers false
  else if ← Modifier.eatAccessor "set" then accessorMember g modifiers true
  else if ← atConstructor modifiers then constructorMember g modifiers decorated
  else if ← atIndexSignature then
    flawIf decorated
    indexSignature g modifiers
  else namedMember g modifiers decorated

def classBody (g : Grammar) : Parser Unit := do
  symbol "\x7b"
  repeatWhile do
    if ← atSymbol "\x7d" then return false
    classMember g
    return true
  symbol "\x7d"

/-! ## Heritage -/

/-- What a class or interface is based on. -/
structure Heritage where
  /-- The expressions after `extends`, if the word is there. -/
  parents : Option (List Shape) := none
  /-- The word `implements` is there. -/
  implements : Bool := false

/-- One of the expressions after `extends`, with its type arguments. -/
def parent (g : Grammar) (before : List Shape) : Parser (List Shape) := do
  let shape ← g (.access true)
  plainTypeArguments g
  return shape.withoutTypeArguments :: before

def parentList (g : Grammar) : Parser (List Shape) := do
  growing (fun found => do
    if ← eatSymbol "," then return some (← parent g found)
    else return none) (← parent g [])

/-- A dotted name with type arguments, as in a list of interfaces. -/
def interfaceReference (g : Grammar) : Parser Unit := do
  let _ ← anyWord
  dottedWords
  plainTypeArguments g

/-- What a class or interface is based on: `extends` once, and then `implements` once. -/
def heritage (g : Grammar) : Parser Heritage :=
  growing (fun (found : Heritage) => do
    if ← eatWord "extends" then
      flawIf (found.parents.isSome || found.implements)
      return some { found with parents := some (← parentList g) }
    else if ← eatWord "implements" then
      flawIf found.implements
      separatedBy "," (interfaceReference g)
      return some { found with implements := true }
    else return none) {}

/-! ## Classes -/

/-- A class from the word `class` on, with the modifiers before it. -/
def classTail (g : Grammar) (modifiers : List Modifier) : Parser Unit := do
  word "class"
  if (← atBindingName) && !(← atWord "implements") then
    let _ ← name
  let _ ← typeParameters g
  let found ← heritage g
  flawIf ((found.parents.getD []).length > 1)
  Modifier.allow [.declare, .abstract] modifiers
  classBody g

end OriginTags.Tsx
