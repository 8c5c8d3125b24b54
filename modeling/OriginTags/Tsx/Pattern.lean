import OriginTags.Tsx.Modifier
import OriginTags.Tsx.Rule
/-!
# Bindings and parameters

The places where a program introduces names, with their patterns, types and default values, and the
parts of the grammar that they share with objects and classes.
-/

namespace OriginTags.Tsx

open Tsx.Parser

/-! ## Shared parts -/

def typeAnnotation (g : Grammar) : Parser Unit := do
  if ← eatSymbol ":" then
    let _ ← g .type

def propertyName (g : Grammar) : Parser Unit := do
  match ← token with
  | .word .. => passName
  | .string .. | .number _ | .bigint => advance
  | .symbol "[" =>
    advance
    initializer g
    symbol "]"
  | _ => failure

/-- The decorators before a declaration; tells whether there are any. -/
def decorators (g : Grammar) : Parser Bool := do
  if !(← atSymbol "@") then return false
  repeatWhile do
    if ← eatSymbol "@" then
      let shape ← inContext ({ · with decorator := true }) (g (.access true))
      flawIf !shape.isDecorator
      return true
    else return false
  return true

/-! ## Bindings -/

def defaultValue (g : Grammar) : Parser Bool := do
  if ← eatSymbol "=" then
    initializer g
    return true
  else return false

/-- A target with its default value, if there is one. -/
def bindingEntry (g : Grammar) : Parser Unit := do
  g .binding
  let _ ← defaultValue g

def bindingProperty (g : Grammar) : Parser Unit := do
  if ← eatSymbol "..." then
    let _ ← name
    require (← atSymbol "\x7d")
  else if (← atBindingName) && !(← nextSymbol ":") then
    let _ ← name
    let _ ← defaultValue g
  else
    propertyName g
    symbol ":"
    bindingEntry g

def bindingItem (g : Grammar) : Parser Unit := do
  if ← atSymbol "," then return
  if ← eatSymbol "..." then
    g .binding
    require (← atSymbol "]")
  else bindingEntry g

def binding (g : Grammar) : Parser Unit := do
  if ← eatSymbol "\x7b" then commaList "\x7d" (bindingProperty g)
  else if ← eatSymbol "[" then commaList "]" (bindingItem g)
  else
    let _ ← name

/-! ## Parameters -/

/-- What parameters belong to. -/
inductive Owner
  | function
  /-- A method of a class, whose parameters may have decorators. -/
  | method
  /-- The constructor of a class, whose parameters may be fields as well. -/
  | constructor
deriving DecidableEq, Repr

/-- The modifiers that turn a parameter of a constructor into a field. -/
def Owner.modifiers : Owner → List Modifier
  | .constructor => [.publicAccess, .privateAccess, .protectedAccess, .readonly, .override]
  | _ => []

/-- As much of the parameters of a function as its surroundings need to know. -/
structure Parameters where
  /-- There is a parameter `this`. -/
  this : Bool := false
  /-- The number of the others, without the one that takes the rest. -/
  count : Nat := 0
  rest : Bool := false
  /-- Some parameter has a default value. -/
  hasDefault : Bool := false
deriving DecidableEq, Repr

/-- A parameter that takes the rest of the arguments, after its dots. It is the last one, with no
comma behind it outside of ambient declarations. -/
def restParameter (g : Grammar) : Parser Unit := do
  g .binding
  flawIf (← eatSymbol "?")
  typeAnnotation g
  flawIf (← defaultValue g)
  flawIf ((← atSymbol ",") && (← nextSymbol ")") && !(← context).ambient)

def parameter (g : Grammar) (owner : Owner) (before : Parameters) : Parser Parameters := do
  flawIf ((← decorators g) && owner == .function)
  let modifiers ← Modifier.ofMember false false
  Modifier.allow owner.modifiers modifiers
  flawIf before.rest
  if ← eatSymbol "..." then
    flawIf !modifiers.isEmpty
    restParameter g
    return { before with rest := true }
  else
    g .binding
    let _ ← eatSymbol "?"
    typeAnnotation g
    let hasDefault ← defaultValue g
    return { before with count := before.count + 1, hasDefault := before.hasDefault || hasDefault }

def parameters (g : Grammar) (owner : Owner) : Parser Parameters := do
  symbol "("
  let this ← eatWord "this"
  if this then
    typeAnnotation g
    if !(← atSymbol ")") then symbol ","
  let found ← commaFold ")" (parameter g owner) { this }
  symbol ")"
  return found

end OriginTags.Tsx
