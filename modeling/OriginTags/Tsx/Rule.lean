import OriginTags.Tsx.Parser
/-!
# Rules and shapes

The constructs that may contain themselves are named by rules. A parser of such a construct is
given a parser for every rule, and the grammar ties the knot with a bound on the nesting. What is
left of an expression is its shape, and of a type its form: as much as the surroundings need to
know.
-/

namespace OriginTags.Tsx

/-! ## Expressions -/

/-- As much of an expression as its surroundings need to know. -/
inductive Shape
  | string (value : String)
  | number (value : Binary64)
  | boolean (value : Bool)
  | name (text : String)
  /-- `a.b`. -/
  | member (object : Shape)
  /-- `a[b]`. -/
  | index
  | call (callee : Shape)
  /-- `import(a)`. -/
  | importCall
  /-- `a!`. -/
  | nonNull (inner : Shape)
  /-- `a as T` and `a satisfies T`. -/
  | cast (inner : Shape)
  /-- `a<T>`. -/
  | instantiation (inner : Shape)
  | parenthesized (inner : Shape)
  /-- An object or a list. It may be `assignable` as a pattern, which settles the default values of
  as many short properties as are `pending`. -/
  | collection (assignable : Bool) (pending : Nat)
  /-- An access that may end early, as `a?.b`. -/
  | chain
  /-- `a = b`, which in a pattern is a target with a default value. -/
  | assignment
  /-- Expressions with commas between them. -/
  | sequence
  /-- An operator before its operand. -/
  | unary
  /-- `a || b` and `a && b`. -/
  | logical
  /-- `#a in b`. -/
  | privateIn
  | other
deriving DecidableEq, Repr

namespace Shape

def isName : Shape → Bool
  | .name _ => true
  | _ => false

/-- Whether an expression names a place that holds a value. -/
def isPlace : Shape → Bool
  | .name _ | .member _ | .index => true
  | .nonNull inner | .cast inner | .parenthesized inner => inner.isPlace
  | _ => false

def isTarget : Shape → Bool
  | .collection assignable _ => assignable
  | shape => shape.isPlace

def isEntry : Shape → Bool
  | .assignment => true
  | shape => shape.isTarget

/-- The number of default values that using an expression as a pattern settles. -/
def pending : Shape → Nat
  | .collection _ pending => pending
  | _ => 0

/-- Whether an expression is a name with members behind it. -/
def isDotted : Shape → Bool
  | .name _ => true
  | .member object => object.isDotted
  | _ => false

/-- Whether an expression is a name with members behind it, apart from type arguments and marks
that a value is present. -/
def isReference : Shape → Bool
  | .name _ => true
  | .member inner | .nonNull inner | .instantiation inner => inner.isReference
  | _ => false

/-- Whether an expression is a reference that is perhaps called once. -/
def isReferenceOrCall : Shape → Bool
  | .call callee => callee.isReference
  | .nonNull inner | .instantiation inner => inner.isReferenceOrCall
  | shape => shape.isReference

def isDecorator : Shape → Bool
  | .parenthesized _ => true
  | shape => shape.isReferenceOrCall

def withoutTypeArguments : Shape → Shape
  | .instantiation inner => inner
  | shape => shape

end Shape

/-! ## Types -/

/-- As much of a type as its surroundings need to know. -/
inductive TypeForm
  | array
  | tuple
  /-- `T?`. -/
  | nullable
  | other
deriving DecidableEq, Repr

/-! ## Rules -/

inductive Position
  /-- Among other statements. -/
  | listed
  /-- As the body of another statement. -/
  | single
deriving DecidableEq, Repr

/-- The constructs that may contain themselves. -/
inductive Rule
  /-- Expressions with commas between them. -/
  | expression
  /-- An expression without a comma at its top. In a `branch`, between `?` and `:`, an arrow function
  has a return type only if a `:` follows it. -/
  | assignment (branch : Bool)
  /-- An operand of operators that bind tighter than `level`. -/
  | binary (level : Nat)
  | unary
  /-- A primary expression with accesses behind it and, if `calls`, with calls. -/
  | access (calls : Bool)
  | type
  /-- A type with operators before it. -/
  | typeOperator
  /-- A type without operators. -/
  | typePrimary
  /-- The target of a binding: a name or a pattern. -/
  | binding
  | statement (position : Position)
  /-- Statements in braces. -/
  | block
  /-- An element or a fragment from its `<` on; `child` tells whether it is among children. -/
  | markup (child : Bool)
deriving DecidableEq, Repr

/-- What a construct leaves behind. -/
@[reducible] def Rule.Result : Rule → Type
  | .expression | .assignment _ | .binary _ | .unary | .access _ => Shape
  | .type | .typeOperator | .typePrimary => TypeForm
  | .binding | .statement _ | .block | .markup _ => Unit

abbrev Grammar := (rule : Rule) → Parser rule.Result

/-- Runs a parser between brackets, where `in` is an operator again. -/
def enclosed {α : Type} (p : Parser α) : Parser α :=
  Parser.inContext ({ · with inOperator := true, decorator := false }) p

/-- An expression without a comma at its top, with every operator. -/
def initializer (g : Grammar) : Parser Unit := do
  let _ ← Parser.inContext ({ · with inOperator := true }) (g (.assignment false))

/-- Uses an expression as a pattern, or as a place to assign to. -/
def useAsTarget (target : Shape) : Parser Unit := do
  Parser.require target.isTarget
  modify fun c => { c with unsettled := c.unsettled - target.pending }

end OriginTags.Tsx
