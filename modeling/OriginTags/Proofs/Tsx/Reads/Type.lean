import OriginTags.Proofs.Tsx.Reads
import OriginTags.Tsx.Type
/-!
# Bindings and types read forward

A grammar whose parsers read forward gives parsers of modifiers, bindings and types that do.
-/

namespace OriginTags.Tsx

open Tsx.Parser

-- The size of an instance counts a shared step once for each way that leads to it.
set_option synthInstance.maxSize 1000000

/-! ## Rules -/

/-- The parsers of a grammar read forward. An element among children ends with the current token,
since the text goes on right behind it. -/
class Grammar.Reads (g : Grammar) : Prop where
  rule : ∀ r, r ≠ .markup true → (g r).Reads
  child : ∀ c known c' known', c.lexeme.Valid → g (.markup true) c known = (some ((), c'), known') →
    c.Met c' c.lexeme.here c'.lexeme.rest

section

variable {g : Grammar} [h : g.Reads]

instance : (g .expression).Reads := h.rule _ nofun

instance (branch : Bool) : (g (.assignment branch)).Reads := h.rule _ nofun

instance (level : Nat) : (g (.binary level)).Reads := h.rule _ nofun

instance : (g .unary).Reads := h.rule _ nofun

instance (calls : Bool) : (g (.access calls)).Reads := h.rule _ nofun

instance : (g .type).Reads := h.rule _ nofun

instance : (g .typeOperator).Reads := h.rule _ nofun

instance : (g .typePrimary).Reads := h.rule _ nofun

instance : (g .binding).Reads := h.rule _ nofun

instance (position : Position) : (g (.statement position)).Reads := h.rule _ nofun

instance : (g .block).Reads := h.rule _ nofun

instance : (g (.markup false)).Reads := h.rule _ nofun

end

instance {α : Type} (p : Parser α) [p.Reads] : (enclosed p).Reads := by
  unfold enclosed; infer_instance

instance (target : Shape) : (useAsTarget target).Reads := by
  have hsettle : (modify fun c => { c with unsettled := c.unsettled - target.pending } :
      Parser Unit).Reads :=
    reads_modify (fun _ => rfl) (fun _ => rfl) fun _ => rfl
  unfold useAsTarget
  infer_instance

/-! ## Modifiers -/

namespace Modifier

instance (modifier : Modifier) (found : List Modifier) : (add modifier found).Reads := by
  unfold add; infer_instance

instance (modifier : Modifier) : (modifiesMember modifier).Reads := by
  unfold modifiesMember; infer_instance

instance (constants blocks : Bool) : (ofMember constants blocks).Reads := by
  refine @reads_growing _ _ _ fun found => reads_bind_of fun t => ?_
  split <;> infer_instance

instance (w : String) : (eatAccessor w).Reads := by unfold eatAccessor; infer_instance

instance (modifier : Modifier) : (modifiesDeclaration modifier).Reads := by
  unfold modifiesDeclaration
  split <;> infer_instance

instance : ofDeclaration.Reads := by
  refine @reads_growing _ _ _ fun found => reads_bind_of fun t => ?_
  split <;> infer_instance

instance (allowed found : List Modifier) : (allow allowed found).Reads := by
  unfold allow; infer_instance

instance (forbidden found : List Modifier) : (forbid forbidden found).Reads := by
  unfold forbid; infer_instance

end Modifier

/-! ## Bindings and parameters -/

section

variable (g : Grammar) [g.Reads]

instance : (initializer g).Reads := by unfold initializer; infer_instance

instance : Reads <| typeAnnotation g := by unfold typeAnnotation; infer_instance

instance : (propertyName g).Reads := by
  unfold propertyName
  refine reads_bind_of fun t => ?_
  split <;> infer_instance

instance : (decorators g).Reads := by unfold decorators; infer_instance

instance : (defaultValue g).Reads := by unfold defaultValue; infer_instance

instance : (bindingEntry g).Reads := by unfold bindingEntry; infer_instance

instance : (bindingProperty g).Reads := by unfold bindingProperty; infer_instance

instance : (bindingItem g).Reads := by unfold bindingItem; infer_instance

instance : (binding g).Reads := by unfold binding; infer_instance

instance : (restParameter g).Reads := by unfold restParameter; infer_instance

instance (owner : Owner) (before : Parameters) : (parameter g owner before).Reads := by
  unfold parameter; infer_instance

instance (owner : Owner) : (parameters g owner).Reads := by
  dsimp only [parameters]; infer_instance

end

/-! ## Templates -/

instance (tagged : Bool) (substitution : Parser Unit) [substitution.Reads] :
    (template tagged substitution).Reads := by
  unfold template
  refine reads_bind_of fun t => ?_
  split
  · refine reads_bind_of fun _ => reads_bind_of fun _ => @reads_ite _ _ _ _ _ inferInstance
      (@reads_repeatWhile _ (reads_bind_of fun _ => reads_bind_of fun _ => reads_bind_of fun _ => ?_))
    -- The next piece begins right behind the brace that closes the substitution.
    refine ⟨fun c => .of_valid fun hc => readsAt_get_bind ?_⟩
    split
    · next ended valid rest hread =>
      have hrest := (isLiteral_of_readTemplate hread).suffix.trans hc.suffix
      exact readsAt_require_bind (readsAt_bind (readsAt_moveTo hrest) fun _ => inferInstance)
    · exact reads_failure.readsAt c
  · infer_instance

/-! ## Arguments and parameters of types -/

variable (g : Grammar) [g.Reads]

instance : (anyType g).Reads := by unfold anyType; infer_instance

instance : atTypeArguments.Reads := by unfold atTypeArguments; infer_instance

instance : (typeArgumentItems g).Reads := by unfold typeArgumentItems; infer_instance

instance : (typeArguments g).Reads := by unfold typeArguments; infer_instance

instance : (plainTypeArguments g).Reads := by unfold plainTypeArguments; infer_instance

instance : (typeParameter g).Reads := by dsimp only [typeParameter]; infer_instance

instance : (typeParameters g).Reads := by unfold typeParameters; infer_instance

/-! ## Signatures and members -/

instance : (typeOrPredicate g).Reads := by dsimp only [typeOrPredicate]; infer_instance

instance : (resultTypeTail g).Reads := by unfold resultTypeTail; infer_instance

instance : (resultType g).Reads := by unfold resultType; infer_instance

instance (owner : Owner) : (signature g owner).Reads := by unfold signature; infer_instance

instance : endOfTypeMember.Reads := by unfold endOfTypeMember; infer_instance

instance : atIndexSignature.Reads := by unfold atIndexSignature; infer_instance

instance (modifiers : List Modifier) : (indexSignature g modifiers).Reads := by
  unfold indexSignature; infer_instance

instance (isSetter : Bool) : (accessorSignature g isSetter).Reads := by
  unfold accessorSignature; infer_instance

instance : (typeMember g).Reads := by dsimp only [typeMember]; infer_instance

instance : (typeMembers g).Reads := by unfold typeMembers; infer_instance

instance : eatSign.Reads := by unfold eatSign; infer_instance

instance : atMappedType.Reads := by unfold atMappedType; infer_instance

instance : (mappedType g).Reads := by dsimp only [mappedType]; infer_instance

/-! ## Tuples -/

instance : (tupleElementType g).Reads := by unfold tupleElementType; infer_instance

instance : atTupleLabel.Reads := by unfold atTupleLabel; infer_instance

instance : (tupleElement g).Reads := by unfold tupleElement; infer_instance

instance (order : TupleOrder) (element : TupleElement) : (order.add element).Reads := by
  unfold TupleOrder.add
  split <;> infer_instance

instance : (tupleType g).Reads := by unfold tupleType; infer_instance

/-! ## Operands -/

instance : dottedWords.Reads := by unfold dottedWords; infer_instance

instance : (typeArgumentsHere g).Reads := by unfold typeArgumentsHere; infer_instance

instance : (importOptions g).Reads := by unfold importOptions; infer_instance

instance : (importType g).Reads := by dsimp only [importType]; infer_instance

instance : (typeQuery g).Reads := by unfold typeQuery; infer_instance

instance : (typeReference g).Reads := by unfold typeReference; infer_instance

instance (w : String) : (wordType g w).Reads := by unfold wordType; infer_instance

instance : (optionalType g).Reads := by unfold optionalType; infer_instance

instance : (primaryType g).Reads := by
  unfold primaryType
  refine reads_bind_of fun t => ?_
  dsimp only
  split <;> infer_instance

/-! ## Operators -/

instance : atType.Reads := by
  unfold atType
  refine reads_bind_of fun t => ?_
  split <;> infer_instance

instance : (postfixStep g).Reads := by
  unfold postfixStep
  refine reads_bind_of fun newline => ?_
  split
  · infer_instance
  · refine reads_bind_of fun t => ?_
    split <;> infer_instance

instance : (postfixType g).Reads := by unfold postfixType; infer_instance

instance : (inferredBound g).Reads := by unfold inferredBound; infer_instance

instance : (operatorType g).Reads := by unfold operatorType; infer_instance

instance (operator : String) (operand : Parser TypeForm) [operand.Reads] :
    (joinedTypes operator operand).Reads := by
  unfold joinedTypes; infer_instance

instance : (unionType g).Reads := by unfold unionType; infer_instance

/-! ## Types -/

instance : (opensParameters g).Reads := by unfold opensParameters; infer_instance

instance : (atFunctionType g).Reads := by
  unfold atFunctionType
  refine reads_bind_of fun t => ?_
  split <;> infer_instance

instance : (functionType g).Reads := by unfold functionType; infer_instance

instance : (type g).Reads := by unfold type; infer_instance

end OriginTags.Tsx
