import OriginTags.Proofs.Tsx.Reads.Type
import OriginTags.Tsx.Expression
/-!
# Expressions read forward

A grammar whose parsers read forward gives parsers of functions, classes and expressions that do.
-/

namespace OriginTags.Tsx

open Tsx.Parser

-- The size of an instance counts a shared step once for each way that leads to it.
set_option synthInstance.maxSize 1000000

variable (g : Grammar) [g.Reads]

/-! ## Functions -/

instance : (functionBody g).Reads := by unfold functionBody; infer_instance

instance (owner : Owner) (async generator : Bool) :
    (functionRest g owner async generator).Reads := by
  unfold functionRest; infer_instance

instance (use : FunctionUse) (async generator : Bool) :
    (functionName use async generator).Reads := by
  unfold functionName
  split <;> infer_instance

instance (use : FunctionUse) (async declared : Bool) :
    (functionTail g use async declared).Reads := by
  unfold functionTail; infer_instance

instance (isSetter : Bool) (found : Signature) : (checkAccessor isSetter found).Reads := by
  unfold checkAccessor; infer_instance

/-! ## Arrow functions -/

instance (async branch : Bool) : (arrowBody g async branch).Reads := by
  unfold arrowBody; infer_instance

instance : arrow.Reads := by unfold arrow; infer_instance

instance : (arrowHead g).Reads := by unfold arrowHead; infer_instance

instance : arrowVerdict.Reads := by unfold arrowVerdict; infer_instance

instance (branch : Bool) : (possibleArrow g branch).Reads := by
  refine ⟨fun c known a c' known' hc h => ?_⟩
  unfold possibleArrow at h
  obtain ⟨here, _, _, hplace, h⟩ := bind_eq_some h
  cases hplace
  obtain ⟨isKnown, _, _, hknown, h⟩ := bind_eq_some h
  cases hknown
  split at h
  · exact met_of_reads hc h
  obtain ⟨start, _, _, hstart, h⟩ := bind_eq_some h
  cases hstart
  obtain ⟨found, mid, known₁, hhead, h⟩ := bind_eq_some h
  have hmid := met_of_reads hc hhead
  split at h
  · exact hmid.trans (met_of_reads hmid.valid h)
  split at h
  · obtain ⟨body, last, known₂, hbody, h⟩ := bind_eq_some h
    have hlast := met_of_reads hmid.valid hbody
    split at h
    · exact hmid.trans (hlast.trans (met_of_reads hlast.valid h))
    -- The cursor is set back to where it was before the arrow was tried.
    · cases h
      exact .refl hc
  · exact hmid.trans (met_of_reads hmid.valid h)

instance (branch : Bool) : (parenthesizedArrow g branch).Reads := by
  unfold parenthesizedArrow
  refine reads_bind_of fun verdict => ?_
  split <;> infer_instance

instance (branch : Bool) : (asyncLoneArrow g branch).Reads := by
  unfold asyncLoneArrow; infer_instance

/-! ## Names of members -/

instance (modifiers : List Modifier) : (memberName g modifiers).Reads := by
  dsimp only [memberName]
  refine reads_bind_of fun _ => reads_bind_of fun t => ?_
  split <;> infer_instance

/-! ## Members -/

instance (hasBody : Bool) : (memberBody hasBody).Reads := by unfold memberBody; infer_instance

instance (modifiers : List Modifier) (isSetter : Bool) :
    (accessorMember g modifiers isSetter).Reads := by
  unfold accessorMember; infer_instance

instance (modifiers : List Modifier) (decorated : Bool) :
    (constructorMember g modifiers decorated).Reads := by
  unfold constructorMember; infer_instance

instance (modifiers : List Modifier) (decorated generator : Bool) :
    (methodMember g modifiers decorated generator).Reads := by
  unfold methodMember; infer_instance

instance (modifiers : List Modifier) (isOptional : Bool) :
    (fieldMember g modifiers isOptional).Reads := by
  unfold fieldMember; infer_instance

instance (modifiers : List Modifier) (decorated : Bool) :
    (namedMember g modifiers decorated).Reads := by
  unfold namedMember; infer_instance

instance (modifiers : List Modifier) : (atConstructor modifiers).Reads := by
  unfold atConstructor; infer_instance

instance : (classMember g).Reads := by unfold classMember; infer_instance

instance : (classBody g).Reads := by unfold classBody; infer_instance

/-! ## Heritage -/

instance (before : List Shape) : (parent g before).Reads := by unfold parent; infer_instance

instance : (parentList g).Reads := by unfold parentList; infer_instance

instance : (interfaceReference g).Reads := by unfold interfaceReference; infer_instance

instance : (heritage g).Reads := by unfold heritage; infer_instance

/-! ## Classes -/

instance (modifiers : List Modifier) : (classTail g modifiers).Reads := by
  unfold classTail; infer_instance

/-! ## Operators -/

instance : operatorText.Reads := by
  unfold operatorText
  refine reads_bind_of fun t => ?_
  split <;> infer_instance

instance : binaryOperator.Reads := by
  unfold binaryOperator
  refine reads_bind_of fun t => ?_
  split <;> infer_instance

instance (text : String) : (skipOperator text).Reads := by
  have hmove : (get >>= fun (c : Cursor) => moveTo (c.lexeme.here.drop text.length)).Reads :=
    reads_get_moveTo fun c _ => List.drop_suffix _ _
  unfold skipOperator
  infer_instance

/-! ## Accesses and calls -/

instance : (arguments g).Reads := by unfold arguments; infer_instance

instance : (index g).Reads := by unfold index; infer_instance

instance : atExpression.Reads := by
  unfold atExpression
  refine reads_bind_of fun t => ?_
  split <;> infer_instance

instance : (typeArgumentsInExpression g).Reads := by
  unfold typeArgumentsInExpression
  refine reads_bind_of fun _ => reads_bind_of fun _ => reads_bind_of fun _ =>
    reads_bind_of fun _ => reads_bind_of fun t => ?_
  split <;> infer_instance

instance : (substitution g).Reads := by unfold substitution; infer_instance

instance : (optionalAccess g).Reads := by
  unfold optionalAccess
  refine reads_bind_of fun _ => reads_bind_of fun t => ?_
  split <;> infer_instance

instance (calls : Bool) (shape : Shape) : (accessStep g calls shape).Reads := by
  dsimp only [accessStep]
  refine reads_bind_of fun t => ?_
  split
  case h_1 =>
    refine reads_bind_of fun _ => reads_bind_of fun member => ?_
    split <;> infer_instance
  case h_6 | h_7 =>
    refine reads_bind_of fun arguments => ?_
    split <;> infer_instance
  all_goals infer_instance

/-! ## Lists and objects -/

instance : (listLiteral g).Reads := by unfold listLiteral; infer_instance

instance (async generator : Bool) : (objectMethod g async generator).Reads := by
  unfold objectMethod; infer_instance

instance (modifiers : List Modifier) (isSetter : Bool) :
    (objectAccessor g modifiers isSetter).Reads := by
  unfold objectAccessor; infer_instance

instance (entries : Entries) : (shortProperty g entries).Reads := by
  have hcount : (modify fun c => { c with unsettled := c.unsettled + 1 } : Parser Unit).Reads :=
    reads_modify (fun _ => rfl) (fun _ => rfl) fun _ => rfl
  unfold shortProperty
  infer_instance

instance (modifiers : List Modifier) (entries : Entries) :
    (namedProperty g modifiers entries).Reads := by
  unfold namedProperty; infer_instance

instance (entries : Entries) : (objectProperty g entries).Reads := by
  unfold objectProperty; infer_instance

instance : (objectLiteral g).Reads := by unfold objectLiteral; infer_instance

/-! ## Primary expressions -/

instance : (importExpression g).Reads := by unfold importExpression; infer_instance

instance (w : String) : (wordExpression g w).Reads := by unfold wordExpression; infer_instance

instance : (primary g).Reads := by
  unfold primary
  refine reads_bind_of fun t => ?_
  split
  case h_9 | h_10 =>
    refine ⟨fun c => readsAt_get_bind ?_⟩
    split
    · next rest hread =>
      have hrest := (suffix_of_readRegularExpression hread).trans (List.drop_suffix 1 _)
      exact readsAt_bind (readsAt_moveTo hrest) fun _ => inferInstance
    · exact reads_failure.readsAt c
  all_goals infer_instance

instance : (newExpression g).Reads := by unfold newExpression; infer_instance

instance (calls : Bool) : (access g calls).Reads := by unfold access; infer_instance

/-! ## Operands -/

instance : eatUpdate.Reads := by unfold eatUpdate; infer_instance

instance : atUnaryOperator.Reads := by
  unfold atUnaryOperator
  refine reads_bind_of fun t => ?_
  split <;> infer_instance

instance (w : String) (isOperator : Bool) : (atSuspending w isOperator).Reads := by
  unfold atSuspending; infer_instance

instance : (unary g).Reads := by unfold unary; infer_instance

instance (level : Nat) (parenthesized : Bool) (left : Shape) :
    (binaryStep g level parenthesized left).Reads := by
  dsimp only [binaryStep]
  refine reads_bind_of fun operator => ?_
  split <;> infer_instance

instance : (privateOperand g).Reads := by unfold privateOperand; infer_instance

instance (level : Nat) : (binary g level).Reads := by
  dsimp only [binary]
  refine reads_bind_of fun _ => reads_bind_of fun t => ?_
  split <;> infer_instance

/-! ## Expressions -/

instance : (yieldExpression g).Reads := by unfold yieldExpression; infer_instance

instance (branch : Bool) (test : Shape) : (conditionalRest g branch test).Reads := by
  unfold conditionalRest; infer_instance

instance (branch : Bool) (left : Shape) : (assignmentRest g branch left).Reads := by
  unfold assignmentRest; infer_instance

instance (branch : Bool) : (assignment g branch).Reads := by unfold assignment; infer_instance

instance : (expression g).Reads := by unfold expression; infer_instance


end OriginTags.Tsx
