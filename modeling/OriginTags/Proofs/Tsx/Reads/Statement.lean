import OriginTags.Proofs.Tsx.Reads.Expression
import OriginTags.Tsx.Linkage
/-!
# Statements read forward

A grammar whose parsers read forward gives parsers of statements, imports and exports that do.
-/

namespace OriginTags.Tsx

open Tsx.Parser

-- The size of an instance counts a shared step once for each way that leads to it.
set_option synthInstance.maxSize 1000000

variable (g : Grammar) [g.Reads]

/-! ## Variables -/

instance (kind : VariableKind) : (declarator g kind).Reads := by unfold declarator; infer_instance

instance (kind : VariableKind) : (declarators g kind).Reads := by unfold declarators; infer_instance

instance (kind : VariableKind) : (declaredVariables g kind).Reads := by
  unfold declaredVariables; infer_instance

instance (position : Position) : (letStatement g position).Reads := by
  unfold letStatement; infer_instance

instance : atUsing.Reads := by unfold atUsing; infer_instance

instance : atAwaitUsing.Reads := by unfold atAwaitUsing; infer_instance

instance : (usingStatement g).Reads := by unfold usingStatement; infer_instance

/-! ## Loops -/

instance : (condition g).Reads := by unfold condition; infer_instance

instance : (body g).Reads := by unfold body; infer_instance

instance (awaits : Bool) : (loopOver g awaits).Reads := by unfold loopOver; infer_instance

instance (awaits : Bool) : (loopCount g awaits).Reads := by unfold loopCount; infer_instance

instance : atLoopWord.Reads := by unfold atLoopWord; infer_instance

instance (awaits : Bool) (kind : VariableKind) : (variableLoop g awaits kind).Reads := by
  unfold variableLoop; infer_instance

instance : atLoopLet.Reads := by
  unfold atLoopLet
  refine reads_bind_of fun t => ?_
  split <;> infer_instance

instance : atLoopUsing.Reads := by unfold atLoopUsing; infer_instance

instance (awaits : Bool) : (expressionLoop g awaits).Reads := by
  unfold expressionLoop; infer_instance

instance (awaits : Bool) : (loopHead g awaits).Reads := by unfold loopHead; infer_instance

instance : (forStatement g).Reads := by unfold forStatement; infer_instance

instance : (whileStatement g).Reads := by unfold whileStatement; infer_instance

instance : (doStatement g).Reads := by unfold doStatement; infer_instance

/-! ## Control flow -/

instance : (ifStatement g).Reads := by unfold ifStatement; infer_instance

instance : (caseBody g).Reads := by unfold caseBody; infer_instance

instance : (switchStatement g).Reads := by unfold switchStatement; infer_instance

instance : (tryStatement g).Reads := by unfold tryStatement; infer_instance

instance : (returnStatement g).Reads := by unfold returnStatement; infer_instance

instance : (throwStatement g).Reads := by unfold throwStatement; infer_instance

instance : jumpStatement.Reads := by unfold jumpStatement; infer_instance

/-! ## Declarations of types and namespaces -/

instance : (enumMember g).Reads := by
  dsimp only [enumMember]
  refine reads_bind_of fun t => ?_
  split
  case h_3 =>
    refine reads_bind_of fun _ => reads_bind_of fun key => ?_
    split <;> infer_instance
  all_goals infer_instance

instance (modifiers : List Modifier) : (enumTail g modifiers).Reads := by
  unfold enumTail; infer_instance

instance (modifiers : List Modifier) : (interfaceTail g modifiers).Reads := by
  unfold interfaceTail; infer_instance

instance (modifiers : List Modifier) : (typeTail g modifiers).Reads := by
  unfold typeTail; infer_instance

instance (modifiers : List Modifier) : (namespaceTail g modifiers).Reads := by
  unfold namespaceTail
  refine reads_bind_of fun _ => reads_bind_of fun _ => reads_bind_of fun _ => reads_bind_of fun t => ?_
  split <;> infer_instance

instance (modifiers : List Modifier) : (globalTail g modifiers).Reads := by
  unfold globalTail; infer_instance

instance : importAssignment.Reads := by unfold importAssignment; infer_instance

instance (modifiers : List Modifier) : (variableTail g modifiers).Reads := by
  unfold variableTail; infer_instance

instance (modifiers : List Modifier) (decorated : Bool) :
    (declarationTail g modifiers decorated).Reads := by
  unfold declarationTail
  refine reads_bind_of fun t => ?_
  split <;> infer_instance

instance : atTypedDeclaration.Reads := by unfold atTypedDeclaration; infer_instance

instance : (typedDeclaration g).Reads := by unfold typedDeclaration; infer_instance

/-! ## Statements -/

instance : (block g).Reads := by unfold block; infer_instance

instance : (plainStatement g).Reads := by unfold plainStatement; infer_instance

instance (position : Position) (w : String) : (plainDeclaration g position w).Reads := by
  unfold plainDeclaration; infer_instance

instance (position : Position) (w : String) (escaped : Bool) :
    (wordStatement g position w escaped).Reads := by
  unfold wordStatement; infer_instance

/-! ## Shared parts -/

instance : sharedName.Reads := by
  unfold sharedName
  refine reads_bind_of fun t => ?_
  split <;> infer_instance

instance (keys : List String) : (importAttribute keys).Reads := by
  dsimp only [importAttribute]
  refine reads_bind_of fun t => ?_
  split <;> infer_instance

instance : importAttributes.Reads := by unfold importAttributes; infer_instance

instance : fromClause.Reads := by unfold fromClause; infer_instance

instance : modifiesSpecifier.Reads := by unfold modifiesSpecifier; infer_instance

instance (typeOnly : Bool) : (specifierType typeOnly).Reads := by
  unfold specifierType; infer_instance

/-! ## Imports -/

instance : localName.Reads := by unfold localName; infer_instance

instance (typeOnly : Bool) : (importSpecifier typeOnly).Reads := by
  unfold importSpecifier; infer_instance

instance (typeOnly : Bool) : (importSpecifiers typeOnly).Reads := by
  unfold importSpecifiers; infer_instance

instance (typeOnly : Bool) : (importedNames typeOnly).Reads := by
  unfold importedNames; infer_instance

instance : modifiesImport.Reads := by unfold modifiesImport; infer_instance

instance : delaysImport.Reads := by unfold delaysImport; infer_instance

instance : importDeclaration.Reads := by
  dsimp only [importDeclaration]
  refine reads_bind_of fun _ => reads_bind_of fun t => ?_
  split <;> infer_instance

/-! ## Exports -/

instance (typeOnly : Bool) : (exportSpecifier typeOnly).Reads := by
  unfold exportSpecifier; infer_instance

instance (typeOnly : Bool) : (exportSpecifiers typeOnly).Reads := by
  unfold exportSpecifiers; infer_instance

instance : exportSource.Reads := by unfold exportSource; infer_instance

instance (typeOnly : Bool) : (exportedNames typeOnly).Reads := by
  unfold exportedNames; infer_instance

instance (decorated : Bool) : (exportedDecorators g decorated).Reads := by
  unfold exportedDecorators; infer_instance

instance (decorated : Bool) : (exportDefault g decorated).Reads := by
  unfold exportDefault; infer_instance

instance (decorated : Bool) : (exportedDeclaration g decorated).Reads := by
  unfold exportedDeclaration; infer_instance

instance (decorated : Bool) : (exportDeclaration g decorated).Reads := by
  unfold exportDeclaration
  refine reads_bind_of fun _ => reads_bind_of fun t => ?_
  split <;> infer_instance

/-! ## Statements of every kind -/

instance : atImportDeclaration.Reads := by unfold atImportDeclaration; infer_instance

instance : (decoratedStatement g).Reads := by unfold decoratedStatement; infer_instance

instance (position : Position) : (statement g position).Reads := by
  unfold statement
  refine reads_bind_of fun t => ?_
  split <;> infer_instance


end OriginTags.Tsx
