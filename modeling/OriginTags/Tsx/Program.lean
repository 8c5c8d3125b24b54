import OriginTags.Tsx.Element
import OriginTags.Tsx.Linkage
/-!
# Programs

The grammar as a whole, and the modules that it accepts.
-/

namespace OriginTags.Tsx

open Tsx.Parser
open Markup (Import Tree)

/-- The construct of a rule, given a grammar for its parts. -/
def construct (g : Grammar) : Grammar
  | .expression => expression g
  | .assignment branch => assignment g branch
  | .binary level => binary g level
  | .unary => unary g
  | .access calls => access g calls
  | .type => type g
  | .typeOperator => operatorType g
  | .typePrimary => primaryType g
  | .binding => binding g
  | .statement position => statement g position
  | .block => block g
  | .markup child => markup g child

/-- The grammar for constructs that nest at most `depth` deep. -/
def grammar : (depth : Nat) → Grammar
  | 0 => fun _ => failure
  | depth + 1 => construct (grammar depth)

/-- A parsed module: its imports and its markup, both in source order. -/
structure Program where
  imports : List Import
  markup : List Tree
deriving Repr

def program (g : Grammar) : Parser (List Import) := do
  let found ← growing (fun (found : List Import) => do
    if (← token) == .endOfInput then return none
    if ← atImportDeclaration then
      match ← importDeclaration with
      | some i => return some (i :: found)
      | none => return some found
    else
      g (.statement .listed)
      return some found) []
  return found.reverse

/-- The nesting depth that suffices for a source: a character opens only a few constructs. -/
def depthFor (source : List Char) : Nat := 10 * source.length + 100

/-- The program of a source, if the source is one: it is read to its end without a flaw, and every
default value of a short property is part of a pattern. -/
def parse? (source : List Char) : Option Program :=
  let limit := source.length + 2
  let start : Cursor :=
    { lexeme := scan limit (skipHashbang source), limit, size := Text.byteSize source }
  match (program (grammar (depthFor source))).runFrom start with
  | some (imports, stop) =>
    if stop.flawed || stop.unsettled != 0 then none else some ⟨imports, stop.markup.reverse⟩
  | none => none

end OriginTags.Tsx
