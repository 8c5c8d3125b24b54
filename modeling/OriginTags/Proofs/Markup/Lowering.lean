import OriginTags.Proofs.Markup.Nesting
import OriginTags.Proofs.Tagging.Calls
import Mathlib.Data.List.Basic
/-!
# Lowering with a stack

A forest can be made in one walk over the markup of a program, with a stack of the elements that are
open. An element that is closed is attached to the one that is then innermost, and so is a text that is
met. Whatever is open already, a walk over some trees does no more than attach their nodes. So the stack
is empty in the end, the roots are the forest of the program, and in it each element hangs below those
that enclose it.
-/

namespace OriginTags

namespace Markup

/-! ## The stack -/

/-- An element that is not closed yet, with what was attached to it so far. -/
structure OpenElement where
  tag : OpeningTag
  location : Option Position
  children : List Node := []

/-- The node of an element that is closed. -/
def OpenElement.close (e : OpenElement) : Node := .element e.tag e.location e.children

/-- How far the lowering of a program has come. -/
structure Lowering where
  roots : List Node := []
  /-- The open elements, innermost first. -/
  opened : List OpenElement := []

namespace Lowering

/-- Attaches a node to the innermost open element. Without one it is a root. -/
def attach (l : Lowering) (node : Node) : Lowering :=
  match l.opened with
  | [] => { l with roots := l.roots ++ [node] }
  | parent :: outer =>
    { l with opened := { parent with children := parent.children ++ [node] } :: outer }

/-- Opens an element. -/
def enter (source : List Char) (tag : OpeningTag) (l : Lowering) : Lowering :=
  { l with opened := ⟨tag, some (Position.ofOffset source tag.span.start), []⟩ :: l.opened }

/-- Closes the innermost open element. -/
def leave (l : Lowering) : Lowering :=
  match l.opened with
  | [] => l
  | element :: outer => { l with opened := outer }.attach element.close

/-- Attaches a text, unless no element is open. -/
def meet (value : String) (l : Lowering) : Lowering :=
  match l.opened with
  | [] => l
  | _ :: _ => l.attach (.text value)

mutual

/-- Walks over a tree. The attribute values of an element come before its children. -/
def visit (source : List Char) : Tree → Lowering → Lowering
  | .element tag inAttributes children, l =>
    ((l.enter source tag).visitAll source inAttributes |>.visitAll source children).leave
  | .fragment children, l => visitAll source children l
  | .text value, l => l.meet value
  | .embedded parts, l => visitAll source parts l

/-- Walks over some trees, one after the other. -/
def visitAll (source : List Char) : List Tree → Lowering → Lowering
  | [], l => l
  | tree :: trees, l => visitAll source trees (visit source tree l)

end

/-! ## What a walk does -/

/-- Attaches nodes, one after the other. Where no element is open, the texts among them are dropped. -/
def attachAll (l : Lowering) (nodes : List Node) : Lowering :=
  match l.opened with
  | [] => { l with roots := l.roots ++ nodes.filter Node.isElement }
  | parent :: outer =>
    { l with opened := { parent with children := parent.children ++ nodes } :: outer }

variable (source : List Char)

theorem attachAll_nil (l : Lowering) : l.attachAll [] = l := by
  obtain ⟨roots, opened⟩ := l
  cases opened <;> simp [attachAll]

theorem attachAll_attachAll (l : Lowering) (nodes more : List Node) :
    (l.attachAll nodes).attachAll more = l.attachAll (nodes ++ more) := by
  obtain ⟨roots, opened⟩ := l
  cases opened <;> simp [attachAll]

theorem meet_eq (value : String) (l : Lowering) : l.meet value = l.attachAll [.text value] := by
  obtain ⟨roots, opened⟩ := l
  cases opened <;> simp [meet, attach, attachAll, Node.isElement]

/-- An element that is closed is attached with what was attached to it. -/
theorem leave_attachAll_enter (tag : OpeningTag) (nodes : List Node) (l : Lowering) :
    ((l.enter source tag).attachAll nodes).leave =
      l.attachAll [.element tag (some (Position.ofOffset source tag.span.start)) nodes] := by
  obtain ⟨roots, opened⟩ := l
  cases opened <;> rfl

mutual

/-- A walk over a tree attaches its nodes, whatever is open. -/
theorem visit_eq : ∀ (tree : Tree) (l : Lowering), l.visit source tree = l.attachAll (tree.nodes source)
  | .element tag inAttributes children, l => by
      rw [visit, visitAll_eq inAttributes, visitAll_eq children, attachAll_attachAll,
        leave_attachAll_enter, Tree.nodes]
  | .fragment children, l => visitAll_eq children l
  | .text value, l => meet_eq value l
  | .embedded parts, l => visitAll_eq parts l

theorem visitAll_eq : ∀ (trees : List Tree) (l : Lowering),
    l.visitAll source trees = l.attachAll (nodesOf source trees)
  | [], l => l.attachAll_nil.symm
  | tree :: trees, l => by
      rw [visitAll, visit_eq tree, visitAll_eq trees, attachAll_attachAll, nodesOf]

end

end Lowering

end Markup

/-! ## Depths -/

/-- A task that asks a predicate about its elements. -/
def FileTask.asking (task : FileTask) (predicate : TagPredicate) : FileTask :=
  { task with config := { task.config with shouldTag := some predicate } }

/-- The name and the depth of the element that a predicate is asked about. -/
def HookCall.askedAbout? : HookCall → Option (String × Nat)
  | .shouldTag context => some (context.elementName, context.depth)
  | .transformer .. | .customAttributes _ | .onTransform _ | .onComplete _ => none

/-- Of the calls for an element, only that of the predicate asks about it. -/
theorem filterMap_elementCalls (config : Config) (context : ElementContext) :
    (elementCalls config context).filterMap HookCall.askedAbout? =
      if config.shouldTag.isSome then [(context.elementName, context.depth)] else [] := by
  have htransformers :
      (Attributes.transformerCalls config context).filterMap HookCall.askedAbout? = [] :=
    Attributes.filterMap_transformerCalls (fun _ _ => rfl) config context
  simp only [elementCalls, List.filterMap_append, apply_ite (List.filterMap HookCall.askedAbout?),
    htransformers]
  simp [HookCall.askedAbout?]

/-- A walk asks its predicate about the elements that may be tagged, each at its depth. -/
theorem FileTask.filterMap_siteCalls_asking (task : FileTask) (predicate : TagPredicate)
    (site : Markup.Site) :
    (siteCalls (task.asking predicate).config task.library task.file site).filterMap
        HookCall.askedAbout? =
      (if isEligible task.config task.library site.tag.name site.depth then
        some (site.name, site.depth) else none).toList := by
  have heligible : isEligible (task.asking predicate).config task.library site.tag.name site.depth =
      isEligible task.config task.library site.tag.name site.depth := rfl
  rw [siteCalls, heligible]
  split
  · rw [filterMap_elementCalls]
    rfl
  · rfl

namespace Markup

/-- A lowering ends with nothing open and with the forest of its program as roots. The elements of that
forest are those of the program, each once, in the order of their opening tags and below the elements
that enclose them there. A pass over the forest meets each of them at a depth of one more than the number
of elements that enclose it: by this depth it decides whether an element may be tagged, and this is what
it tells a predicate. -/
theorem lowering_keeps_nesting (source : List Char) (trees : List Tree) :
    let l := Lowering.visitAll source trees {}
    l.opened = [] ∧ l.roots = forest source trees ∧
      (sitesOf [] l.roots).map (fun site => (site.around, site.tag)) =
        (occurrencesIn [] trees).map (fun o => (o.around, o.tag)) ∧
      ∀ (task : FileTask) (predicate : TagPredicate),
        (Pass.visitAll (task.asking predicate) l.roots {}).calls.filterMap HookCall.askedAbout? =
          (occurrencesIn [] trees).filterMap fun o =>
            if isEligible task.config task.library o.tag.name (o.around.length + 1) then
              some (o.tag.name.display, o.around.length + 1)
            else none := by
  intro l
  have hroots : l.roots = forest source trees := by
    show (Lowering.visitAll source trees {}).roots = _
    rw [Lowering.visitAll_eq]
    exact List.nil_append _
  have hopened : l.opened = [] := by
    show (Lowering.visitAll source trees {}).opened = _
    rw [Lowering.visitAll_eq]
    rfl
  refine ⟨hopened, hroots, ?_, fun task predicate => ?_⟩
  · rw [hroots, sitesOf_forest, List.map_map]
    rfl
  · rw [Pass.calls_visitAll _ [] l.roots {} rfl, List.filterMap_flatMap, hroots, sitesOf_forest,
      List.filterMap_eq_flatMap_toList, List.flatMap_map]
    congr 1
    funext o
    exact task.filterMap_siteCalls_asking predicate (o.site source)

end Markup

end OriginTags
