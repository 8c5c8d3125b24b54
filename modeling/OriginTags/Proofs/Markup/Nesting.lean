import OriginTags.Proofs.Markup.Standing
import OriginTags.Proofs.Tagging.Pass
/-!
# How elements enclose each other

The elements of a program in the order of their opening tags, each with the elements that enclose it:
among whose children it stands, or in whose attribute values, directly or in fragments and expressions.
The forest of a program has these elements, in this order, and each hangs below those that enclose it.
-/

namespace OriginTags.Markup

/-! ## Elements and what encloses them -/

/-- An element of a program, enclosed by the elements `around`, innermost first. -/
structure Occurrence where
  around : List OpeningTag
  tag : OpeningTag
  inAttributes : List Tree
  children : List Tree

mutual

/-- The elements of a tree that is enclosed by the elements `around`. -/
def Tree.occurrences (around : List OpeningTag) : Tree → List Occurrence
  | .element tag inAttributes children =>
    ⟨around, tag, inAttributes, children⟩ ::
      (occurrencesIn (tag :: around) inAttributes ++ occurrencesIn (tag :: around) children)
  | .fragment children => occurrencesIn around children
  | .text _ => []
  | .embedded parts => occurrencesIn around parts

/-- The elements of some trees that are enclosed by the elements `around`. -/
def occurrencesIn (around : List OpeningTag) : List Tree → List Occurrence
  | [] => []
  | tree :: trees => tree.occurrences around ++ occurrencesIn around trees

end

mutual

theorem Tree.map_occurrences (around : List OpeningTag) :
    ∀ tree : Tree, (tree.occurrences around).map (fun o => (o.tag, o.inAttributes)) = tree.elements
  | .element tag inAttributes children => by
      simp only [Tree.occurrences, Tree.elements, List.map_cons, List.map_append,
        map_occurrencesIn (tag :: around)]
  | .fragment children => map_occurrencesIn around children
  | .text _ => rfl
  | .embedded parts => map_occurrencesIn around parts

theorem map_occurrencesIn (around : List OpeningTag) :
    ∀ trees : List Tree,
      (occurrencesIn around trees).map (fun o => (o.tag, o.inAttributes)) = elementsOf trees
  | [] => rfl
  | tree :: trees => by
      simp only [occurrencesIn, elementsOf, List.map_append, tree.map_occurrences around,
        map_occurrencesIn around trees]

end

/-! ## The forest of a program -/

theorem sitesOf_append (around : List OpeningTag) (nodes more : List Node) :
    sitesOf around (nodes ++ more) = sitesOf around nodes ++ sitesOf around more := by
  induction nodes with
  | nil => rfl
  | cons node nodes ih => rw [List.cons_append, sitesOf, sitesOf, ih, List.append_assoc]

theorem sitesOf_filter_isElement (around : List OpeningTag) (nodes : List Node) :
    sitesOf around (nodes.filter Node.isElement) = sitesOf around nodes := by
  induction nodes with
  | nil => rfl
  | cons node nodes ih =>
      cases node with
      | element tag location children =>
          rw [List.filter_cons_of_pos rfl, sitesOf, sitesOf, ih]
      | text value =>
          rw [List.filter_cons_of_neg (by simp [Node.isElement]), ih]
          rfl

/-- The place of an element in the forest of its program. -/
def Occurrence.site (source : List Char) (o : Occurrence) : Site where
  around := o.around
  tag := o.tag
  location := some (Position.ofOffset source o.tag.span.start)
  children := nodesOf source o.inAttributes ++ nodesOf source o.children

mutual

theorem Tree.sitesOf_nodes (source : List Char) (around : List OpeningTag) :
    ∀ tree : Tree, sitesOf around (tree.nodes source) =
      (tree.occurrences around).map (Occurrence.site source)
  | .element tag inAttributes children => by
      simp only [Tree.nodes, sitesOf, Node.sites, Tree.occurrences, sitesOf_append, List.append_nil,
        List.map_cons, List.map_append, sitesOf_nodesOf source (tag :: around)]
      rfl
  | .fragment children => sitesOf_nodesOf source around children
  | .text _ => rfl
  | .embedded parts => sitesOf_nodesOf source around parts

/-- The nodes of some trees have their elements, below the same elements. -/
theorem sitesOf_nodesOf (source : List Char) (around : List OpeningTag) :
    ∀ trees : List Tree, sitesOf around (nodesOf source trees) =
      (occurrencesIn around trees).map (Occurrence.site source)
  | [] => rfl
  | tree :: trees => by
      simp only [nodesOf, occurrencesIn, sitesOf_append, List.map_append,
        tree.sitesOf_nodes source around, sitesOf_nodesOf source around trees]

end

/-- The forest of a program has its elements, below the same elements. -/
theorem sitesOf_forest (source : List Char) (trees : List Tree) :
    sitesOf [] (forest source trees) = (occurrencesIn [] trees).map (Occurrence.site source) := by
  rw [forest, sitesOf_filter_isElement, sitesOf_nodesOf]

/-- The elements of a forest have the tags of the trees that it is made of. -/
theorem map_tag_sitesOf_forest (source : List Char) (trees : List Tree) :
    (sitesOf [] (forest source trees)).map Site.tag = (elementsOf trees).map Prod.fst := by
  rw [sitesOf_forest, ← map_occurrencesIn [], List.map_map, List.map_map]
  rfl

end OriginTags.Markup
