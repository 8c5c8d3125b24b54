import OriginTags.Proofs.Markup.Nesting
/-!
# The content of an element

What is captured as the content of an element are its own texts: those of its program that it encloses
and that no element inside of it does. They may stand in fragments and in expressions, and there is no
difference between its children and its attribute values. So the content is that of the children alone
exactly if the attribute values have no text of their own.
-/

namespace OriginTags.Markup

/-! ## Own texts -/

mutual

/-- The texts of a tree that no element in it encloses. -/
def Tree.ownTexts : Tree → List String
  | .element .. => []
  | .fragment children => ownTextsOf children
  | .text value => [value]
  | .embedded parts => ownTextsOf parts

/-- The texts of some trees that no element in them encloses. -/
def ownTextsOf : List Tree → List String
  | [] => []
  | tree :: trees => tree.ownTexts ++ ownTextsOf trees

end

/-- The content of an element that holds just some texts. -/
def contentOf (texts : List String) : Option String := flattenedText (texts.map .text)

/-- The words of some texts: each trimmed, without those that are blank. -/
def wordsOf (texts : List String) : List (List Char) :=
  (texts.map Node.text).filterMap Node.trimmedText?

theorem wordsOf_append (texts more : List String) :
    wordsOf (texts ++ more) = wordsOf texts ++ wordsOf more := by
  simp [wordsOf]

mutual

theorem Tree.words_nodes (source : List Char) :
    ∀ tree : Tree, (tree.nodes source).filterMap Node.trimmedText? = wordsOf tree.ownTexts
  | .element .. => rfl
  | .fragment children => words_nodesOf source children
  | .text _ => rfl
  | .embedded parts => words_nodesOf source parts

/-- The nodes of some trees have the words of their own texts. -/
theorem words_nodesOf (source : List Char) :
    ∀ trees : List Tree,
      (nodesOf source trees).filterMap Node.trimmedText? = wordsOf (ownTextsOf trees)
  | [] => rfl
  | tree :: trees => by
      rw [nodesOf, List.filterMap_append, tree.words_nodes source, words_nodesOf source trees,
        ownTextsOf, wordsOf_append]

end

/-! ## Content -/

theorem flattenedText_congr {nodes nodes' : List Node}
    (h : nodes.filterMap Node.trimmedText? = nodes'.filterMap Node.trimmedText?) :
    flattenedText nodes = flattenedText nodes' := by
  rw [flattenedText, flattenedText, h]

/-- The content of an element is that of its own texts, those of its attribute values first. -/
theorem Occurrence.flattenedText_site (source : List Char) (o : Occurrence) :
    flattenedText (o.site source).children =
      contentOf (ownTextsOf o.inAttributes ++ ownTextsOf o.children) := by
  refine flattenedText_congr ?_
  show (nodesOf source o.inAttributes ++ nodesOf source o.children).filterMap Node.trimmedText? =
    wordsOf (ownTextsOf o.inAttributes ++ ownTextsOf o.children)
  rw [List.filterMap_append, words_nodesOf, words_nodesOf, wordsOf_append]

/-- The content of some words. -/
theorem contentOf_eq (texts : List String) :
    contentOf texts =
      if wordsOf texts = [] then none else some (String.ofList ([' '].intercalate (wordsOf texts))) := by
  unfold contentOf flattenedText wordsOf
  cases (texts.map Node.text).filterMap Node.trimmedText? <;> rfl

theorem intercalate_append_ne {words more : List (List Char)} (hwords : words ≠ [])
    (hmore : more ≠ []) : [' '].intercalate (words ++ more) ≠ [' '].intercalate more := by
  intro heq
  have hlength := congrArg List.length heq
  rw [Text.intercalate_append _ hwords hmore, List.length_append, List.length_append,
    List.length_singleton] at hlength
  omega

/-- What stands before some texts changes their content exactly as it changes its own. -/
theorem contentOf_append_inj (texts texts' more : List String) :
    contentOf (texts ++ more) = contentOf (texts' ++ more) ↔ contentOf texts = contentOf texts' := by
  simp only [contentOf_eq, wordsOf_append]
  generalize wordsOf texts = words, wordsOf texts' = words', wordsOf more = others
  by_cases hothers : others = []
  · simp [hothers]
  -- Where there are no words before the others, a content that has some is longer.
  by_cases hwords : words = [] <;> by_cases hwords' : words' = []
  · simp [hwords, hwords']
  · have hlonger := (intercalate_append_ne hwords' hothers).symm
    simp [hwords, hwords', hothers, String.ofList_inj, hlonger]
  · have hlonger := intercalate_append_ne hwords hothers
    simp [hwords, hwords', hothers, String.ofList_inj, hlonger]
  · simp [hwords, hwords', String.ofList_inj, Text.intercalate_append _ hwords hothers,
      Text.intercalate_append _ hwords' hothers]

/-- Whatever is captured as the content of an element comes from its own texts: those of its attribute
values, and behind them those of its children. Those of the attribute values add nothing exactly if they
are blank, and others in their place give the same content exactly if they have the same content by
themselves. -/
theorem content_of_own_texts (config : Config) (file : FileInfo) (source : List Char)
    (trees : List Tree) :
    (sitesOf [] (forest source trees)).map
        (fun site => (site.tag, (siteContext config file site).content)) =
      (occurrencesIn [] trees).map (fun o => (o.tag,
        if config.includeContent then
          contentOf (ownTextsOf o.inAttributes ++ ownTextsOf o.children) else none)) ∧
    ∀ inAttributes children : List Tree,
      (contentOf (ownTextsOf inAttributes ++ ownTextsOf children) =
          contentOf (ownTextsOf children) ↔
        contentOf (ownTextsOf inAttributes) = none) ∧
      ∀ inAttributes' : List Tree,
        contentOf (ownTextsOf inAttributes ++ ownTextsOf children) =
            contentOf (ownTextsOf inAttributes' ++ ownTextsOf children) ↔
          contentOf (ownTextsOf inAttributes) = contentOf (ownTextsOf inAttributes') := by
  refine ⟨?_, fun inAttributes children => ⟨?_, fun inAttributes' => contentOf_append_inj _ _ _⟩⟩
  · rw [sitesOf_forest, List.map_map]
    refine List.map_congr_left fun o _ => ?_
    rw [← o.flattenedText_site source]
    rfl
  · exact contentOf_append_inj (ownTextsOf inAttributes) [] (ownTextsOf children)

/-- Two sources that differ in a text of an attribute value: the element has no children, and its content
is this text. -/
theorem content_of_attribute_value :
    let contents (source : String) := (SourceModule.parse source "a.tsx").toOption.map fun m =>
      (sitesOf [] m.elements).map fun site => flattenedText site.children
    contents "<a x={<>t</>}/>" = some [some "t"] ∧ contents "<a x={<>u</>}/>" = some [some "u"] := by
  decide +kernel

end OriginTags.Markup
