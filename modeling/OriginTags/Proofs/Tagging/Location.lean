import OriginTags.Proofs.Tagging.Place
import OriginTags.Proofs.Text.LineTable
/-!
# Lines and columns of elements

The position of an offset is found in the line table of its source, whatever the offset is. The attributes
of an element tell the position of the `<` that its tag opens with: the line counts the line feeds before
it from one, and the column the characters of its line before it.
-/

namespace OriginTags

open Markup (Site)
open Position (lastLine)
open Text (byteSize)

/-! ## Attributes that nobody changes -/

namespace Attributes

theorem lookup_filter {shown : String → Bool} {key : String} (hshown : shown key = true) (vs : Values) :
    (vs.filter fun v => shown v.1).lookup key = vs.lookup key := by
  induction vs with
  | nil => rfl
  | cons v vs ih =>
      rw [List.filter_cons, Dictionary.lookup_cons_eq]
      split
      · rw [Dictionary.lookup_cons_eq, ih]
      · next hhidden =>
        -- What is hidden has another key.
        have hne : key ≠ v.1 := fun heq => hhidden (heq ▸ hshown)
        rw [if_neg hne, ih]

theorem lookup_transformAll {config : Config} {key : String}
    (hplain : config.transformers.get? key = none) (context : ElementContext) (vs : Values) :
    (transformAll config context vs).value.lookup key = vs.lookup key := by
  induction vs with
  | nil => rfl
  | cons v vs ih =>
      simp only [transformAll, Traced.value_bind, Traced.value_pure, Dictionary.lookup_cons_eq, ih]
      split
      · next hkey =>
        rw [transform, ← hkey, hplain]
        rfl
      · rfl

theorem infix_written {name value : String} {tokens : List (String × String)}
    (h : (name, value) ∈ tokens) :
    (name ++ "=\"" ++ value ++ "\"").toList <:+: (written tokens).toList := by
  induction tokens with
  | nil => cases h
  | cons first rest ih =>
      cases rest with
      | nil =>
          obtain rfl := List.mem_singleton.1 h
          simp [written]
      | cons next rest =>
          rw [toList_written_cons]
          rcases List.mem_cons.1 h with rfl | hmem
          · exact (List.prefix_append _ _).isInfix
          · exact (ih hmem).trans
              ((List.suffix_cons ' ' _).trans (List.suffix_append _ _)).isInfix

/-- The attributes of an element tell a value: it is the one of its key, and where attributes are
written one by one, it is assigned to the name of the key. -/
structure Tells (config : Config) (context : ElementContext) (key value : String) : Prop where
  value_eq : (values config context).value.lookup key = some value
  assigned : config.groupAttributes = false →
    (assignment (config.attributePrefix ++ "-" ++ key) value).toList <:+:
      (generate config context).value.toList

theorem tells_of_lookup {config : Config} {context : ElementContext} {key value : String}
    (h : (values config context).value.lookup key = some value) : Tells config context key value := by
  refine ⟨h, fun hgroup => ?_⟩
  obtain ⟨before, after, hvalues, -⟩ := List.lookup_eq_some_iff.1 h
  have hmem : (key, value) ∈ (values config context).value := by simp [hvalues]
  have htoken : (config.attributePrefix ++ "-" ++ key, Text.Entity.escape value) ∈
      (values config context).value.map fun v =>
        (config.attributePrefix ++ "-" ++ v.1, Text.Entity.escape v.2) :=
    List.mem_map.2 ⟨_, hmem, rfl⟩
  simp only [assignment, generate, Traced.value_bind, Traced.value_pure, render_eq_written hgroup]
  exact infix_written htoken

/-- What is computed for an attribute that is neither hidden nor changed is told. -/
theorem tells_of_plain {config : Config} {context : ElementContext} {key value : String}
    (hshown : config.attributeEnabled key = true) (hplain : config.transformers.get? key = none)
    (hvalue : (plainValues context).lookup key = some value) : Tells config context key value := by
  apply tells_of_lookup
  simp only [values, builtinValues, Traced.value_bind, Traced.value_pure, List.lookup_append,
    lookup_transformAll hplain, lookup_filter hshown, hvalue, Option.some_or]

end Attributes

/-! ## Elements -/

/-- An element opens behind a text of its source, and its attributes tell the position behind that
text. -/
structure OpensBehind (config : Config) (file : FileInfo) (source : List Char) (site : Site)
    (before : List Char) : Prop where
  source_eq : ∃ after, source = before ++ '<' :: after
  start : site.tag.span.start = byteSize before
  line : (siteContext config file site).line = before.count '\n' + 1
  column : (siteContext config file site).column = (lastLine before).length
  lineAttribute : config.attributeEnabled "line" = true → config.transformers.get? "line" = none →
    Attributes.Tells config (siteContext config file site) "line" (toString (before.count '\n' + 1))
  idAttribute : config.attributeEnabled "id" = true → config.transformers.get? "id" = none →
    Attributes.Tells config (siteContext config file site) "id"
      (file.relativePath ++ ":" ++ toString (before.count '\n' + 1) ++ ":" ++
        toString (lastLine before).length)

theorem opensBehind_of_location {source before after : List Char} {site : Site}
    (hsource : source = before ++ '<' :: after) (hstart : site.tag.span.start = byteSize before)
    (hlocation : site.location = some (Position.ofOffset source site.tag.span.start))
    (config : Config) (file : FileInfo) : OpensBehind config file source site before := by
  have hposition : site.location = some ⟨before.count '\n' + 1, (lastLine before).length⟩ := by
    rw [hlocation, hstart, hsource, Position.ofOffset_append]
  have hline : (siteContext config file site).line = before.count '\n' + 1 := by
    simp only [siteContext, ElementContext.ofElement, hposition, Option.getD_some]
    exact Nat.max_eq_left (Nat.le_add_left 1 _)
  have hcolumn : (siteContext config file site).column = (lastLine before).length := by
    simp only [siteContext, ElementContext.ofElement, hposition, Option.getD_some]
  refine ⟨⟨after, hsource⟩, hstart, hline, hcolumn, fun hshown hplain => ?_, fun hshown hplain => ?_⟩
  · rw [← hline]
    exact Attributes.tells_of_plain hshown hplain rfl
  · rw [← hline, ← hcolumn]
    exact Attributes.tells_of_plain hshown hplain rfl

/-- Every element of a program opens behind some text with its `<`. -/
theorem exists_opensBehind {source path : String} {m : SourceModule}
    (h : SourceModule.parse source path = .ok m) {site : Site}
    (hsite : site ∈ Markup.sitesOf [] m.elements) (config : Config) (file : FileInfo) :
    ∃ before, OpensBehind config file source.toList site before := by
  obtain ⟨program, hprogram, rfl⟩ := SourceModule.exists_program h
  obtain ⟨before, lead, delimiter, after, hsplit⟩ := exists_tagSplit_of_mem_sites hprogram hsite
  obtain ⟨inner, rfl⟩ := hsplit.opens
  exact ⟨before, opensBehind_of_location hsplit.source_eq hsplit.start
    (location_of_mem_sites_forest hsite) config file⟩

/-- In a source of less than 2 ^ 32 bytes the line table finds the position of every offset, and its line
and column are below 2 ^ 32; but behind 2 ^ 32 - 1 line feeds and nothing else it finds none. The attributes
of an element tell the position of its `<`. -/
theorem positions_of_source {source : String} (hsize : byteSize source.toList < 2 ^ 32) :
    (∀ offset, ¬ LineTable.Overflows source.toList offset →
      ∃ p, (LineTable.ofSource source.toList).position? source.toList offset = some p ∧
        p = Position.ofOffset source.toList offset ∧ p.Locates source.toList offset ∧
        p.line < 2 ^ 32 ∧ p.column < 2 ^ 32) ∧
    (∀ offset, LineTable.Overflows source.toList offset →
      (LineTable.ofSource source.toList).position? source.toList offset = none) ∧
    ∀ (path : String) (m : SourceModule) (config : Config) (file : FileInfo),
      SourceModule.parse source path = .ok m → ∀ site ∈ Markup.sitesOf [] m.elements,
        1 ≤ (siteContext config file site).line ∧ (siteContext config file site).line < 2 ^ 32 ∧
          ∃ before, OpensBehind config file source.toList site before := by
  refine ⟨fun offset hfits => ?_, fun offset hoverflows => ?_, ?_⟩
  · obtain ⟨-, hline, hfound⟩ :=
      (LineTable.position?_eq hsize offset).resolve_left fun h => hfits h.1
    exact ⟨_, hfound, rfl, Position.locates_ofOffset source.toList offset, hline,
      Nat.lt_of_le_of_lt (Position.column_le_byteSize source.toList offset) hsize⟩
  · exact ((LineTable.position?_eq hsize offset).resolve_right fun h => h.1 hoverflows).2
  · intro path m config file hparse site hsite
    obtain ⟨before, hopens⟩ := exists_opensBehind hparse hsite config file
    refine ⟨hopens.line ▸ Nat.le_add_left 1 _, ?_, before, hopens⟩
    -- The `<` is no line feed, so there are fewer line feeds before it than bytes in the source.
    obtain ⟨after, hsource⟩ := hopens.source_eq
    have hcount : before.count '\n' ≤ byteSize before :=
      Nat.le_trans List.count_le_length (Text.length_le_byteSize before)
    have hbytes := congrArg byteSize hsource
    have hopening : '<'.utf8Size = 1 := by decide
    rw [Text.byteSize_append, Text.byteSize_cons, hopening] at hbytes
    rw [hopens.line]
    omega

/-- A source with an element on its second line, behind a character of two bytes. The offset 7 lies inside
that character. -/
theorem positions_of_source_second_line :
    byteSize "x=<a>\nä<b/></a>".toList < 2 ^ 32 ∧
      (LineTable.ofSource "x=<a>\nä<b/></a>".toList).position? "x=<a>\nä<b/></a>".toList 7 = some ⟨2, 1⟩ ∧
      ∃ m, SourceModule.parse "x=<a>\nä<b/></a>" "a.tsx" = .ok m ∧
        ((Markup.sitesOf [] m.elements).map fun site => site.tag.span.start) = [2, 8] ∧
        ∀ site ∈ Markup.sitesOf [] m.elements, ∃ before,
          OpensBehind {} ⟨"a.tsx", "a.tsx"⟩ "x=<a>\nä<b/></a>".toList site before := by
  have hsize : byteSize "x=<a>\nä<b/></a>".toList < 2 ^ 32 := by decide
  obtain ⟨hpositions, -, helements⟩ := positions_of_source hsize
  have hfits : ¬ LineTable.Overflows "x=<a>\nä<b/></a>".toList 7 := fun h => by
    simpa using h.2
  obtain ⟨p, hfound, hp, -⟩ := hpositions 7 hfits
  have hstarts : (SourceModule.parse "x=<a>\nä<b/></a>" "a.tsx").toOption.map (fun m =>
      (Markup.sitesOf [] m.elements).map fun site => site.tag.span.start) = some [2, 8] := by
    decide +kernel
  obtain ⟨m, hoption, hmap⟩ := Option.map_eq_some_iff.1 hstarts
  have hparse : SourceModule.parse "x=<a>\nä<b/></a>" "a.tsx" = .ok m := by
    revert hoption
    cases SourceModule.parse "x=<a>\nä<b/></a>" "a.tsx" with
    | error e => simp [Except.toOption]
    | ok found => simp [Except.toOption]
  refine ⟨hsize, by rw [hfound, hp]; decide, m, hparse, hmap, fun site hsite => ?_⟩
  exact (helements _ m {} ⟨"a.tsx", "a.tsx"⟩ hparse site hsite).2.2

/-- A user's own attribute may be called `line`, where the computed one is hidden. -/
def ownLine : Config :=
  { includeAttributes := some ["name"], customAttributes := some fun _ => .ok [("line", .string "99")] }

/-- Behind as many line feeds as fit into a source there is no line number, and an attribute of the user
tells another line than that of the element. -/
theorem line_missing_and_replaced :
    (byteSize (List.replicate (2 ^ 32 - 1) '\n') < 2 ^ 32 ∧
      (LineTable.ofSource (List.replicate (2 ^ 32 - 1) '\n')).position?
        (List.replicate (2 ^ 32 - 1) '\n') (2 ^ 32 - 1) = none) ∧
    ownLine.transformers.get? "line" = none ∧
    (SourceModule.parse "<a/>" "a.tsx").toOption.map (fun m =>
      (Markup.sitesOf [] m.elements).map fun site =>
        ((siteContext ownLine ⟨"a.tsx", "a.tsx"⟩ site).line,
          (Attributes.generate ownLine (siteContext ownLine ⟨"a.tsx", "a.tsx"⟩ site)).value)) =
      some [(1, "data-dev-name=\"a\" data-dev-line=\"99\"")] := by
  refine ⟨?_, rfl, by decide +kernel⟩
  generalize hn : 2 ^ 32 - 1 = n
  have hsize : byteSize (List.replicate n '\n') < 2 ^ 32 := by
    rw [byteSize_replicate_lineFeed, ← hn]
    decide
  have hoverflows : LineTable.Overflows (List.replicate n '\n') n := ⟨by rw [hn], by rw [hn]⟩
  exact ⟨hsize, ((LineTable.position?_eq hsize n).resolve_right fun h => h.1 hoverflows).2⟩

end OriginTags
