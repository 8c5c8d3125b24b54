import OriginTags.Proofs.Markup.Nesting
import OriginTags.Proofs.Tagging.Attributes
import OriginTags.Proofs.Tagging.Insertion
import OriginTags.Proofs.Tsx.Reads.Element
/-!
# Insertion points and delimiters

An insertion point is found by its text, as the last `>` or `/>` of an opening tag. It is the place of
the delimiter that closes the tag exactly if that delimiter is written in one piece. Blanks and comments
may stand between the `/` and the `>` of a self-closing tag; then the attributes go elsewhere, perhaps
into the tag of an element in an attribute value.
-/

namespace OriginTags

open Markup (OpeningTag Site StandIn Tree)

/-! ## Tags as texts -/

/-- A tag as a part of its source: what stands before it, what it has before its delimiter, the
delimiter as it is written, and what stands behind it. -/
structure TagSplit (source : List Char) (tag : OpeningTag) (before lead delimiter after : List Char) :
    Prop where
  source_eq : source = before ++ ((lead ++ delimiter) ++ after)
  start : tag.span.start = Text.byteSize before
  stop : tag.span.stop = Text.byteSize before + Text.byteSize (lead ++ delimiter)
  opens : ∃ inner, lead = '<' :: inner
  closes : Markup.Delimits tag.selfClosing (delimiter ++ after) after

theorem exists_tagSplit {source front close after : List Char} {tag : OpeningTag}
    (hfront : front <:+ source) (h : tag.Stands (Text.byteSize source) front close after) :
    ∃ before lead delimiter, close = delimiter ++ after ∧
      TagSplit source tag before lead delimiter after := by
  obtain ⟨before, rfl⟩ := hfront
  obtain ⟨inner, rfl, lead, rfl⟩ := h.opens
  obtain ⟨delimiter, rfl⟩ := h.closes.suffix
  refine ⟨before, '<' :: lead, delimiter, rfl, ?_, ?_, ?_, ⟨lead, rfl⟩, h.closes⟩
  · simp
  · have hstart := h.start
    simp only [Text.byteSize_append] at hstart ⊢
    omega
  · have hstop := h.stop
    simp only [Text.byteSize_append, Text.byteSize_cons] at hstop ⊢
    omega

namespace TagSplit

variable {source before lead delimiter after : List Char} {tag : OpeningTag}

theorem slice?_eq (h : TagSplit source tag before lead delimiter after) :
    Text.slice? source tag.span.start tag.span.stop = some (lead ++ delimiter) := by
  rw [h.start, h.stop, h.source_eq, Text.slice?_append]

/-- The insertion point is looked up in the text of the tag alone. -/
theorem value_insertionPoint (h : TagSplit source tag before lead delimiter after) :
    (insertionPoint source tag.span tag.selfClosing).value =
      match Text.lastOccurrence? (closingDelimiter tag.selfClosing) (lead ++ delimiter) with
      | some offset => Text.byteSize before + offset
      | none => Text.floorBoundary source
          (max (tag.span.stop - (closingDelimiter tag.selfClosing).length) tag.span.start) := by
  have hstop : min tag.span.stop (Text.byteSize source) = tag.span.stop := by
    rw [h.stop, h.source_eq]
    simp only [Text.byteSize_append]
    omega
  have hstart : min tag.span.start tag.span.stop = tag.span.start := by
    rw [h.start, h.stop]
    omega
  simp only [insertionPoint, hstop, hstart, h.slice?_eq, Option.getD_some]
  cases Text.lastOccurrence? (closingDelimiter tag.selfClosing) (lead ++ delimiter) with
  | some offset => exact congrArg (· + offset) h.start
  | none => rfl

theorem closingDelimiter_ne_nil (selfClosing : Bool) : closingDelimiter selfClosing ≠ [] := by
  cases selfClosing <;> simp [closingDelimiter]

theorem byteSize_closingDelimiter_pos (selfClosing : Bool) :
    0 < Text.byteSize (closingDelimiter selfClosing) := by
  cases selfClosing <;> decide

/-- Where the delimiter is written in one piece, it is found. -/
theorem value_insertionPoint_of_eq
    (h : TagSplit source tag before lead (closingDelimiter tag.selfClosing) after) :
    (insertionPoint source tag.span tag.selfClosing).value = Text.byteSize (before ++ lead) := by
  rw [h.value_insertionPoint, Text.lastOccurrence?_append (closingDelimiter_ne_nil _),
    Text.byteSize_append]

/-- A delimiter in several pieces begins with a `/` that no `>` follows. -/
theorem exists_gap (h : TagSplit source tag before lead delimiter after)
    (hne : delimiter ≠ closingDelimiter tag.selfClosing) :
    tag.selfClosing = true ∧ ∃ c gap, c ≠ '>' ∧ delimiter = '/' :: c :: (gap ++ ['>']) := by
  have hcloses := h.closes
  cases hself : tag.selfClosing with
  | false =>
      rw [hself] at hcloses hne
      have hdelimiter : delimiter ++ after = ['>'] ++ after := hcloses
      exact absurd (List.append_cancel_right hdelimiter) hne
  | true =>
      rw [hself] at hcloses hne
      obtain ⟨gap, newline, hclose, hskip⟩ := hcloses
      have hdelimiter : delimiter ++ after = ('/' :: (gap ++ ['>'])) ++ after := by simp [hclose]
      obtain rfl := List.append_cancel_right hdelimiter
      cases gap with
      | nil => exact absurd rfl hne
      | cons c gap =>
          refine ⟨rfl, c, gap, ?_, rfl⟩
          rintro rfl
          -- A `>` is neither blank nor the beginning of a comment, so nothing would be skipped.
          have hstay : Tsx.skipTrivia .between false ('>' :: (gap ++ '>' :: after)) =
              some (false, '>' :: (gap ++ '>' :: after)) := by
            simp [Tsx.skipTrivia, Tsx.isLineEnd, Tsx.isSpace]
          rw [List.cons_append, hstay] at hskip
          simp only [Option.some.injEq, Prod.mk.injEq, List.cons.injEq, true_and] at hskip
          have hlength := congrArg List.length hskip.2
          simp only [List.length_append, List.length_cons] at hlength
          omega

/-- Where no delimiter is found, the insertion point lies behind the `/` of the tag. -/
theorem lt_floorBoundary (h : TagSplit source tag before lead delimiter after)
    (hne : delimiter ≠ closingDelimiter tag.selfClosing) :
    Text.byteSize (before ++ lead) < Text.floorBoundary source
      (max (tag.span.stop - (closingDelimiter tag.selfClosing).length) tag.span.start) := by
  obtain ⟨hself, c, gap, -, rfl⟩ := h.exists_gap hne
  have hsource : source = (before ++ lead ++ ['/']) ++ (c :: (gap ++ ['>']) ++ after) := by
    simp [h.source_eq]
  have hslash : Text.byteSize (before ++ lead ++ ['/']) = Text.byteSize (before ++ lead) + 1 := by
    rw [Text.byteSize_append]
    rfl
  have hle : Text.byteSize (before ++ lead ++ ['/']) ≤
      max (tag.span.stop - (closingDelimiter tag.selfClosing).length) tag.span.start := by
    have hend : Text.byteSize ['>'] = 1 := rfl
    have hc := c.utf8Size_pos
    rw [hslash, h.stop, hself]
    simp only [closingDelimiter, Text.byteSize_append, Text.byteSize_cons, hend, if_true,
      List.length_cons, List.length_nil, show Char.utf8Size '/' = 1 from rfl]
    omega
  have hfloor := Text.le_floorBoundary (b := c :: (gap ++ ['>']) ++ after) hle
  rw [← hsource] at hfloor
  omega

theorem value_insertionPoint_ne (h : TagSplit source tag before lead delimiter after)
    (hne : delimiter ≠ closingDelimiter tag.selfClosing) :
    (insertionPoint source tag.span tag.selfClosing).value ≠ Text.byteSize (before ++ lead) := by
  rw [h.value_insertionPoint]
  cases hlast : Text.lastOccurrence? (closingDelimiter tag.selfClosing) (lead ++ delimiter) with
  | some offset =>
      obtain ⟨hself, c, gap, hc, rfl⟩ := h.exists_gap hne
      obtain ⟨a, b, hsplit, rfl⟩ := Text.exists_of_lastOccurrence? hlast
      intro heq
      have hsize : Text.byteSize lead = Text.byteSize a := by
        rw [Text.byteSize_append] at heq
        exact (Nat.add_left_cancel heq).symm
      obtain ⟨-, htail⟩ := Text.append_inj_of_byteSize hsplit hsize
      rw [hself] at htail
      simp only [closingDelimiter, if_true, List.cons_append, List.cons.injEq] at htail
      exact hc htail.2.1
  | none => exact Nat.ne_of_gt (h.lt_floorBoundary hne)

/-- An insertion point lies inside the tag. -/
theorem value_insertionPoint_mem (h : TagSplit source tag before lead delimiter after) :
    tag.span.start < (insertionPoint source tag.span tag.selfClosing).value ∧
      (insertionPoint source tag.span tag.selfClosing).value < tag.span.stop := by
  rw [h.value_insertionPoint]
  cases hlast : Text.lastOccurrence? (closingDelimiter tag.selfClosing) (lead ++ delimiter) with
  | some offset =>
      obtain ⟨a, b, hsplit, rfl⟩ := Text.exists_of_lastOccurrence? hlast
      rw [h.start, h.stop, hsplit]
      simp only [Text.byteSize_append]
      have hdelimiter := byteSize_closingDelimiter_pos tag.selfClosing
      have ha : 0 < Text.byteSize a := by
        obtain ⟨inner, rfl⟩ := h.opens
        cases a with
        | nil => cases hself : tag.selfClosing <;> simp [closingDelimiter, hself] at hsplit
        | cons c cs => exact Nat.add_pos_left c.utf8Size_pos _
      omega
  | none =>
      have hne : delimiter ≠ closingDelimiter tag.selfClosing := by
        rintro rfl
        rw [Text.lastOccurrence?_append (closingDelimiter_ne_nil _)] at hlast
        cases hlast
      have hlow := h.lt_floorBoundary hne
      have hhigh := Text.floorBoundary_le source
        (max (tag.span.stop - (closingDelimiter tag.selfClosing).length) tag.span.start)
      have hlength := List.length_pos_iff.2 (closingDelimiter_ne_nil tag.selfClosing)
      have hstart := h.start
      have hstop := h.stop
      simp only [Text.byteSize_append] at hlow hstop
      dsimp only
      omega

end TagSplit

/-! ## Whole delimiters -/

/-- Whether the text of a tag ends with its delimiter in one piece. -/
def endsWhole (source : List Char) (tag : OpeningTag) : Bool :=
  Text.endsWith ((Text.slice? source tag.span.start tag.span.stop).getD [])
    (closingDelimiter tag.selfClosing)

/-- The insertion point of a tag that ends with its whole delimiter is right before that. -/
theorem TagSplit.exists_of_endsWhole {source before lead delimiter after : List Char}
    {tag : OpeningTag} (h : TagSplit source tag before lead delimiter after)
    (hwhole : endsWhole source tag = true) :
    ∃ a b, source = a ++ (closingDelimiter tag.selfClosing ++ b) ∧
      (insertionPoint source tag.span tag.selfClosing).value = Text.byteSize a ∧
      tag.span.stop = Text.byteSize a + Text.byteSize (closingDelimiter tag.selfClosing) := by
  rw [endsWhole, h.slice?_eq, Option.getD_some, Text.endsWith, List.isSuffixOf_iff_suffix] at hwhole
  obtain ⟨x, hx⟩ := hwhole
  refine ⟨before ++ x, after, ?_, ?_, ?_⟩
  · rw [h.source_eq, ← hx]
    simp
  · rw [h.value_insertionPoint, ← hx, Text.lastOccurrence?_append (TagSplit.closingDelimiter_ne_nil _),
      Text.byteSize_append]
  · rw [h.stop, ← hx]
    simp only [Text.byteSize_append]
    omega

theorem closingDelimiter_inj {selfClosing selfClosing' : Bool} {b b' : List Char}
    (h : closingDelimiter selfClosing ++ b = closingDelimiter selfClosing' ++ b') :
    selfClosing = selfClosing' := by
  cases selfClosing <;> cases selfClosing' <;> simp_all [closingDelimiter]

/-- Tags that end with whole delimiters, and stop at different places, have different insertion
points. -/
theorem TagSplit.insertionPoint_ne {source before lead delimiter after : List Char}
    {before' lead' delimiter' after' : List Char} {tag tag' : OpeningTag}
    (h : TagSplit source tag before lead delimiter after)
    (h' : TagSplit source tag' before' lead' delimiter' after')
    (hwhole : endsWhole source tag = true) (hwhole' : endsWhole source tag' = true)
    (hstop : tag.span.stop ≠ tag'.span.stop) :
    (insertionPoint source tag.span tag.selfClosing).value ≠
      (insertionPoint source tag'.span tag'.selfClosing).value := by
  obtain ⟨a, b, hsplit, hpoint, hend⟩ := h.exists_of_endsWhole hwhole
  obtain ⟨a', b', hsplit', hpoint', hend'⟩ := h'.exists_of_endsWhole hwhole'
  intro heq
  obtain ⟨rfl, htail⟩ := Text.append_inj_of_byteSize (hsplit.symm.trans hsplit')
    (hpoint.symm.trans (heq.trans hpoint'))
  apply hstop
  rw [hend, hend', closingDelimiter_inj htail]

/-! ## Programs -/

theorem exists_tagSplit_of_parse? {source : List Char} {program : Tsx.Program}
    {element : OpeningTag × List Tree} (h : Tsx.parse? source = some program)
    (hmem : element ∈ Markup.elementsOf program.markup) :
    ∃ before lead delimiter after, TagSplit source element.1 before lead delimiter after := by
  obtain ⟨front, close, after, hfront, htag, -, -⟩ := (Tsx.standIn_of_parse? h).elementStands hmem
  obtain ⟨before, lead, delimiter, -, hsplit⟩ := exists_tagSplit hfront htag
  exact ⟨before, lead, delimiter, after, hsplit⟩

theorem exists_tagSplit_of_mem_sites {source : List Char} {program : Tsx.Program} {site : Site}
    (h : Tsx.parse? source = some program)
    (hsite : site ∈ Markup.sitesOf [] (Markup.forest source program.markup)) :
    ∃ before lead delimiter after, TagSplit source site.tag before lead delimiter after := by
  have hmem := Markup.map_tag_sitesOf_forest source program.markup ▸
    List.mem_map_of_mem (f := Site.tag) hsite
  obtain ⟨element, helement, htag⟩ := List.mem_map.1 hmem
  exact htag ▸ exists_tagSplit_of_parse? h helement

/-- No two tags of a program start or stop at one place. -/
theorem pairwise_tags_of_parse? {source : List Char} {program : Tsx.Program}
    (h : Tsx.parse? source = some program) :
    (Markup.sitesOf [] (Markup.forest source program.markup)).Pairwise fun site site' =>
      site.tag.span.start ≠ site'.tag.span.start ∧ site.tag.span.stop ≠ site'.tag.span.stop := by
  have htags := Markup.map_tag_sitesOf_forest source program.markup
  have hapart := (Tsx.standIn_of_parse? h).pairwise_apart (Nat.le_refl _)
  have hpairs : ((Markup.elementsOf program.markup).map Prod.fst).Pairwise fun tag tag' =>
      tag.span.start ≠ tag'.span.start ∧ tag.span.stop ≠ tag'.span.stop :=
    List.pairwise_map.2 (hapart.imp fun happart => ⟨happart.start_ne, happart.stop_ne⟩)
  rw [← htags, List.pairwise_map] at hpairs
  exact hpairs

/-- The insertion points of the tags of a program that end with whole delimiters are all different. -/
theorem nodup_insertionPoints {source : List Char} {program : Tsx.Program}
    (h : Tsx.parse? source = some program) :
    (((Markup.sitesOf [] (Markup.forest source program.markup)).filter fun site =>
      endsWhole source site.tag).map fun site =>
        (insertionPoint source site.tag.span site.tag.selfClosing).value).Nodup := by
  have hapart := pairwise_tags_of_parse? h
  rw [List.nodup_iff_pairwise_ne, List.pairwise_map]
  refine (hapart.filter _).imp_of_mem fun {site site'} hsite hsite' hne => ?_
  rw [List.mem_filter] at hsite hsite'
  obtain ⟨_, _, _, _, htag⟩ := exists_tagSplit_of_mem_sites h hsite.1
  obtain ⟨_, _, _, _, htag'⟩ := exists_tagSplit_of_mem_sites h hsite'.1
  exact htag.insertionPoint_ne htag' hsite.2 hsite'.2 hne.2

/-- An element stands at `front` in a source, with the trees of its attribute values before the
delimiter at `close`. Its insertion point is inside its opening tag, and it is the place of that
delimiter exactly if the delimiter is written in one piece. -/
structure PointStands (source : List Char) (element : OpeningTag × List Tree)
    (front close after : List Char) : Prop where
  front_suffix : front <:+ source
  tag : element.1.Stands (Text.byteSize source) front close after
  attributes : StandIn (Text.byteSize source) element.2 front close
  start_lt : element.1.span.start <
    (insertionPoint source element.1.span element.1.selfClosing).value
  lt_stop : (insertionPoint source element.1.span element.1.selfClosing).value < element.1.span.stop
  eq_close_iff : (insertionPoint source element.1.span element.1.selfClosing).value =
    Text.byteSize source - Text.byteSize close ↔ close = closingDelimiter element.1.selfClosing ++ after

theorem exists_pointStands {source : List Char} {program : Tsx.Program}
    {element : OpeningTag × List Tree} (h : Tsx.parse? source = some program)
    (hmem : element ∈ Markup.elementsOf program.markup) :
    ∃ front close after, PointStands source element front close after := by
  obtain ⟨front, close, after, hfront, htag, hattributes, -⟩ :=
    (Tsx.standIn_of_parse? h).elementStands hmem
  obtain ⟨before, lead, delimiter, rfl, hsplit⟩ := exists_tagSplit hfront htag
  have hinside := hsplit.value_insertionPoint_mem
  refine ⟨front, delimiter ++ after, after, hfront, htag,
    hattributes.of_suffix_front (List.tail_suffix front), hinside.1, hinside.2, ?_⟩
  have hplace : Text.byteSize source - Text.byteSize (delimiter ++ after) =
      Text.byteSize (before ++ lead) := by
    rw [hsplit.source_eq]
    simp only [Text.byteSize_append]
    omega
  rw [hplace, List.append_cancel_right_eq]
  constructor
  · intro hpoint
    by_contra hne
    exact hsplit.value_insertionPoint_ne hne hpoint
  · rintro rfl
    exact hsplit.value_insertionPoint_of_eq

/-- The elements of a program stand in its source, and the insertion point of each is the place of its
own delimiter exactly if that is written in one piece. Elements whose tags end with whole delimiters
have different insertion points. -/
theorem insertionPoint_of_parse {source : List Char} {program : Tsx.Program}
    (h : Tsx.parse? source = some program) :
    (Markup.sitesOf [] (Markup.forest source program.markup)).map Site.tag =
      (Markup.elementsOf program.markup).map Prod.fst ∧
    (∀ element ∈ Markup.elementsOf program.markup,
      ∃ front close after, PointStands source element front close after) ∧
    (((Markup.sitesOf [] (Markup.forest source program.markup)).filter fun site =>
      endsWhole source site.tag).map fun site =>
        (insertionPoint source site.tag.span site.tag.selfClosing).value).Nodup :=
  ⟨Markup.map_tag_sitesOf_forest source program.markup, fun _ hmem => exists_pointStands h hmem,
    nodup_insertionPoints h⟩

/-- A source with three elements: one in an attribute value of another, and one whose delimiter is in
two pieces. -/
theorem insertionPoint_of_parse_nested :
    let source := "<a x={<b/>}>c<d / ></a>".toList
    ∃ program, Tsx.parse? source = some program ∧
      (Markup.elementsOf program.markup).map (endsWhole source ·.1) = [true, true, false] ∧
      (Markup.sitesOf [] (Markup.forest source program.markup)).map Site.tag =
        (Markup.elementsOf program.markup).map Prod.fst ∧
      (∀ element ∈ Markup.elementsOf program.markup,
        ∃ front close after, PointStands source element front close after) ∧
      (((Markup.sitesOf [] (Markup.forest source program.markup)).filter fun site =>
        endsWhole source site.tag).map fun site =>
          (insertionPoint source site.tag.span site.tag.selfClosing).value).Nodup := by
  intro source
  have hwhole : (Tsx.parse? source).map (fun program =>
      (Markup.elementsOf program.markup).map (endsWhole source ·.1)) = some [true, true, false] := by
    decide +kernel
  obtain ⟨program, hparse, hmap⟩ := Option.map_eq_some_iff.1 hwhole
  exact ⟨program, hparse, hmap, insertionPoint_of_parse hparse⟩

/-- In a tag whose delimiter is `/ >` the last `/>` is that of an element in an attribute value: both
elements have the insertion point of the inner one. -/
theorem insertionPoint_shared :
    (Tsx.parse? "<a x={<b/>} / >".toList).map (fun program =>
      (Markup.sitesOf [] (Markup.forest "<a x={<b/>} / >".toList program.markup)).map fun site =>
        (site.name, site.tag.span.start, site.tag.span.stop,
          (insertionPoint "<a x={<b/>} / >".toList site.tag.span site.tag.selfClosing).value)) =
      some [("a", 0, 15, 8), ("b", 6, 10, 8)] := by
  decide +kernel

end OriginTags
