import OriginTags.Proofs.Tagging.AttributeName
import OriginTags.Proofs.Tagging.Delimiter
import OriginTags.Proofs.Tagging.Session
import OriginTags.Proofs.Text.Boundary
import OriginTags.Proofs.Tsx.Rejection
import Mathlib.Data.List.Nodup
/-!
# Delimiters in two pieces

Blanks and comments may stand between the `/` and the `>` that close a tag. Its attributes then go before an
earlier `/>`, or behind the `/`. Where nothing but blanks stands between the two, the file that begins with
such a tag is no program any more.
-/

namespace OriginTags

open Markup (OpeningTag Site)

/-! ## Parts of a splice -/

namespace Splice

open Text (byteSize)

/-- A text has all of a source, in order, perhaps with insertions. -/
def Extends (source code : List Char) : Prop :=
  ∃ parts : List Piece, code = parts.flatMap Piece.text ∧ source = parts.flatMap Piece.keptText

theorem exists_of_mem_placed {parts : List Piece} {start : Nat} {i : Insertion}
    (h : i ∈ placed start parts) : ∃ before behind,
      parts = before ++ .inserted i.text.toList :: behind ∧
        i.offset = start + byteSize (before.flatMap Piece.keptText) := by
  induction parts generalizing start with
  | nil => cases h
  | cons part parts ih =>
      cases part with
      | kept text =>
          obtain ⟨before, behind, rfl, hoffset⟩ := ih h
          refine ⟨.kept text :: before, behind, rfl, ?_⟩
          rw [hoffset, List.flatMap_cons, Text.byteSize_append, Nat.add_assoc]
          rfl
      | inserted text =>
          rcases List.mem_cons.1 h with rfl | h
          · exact ⟨[], parts, by simp, rfl⟩
          · obtain ⟨before, behind, rfl, hoffset⟩ := ih h
            exact ⟨.inserted text :: before, behind, rfl, hoffset⟩

/-- An insertion parts the code as its offset parts the source. -/
theorem Inserts.exists_parted {source code : List Char} {insertions : List Insertion} {i : Insertion}
    (h : Inserts source insertions code) (hi : i ∈ insertions) : ∃ a b left right,
      source = a ++ b ∧ i.offset = byteSize a ∧ code = left ++ (i.text.toList ++ right) ∧
        Extends a left ∧ Extends b right := by
  obtain ⟨parts, hcode, hsource, hplaced⟩ := h
  obtain ⟨before, behind, rfl, hoffset⟩ := exists_of_mem_placed (hplaced.mem_iff.2 hi)
  rw [List.flatMap_append, List.flatMap_cons] at hcode hsource
  exact ⟨_, _, _, _, hsource, by simpa using hoffset, hcode, ⟨before, rfl, rfl⟩, ⟨behind, rfl, rfl⟩⟩

/-- What is inserted first stands behind the text before it. -/
theorem exists_code_finish {source : String} (name : String) {insertions : List Insertion}
    {i : Insertion} {a b : List Char} (hsource : source.toList = a ++ b) (hoffset : i.offset = byteSize a)
    (hsettled : insertions.map (settle source.toList) = insertions) (hi : i ∈ insertions)
    (hfirst : ∀ j ∈ insertions, j = i ∨ i.offset < j.offset) : ∃ rest,
      (finish source insertions name).code.toList = a ++ (i.text.toList ++ rest) := by
  have habove : ∀ j ∈ insertions, 0 + byteSize a ≤ j.offset := by
    intro j hj
    rcases hfirst j hj with rfl | hlt <;> omega
  rw [code_finish, hsettled, hsource, ← text_weaveCells, weaveCells_append habove b,
    List.flatMap_append, text_weaveCells]
  have hkept : (a.map Cell.kept).flatMap Cell.text = a := by simp [List.flatMap_map, Cell.text]
  have hat : ∃ rest, textsAt insertions (0 + byteSize a) = i.text.toList ++ rest := by
    have hmem : i ∈ insertions.filter fun j => j.offset == 0 + byteSize a :=
      List.mem_filter.2 ⟨hi, by simp [hoffset]⟩
    rw [textsAt]
    cases hfilter : insertions.filter fun j => j.offset == 0 + byteSize a with
    | nil =>
        rw [hfilter] at hmem
        cases hmem
    | cons j others =>
        have hj : j ∈ insertions.filter fun j => j.offset == 0 + byteSize a :=
          hfilter ▸ List.mem_cons_self
        rw [List.mem_filter, beq_iff_eq] at hj
        rcases hfirst j hj.1 with rfl | hlt
        · exact ⟨_, rfl⟩
        · omega
  obtain ⟨rest, hrest⟩ := hat
  rw [hkept]
  cases b with
  | nil => exact ⟨rest, by rw [weave, hrest]⟩
  | cons c b => exact ⟨_, by rw [weave, hrest, List.append_assoc]⟩

end Splice

/-! ## Where attributes go instead -/

/-- Attributes go between two parts of a tag whose delimiter is in pieces, elsewhere than before that
delimiter. -/
structure Misplaced (lead delimiter first second : List Char) : Prop where
  parts : lead ++ delimiter = first ++ second
  ne : second ≠ delimiter
  /-- Before the last `/>`, or where there is none between the `/` and the `>`. -/
  place : ['/', '>'] <+: second ∨ ¬ ['/', '>'] <:+: lead ++ delimiter ∧ ∃ gap gap',
    delimiter = '/' :: (gap ++ (gap' ++ ['>'])) ∧ second = gap' ++ ['>']

theorem TagSplit.exists_misplaced {source before lead delimiter after : List Char} {tag : OpeningTag}
    (h : TagSplit source tag before lead delimiter after)
    (hne : delimiter ≠ closingDelimiter tag.selfClosing) : ∃ first second,
      (insertionPoint source tag.span tag.selfClosing).value = Text.byteSize (before ++ first) ∧
        Misplaced lead delimiter first second := by
  have helsewhere := h.value_insertionPoint_ne hne
  have hpoint := h.value_insertionPoint
  obtain ⟨hself, c, gap, -, rfl⟩ := h.exists_gap hne
  cases hlast : Text.lastOccurrence? (closingDelimiter tag.selfClosing)
      (lead ++ '/' :: c :: (gap ++ ['>'])) with
  | some offset =>
      obtain ⟨a, b, hsplit, rfl⟩ := Text.exists_of_lastOccurrence? hlast
      rw [hself] at hsplit
      simp only [hlast, ← Text.byteSize_append] at hpoint
      refine ⟨a, '/' :: '>' :: b, hpoint, hsplit, fun heq => helsewhere ?_, .inl ⟨b, rfl⟩⟩
      -- With the delimiter behind it, the first part would be what the tag has before that.
      rw [← heq] at hsplit
      rw [hpoint, List.append_cancel_right hsplit]
  | none =>
      simp only [hlast] at hpoint
      have hlow := h.lt_floorBoundary hne
      have hmem := h.value_insertionPoint_mem.2
      rw [← hpoint] at hlow
      have hboundary := isBoundary_insertionPoint source tag.span tag.selfClosing
      generalize (insertionPoint source tag.span tag.selfClosing).value = point at *
      obtain ⟨u, v, hsource, rfl⟩ := Text.exists_split_of_isBoundary hboundary
      -- The point is behind the `/`, and before the `>` with which the tag stops.
      have hslash : (before ++ lead ++ ['/']) ++ (c :: gap ++ (['>'] ++ after)) = u ++ v := by
        rw [← hsource, h.source_eq]
        simp
      have hstop := h.stop
      simp only [Text.byteSize_append, Text.byteSize_cons, Text.byteSize_nil,
        show Char.utf8Size '/' = 1 from rfl, show Char.utf8Size '>' = 1 from rfl] at hlow hstop
      obtain ⟨mid, rfl, hrest⟩ := Text.exists_append_of_byteSize_le hslash (by
        simp only [Text.byteSize_append, Text.byteSize_cons, Text.byteSize_nil,
          show Char.utf8Size '/' = 1 from rfl]
        omega)
      obtain ⟨gap', hgap, rfl⟩ := Text.exists_append_of_byteSize_le hrest.symm (by
        simp only [Text.byteSize_append, Text.byteSize_cons, Text.byteSize_nil,
          show Char.utf8Size '/' = 1 from rfl] at hmem ⊢
        omega)
      have hdelimiter : '/' :: c :: (gap ++ ['>']) = '/' :: (mid ++ (gap' ++ ['>'])) := by
        rw [← List.cons_append, hgap, List.append_assoc]
      refine ⟨lead ++ '/' :: mid, gap' ++ ['>'], by simp, by simp [hdelimiter], fun heq => ?_,
        .inr ⟨?_, mid, gap', hdelimiter, rfl⟩⟩
      · have hlength := congrArg List.length (heq.trans hdelimiter)
        simp only [List.length_append, List.length_cons, List.length_nil] at hlength
        omega
      · have hnone := Text.lastOccurrence?_eq_none_iff.1 hlast
        rwa [hself] at hnone

/-- A file begins with a tag that has a name and no attributes, and between the `/` and the `>` of that tag
stand blanks. -/
structure BeginsBare (before lead delimiter : List Char) : Prop where
  before : ∀ c ∈ before, Tsx.isGapChar c = true
  lead : ∃ name blanks, lead = '<' :: (name ++ blanks) ∧ Tsx.isName name = true ∧
    ∀ c ∈ blanks, Tsx.isGapChar c = true
  delimiter : ∃ gap, delimiter = '/' :: (gap ++ ['>']) ∧ ∀ c ∈ gap, Tsx.isGapChar c = true

namespace BeginsBare

variable {before lead delimiter : List Char}

theorem notMem_of_gap {cs : List Char} {c : Char} (h : ∀ d ∈ cs, Tsx.isGapChar d = true)
    (hc : Tsx.isGapChar c = false) : c ∉ cs :=
  fun hmem => Tsx.ne_of_isGapChar (h c hmem) hc rfl

theorem notMem_of_isName {cs : List Char} {c : Char} (h : Tsx.isName cs = true)
    (hc : Text.isIdentifierPart c = false) : c ∉ cs := by
  intro hmem
  rw [Tsx.isIdentifierPart_of_isName h c hmem] at hc
  cases hc

/-- The tag has the only `<` in its beginning of the file. -/
theorem notMem_open (h : BeginsBare before lead delimiter) :
    '<' ∉ before ∧ ∃ inner, lead = '<' :: inner ∧ '<' ∉ inner ++ delimiter := by
  obtain ⟨name, blanks, hlead, hname, hblanks⟩ := h.lead
  obtain ⟨gap, hdelimiter, hgap⟩ := h.delimiter
  have hname' := notMem_of_isName (c := '<') hname (by decide)
  have hblanks' := notMem_of_gap (c := '<') hblanks (by decide)
  have hgap' := notMem_of_gap (c := '<') hgap (by decide)
  exact ⟨notMem_of_gap h.before (by decide), _, hlead, by simp [hdelimiter, hname', hblanks', hgap']⟩

theorem exists_of_misplaced (h : BeginsBare before lead delimiter) {first second : List Char}
    (hplace : Misplaced lead delimiter first second) : ∃ name blanks gap,
      first = '<' :: (name ++ (blanks ++ '/' :: gap)) ∧ Tsx.isName name = true ∧
        (∀ c ∈ blanks, Tsx.isGapChar c = true) ∧ ∀ c ∈ gap, Tsx.isGapChar c = true := by
  obtain ⟨name, blanks, rfl, hname, hblanks⟩ := h.lead
  obtain ⟨gap, rfl, hgap⟩ := h.delimiter
  obtain ⟨rest, rfl⟩ | ⟨-, gap', gap'', hdelimiter, rfl⟩ := hplace.place
  · -- The only `/` of the tag is that of its delimiter.
    have hslash : '/' ∉ '<' :: (name ++ blanks) := by
      have hname' := notMem_of_isName (c := '/') hname (by decide)
      have hblanks' := notMem_of_gap (c := '/') hblanks (by decide)
      simp [hname', hblanks']
    have hslash' : '/' ∉ gap ++ ['>'] := by
      have hgap' := notMem_of_gap (c := '/') hgap (by decide)
      simp [hgap']
    have hparts := hplace.parts
    simp only [List.cons_append, List.nil_append] at hparts
    obtain ⟨-, -, hrest⟩ := (List.append_cons_inj_of_notMem hslash hslash').1 hparts
    exact absurd (by rw [hrest]; rfl) hplace.ne
  · have hgaps : gap = gap' ++ gap'' := by
      have htail := List.tail_eq_of_cons_eq hdelimiter
      rw [← List.append_assoc] at htail
      exact List.append_cancel_right htail
    subst hgaps
    refine ⟨name, blanks, gap', ?_, hname, hblanks, fun c hc => hgap c (List.mem_append_left _ hc)⟩
    have hparts : first ++ (gap'' ++ ['>']) =
        ('<' :: (name ++ (blanks ++ '/' :: gap'))) ++ (gap'' ++ ['>']) := by
      rw [← hplace.parts]
      simp
    exact List.append_cancel_right hparts

end BeginsBare

/-! ## Outputs -/

/-- The file is tagged if one of its elements is. -/
theorem exists_output {config : Config} {source path : String} {file : FileInfo} {m : SourceModule}
    {site : Site} (hparse : SourceModule.parse source path = .ok m)
    (hsite : site ∈ m.taggedSites config file) : ∃ outcome,
      (tagFile config source path file).value = .ok outcome ∧ outcome.output =
        some (Splice.finish source (m.texts config source file) file.relativePath) := by
  have hvalue : (tagFile config source path file).value =
      .ok (tagModule config source file m).value := by
    rw [tagFile, hparse]
    rfl
  refine ⟨_, hvalue, ?_⟩
  have hne : m.texts config source file ≠ [] := by
    rw [SourceModule.texts, ne_eq, List.map_eq_nil_iff]
    exact List.ne_nil_of_mem hsite
  rw [value_tagModule]
  simp [hne]

/-- In a file that begins with a bare tag every other tag starts behind that. -/
theorem stop_le_start {source before lead delimiter after before' lead' delimiter' after' : List Char}
    {tag tag' : OpeningTag} (htag : TagSplit source tag before lead delimiter after)
    (htag' : TagSplit source tag' before' lead' delimiter' after')
    (hbare : BeginsBare before lead delimiter) (hstart : tag.span.start ≠ tag'.span.start) :
    tag.span.stop ≤ tag'.span.start := by
  obtain ⟨hbefore, inner, rfl, hinner⟩ := hbare.notMem_open
  obtain ⟨inner', rfl⟩ := htag'.opens
  by_contra hlt
  rw [htag.stop, htag'.start, ← Text.byteSize_append] at hlt
  have hsource : before' ++ ('<' :: (inner' ++ delimiter' ++ after')) =
      (before ++ ('<' :: inner ++ delimiter)) ++ after := by
    have heq := htag'.source_eq.symm.trans htag.source_eq
    simpa using heq
  obtain ⟨mid, hmid, hrest⟩ := Text.exists_append_of_byteSize_le hsource (by omega)
  cases mid with
  | nil =>
      rw [List.append_nil] at hmid
      rw [hmid] at hlt
      exact hlt (Nat.le_refl _)
  | cons c mid =>
      obtain rfl : '<' = c := (List.cons.inj hrest).1
      rw [List.cons_append] at hmid
      obtain ⟨rfl, -⟩ := (List.append_cons_inj_of_notMem hbefore hinner).1 hmid
      exact hstart (htag.start.trans htag'.start.symm)

theorem insertion_of_beginsBare {config : Config} {source path : String} {file : FileInfo}
    {m : SourceModule} {site : Site} {before lead delimiter after : List Char}
    (hparse : SourceModule.parse source path = .ok m) (hsite : site ∈ m.taggedSites config file)
    (htag : TagSplit source.toList site.tag before lead delimiter after)
    (hbare : BeginsBare before lead delimiter) :
    ∀ i ∈ m.texts config source file,
      i = (FileTask.ofModule config source file m).insertion site ∨
        ((FileTask.ofModule config source file m).insertion site).offset < i.offset := by
  intro i hi
  obtain ⟨other, hother, rfl⟩ := List.mem_map.1 hi
  by_cases hsame : other = site
  · exact .inl (by rw [hsame])
  unfold SourceModule.parse at hparse
  split at hparse
  case h_2 => cases hparse
  case h_1 program hprogram =>
    cases hparse
    have hmem := (List.mem_filter.1 hsite).1
    have hmem' := (List.mem_filter.1 hother).1
    have hnodup : ((Markup.sitesOf [] (Markup.forest source.toList program.markup)).map
        fun site => site.tag.span.start).Nodup :=
      List.pairwise_map.2 ((pairwise_tags_of_parse? hprogram).imp And.left)
    have hstart : site.tag.span.start ≠ other.tag.span.start := fun heq =>
      hsame (List.inj_on_of_nodup_map hnodup hmem' hmem heq.symm)
    obtain ⟨_, _, _, _, htag'⟩ := exists_tagSplit_of_mem_sites hprogram hmem'
    have hstop := stop_le_start htag htag' hbare hstart
    have hpoint := htag.value_insertionPoint_mem.2
    have hpoint' := htag'.value_insertionPoint_mem.1
    exact .inr (Nat.lt_trans (Nat.lt_of_lt_of_le hpoint hstop) hpoint')

/-- The output is no program if the attributes of a bare tag at the beginning of the file are misplaced. -/
theorem not_isValidSource_of_beginsBare {code : String}
    {before lead delimiter first second attributePrefix text rest : List Char}
    (hbare : BeginsBare before lead delimiter)
    (hplace : Misplaced lead delimiter first second)
    (hletter : Config.isAttributePrefix attributePrefix = true)
    (hcode : code.toList = before ++ first ++ (' ' :: (attributePrefix ++ text) ++ rest)) :
    isValidSource code = false := by
  obtain ⟨name, blanks, gap, rfl, hname, hblanks, hgap⟩ := hbare.exists_of_misplaced hplace
  cases attributePrefix with
  | nil => cases hletter
  | cons c cs =>
      have hc : Text.isIdentifierStart c = true := by
        simp only [Config.isAttributePrefix, Bool.and_eq_true] at hletter
        have hchar : isNameChar c = true := by
          simp [isNameChar, Char.isAlphanum, hletter.1]
        exact (isIdentifierStart_iff hchar).2 (.inl hletter.1)
      have hgap' : ∀ d ∈ gap ++ [' '], Tsx.isGapChar d = true := by
        intro d hd
        rcases List.mem_append.1 hd with hd | hd
        · exact hgap d hd
        · rw [List.mem_singleton.1 hd]
          rfl
      have hnone := Tsx.parse?_bare_tag_word hbare.before hname hblanks hgap' (by simp) hc
        (cs ++ text ++ rest)
      have hsource : code.toList = before ++ '<' :: (name ++ (blanks ++ '/' :: (gap ++ [' '] ++
          c :: (cs ++ text ++ rest)))) := by
        rw [hcode]
        simp
      rw [isValidSource, hsource, hnone]
      rfl

/-- An element whose tag is closed by a `/` and a `>` apart is tagged, but its attributes do not go before
that delimiter: they go before an earlier `/>` of the tag, or behind its `/`. If the file begins with the
tag, and the tag has no attributes yet, and blanks alone stand between `/` and `>`, the output is no
program, whatever the attributes are and whatever follows the tag. -/
theorem output_of_split_delimiter {config : Config} {source path : String} {file : FileInfo}
    {m : SourceModule} {site : Site} {before lead delimiter after : List Char}
    (hparse : SourceModule.parse source path = .ok m) (hsite : site ∈ m.taggedSites config file)
    (htag : TagSplit source.toList site.tag before lead delimiter after)
    (hsplit : delimiter ≠ closingDelimiter site.tag.selfClosing) :
    ∃ outcome spliced first second left right,
      (tagFile config source path file).value = .ok outcome ∧ outcome.output = some spliced ∧
      Misplaced lead delimiter first second ∧
      spliced.code.toList = left ++
        (' ' :: (Attributes.generate config (siteContext config file site)).value.toList ++ right) ∧
      Splice.Extends (before ++ first) left ∧ Splice.Extends (second ++ after) right ∧
      (Config.isAttributePrefix config.attributePrefix.toList = true →
        BeginsBare before lead delimiter → isValidSource spliced.code = false) := by
  obtain ⟨outcome, hvalue, houtput⟩ := exists_output hparse hsite
  obtain ⟨first, second, hpoint, hplace⟩ := htag.exists_misplaced hsplit
  let i := (FileTask.ofModule config source file m).insertion site
  have hi : i ∈ m.texts config source file := List.mem_map_of_mem hsite
  have htext : i.text.toList =
      ' ' :: (Attributes.generate config (siteContext config file site)).value.toList := by
    show (" " ++ _).toList = _
    rw [String.toList_append]
    rfl
  have hsource : source.toList = (before ++ first) ++ (second ++ after) := by
    rw [htag.source_eq, hplace.parts]
    simp
  obtain ⟨a, b, left, right, hparted, hoffset, hcode, hleft, hright⟩ :=
    (inserts_texts m config source file).exists_parted hi
  obtain ⟨rfl, rfl⟩ := Text.append_inj_of_byteSize (hparted.symm.trans hsource) (hoffset.symm.trans hpoint)
  rw [htext] at hcode
  refine ⟨outcome, _, first, second, left, right, hvalue, houtput, hplace, hcode, hleft, hright,
    fun hletter hbare => ?_⟩
  have htaggable : Taggable config m.imports file site := by
    simpa [SourceModule.taggedSites] using (List.mem_filter.1 hsite).2
  obtain ⟨rest, hrest⟩ := Attributes.exists_lead_of_render htaggable.hasAttributes
  obtain ⟨behind, hbehind⟩ := Splice.exists_code_finish file.relativePath hsource hpoint
    ((FileTask.ofModule config source file m).map_settle_insertion _) hi
    (insertion_of_beginsBare hparse hsite htag hbare)
  rw [htext, show (Attributes.generate config (siteContext config file site)).value.toList =
    config.attributePrefix.toList ++ rest from hrest] at hbehind
  exact not_isValidSource_of_beginsBare hbare hplace hletter hbehind

/-- A file of one bare tag, whose name and `/` and `>` all stand apart. -/
theorem output_of_split_delimiter_default :
    let site : Site := ⟨[], ⟨.plain "a", ⟨0, 6⟩, true, []⟩, some ⟨1, 0⟩, []⟩
    ∃ m, SourceModule.parse "<a / >" "a.tsx" = .ok m ∧
      site ∈ m.taggedSites {} ⟨"a.tsx", "a.tsx"⟩ ∧
      TagSplit "<a / >".toList site.tag [] "<a ".toList "/ >".toList [] ∧
      BeginsBare [] "<a ".toList "/ >".toList ∧
      ∃ outcome spliced, (tagFile {} "<a / >" "a.tsx" ⟨"a.tsx", "a.tsx"⟩).value = .ok outcome ∧
        outcome.output = some spliced ∧
        isValidSource "<a / >" = true ∧ isValidSource spliced.code = false := by
  intro site
  let m : SourceModule := ⟨[], [.element site.tag site.location site.children]⟩
  have hparse : SourceModule.parse "<a / >" "a.tsx" = .ok m := rfl
  have hsite : site ∈ m.taggedSites {} ⟨"a.tsx", "a.tsx"⟩ :=
    List.mem_filter.2 ⟨List.mem_singleton_self site, by decide +kernel⟩
  have htag : TagSplit "<a / >".toList site.tag [] "<a ".toList "/ >".toList [] :=
    ⟨by decide, rfl, by decide, ⟨['a', ' '], by decide⟩, [' '], false, by decide, by decide⟩
  have hspace : ∀ c ∈ [' '], Tsx.isGapChar c = true := by simp [Tsx.isGapChar, Tsx.isSpace]
  have hbare : BeginsBare [] "<a ".toList "/ >".toList :=
    ⟨by simp, ⟨['a'], [' '], by decide, by decide, hspace⟩, [' '], by decide, hspace⟩
  obtain ⟨outcome, spliced, _, _, _, _, hvalue, houtput, -, -, -, -, hinvalid⟩ :=
    output_of_split_delimiter hparse hsite htag (by decide)
  exact ⟨m, hparse, hsite, htag, hbare, outcome, spliced, hvalue, houtput, rfl, hinvalid (by decide) hbare⟩

/-- What is written for a tag with a blank between its `/` and its `>`. -/
theorem output_of_split_delimiter_text :
    ((tagFile { includeAttributes := some ["name"] } "<a / >" "a.tsx"
      ⟨"a.tsx", "a.tsx"⟩).value.toOption.bind Outcome.output).map Spliced.code =
        some "<a / data-dev-name=\"a\" >" ∧
      isValidSource "<a / >" = true ∧ isValidSource "<a / data-dev-name=\"a\" >" = false := by
  decide +kernel

end OriginTags
