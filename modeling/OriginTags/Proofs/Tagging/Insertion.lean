import OriginTags.Proofs.Splice.Weave
import OriginTags.Proofs.Tagging.Pass
/-!
# What a pass inserts

An insertion point is always a boundary of the source, whatever the span of the tag, so that nothing
is moved when the insertions are made. The new text of a file is therefore its source with the
attributes of the tagged elements, each before the end of its own tag.
-/

namespace OriginTags

open Markup (Site)

theorem isBoundary_insertionPoint (source : List Char) (span : Span) (selfClosing : Bool) :
    Text.isBoundary source (insertionPoint source span selfClosing).value = true := by
  simp only [insertionPoint]
  split
  case h_1 offset hlast =>
    cases hslice : Text.slice? source (min span.start (min span.stop (Text.byteSize source)))
        (min span.stop (Text.byteSize source)) with
    | none =>
        -- No delimiter occurs in an empty text.
        rw [hslice] at hlast
        cases selfClosing <;> cases hlast
    | some part =>
        rw [hslice] at hlast
        obtain ⟨before, after, rfl, hstart⟩ := Text.exists_split_of_slice? hslice
        obtain ⟨a, b, hpart, rfl⟩ := Text.exists_split_of_lastOccurrence? hlast
        simp only [Option.getD_some] at hpart
        subst hpart
        refine Text.isBoundary_iff.2 ⟨before ++ a, b ++ after, by simp, ?_⟩
        rw [Text.byteSize_append, hstart]
        rfl
  case h_2 => exact Text.isBoundary_floorBoundary source _

/-- What a pass inserts needs no settling. -/
theorem FileTask.map_settle_insertion (task : FileTask) (sites : List Site) :
    (sites.map task.insertion).map (Splice.settle task.source) = sites.map task.insertion := by
  rw [List.map_map]
  refine List.map_congr_left fun site _ => ?_
  exact Splice.settle_of_isBoundary (isBoundary_insertionPoint _ _ _)

/-- Tagging a file inserts one text for each tagged element and changes nothing else: a space and the
attributes of the element's context, before the insertion point of its tag. There is no new text
exactly if no element is tagged. -/
theorem tagFile_inserts {config : Config} {source path : String} {file : FileInfo} {outcome : Outcome}
    (h : (tagFile config source path file).value = .ok outcome) :
    ∃ (m : SourceModule) (sites : List Site), SourceModule.parse source path = .ok m ∧
      sites.Sublist (Markup.sitesOf [] m.elements) ∧
      outcome.tagged = sites.map Site.name ∧
      (outcome.output = none ↔ outcome.tagged = []) ∧
      ∀ spliced, outcome.output = some spliced →
        Splice.Inserts source.toList (sites.map (FileTask.ofModule config source file m).insertion)
          spliced.code.toList := by
  unfold tagFile at h
  cases hparse : SourceModule.parse source path with
  | error e =>
      rw [hparse] at h
      cases h
  | ok m =>
      rw [hparse] at h
      obtain rfl := Except.ok.inj h
      let task := FileTask.ofModule config source file m
      let sites := (Markup.sitesOf [] m.elements).filter fun site =>
        decide (Taggable config m.imports file site)
      have hpass : (Pass.visitAll task m.elements {}).value = Pass.noteAll {} task sites :=
        value_visitAll_ofModule config source file m
      have hinsertions : (Pass.noteAll {} task sites).insertions = sites.map task.insertion :=
        List.nil_append _
      have htagged : (Pass.noteAll {} task sites).tagged = sites.map Site.name :=
        List.nil_append _
      refine ⟨m, sites, rfl, List.filter_sublist, ?_, ?_, ?_⟩
      · simp only [tagModule, Traced.value_bind, Traced.value_pure]
        rw [hpass, htagged]
      · simp only [tagModule, Traced.value_bind, Traced.value_pure]
        rw [hpass, htagged, hinsertions]
        simp
      · intro spliced hspliced
        simp only [tagModule, Traced.value_bind, Traced.value_pure] at hspliced
        rw [hpass, hinsertions] at hspliced
        split at hspliced
        · cases hspliced
        · cases hspliced
          have hsplice := Splice.inserts_finish source file.relativePath (sites.map task.insertion)
          rwa [show source.toList = task.source from rfl, task.map_settle_insertion] at hsplice

/-- In a source where an element stands in an attribute of another one, the inner element is met last
and its text goes in first. -/
theorem tagFile_inserts_nested :
    ∃ outcome, (tagFile { includeAttributes := some ["name"] } "<A b={<i/>}/>" "a.tsx"
        ⟨"a.tsx", "a.tsx"⟩).value = .ok outcome ∧ outcome.tagged = ["A", "i"] ∧
      ∃ (m : SourceModule) (sites : List Site), SourceModule.parse "<A b={<i/>}/>" "a.tsx" = .ok m ∧
        sites.Sublist (Markup.sitesOf [] m.elements) ∧
        outcome.tagged = sites.map Site.name ∧
        (outcome.output = none ↔ outcome.tagged = []) ∧
        ∀ spliced, outcome.output = some spliced →
          Splice.Inserts "<A b={<i/>}/>".toList
            (sites.map (FileTask.ofModule { includeAttributes := some ["name"] } "<A b={<i/>}/>"
              ⟨"a.tsx", "a.tsx"⟩ m).insertion)
            spliced.code.toList := by
  have hnames : (tagFile { includeAttributes := some ["name"] } "<A b={<i/>}/>" "a.tsx"
      ⟨"a.tsx", "a.tsx"⟩).value.toOption.map Outcome.tagged = some ["A", "i"] := by decide +kernel
  obtain ⟨outcome, houtcome, htagged⟩ := Option.map_eq_some_iff.1 hnames
  have hok : (tagFile { includeAttributes := some ["name"] } "<A b={<i/>}/>" "a.tsx"
      ⟨"a.tsx", "a.tsx"⟩).value = .ok outcome := by
    revert houtcome
    cases (tagFile { includeAttributes := some ["name"] } "<A b={<i/>}/>" "a.tsx"
      ⟨"a.tsx", "a.tsx"⟩).value with
    | error e => simp [Except.toOption]
    | ok found => simp [Except.toOption]
  exact ⟨outcome, hok, htagged, tagFile_inserts hok⟩

end OriginTags
