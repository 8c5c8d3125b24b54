import OriginTags.Proofs.Dictionary
import OriginTags.Proofs.Tagging.Session
import Mathlib
/-!
# What the counters count

The counters of a session agree with each other and with the texts that were inserted: every file was
tagged or failed, every tagged element was counted under its name, and for each of them one text went
into an output. No call takes anything back.
-/

namespace OriginTags

open Markup (Site)

/-! ## Dictionaries of counts -/

namespace Dictionary

/-- The sum of all counts. -/
def total (d : Dictionary Nat) : Nat := (d.entries.map Prod.snd).sum

theorem sum_insertEntry {key : String} {value : Nat} {entries : List (String × Nat)}
    (h : entries.Pairwise fun a b => a.1 < b.1) :
    ((insertEntry key value entries).map Prod.snd).sum + (entries.lookup key).getD 0 =
      (entries.map Prod.snd).sum + value := by
  induction entries with
  | nil => simp [insertEntry]
  | cons entry rest ih =>
      obtain ⟨hfirst, hrest⟩ := List.pairwise_cons.1 h
      unfold insertEntry
      split
      · next hkey =>
        subst hkey
        rw [lookup_cons_eq, if_pos rfl]
        simp
        omega
      · next hkey =>
        split
        · next hlt =>
          -- All keys of the entries are behind the new one.
          have hnone : (entry :: rest).lookup key = none := by
            refine lookup_eq_none_of_forall_lt fun e he => ?_
            rcases List.mem_cons.1 he with rfl | he
            · exact hlt
            · exact String.lt_trans hlt (hfirst e he)
          simp [hnone]
          omega
        · have hsum := ih hrest
          rw [lookup_cons_eq, if_neg hkey]
          simp
          omega

theorem total_insert (d : Dictionary Nat) (key : String) (value : Nat) :
    (d.insert key value).total + (d.get? key).getD 0 = d.total + value :=
  sum_insertEntry d.sorted

end Dictionary

/-! ## Counters -/

namespace Statistics

/-- How often a name was tagged. -/
def countOf (s : Statistics) (name : String) : Nat := (s.byElementType.get? name).getD 0

/-- The counters agree with each other. -/
structure Balanced (s : Statistics) : Prop where
  files : s.totalFiles = s.processedFiles + s.errors
  elements : s.totalElements = (s.byElementType.entries.map Prod.snd).sum
  counted : ∀ e ∈ s.byElementType.entries, 1 ≤ e.2

/-- No counter is smaller than it was. -/
structure Grows (s t : Statistics) : Prop where
  totalFiles : s.totalFiles ≤ t.totalFiles
  processedFiles : s.processedFiles ≤ t.processedFiles
  totalElements : s.totalElements ≤ t.totalElements
  errors : s.errors ≤ t.errors
  byElementType : ∀ name, s.countOf name ≤ t.countOf name

theorem Grows.refl (s : Statistics) : s.Grows s :=
  ⟨Nat.le_refl _, Nat.le_refl _, Nat.le_refl _, Nat.le_refl _, fun _ => Nat.le_refl _⟩

theorem balanced_empty : Balanced {} :=
  ⟨rfl, rfl, fun _ he => absurd he List.not_mem_nil⟩

theorem total_countName (counts : Dictionary Nat) (name : String) :
    (countName counts name).total = counts.total + 1 := by
  have hinsert := counts.total_insert name ((counts.get? name).getD 0 + 1)
  unfold countName
  omega

theorem total_foldl_countName (names : List String) (counts : Dictionary Nat) :
    (names.foldl countName counts).total = counts.total + names.length := by
  induction names generalizing counts with
  | nil => rfl
  | cons name names ih =>
      rw [List.foldl_cons, ih, total_countName, List.length_cons]
      omega

theorem counted_foldl_countName (names : List String) {counts : Dictionary Nat}
    (h : ∀ e ∈ counts.entries, 1 ≤ e.2) :
    ∀ e ∈ (names.foldl countName counts).entries, 1 ≤ e.2 := by
  induction names generalizing counts with
  | nil => exact h
  | cons name names ih =>
      apply ih
      intro e he
      rcases Dictionary.mem_insertEntry he with rfl | he
      · exact Nat.le_add_left _ _
      · exact h e he

theorem get?_countName (counts : Dictionary Nat) (first name : String) :
    ((countName counts first).get? name).getD 0 =
      (counts.get? name).getD 0 + if name = first then 1 else 0 := by
  rw [countName, Dictionary.get?_insert]
  by_cases hname : name = first
  · simp [hname]
  · simp [hname]

/-- A name is counted as often as it occurs. -/
theorem get?_foldl_countName (names : List String) (counts : Dictionary Nat) (name : String) :
    ((names.foldl countName counts).get? name).getD 0 =
      (counts.get? name).getD 0 + names.count name := by
  induction names generalizing counts with
  | nil => rfl
  | cons first names ih =>
      rw [List.foldl_cons, ih, get?_countName, List.count_cons]
      by_cases hname : name = first
      · subst hname
        simp
        omega
      · simp [hname, Ne.symm hname]

end Statistics

namespace Tagger

open Statistics (Balanced Grows)

theorem balanced_countFailed {s : Statistics} (h : s.Balanced) : (countFailed s).Balanced where
  files := by
    have hfiles := h.files
    simp only [countFailed]
    omega
  elements := h.elements
  counted := h.counted

theorem balanced_countTagged {s : Statistics} (h : s.Balanced) (tagged : List String) :
    (countTagged s tagged).Balanced where
  files := by
    have hfiles := h.files
    simp only [countTagged, Statistics.commit]
    omega
  elements := by
    have htotal := Statistics.total_foldl_countName tagged s.byElementType
    have helements := h.elements
    simp only [countTagged, Statistics.commit, Dictionary.total] at htotal ⊢
    omega
  counted := Statistics.counted_foldl_countName tagged h.counted

theorem grows_countFailed (s : Statistics) : s.Grows (countFailed s) where
  totalFiles := Nat.le_succ _
  processedFiles := Nat.le_refl _
  totalElements := Nat.le_refl _
  errors := Nat.le_succ _
  byElementType _ := Nat.le_refl _

theorem grows_countTagged (s : Statistics) (tagged : List String) :
    s.Grows (countTagged s tagged) where
  totalFiles := Nat.le_succ _
  processedFiles := Nat.le_succ _
  totalElements := Nat.le_add_right _ _
  errors := Nat.le_refl _
  byElementType name := by
    have hcount := Statistics.get?_foldl_countName tagged s.byElementType name
    simp only [Statistics.countOf, countTagged, Statistics.commit]
    omega

end Tagger

/-! ## Sessions -/

/-- The attribute texts of a module, if it is a program. -/
def moduleTexts (config : Config) (code id : String) : List Insertion :=
  match SourceModule.parse code (modulePath id) with
  | .ok m => m.texts config code (Tagger.moduleFile config id)
  | .error _ => []

theorem moduleTexts_of_parse {config : Config} {code id : String} {m : SourceModule}
    (h : SourceModule.parse code (modulePath id) = .ok m) :
    moduleTexts config code id = m.texts config code (Tagger.moduleFile config id) := by
  rw [moduleTexts, h]

/-- The attribute texts that went into the output of a step. -/
def Step.texts (config : Config) (x : Step) (seen : Snapshot) : List Insertion :=
  match x.action, seen.output with
  | .transform code id, some _ => moduleTexts (config.withHooks x.hooks) code id
  | _, _ => []

/-- The output of a step is the source of its module with the attribute texts of the step. -/
def Step.Delivers (config : Config) (x : Step) (seen : Snapshot) : Prop :=
  ∀ spliced, seen.output = some spliced → ∃ code id, x.action = .transform code id ∧
    Splice.Inserts code.toList (x.texts config seen) spliced.code.toList

/-- What a step does to the counters. -/
structure Step.Counts (x : Step) (s : Session) : Prop where
  grows : s.statistics.Grows (s.next x).statistics
  finished : ∀ order, x.action = .finish order → (s.next x).statistics = s.statistics
  skipped : ∀ code id, x.action = .transform code id →
    Tagger.Skips (s.config.withHooks x.hooks) id → (s.next x).statistics = s.statistics
  failed : ∀ code id e, x.action = .transform code id →
    ¬ Tagger.Skips (s.config.withHooks x.hooks) id →
    SourceModule.parse code (modulePath id) = .error e →
    (s.next x).statistics =
      { s.statistics with
        totalFiles := s.statistics.totalFiles + 1, errors := s.statistics.errors + 1 }

namespace Session

/-- What a step may do: it leaves the counters alone, or a module is transformed. -/
theorem step_cases (s : Session) (x : Step) :
    ((∀ code id, x.action ≠ .transform code id) ∧ (s.next x).statistics = s.statistics ∧
      (s.snapshot x).output = none) ∨
    ∃ code id t, x.action = .transform code id ∧
      Tagger.Transformed (s.tagger x.hooks) code id (t, (s.snapshot x).output) ∧
      (s.next x).statistics = t.statistics := by
  obtain ⟨hooks, action⟩ := x
  cases action with
  | transform code id =>
      exact .inr ⟨code, id, _, rfl, Tagger.value_transform (s.tagger hooks) code id, rfl⟩
  | finish order => exact .inl ⟨by simp, rfl, rfl⟩
  | edit files => exact .inl ⟨by simp, rfl, rfl⟩

theorem counts (s : Session) (x : Step) : x.Counts s := by
  rcases s.step_cases x with ⟨haction, hstatistics, -⟩ |
    ⟨code, id, t, haction, htransformed, hstatistics⟩
  · refine ⟨?_, fun _ _ => hstatistics, ?_, ?_⟩
    · rw [hstatistics]
      exact .refl _
    · intro code id h
      exact absurd h (haction code id)
    · intro code id e h
      exact absurd h (haction code id)
  · have hsame : ∀ code' id', x.action = .transform code' id' → code' = code ∧ id' = id := by
      intro code' id' h
      rw [haction] at h
      cases h
      exact ⟨rfl, rfl⟩
    generalize (s.snapshot x).output = output at htransformed
    refine ⟨?_, fun _ h => absurd (haction.symm.trans h) (by simp), ?_, ?_⟩
    · rw [hstatistics]
      cases htransformed with
      | skipped => exact .refl _
      | failed => exact Tagger.grows_countFailed _
      | untagged => exact Tagger.grows_countTagged _ _
      | tagged => exact Tagger.grows_countTagged _ _
    · intro code' id' h hskips
      obtain ⟨rfl, rfl⟩ := hsame _ _ h
      rw [hstatistics]
      cases htransformed with
      | skipped => rfl
      | failed hpasses => exact absurd hskips hpasses
      | untagged hpasses => exact absurd hskips hpasses
      | tagged hpasses => exact absurd hskips hpasses
    · intro code' id' e h hpasses hparse
      obtain ⟨rfl, rfl⟩ := hsame _ _ h
      rw [hstatistics]
      cases htransformed with
      | skipped hskips => exact absurd hskips hpasses
      | failed => rfl
      | untagged _ hok => exact absurd (hparse.symm.trans hok) (by simp)
      | tagged _ hok => exact absurd (hparse.symm.trans hok) (by simp)

/-- A step keeps the counters balanced. -/
theorem balanced_next {s : Session} (h : s.statistics.Balanced) (x : Step) :
    (s.next x).statistics.Balanced := by
  rcases s.step_cases x with ⟨-, hstatistics, -⟩ | ⟨code, id, t, -, htransformed, hstatistics⟩
  · rw [hstatistics]
    exact h
  · generalize (s.snapshot x).output = output at htransformed
    rw [hstatistics]
    cases htransformed with
    | skipped => exact h
    | failed => exact Tagger.balanced_countFailed h
    | untagged => exact Tagger.balanced_countTagged h _
    | tagged => exact Tagger.balanced_countTagged h _

/-- A step counts one element for each attribute text in its output. -/
theorem totalElements_next (s : Session) (x : Step) :
    (s.next x).statistics.totalElements =
      s.statistics.totalElements + (x.texts s.config (s.snapshot x)).length := by
  rcases s.step_cases x with ⟨haction, hstatistics, houtput⟩ |
    ⟨code, id, t, haction, htransformed, hstatistics⟩
  · simp [hstatistics, Step.texts, houtput]
  · simp only [Step.texts, haction]
    generalize (s.snapshot x).output = output at htransformed
    rw [hstatistics]
    cases htransformed with
    | skipped => rfl
    | failed => rfl
    | untagged => rfl
    | tagged _ hparse =>
        simp [moduleTexts_of_parse hparse, Tagger.countTagged, Statistics.commit, SourceModule.texts,
          tagger]

theorem delivers_snapshot (s : Session) (x : Step) : x.Delivers s.config (s.snapshot x) := by
  intro spliced houtput
  rcases s.step_cases x with ⟨-, -, hnone⟩ | ⟨code, id, t, haction, htransformed, -⟩
  · exact absurd (hnone.symm.trans houtput) (by simp)
  · refine ⟨code, id, haction, ?_⟩
    simp only [Step.texts, haction, houtput]
    rw [houtput] at htransformed
    cases htransformed with
    | tagged _ hparse hinserts =>
        rw [moduleTexts_of_parse hparse]
        exact hinserts

/-- A session keeps the counters balanced. -/
theorem balanced_after {s : Session} (h : s.statistics.Balanced) (steps : List Step) :
    (s.after steps).statistics.Balanced := by
  induction steps generalizing s with
  | nil => exact h
  | cons x steps ih => exact ih (balanced_next h x)

/-- The attribute texts in the outputs of a session, in order. -/
def texts (s : Session) (steps : List Step) : List Insertion :=
  (steps.zip (s.run steps)).flatMap fun seen => seen.1.texts s.config seen.2

theorem texts_cons (s : Session) (x : Step) (steps : List Step) :
    s.texts (x :: steps) = x.texts s.config (s.snapshot x) ++ (s.next x).texts steps := by
  simp only [texts, run, List.zip_cons_cons, List.flatMap_cons, config_next]

theorem totalElements_after (s : Session) (steps : List Step) :
    (s.after steps).statistics.totalElements =
      s.statistics.totalElements + (s.texts steps).length := by
  induction steps generalizing s with
  | nil => rfl
  | cons x steps ih =>
      have hrest := ih (s.next x)
      have hstep := s.totalElements_next x
      rw [texts_cons, List.length_append]
      simp only [after, List.foldl_cons] at hrest ⊢
      omega

theorem delivers_run (s : Session) (steps : List Step) :
    ∀ seen ∈ steps.zip (s.run steps), seen.1.Delivers s.config seen.2 := by
  induction steps generalizing s with
  | nil => simp
  | cons x steps ih =>
      have hrest := ih (s.next x)
      rw [config_next] at hrest
      intro seen hseen
      rcases List.mem_cons.1 hseen with rfl | hseen
      · exact s.delivers_snapshot x
      · exact hrest seen hseen

/-- After any steps the counters of a session agree with each other, and as many elements are counted
as attribute texts were inserted into the outputs so far. Each step, from whatever state, lets no
counter shrink; one that finishes the run, or whose module is stopped by a gate, changes none, and a
module that is no program counts as one more file and one more error. -/
theorem statistics_account (config : Config) (files : FileTree) :
    (∀ steps : List Step,
      let start : Session := { config, files }
      (start.after steps).statistics.Balanced ∧
      (start.after steps).statistics.totalElements = (start.texts steps).length ∧
      ∀ seen ∈ steps.zip (start.run steps), seen.1.Delivers config seen.2) ∧
    ∀ (s : Session) (x : Step), x.Counts s := by
  refine ⟨fun steps => ⟨?_, ?_, ?_⟩, counts⟩
  · exact balanced_after Statistics.balanced_empty steps
  · rw [totalElements_after]
    exact Nat.zero_add _
  · exact delivers_run { config, files } steps

end Session

end OriginTags
