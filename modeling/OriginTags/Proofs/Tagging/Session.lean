import OriginTags.Proofs.Tagging.Insertion
/-!
# Sessions

A tagger is called again and again: modules are transformed, runs are finished, and in between others
change the files. Here is what can be seen of such a session, and what a single call of the tagger can
come to.
-/

namespace OriginTags

open Markup (Site)

/-! ## Sessions -/

/-- The functions that a user supplies. -/
structure Hooks where
  transformers : Dictionary Transformer := .empty
  shouldTag : Option TagPredicate := none
  customAttributes : Option AttributeProvider := none
  onTransform : Option FileHook := none
  onComplete : Option RunHook := none

/-- A configuration with other hooks. -/
def Config.withHooks (config : Config) (hooks : Hooks) : Config :=
  { config with
    transformers := hooks.transformers
    shouldTag := hooks.shouldTag
    customAttributes := hooks.customAttributes
    onTransform := hooks.onTransform
    onComplete := hooks.onComplete }

/-- What may happen in a session. -/
inductive Action
  | transform (code id : String)
  /-- The run is finished, and the counts of names are exported in some order. -/
  | finish (order : Statistics.Order)
  /-- Someone else changes the files. -/
  | edit (files : FileTree)

/-- An action, and how the hooks behave while it lasts. A user's functions may have a state of their
own, so they need not answer in the next step as they did in this one; within a step, they may answer
otherwise for each element. -/
structure Step where
  hooks : Hooks
  action : Action

/-- A tagger with its counters, among files. -/
structure Session where
  config : Config
  statistics : Statistics := {}
  files : FileTree

/-- What can be seen after a step, apart from the records in the log. -/
structure Snapshot where
  output : Option Spliced
  statistics : Statistics
  files : FileTree
  /-- The calls of hooks during the step. -/
  calls : List HookCall

namespace Session

/-- The tagger of a session, while its hooks behave in some way. -/
def tagger (s : Session) (hooks : Hooks) : Tagger := ⟨s.config.withHooks hooks, s.statistics⟩

/-- One step of a session, with the text that a transformed module gets. -/
def step (s : Session) (x : Step) : Traced (Session × Option Spliced) :=
  match x.action with
  | .transform code id => do
    let (tagger, output) ← (s.tagger x.hooks).transform code id
    return ({ s with statistics := tagger.statistics }, output)
  | .finish order => do
    let files ← (s.tagger x.hooks).finish s.files order
    return ({ s with files }, none)
  | .edit files => return ({ s with files }, none)

/-- The session after a step. -/
def next (s : Session) (x : Step) : Session := (s.step x).value.1

/-- What can be seen after a step. -/
def snapshot (s : Session) (x : Step) : Snapshot where
  output := (s.step x).value.2
  statistics := (s.next x).statistics
  files := (s.next x).files
  calls := (s.step x).calls

/-- The session after some steps. -/
def after (s : Session) (steps : List Step) : Session := steps.foldl next s

/-- What can be seen after each of some steps. -/
def run (s : Session) : List Step → List Snapshot
  | [] => []
  | x :: steps => s.snapshot x :: run (s.next x) steps

/-- The configuration stays what it is, but for the hooks. -/
theorem config_next (s : Session) (x : Step) : (s.next x).config = s.config := by
  unfold next step
  cases x.action <;> rfl

end Session

/-! ## Files -/

/-- The elements of a parsed file that are tagged, in the order of their opening tags. -/
def SourceModule.taggedSites (m : SourceModule) (config : Config) (file : FileInfo) : List Site :=
  (Markup.sitesOf [] m.elements).filter fun site => decide (Taggable config m.imports file site)

/-- The attribute texts of a parsed file. -/
def SourceModule.texts (m : SourceModule) (config : Config) (source : String) (file : FileInfo) :
    List Insertion :=
  (m.taggedSites config file).map (FileTask.ofModule config source file m).insertion

/-- A parsed file gets its attribute texts, if there are any. -/
theorem value_tagModule (config : Config) (source : String) (file : FileInfo) (m : SourceModule) :
    (tagModule config source file m).value =
      { tagged := (m.taggedSites config file).map Site.name
        output :=
          if (m.texts config source file).isEmpty then none
          else some (Splice.finish source (m.texts config source file) file.relativePath) } := by
  have htagged : (Pass.noteAll {} (FileTask.ofModule config source file m)
      (m.taggedSites config file)).tagged = (m.taggedSites config file).map Site.name :=
    List.nil_append _
  have htexts : (Pass.noteAll {} (FileTask.ofModule config source file m)
      (m.taggedSites config file)).insertions = m.texts config source file :=
    List.nil_append _
  have hpass : (Pass.visitAll (FileTask.ofModule config source file m) m.elements {}).value =
      Pass.noteAll {} (FileTask.ofModule config source file m) (m.taggedSites config file) :=
    value_visitAll_ofModule config source file m
  simp only [tagModule, Traced.value_bind, Traced.value_pure, hpass, htagged, htexts]

/-- The attribute texts are inserted where they belong, and nothing else is changed. -/
theorem inserts_texts (m : SourceModule) (config : Config) (source : String) (file : FileInfo) :
    Splice.Inserts source.toList (m.texts config source file)
      (Splice.finish source (m.texts config source file) file.relativePath).code.toList := by
  have hinserts := Splice.inserts_finish source file.relativePath (m.texts config source file)
  have hsettled := (FileTask.ofModule config source file m).map_settle_insertion
    (m.taggedSites config file)
  rw [show (m.texts config source file).map (Splice.settle source.toList) =
    m.texts config source file from hsettled] at hinserts
  exact hinserts

/-! ## Modules -/

namespace Tagger

/-- What is known about the file of a module. -/
def moduleFile (config : Config) (id : String) : FileInfo :=
  FileInfo.ofPath config.root (modulePath id)

/-- A module is stopped by a gate. -/
inductive Skips (config : Config) (id : String) : Prop
  | disabled (h : config.enabled = false)
  | otherExtension (h : hasSupportedExtension config (modulePath id) = false)
  | vendored (h : isVendored (modulePath id) = true)
  | filtered (h : Glob.shouldProcess [(moduleFile config id).relativePath, modulePath id]
      config.includePaths config.excludePaths = false)

/-- A file that is no program is counted, and counted as an error. -/
def countFailed (s : Statistics) : Statistics :=
  { s with totalFiles := s.totalFiles + 1, errors := s.errors + 1 }

/-- A file is counted with the elements that were tagged in it. -/
def countTagged (s : Statistics) (tagged : List String) : Statistics :=
  { s with totalFiles := s.totalFiles + 1 }.commit tagged

/-- What may come of transforming a module. -/
inductive Transformed (t : Tagger) (code id : String) : Tagger × Option Spliced → Prop
  | skipped (h : Skips t.config id) : Transformed t code id (t, none)
  | failed {e : ParseError} (h : ¬ Skips t.config id)
      (hparse : SourceModule.parse code (modulePath id) = .error e) :
      Transformed t code id ({ t with statistics := countFailed t.statistics }, none)
  | untagged {m : SourceModule} (h : ¬ Skips t.config id)
      (hparse : SourceModule.parse code (modulePath id) = .ok m)
      (htexts : m.taggedSites t.config (moduleFile t.config id) = []) :
      Transformed t code id ({ t with statistics := countTagged t.statistics [] }, none)
  | tagged {m : SourceModule} {spliced : Spliced} (h : ¬ Skips t.config id)
      (hparse : SourceModule.parse code (modulePath id) = .ok m)
      (hinserts : Splice.Inserts code.toList (m.texts t.config code (moduleFile t.config id))
        spliced.code.toList) :
      Transformed t code id
        ({ t with
            statistics := countTagged t.statistics
              ((m.taggedSites t.config (moduleFile t.config id)).map Site.name) }, some spliced)

theorem value_process (t : Tagger) (code path : String) (file : FileInfo) :
    (t.process code path file).value =
      match SourceModule.parse code path with
      | .error _ => ({ t with statistics := countFailed t.statistics }, none)
      | .ok m =>
        ({ t with
            statistics := countTagged t.statistics (tagModule t.config code file m).value.tagged },
          (tagModule t.config code file m).value.output) := by
  simp only [process, tagFile]
  cases SourceModule.parse code path with
  | error e => rfl
  | ok m => rfl

theorem skips_iff {config : Config} {id : String} :
    Skips config id ↔ isGated config (modulePath id) = true ∨
      Glob.shouldProcess [(moduleFile config id).relativePath, modulePath id]
        config.includePaths config.excludePaths = false := by
  simp only [isGated, Bool.or_eq_true, Bool.not_eq_true', or_assoc]
  constructor
  · intro h
    cases h with
    | disabled h => exact .inl h
    | otherExtension h => exact .inr (.inl h)
    | vendored h => exact .inr (.inr (.inl h))
    | filtered h => exact .inr (.inr (.inr h))
  · rintro (h | h | h | h)
    · exact .disabled h
    · exact .otherExtension h
    · exact .vendored h
    · exact .filtered h

theorem value_transform_of_skips {t : Tagger} {id : String} (h : Skips t.config id) (code : String) :
    (t.transform code id).value = (t, none) := by
  unfold transform
  by_cases hgated : isGated t.config (modulePath id) = true
  · rw [if_pos hgated]
    rfl
  · have hfiltered := (skips_iff.1 h).resolve_left hgated
    rw [if_neg hgated]
    exact congrArg Traced.value (if_neg (by simpa [moduleFile] using hfiltered))

/-- A module that no gate stops is processed. -/
theorem transform_of_not_skips {t : Tagger} {id : String} (h : ¬ Skips t.config id) (code : String) :
    t.transform code id = t.process code (modulePath id) (moduleFile t.config id) := by
  have hpasses : isGated t.config (modulePath id) = false ∧
      Glob.shouldProcess [(moduleFile t.config id).relativePath, modulePath id]
        t.config.includePaths t.config.excludePaths = true := by
    simpa [skips_iff] using h
  unfold transform
  rw [if_neg (by simp [hpasses.1])]
  exact if_pos hpasses.2

theorem value_transform (t : Tagger) (code id : String) :
    Transformed t code id (t.transform code id).value := by
  by_cases hskips : Skips t.config id
  · rw [value_transform_of_skips hskips]
    exact .skipped hskips
  · rw [transform_of_not_skips hskips, value_process]
    cases hparse : SourceModule.parse code (modulePath id) with
    | error e => exact .failed hskips hparse
    | ok m =>
        simp only [value_tagModule]
        split
        · next hempty =>
          have hsites : m.taggedSites t.config (moduleFile t.config id) = [] := by
            simpa [SourceModule.texts] using hempty
          rw [hsites]
          exact .untagged hskips hparse hsites
        · exact .tagged hskips hparse (inserts_texts m t.config code (moduleFile t.config id))

end Tagger

end OriginTags
