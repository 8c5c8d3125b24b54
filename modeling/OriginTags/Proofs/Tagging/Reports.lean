import OriginTags.Proofs.Tagging.Account
import OriginTags.Proofs.Tagging.Calls
import OriginTags.Proofs.Tagging.History
/-!
# Reported files

The file hook hears of every file that is counted as processed, once and in the order of the calls, and what
it is told adds up to the counters: the numbers of elements to their total, and the names to those that have
a count. A report names each element of its file once, in the order of first use.
-/

namespace OriginTags

open Markup (Site)

/-! ## First uses -/

/-- Names without repetitions, in the order in which they are first used. -/
structure FirstUses (names firsts : List String) : Prop where
  nodup : firsts.Nodup
  mem_iff : ∀ name, name ∈ firsts ↔ name ∈ names
  ordered : firsts.Pairwise fun a b => names.idxOf a < names.idxOf b

namespace FirstUses

variable {names firsts : List String} {name : String}

theorem nil : FirstUses [] [] := ⟨List.nodup_nil, by simp, List.Pairwise.nil⟩

theorem ordered_append (h : FirstUses names firsts) (more : List String) :
    firsts.Pairwise fun a b => (names ++ more).idxOf a < (names ++ more).idxOf b := by
  refine h.ordered.imp_of_mem fun ha hb hlt => ?_
  rwa [List.idxOf_append_of_mem ((h.mem_iff _).1 ha), List.idxOf_append_of_mem ((h.mem_iff _).1 hb)]

/-- A name that was used before is no first use. -/
theorem again (h : FirstUses names firsts) (hname : name ∈ firsts) :
    FirstUses (names ++ [name]) firsts where
  nodup := h.nodup
  mem_iff other := by
    rw [List.mem_append, List.mem_singleton, ← h.mem_iff]
    refine ⟨.inl, ?_⟩
    rintro (hother | rfl)
    · exact hother
    · exact hname
  ordered := h.ordered_append [name]

/-- A name that was not used before comes behind all others. -/
theorem first (h : FirstUses names firsts) (hname : name ∉ firsts) :
    FirstUses (names ++ [name]) (firsts ++ [name]) where
  nodup := List.nodup_append.2 ⟨h.nodup, List.nodup_singleton name, by
    intro a ha b hb
    rw [List.mem_singleton.1 hb]
    exact fun heq => hname (heq ▸ ha)⟩
  mem_iff other := by rw [List.mem_append, List.mem_append, h.mem_iff]
  ordered := by
    refine List.pairwise_append.2 ⟨h.ordered_append [name], List.pairwise_singleton _ _, ?_⟩
    intro a ha b hb
    obtain rfl := List.mem_singleton.1 hb
    have hused : a ∈ names := (h.mem_iff a).1 ha
    have hnew : b ∉ names := fun hmem => hname ((h.mem_iff b).2 hmem)
    rw [List.idxOf_append_of_mem hused, List.idxOf_append_of_notMem hnew]
    exact Nat.lt_add_right _ (List.idxOf_lt_length_of_mem hused)

end FirstUses

/-- A search for different names goes on behind the names that were looked at. -/
theorem firstUses_distinctNames {before seen : List String} (h : FirstUses before seen.reverse)
    (names : List String) : FirstUses (before ++ names) (distinctNames seen names) := by
  induction names generalizing before seen with
  | nil => simpa [distinctNames] using h
  | cons name names ih =>
      unfold distinctNames
      rw [List.append_cons]
      split
      · next hseen => exact ih (h.again (by simpa using hseen))
      · next hnew =>
        refine ih ?_
        rw [List.reverse_cons]
        exact h.first (by simpa using hnew)

/-! ## Reports -/

/-- A file whose elements were tagged, with their names. -/
structure TaggedFile where
  file : FileInfo
  tagged : List String

/-- What is reported of a file. -/
def TaggedFile.report (f : TaggedFile) : FileReport :=
  FileReport.ofTagged f.file.relativePath f.tagged

/-- A report tells the path of a file, how many of its elements were tagged, and their names. -/
structure Describes (f : TaggedFile) (report : FileReport) : Prop where
  filePath : report.filePath = f.file.relativePath
  elementCount : report.elementCount = f.tagged.length
  elements : FirstUses f.tagged report.elements

theorem describes_report (f : TaggedFile) : Describes f f.report where
  filePath := rfl
  elementCount := rfl
  elements := by
    have hstart : FirstUses [] ([] : List String).reverse := .nil
    exact firstUses_distinctNames hstart f.tagged

/-- The report that a hook is called with, if it is the file hook. -/
def HookCall.report? : HookCall → Option FileReport
  | .onTransform report => some report
  | .transformer .. | .shouldTag _ | .customAttributes _ | .onComplete _ => none

/-- The reports among some calls of hooks, in order. -/
def reportsOf (calls : List HookCall) : List FileReport := calls.filterMap HookCall.report?

theorem reportsOf_append (first second : List HookCall) :
    reportsOf (first ++ second) = reportsOf first ++ reportsOf second :=
  List.filterMap_append

theorem reportsOf_elementCalls (config : Config) (context : ElementContext) :
    reportsOf (elementCalls config context) = [] := by
  have htransformers : reportsOf (Attributes.transformerCalls config context) = [] :=
    Attributes.filterMap_transformerCalls (fun _ _ => rfl) config context
  simp only [elementCalls, reportsOf_append, apply_ite reportsOf, htransformers]
  simp [reportsOf, HookCall.report?]

/-- Of the calls for a parsed file, the last one reports it. -/
theorem reportsOf_calls (m : SourceModule) (config : Config) (file : FileInfo)
    (hhook : config.onTransform.isSome = true) :
    reportsOf (m.calls config file) =
      [FileReport.ofTagged file.relativePath ((m.taggedSites config file).map Site.name)] := by
  have hsites : reportsOf ((Markup.sitesOf [] m.elements).flatMap
      (siteCalls config (LibraryBindings.ofImports m.imports) file)) = [] := by
    rw [reportsOf, List.filterMap_flatMap, List.flatMap_eq_nil_iff]
    intro site _
    unfold siteCalls
    split
    · exact reportsOf_elementCalls config _
    · rfl
  rw [SourceModule.calls, reportsOf_append, hsites, reportCalls, if_pos hhook]
  rfl

/-! ## Modules -/

theorem calls_writeLogged (files : FileTree) (root target : String) (statistics : Statistics)
    (order : Statistics.Order) :
    (Export.writeLogged files root target statistics order).calls = [] := by
  unfold Export.writeLogged
  obtain ⟨result, after⟩ := Export.write files root target statistics order
  cases result with
  | ok path => rfl
  | error e => cases e <;> rfl

namespace Tagger

theorem calls_transform_of_skips {t : Tagger} {id : String} (h : Skips t.config id) (code : String) :
    (t.transform code id).calls = [] := by
  unfold transform
  by_cases hgated : isGated t.config (modulePath id) = true
  · rw [if_pos hgated]
    rfl
  · have hfiltered := (skips_iff.1 h).resolve_left hgated
    rw [if_neg hgated]
    exact congrArg Traced.calls (if_neg (by simpa [moduleFile] using hfiltered))

/-- The end of a run calls the hook for the run, if there is one, and no other. -/
theorem calls_finish (t : Tagger) (files : FileTree) (order : Statistics.Order) :
    (t.finish files order).calls =
      if t.config.onComplete.isSome then [.onComplete t.statistics] else [] := by
  unfold finish
  rw [Traced.calls_bind, calls_log, List.nil_append]
  cases t.config.exportStats with
  | none =>
      cases t.config.onComplete with
      | none => rfl
      | some hook =>
          refine calls_invoke_bind fun answer => ?_
          cases answer <;> rfl
  | some target =>
      have hwrite := calls_writeLogged files t.config.root target t.statistics order
      cases t.config.onComplete with
      | none => exact hwrite
      | some hook =>
          refine calls_invoke_bind fun answer => ?_
          cases answer with
          | ok _ => exact hwrite
          | error failure => rw [Traced.calls_bind, hwrite, warn, calls_log, List.nil_append]

theorem reportsOf_finish (t : Tagger) (files : FileTree) (order : Statistics.Order) :
    reportsOf (t.finish files order).calls = [] := by
  rw [calls_finish]
  split <;> rfl

/-- The file that comes of a module, if no gate stops it and it is a program. -/
def taggedFile? (config : Config) (code id : String) : Option TaggedFile :=
  if Skips config id then none
  else
    match (tagFile config code (modulePath id) (moduleFile config id)).value with
    | .error _ => none
    | .ok outcome => some ⟨moduleFile config id, outcome.tagged⟩

theorem taggedFile?_of_skips {config : Config} {id : String} (h : Skips config id) (code : String) :
    taggedFile? config code id = none :=
  if_pos h

theorem taggedFile?_of_not_skips {config : Config} {id : String} (h : ¬ Skips config id)
    (code : String) :
    taggedFile? config code id =
      match SourceModule.parse code (modulePath id) with
      | .error _ => none
      | .ok m =>
        some ⟨moduleFile config id, (m.taggedSites config (moduleFile config id)).map Site.name⟩ := by
  rw [taggedFile?, if_neg h, tagFile]
  cases SourceModule.parse code (modulePath id) with
  | error e => rfl
  | ok m => simp only [Traced.value_bind, Traced.value_pure, value_tagModule]

/-- A file hook hears of a module if it is tagged, whatever it answers. -/
theorem reportsOf_transform (t : Tagger) (hhook : t.config.onTransform.isSome = true)
    (code id : String) :
    reportsOf (t.transform code id).calls =
      (taggedFile? t.config code id).toList.map TaggedFile.report := by
  by_cases hskips : Skips t.config id
  · rw [calls_transform_of_skips hskips, taggedFile?_of_skips hskips]
    rfl
  · rw [transform_of_not_skips hskips, calls_process, taggedFile?_of_not_skips hskips]
    cases SourceModule.parse code (modulePath id) with
    | error e => rfl
    | ok m => exact reportsOf_calls m t.config (moduleFile t.config id) hhook

end Tagger

/-! ## Tallies -/

/-- The names that a tally counts, if it counts a tagged file. -/
def Tally.names? : Tally → Option (List String)
  | .nothing | .failed => none
  | .tagged names => some names

theorem Tagger.names?_verdict (config : Config) (code id : String) :
    (verdict config code id).1.names? = (taggedFile? config code id).map TaggedFile.tagged := by
  by_cases hskips : Skips config id
  · rw [taggedFile?_of_skips hskips, verdict, if_pos hskips]
    rfl
  · rw [taggedFile?_of_not_skips hskips, verdict, if_neg hskips]
    cases SourceModule.parse code (modulePath id) with
    | error e => rfl
    | ok m => simp only [Tally.names?, value_tagModule, Option.map_some]

namespace Statistics

theorem mem_keys_foldl_countName (names : List String) (counts : Dictionary Nat) (name : String) :
    name ∈ (names.foldl countName counts).keys ↔ name ∈ counts.keys ∨ name ∈ names := by
  induction names generalizing counts with
  | nil => simp
  | cons first names ih =>
      rw [List.foldl_cons, ih, countName, Dictionary.mem_keys_insert, List.mem_cons, or_assoc,
        or_left_comm]

/-- The counters after some files, one of them after the other. -/
structure Counts (s : Statistics) (files : List (List String)) (t : Statistics) : Prop where
  processedFiles : t.processedFiles = s.processedFiles + files.length
  totalElements : t.totalElements = s.totalElements + (files.map List.length).sum
  byElementType : t.byElementType = files.flatten.foldl countName s.byElementType

theorem counts_foldl_addTo (tallies : List Tally) (s : Statistics) :
    Counts s (tallies.filterMap Tally.names?) (tallies.foldl (fun c tally => tally.addTo c) s) := by
  induction tallies generalizing s with
  | nil => exact ⟨rfl, rfl, rfl⟩
  | cons tally tallies ih =>
      have hrest := ih (tally.addTo s)
      cases tally with
      | nothing => exact hrest
      | failed => exact ⟨hrest.processedFiles, hrest.totalElements, hrest.byElementType⟩
      | tagged names =>
          rw [List.filterMap_cons_some (rfl : (Tally.tagged names).names? = some names)]
          refine ⟨hrest.processedFiles.trans ?_, hrest.totalElements.trans ?_,
            hrest.byElementType.trans ?_⟩
          · simp only [Tally.addTo, Tagger.countTagged, commit, List.length_cons]
            omega
          · simp only [Tally.addTo, Tagger.countTagged, commit, List.map_cons, List.sum_cons]
            omega
          · rw [List.flatten_cons, List.foldl_append]
            rfl

end Statistics

/-! ## Sessions -/

/-- The file that a step tags, if it tags one. -/
def Step.taggedFile? (config : Config) (x : Step) : Option TaggedFile :=
  match x.action with
  | .transform code id => Tagger.taggedFile? (config.withHooks x.hooks) code id
  | .finish _ | .edit _ => none

theorem Step.names?_tally (config : Config) (x : Step) :
    (x.tally config).names? = (x.taggedFile? config).map TaggedFile.tagged := by
  obtain ⟨hooks, action⟩ := x
  cases action with
  | transform code id => exact Tagger.names?_verdict (config.withHooks hooks) code id
  | finish order => rfl
  | edit files => rfl

namespace Session

/-- The reports that a step delivers. -/
theorem reportsOf_snapshot (s : Session) {x : Step} (hhook : x.hooks.onTransform.isSome = true) :
    reportsOf (s.snapshot x).calls = (x.taggedFile? s.config).toList.map TaggedFile.report := by
  obtain ⟨hooks, action⟩ := x
  cases action with
  | transform code id =>
      have hcalls : (s.snapshot ⟨hooks, .transform code id⟩).calls =
          ((s.tagger hooks).transform code id).calls := by
        simp only [snapshot, step, Traced.calls_bind, calls_pure, List.append_nil]
      rw [hcalls]
      exact (s.tagger hooks).reportsOf_transform hhook code id
  | finish order =>
      have hcalls : (s.snapshot ⟨hooks, .finish order⟩).calls =
          ((s.tagger hooks).finish s.files order).calls := by
        simp only [snapshot, step, Traced.calls_bind, calls_pure, List.append_nil]
      rw [hcalls, Tagger.reportsOf_finish]
      rfl
  | edit files => rfl

/-- The reports that are delivered in a session, in order. -/
def reports (s : Session) (steps : List Step) : List FileReport :=
  (s.run steps).flatMap fun seen => reportsOf seen.calls

theorem reports_eq (s : Session) {steps : List Step}
    (hhooks : ∀ x ∈ steps, x.hooks.onTransform.isSome = true) :
    s.reports steps = (steps.filterMap (Step.taggedFile? s.config)).map TaggedFile.report := by
  induction steps generalizing s with
  | nil => rfl
  | cons x steps ih =>
      have hfirst := s.reportsOf_snapshot (hhooks x List.mem_cons_self)
      have hrest := ih (s.next x) fun y hy => hhooks y (List.mem_cons_of_mem _ hy)
      rw [config_next] at hrest
      have hcons : s.reports (x :: steps) =
          reportsOf (s.snapshot x).calls ++ (s.next x).reports steps := rfl
      rw [hcons, hfirst, hrest, ← List.map_append, List.filterMap_eq_flatMap_toList,
        List.filterMap_eq_flatMap_toList, List.flatMap_cons]

theorem counts_after (s : Session) (steps : List Step) :
    Statistics.Counts s.statistics
      ((steps.filterMap (Step.taggedFile? s.config)).map TaggedFile.tagged)
      (s.after steps).statistics := by
  have hnames : ((steps.map (Step.tally s.config)).filterMap Tally.names?) =
      (steps.filterMap (Step.taggedFile? s.config)).map TaggedFile.tagged := by
    rw [List.filterMap_map, List.map_filterMap]
    exact List.filterMap_congr fun x _ => x.names?_tally s.config
  rw [statistics_after, ← hnames]
  exact Statistics.counts_foldl_addTo _ _

end Session

/-- Reports agree with the counters of the run. -/
structure Agrees (reports : List FileReport) (s : Statistics) : Prop where
  processedFiles : reports.length = s.processedFiles
  totalElements : (reports.map FileReport.elementCount).sum = s.totalElements
  keys : ∀ name, name ∈ s.byElementType.keys ↔ ∃ report ∈ reports, name ∈ report.elements

theorem agrees_of_counts {files : List TaggedFile} {s : Statistics}
    (h : Statistics.Counts {} (files.map TaggedFile.tagged) s) :
    Agrees (files.map TaggedFile.report) s where
  processedFiles := by rw [h.processedFiles, List.length_map, List.length_map, Nat.zero_add]
  totalElements := by
    rw [h.totalElements, List.map_map, List.map_map, Nat.zero_add]
    rfl
  keys name := by
    rw [h.byElementType, Statistics.mem_keys_foldl_countName]
    -- A report has the names of its file, though it repeats none of them.
    have hfile : ∀ f : TaggedFile, name ∈ f.report.elements ↔ name ∈ f.tagged := fun f =>
      (describes_report f).elements.mem_iff name
    have hempty : name ∉ (Dictionary.empty : Dictionary Nat).keys := List.not_mem_nil
    simp [hempty, hfile]

namespace Session

/-- A step counts as many processed files as it reports. -/
theorem processedFiles_next (s : Session) {x : Step} (hhook : x.hooks.onTransform.isSome = true) :
    (s.next x).statistics.processedFiles =
      s.statistics.processedFiles + (reportsOf (s.snapshot x).calls).length := by
  have hcounts : (s.next x).statistics.processedFiles = s.statistics.processedFiles +
      (([x].filterMap (Step.taggedFile? s.config)).map TaggedFile.tagged).length :=
    (s.counts_after [x]).processedFiles
  rw [hcounts, s.reportsOf_snapshot hhook, List.filterMap_eq_flatMap_toList,
    List.flatMap_singleton, List.length_map, List.length_map]

/-- In a session with a file hook, which may fail as it likes, every file that is tagged is reported once,
in the order of the calls, and no other. The reports agree with the counters: there are as many as there
are processed files, their elements add up to the total, and the names that have a count are those that are
in some report. Each single step delivers as many reports as it counts processed files. -/
theorem reports_agree (config : Config) (files : FileTree) {steps : List Step}
    (hhooks : ∀ x ∈ steps, x.hooks.onTransform.isSome = true) :
    let start : Session := { config, files }
    List.Forall₂ Describes (steps.filterMap (Step.taggedFile? config)) (start.reports steps) ∧
      Agrees (start.reports steps) (start.after steps).statistics ∧
      ∀ (s : Session), ∀ x ∈ steps, (s.next x).statistics.processedFiles =
        s.statistics.processedFiles + (reportsOf (s.snapshot x).calls).length := by
  intro start
  have hreports : start.reports steps =
      (steps.filterMap (Step.taggedFile? config)).map TaggedFile.report :=
    start.reports_eq hhooks
  rw [hreports]
  refine ⟨?_, agrees_of_counts (start.counts_after steps), ?_⟩
  · rw [List.forall₂_map_right_iff, List.forall₂_same]
    exact fun f _ => describes_report f
  · exact fun s x hx => s.processedFiles_next (hhooks x hx)

/-- A session with a module that is left alone, one that is no program, one without elements and two that
repeat names, while the file hook fails in two ways. -/
theorem reports_agree_failing :
    let rejecting : Hooks := { onTransform := some fun _ => .error (.rejected "no") }
    let crashing : Hooks := { onTransform := some fun _ => .error (.crashed none) }
    let config : Config := {}
    let start : Session := { config, files := ⟨[]⟩ }
    let steps : List Step :=
      [⟨rejecting, .transform "<a><b/><a/></a>" "x.tsx"⟩, ⟨crashing, .transform "<b/>" "y.css"⟩,
        ⟨crashing, .transform "<b" "y.tsx"⟩, ⟨rejecting, .transform "1" "z.tsx"⟩,
        ⟨rejecting, .finish .sorted⟩, ⟨crashing, .transform "<c><b/></c>" "x.tsx"⟩]
    (∀ x ∈ steps, x.hooks.onTransform.isSome = true) ∧
      (start.reports steps).map (fun r => (r.filePath, r.elementCount, r.elements)) =
        [("x.tsx", 3, ["a", "b"]), ("z.tsx", 0, []), ("x.tsx", 2, ["c", "b"])] ∧
      Agrees (start.reports steps) (start.after steps).statistics := by
  intro rejecting crashing config start steps
  have hhooks : ∀ x ∈ steps, x.hooks.onTransform.isSome = true := by simp [steps, rejecting, crashing]
  exact ⟨hhooks, by decide +kernel, (reports_agree config ⟨[]⟩ hhooks).2.1⟩

end Session

end OriginTags
