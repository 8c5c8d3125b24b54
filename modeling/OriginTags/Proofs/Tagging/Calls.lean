import OriginTags.Proofs.Tagging.Repair
import Mathlib.Logic.Basic
/-!
# Which hooks are called

The calls of hooks while a module is transformed, said without the walk that makes them. The elements
that may be tagged come in the order of their opening tags; for each of them the predicate is asked,
then the values of its attributes are transformed, then the provider is asked, and after all of them the
file is reported.
-/

namespace OriginTags

open Markup (Site)

/-! ## Calls -/

/-- The predicate says no to an element. One that fails does not. -/
def Config.Refuses (config : Config) (context : ElementContext) : Prop :=
  ∃ predicate, config.shouldTag = some predicate ∧
    (predicate context).reply (some context) = .ok false

namespace Attributes

/-- The keys of the attributes whose values may be transformed. -/
def transformableKeys : List String := ["id", "name", "path", "line", "file", "component"]

/-- The value of such an attribute before it is transformed. -/
def untransformed (context : ElementContext) : String → String
  | "id" => place context
  | "path" => context.filePath
  | "line" => toString context.line
  | "file" => context.fileName
  | _ => context.elementName

/-- The calls of transformers for an element: one for each attribute that has one and is enabled. -/
def transformerCalls (config : Config) (context : ElementContext) : List HookCall :=
  (transformableKeys.filter fun key =>
    (config.transformers.get? key).isSome && config.attributeEnabled key).map fun key =>
      .transformer key (untransformed context key)

theorem filterMap_transformerCalls {α : Type} {read : HookCall → Option α}
    (hread : ∀ key value, read (.transformer key value) = none) (config : Config)
    (context : ElementContext) : (transformerCalls config context).filterMap read = [] := by
  rw [transformerCalls, List.filterMap_map]
  exact List.filterMap_eq_nil_iff.2 fun key _ => hread key (untransformed context key)

end Attributes

theorem passesPredicate_eq_false_iff {config : Config} {context : ElementContext} :
    (passesPredicate config context).value = false ↔ config.Refuses context := by
  rw [← Bool.not_eq_true, passesPredicate_iff, Config.Refuses]
  simp only [not_forall, ne_eq, not_not, exists_prop]

instance (config : Config) (context : ElementContext) : Decidable (config.Refuses context) :=
  decidable_of_iff _ passesPredicate_eq_false_iff

/-- The calls of hooks for an element that may be tagged, as far as its name and depth tell. -/
def elementCalls (config : Config) (context : ElementContext) : List HookCall :=
  (if config.shouldTag.isSome then [.shouldTag context] else []) ++
    if config.Refuses context then []
    else
      Attributes.transformerCalls config context ++
        if config.customAttributes.isSome then [.customAttributes context] else []

/-- The calls of hooks for an element. -/
def siteCalls (config : Config) (library : LibraryBindings) (file : FileInfo) (site : Site) :
    List HookCall :=
  if isEligible config library site.tag.name site.depth then
    elementCalls config (siteContext config file site)
  else []

/-- The calls of hooks after a file with the names of its tagged elements. -/
def reportCalls (config : Config) (file : FileInfo) (tagged : List String) : List HookCall :=
  if config.onTransform.isSome then [.onTransform (FileReport.ofTagged file.relativePath tagged)]
  else []

/-- The calls of hooks for a parsed file. -/
def SourceModule.calls (m : SourceModule) (config : Config) (file : FileInfo) : List HookCall :=
  (Markup.sitesOf [] m.elements).flatMap
      (siteCalls config (LibraryBindings.ofImports m.imports) file) ++
    reportCalls config file ((m.taggedSites config file).map Site.name)

/-! ## Computations -/

section Computations

variable {α β : Type}

theorem calls_pure (a : α) : (pure a : Traced α).calls = [] := rfl

theorem calls_log (level : LogLevel) (fields : List (String × String)) (message : String) :
    (log level fields message).calls = [] := rfl

theorem calls_invoke (call : HookCall) (hook : Hook α β) (argument : α)
    (element : Option ElementContext) : (invoke call hook argument element).calls = [call] := rfl

/-- Whatever comes of the answer of a hook, if no more hooks are called. -/
theorem calls_invoke_bind {γ : Type} {call : HookCall} {hook : Hook α β} {argument : α}
    {element : Option ElementContext} {f : Except HookFailure β → Traced γ}
    (h : ∀ answer, (f answer).calls = []) :
    (invoke call hook argument element >>= f).calls = [call] := by
  rw [Traced.calls_bind, calls_invoke, h, List.append_nil]

end Computations

/-! ## Elements -/

section Elements

variable (config : Config) (context : ElementContext)

theorem calls_passesPredicate :
    (passesPredicate config context).calls =
      if config.shouldTag.isSome then [.shouldTag context] else [] := by
  unfold passesPredicate
  cases config.shouldTag with
  | none => rfl
  | some predicate =>
      refine calls_invoke_bind fun answer => ?_
      cases answer <;> rfl

namespace Attributes

theorem calls_transform (key value : String) :
    (transform config context key value).calls =
      if (config.transformers.get? key).isSome then [.transformer key value] else [] := by
  unfold transform
  cases config.transformers.get? key with
  | none => rfl
  | some transformer =>
      refine calls_invoke_bind fun answer => ?_
      cases answer with
      | error failure => rfl
      | ok changed => cases changed <;> rfl

/-- What comes of one value has no influence on the calls for the others. -/
theorem calls_transformAll (vs : Values) :
    (transformAll config context vs).calls =
      (vs.filter fun v => (config.transformers.get? v.1).isSome).map fun v => .transformer v.1 v.2 := by
  induction vs with
  | nil => rfl
  | cons v vs ih =>
      simp only [transformAll, Traced.calls_bind, calls_transform, calls_pure, ih, List.filter_cons,
        List.append_nil]
      split <;> rfl

theorem plainValues_eq :
    plainValues context = transformableKeys.map fun key => (key, untransformed context key) :=
  rfl

theorem calls_builtinValues :
    (builtinValues config context).calls = transformerCalls config context := by
  simp only [builtinValues, Traced.calls_bind, calls_transformAll, calls_pure, List.append_nil,
    plainValues_eq, transformerCalls, List.filter_map, List.map_map, List.filter_filter]
  rfl

theorem calls_truncate (key value : String) : (truncate key value).calls = [] := by
  unfold truncate
  dsimp only
  split <;> rfl

theorem calls_acceptCustom (entries : List (String × Json)) (accepted : Nat) (taken : List String) :
    (acceptCustom config context entries accepted taken).calls = [] := by
  induction entries generalizing accepted taken with
  | nil => rfl
  | cons entry rest ih =>
      unfold acceptCustom
      dsimp only
      split
      · exact ih ..
      split
      · rfl
      split
      · exact ih ..
      split
      · exact ih ..
      split
      · exact ih ..
      · rw [Traced.calls_bind, calls_truncate, Traced.calls_bind, ih]
        rfl

theorem calls_customValues (builtin : Values) :
    (customValues config context builtin).calls =
      if config.customAttributes.isSome then [.customAttributes context] else [] := by
  unfold customValues
  cases config.customAttributes with
  | none => rfl
  | some provider =>
      refine calls_invoke_bind fun answer => ?_
      cases answer with
      | error failure => rfl
      | ok entries => exact calls_acceptCustom ..

theorem calls_generate :
    (generate config context).calls = transformerCalls config context ++
      if config.customAttributes.isSome then [.customAttributes context] else [] := by
  simp only [generate, values, Traced.calls_bind, calls_builtinValues, calls_customValues, calls_pure,
    List.append_nil]

end Attributes

end Elements

theorem calls_insertionPoint (source : List Char) (span : Span) (selfClosing : Bool) :
    (insertionPoint source span selfClosing).calls = [] := by
  unfold insertionPoint
  dsimp only
  split <;> rfl

/-! ## The walk -/

namespace Pass

/-- Whether an element is tagged in the end has no influence on the calls for it. -/
theorem calls_tagElement (task : FileTask) (site : Site) (p : Pass)
    (hdepth : p.opened.length = site.depth) :
    (p.tagElement task site.tag site.location site.children).calls =
      siteCalls task.config task.library task.file site := by
  have hcontext : task.context site.depth site.tag site.location site.children =
      siteContext task.config task.file site := rfl
  simp only [tagElement, hdepth, hcontext, siteCalls]
  by_cases heligible : isEligible task.config task.library site.tag.name site.depth = true
  case neg => simp [heligible, calls_pure]
  case pos =>
    simp only [heligible, Bool.not_true, Bool.false_eq_true, if_false, if_true, Traced.calls_bind,
      calls_passesPredicate, elementCalls]
    by_cases hrefuses : task.config.Refuses (siteContext task.config task.file site)
    case pos =>
      rw [passesPredicate_eq_false_iff.2 hrefuses, if_pos hrefuses]
      rfl
    case neg =>
      have hpasses : (passesPredicate task.config (siteContext task.config task.file site)).value =
          true := by
        rwa [← Bool.not_eq_false, passesPredicate_eq_false_iff]
      rw [hpasses, if_neg hrefuses]
      simp only [if_true, Traced.calls_bind, Attributes.calls_generate]
      by_cases htext :
          (Attributes.generate task.config (siteContext task.config task.file site)).value = ""
      case pos => simp [htext, calls_pure]
      case neg => simp [htext, Traced.calls_bind, calls_insertionPoint, calls_pure]

theorem opened_tagElement (task : FileTask) (site : Site) (p : Pass)
    (hdepth : p.opened.length = site.depth) :
    (p.tagElement task site.tag site.location site.children).value.opened = p.opened := by
  rw [value_tagElement task site p hdepth, opened_noteAll]

mutual

/-- The calls of a walk over a node are those for its elements, in the order of their opening tags. -/
theorem calls_visit (task : FileTask) (around : List Markup.OpeningTag) :
    ∀ (node : Markup.Node) (p : Pass), p.opened.length = around.length →
      (p.visit task node).calls =
        (node.sites around).flatMap (siteCalls task.config task.library task.file)
  | .element tag location children, p, hdepth => by
      -- The element is on the stack while it is tagged and while what is below it is visited.
      let site : Site := ⟨around, tag, location, children⟩
      have henter : (p.enter tag.span).opened.length = site.depth := by
        simp [site, enter, Site.depth, hdepth]
      have htag := calls_tagElement task site (p.enter tag.span) henter
      have hopened := congrArg List.length (opened_tagElement task site (p.enter tag.span) henter)
      have hbelow := calls_visitAll task (tag :: around) children _ (hopened.trans henter)
      simp only [visit, Traced.calls_bind, calls_pure, List.append_nil, Markup.Node.sites,
        List.flatMap_cons]
      exact congrArg₂ (· ++ ·) htag hbelow
  | .text _, _, _ => rfl

theorem calls_visitAll (task : FileTask) (around : List Markup.OpeningTag) :
    ∀ (nodes : List Markup.Node) (p : Pass), p.opened.length = around.length →
      (p.visitAll task nodes).calls =
        (Markup.sitesOf around nodes).flatMap (siteCalls task.config task.library task.file)
  | [], _, _ => rfl
  | node :: nodes, p, hdepth => by
      have hopened := congrArg List.length (opened_visit task node p)
      have hfirst := calls_visit task around node p hdepth
      have hothers := calls_visitAll task around nodes _ (hopened.trans hdepth)
      simp only [visitAll, Traced.calls_bind, Markup.sitesOf, List.flatMap_append]
      exact congrArg₂ (· ++ ·) hfirst hothers

end

end Pass

/-! ## Modules -/

theorem calls_noteLibrary (file : FileInfo) (library : LibraryBindings) :
    (noteLibrary file library).calls = [] := by
  unfold noteLibrary
  split <;> rfl

theorem calls_tagModule (config : Config) (source : String) (file : FileInfo) (m : SourceModule) :
    (tagModule config source file m).calls =
      (Markup.sitesOf [] m.elements).flatMap
        (siteCalls config (LibraryBindings.ofImports m.imports) file) := by
  simp only [tagModule, Traced.calls_bind, calls_noteLibrary, calls_pure, List.nil_append,
    List.append_nil]
  exact Pass.calls_visitAll (FileTask.ofModule config source file m) [] m.elements {} rfl

namespace Tagger

theorem calls_reportFile (config : Config) (file : FileInfo) (tagged : List String) :
    (reportFile config file tagged).calls = reportCalls config file tagged := by
  unfold reportFile reportCalls
  cases config.onTransform with
  | none => rfl
  | some hook =>
      refine calls_invoke_bind fun answer => ?_
      cases answer <;> rfl

theorem calls_process (t : Tagger) (code path : String) (file : FileInfo) :
    (t.process code path file).calls =
      match SourceModule.parse code path with
      | .error _ => []
      | .ok m => m.calls t.config file := by
  simp only [process, tagFile]
  cases SourceModule.parse code path with
  | error e => rfl
  | ok m =>
      have htagged : (tagModule t.config code file m).value.tagged =
          (m.taggedSites t.config file).map Site.name := by
        rw [value_tagModule]
      simp only [Traced.calls_bind, Traced.value_bind, Traced.value_pure, calls_reportFile,
        calls_tagModule, htagged, SourceModule.calls, note, calls_log, calls_pure, List.append_nil]

/-- A module that no gate stops calls hooks only for those of its elements that may be tagged, as far as
their names and depths tell. They come in the order of their opening tags: the predicate is asked about
each of them, and unless it says no, the transformers of its enabled attributes get the values as they
were, and the provider is asked last. The file is reported after all of them. A module that is no
program calls none. -/
theorem hooks_called_in_order {t : Tagger} {id : String} (h : ¬ Skips t.config id) (code : String) :
    (t.transform code id).calls =
      match SourceModule.parse code (modulePath id) with
      | .error _ => []
      | .ok m => m.calls t.config (moduleFile t.config id) := by
  rw [transform_of_not_skips h, calls_process]

/-- Hooks that fail are called all the same: the predicate fails for `a`, says no to `b`, and is not
asked about the excluded element around `c`. -/
theorem hooks_called_in_order_failing :
    let t : Tagger := { config := {
      shouldTag := some fun context =>
        if context.elementName = "a" then .error (.crashed none)
        else .ok (context.elementName != "b")
      excludeAttributes := some ["file"]
      transformers := .ofList [("file", fun _ => .ok .null), ("id", fun _ => .ok .null),
        ("name", fun _ => .error (.rejected "no"))]
      customAttributes := some fun _ => .error (.crashed none)
      onTransform := some fun _ => .error (.crashed none) } }
    let source := "<a><b/><Fragment><c/></Fragment></a>"
    let label : HookCall → String
      | .shouldTag context => "predicate " ++ context.elementName
      | .transformer key value => key ++ " " ++ value
      | .customAttributes context => "provider " ++ context.elementName
      | .onTransform report => "report " ++ String.intercalate " " report.elements
      | .onComplete _ => "end"
    ¬ Skips t.config "a.tsx" ∧
      (t.transform source "a.tsx").calls.map label =
        ["predicate a", "id a.tsx:1:0", "name a", "provider a", "predicate b", "predicate c",
          "id a.tsx:1:17", "name c", "provider c", "report a c"] := by
  intro t source label
  have hpasses : ¬ Skips t.config "a.tsx" := by
    rw [skips_iff]
    decide +kernel
  refine ⟨hpasses, ?_⟩
  rw [hooks_called_in_order hpasses]
  decide +kernel

end Tagger

end OriginTags
