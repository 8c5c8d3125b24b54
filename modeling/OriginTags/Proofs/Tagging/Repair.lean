import OriginTags.Proofs.Tagging.ExportOrder
import OriginTags.Proofs.Tagging.Session
/-!
# Hooks that fail

A hook that fails costs its own answer and nothing else, and it may fail on some calls and not on others.
Where a predicate fails the element is tagged, where a transformer fails or gives no string the value stays
as it was, and where a provider fails no attributes are added. So a session is the same, but for its log, as
one whose hooks give these answers themselves and never fail.
-/

namespace OriginTags

/-! ## Computations that differ in what they log -/

namespace Traced

variable {α β γ δ : Type}

theorem calls_bind (x : Traced α) (f : α → Traced β) :
    (x >>= f).calls = x.calls ++ (f x.value).calls :=
  List.filterMap_append

/-- Two computations with related results that call the same hooks with the same arguments. -/
structure Related (R : α → β → Prop) (x : Traced α) (y : Traced β) : Prop where
  value : R x.value y.value
  calls : x.calls = y.calls

/-- Two computations that differ in nothing but the records they log. -/
abbrev Alike (x y : Traced α) : Prop := Related Eq x y

theorem Related.refl (x : Traced α) : x.Alike x := ⟨rfl, rfl⟩

theorem Related.pure {R : α → β → Prop} {a : α} {b : β} (h : R a b) :
    Related R (pure a : Traced α) (pure b : Traced β) :=
  ⟨h, rfl⟩

theorem Related.bind {R : α → β → Prop} {S : γ → δ → Prop} {x : Traced α} {y : Traced β}
    {f : α → Traced γ} {g : β → Traced δ} (h : Related R x y)
    (hf : ∀ a b, R a b → Related S (f a) (g b)) : Related S (x >>= f) (y >>= g) where
  value := (hf _ _ h.value).value
  calls := by rw [calls_bind, calls_bind, h.calls, (hf _ _ h.value).calls]

theorem Alike.bind {S : γ → δ → Prop} {x y : Traced α} {f : α → Traced γ} {g : α → Traced δ}
    (h : x.Alike y) (hf : ∀ a, Related S (f a) (g a)) : Related S (x >>= f) (y >>= g) :=
  Related.bind h fun _ _ heq => heq ▸ hf _

theorem Related.ite {R : α → β → Prop} {c : Prop} [Decidable c] {x x' : Traced α} {y y' : Traced β}
    (h : Related R x y) (h' : Related R x' y') :
    Related R (if c then x else x') (if c then y else y') := by
  split
  · exact h
  · exact h'

end Traced

open Traced (Alike Related)

/-- Records are no part of what is compared. -/
theorem alike_log {α : Type} (level : LogLevel) (fields : List (String × String)) (message : String)
    (x : Traced α) : Alike x (do log level fields message; x) :=
  ⟨rfl, rfl⟩

/-- One hook may stand for another if what comes of its answer is the same. -/
theorem alike_invoke {α β γ : Type} {call : HookCall} {hook hook' : Hook α β} {argument : α}
    {element : Option ElementContext} {f g : Except HookFailure β → Traced γ}
    (h : Alike (f ((hook argument).reply element)) (g ((hook' argument).reply element))) :
    Alike (invoke call hook argument element >>= f) (invoke call hook' argument element >>= g) where
  value := h.value
  calls := congrArg (call :: ·) h.calls

/-! ## Repaired hooks -/

/-- A hook that gives a fallback where another one fails. -/
def Hook.orElse {α β : Type} (hook : Hook α β) (fallback : α → β) : Hook α β := fun a =>
  ⟨fun element =>
    match (hook a).reply element with
    | .ok b => .ok b
    | .error _ => .ok (fallback a)⟩

/-- A transformer that gives its argument back where another one fails or gives no string. -/
def Transformer.repaired (transformer : Transformer) : Transformer := fun value =>
  ⟨fun element =>
    match (transformer value).reply element with
    | .ok (.string changed) => .ok (.string changed)
    | _ => .ok (.string value)⟩

namespace Dictionary

variable {α β : Type}

/-- The same keys with other values. -/
def map (f : α → β) (d : Dictionary α) : Dictionary β :=
  ⟨d.entries.map fun e => (e.1, f e.2), List.pairwise_map.2 d.sorted⟩

theorem get?_map (f : α → β) (d : Dictionary α) (key : String) :
    (d.map f).get? key = (d.get? key).map f := by
  show (d.entries.map fun e => (e.1, f e.2)).lookup key = (d.entries.lookup key).map f
  induction d.entries with
  | nil => rfl
  | cons e rest ih =>
      obtain ⟨name, value⟩ := e
      simp only [List.map_cons, List.lookup_cons]
      cases key == name <;> simp [ih]

end Dictionary

/-- Hooks that never fail and that answer as the given ones wherever these do not fail. The two that
are only told something do nothing. -/
def Hooks.repaired (hooks : Hooks) : Hooks where
  transformers := hooks.transformers.map Transformer.repaired
  shouldTag := hooks.shouldTag.map fun predicate => Hook.orElse predicate fun _ => true
  customAttributes := hooks.customAttributes.map fun provider => Hook.orElse provider fun _ => []
  onTransform := hooks.onTransform.map fun _ _ => .ok ()
  onComplete := hooks.onComplete.map fun _ _ => .ok ()

/-- The hooks of a configuration. -/
def Config.hooks (config : Config) : Hooks where
  transformers := config.transformers
  shouldTag := config.shouldTag
  customAttributes := config.customAttributes
  onTransform := config.onTransform
  onComplete := config.onComplete

/-- A configuration with its hooks repaired. -/
def Config.repaired (config : Config) : Config := config.withHooks config.hooks.repaired

/-- A step with the hooks repaired. -/
def Step.repaired (x : Step) : Step := { x with hooks := x.hooks.repaired }

/-! ## Elements -/

section Elements

variable (config : Config) (context : ElementContext)

theorem alike_passesPredicate :
    Alike (passesPredicate config.repaired context) (passesPredicate config context) := by
  have hrepaired : config.repaired.shouldTag =
      config.shouldTag.map fun predicate => Hook.orElse predicate fun _ => true := rfl
  unfold passesPredicate
  rw [hrepaired]
  cases config.shouldTag with
  | none => exact .refl _
  | some predicate =>
      refine alike_invoke ?_
      simp only [Hook.orElse]
      cases (predicate context).reply (some context) with
      | ok keep => exact .refl _
      | error failure => exact alike_log _ _ _ (pure true)

namespace Attributes

theorem alike_transform (key value : String) :
    Alike (transform config.repaired context key value) (transform config context key value) := by
  have hrepaired : config.repaired.transformers.get? key =
      (config.transformers.get? key).map Transformer.repaired :=
    config.transformers.get?_map _ _
  unfold transform
  rw [hrepaired]
  cases config.transformers.get? key with
  | none => exact .refl _
  | some transformer =>
      refine alike_invoke ?_
      simp only [Transformer.repaired]
      cases (transformer value).reply (some context) with
      | error failure => exact alike_log _ _ _ (pure value)
      | ok answer =>
          cases answer with
          | string changed => exact .refl _
          | _ => exact alike_log _ _ _ (pure value)

theorem alike_transformAll (vs : Values) :
    Alike (transformAll config.repaired context vs) (transformAll config context vs) := by
  induction vs with
  | nil => exact .refl _
  | cons v vs ih =>
      refine (alike_transform config context v.1 v.2).bind fun changed => ?_
      exact ih.bind fun others => .refl _

theorem alike_builtinValues :
    Alike (builtinValues config.repaired context) (builtinValues config context) :=
  (alike_transformAll config context _).bind fun _ => .refl _

/-- What is accepted of the supplied attributes does not depend on the hooks. -/
theorem acceptCustom_repaired (entries : List (String × Json)) (accepted : Nat)
    (taken : List String) :
    acceptCustom config.repaired context entries accepted taken =
      acceptCustom config context entries accepted taken := by
  induction entries generalizing accepted taken with
  | nil => rfl
  | cons entry rest ih =>
      have hkey : stripOwn config.repaired entry.1 = stripOwn config entry.1 := rfl
      simp only [acceptCustom, hkey, ih]

theorem alike_customValues (builtin : Values) :
    Alike (customValues config.repaired context builtin) (customValues config context builtin) := by
  have hrepaired : config.repaired.customAttributes =
      config.customAttributes.map fun provider => Hook.orElse provider fun _ => [] := rfl
  unfold customValues
  rw [hrepaired]
  cases config.customAttributes with
  | none => exact .refl _
  | some provider =>
      refine alike_invoke ?_
      simp only [Hook.orElse]
      cases (provider context).reply (some context) with
      | ok entries =>
          simp only [acceptCustom_repaired]
          exact .refl _
      | error failure => exact alike_log _ _ _ (pure [])

theorem alike_generate :
    Alike (generate config.repaired context) (generate config context) := by
  have hvalues : Alike (values config.repaired context) (values config context) := by
    refine (alike_builtinValues config context).bind fun builtin => ?_
    exact (alike_customValues config context builtin).bind fun custom => .refl _
  exact hvalues.bind fun vs => .refl _

end Attributes

end Elements

/-! ## Files -/

/-- A task with the hooks repaired. -/
def FileTask.repaired (task : FileTask) : FileTask := { task with config := task.config.repaired }

namespace Pass

variable (task : FileTask)

theorem alike_tagElement (tag : Markup.OpeningTag) (location : Option Position)
    (children : List Markup.Node) (p : Pass) :
    Alike (p.tagElement task.repaired tag location children)
      (p.tagElement task tag location children) := by
  let context := task.context p.opened.length tag location children
  refine Related.ite (.refl _) ?_
  refine (alike_passesPredicate task.config context).bind fun keep => Related.ite ?_ (.refl _)
  exact (Attributes.alike_generate task.config context).bind fun text => .refl _

mutual

theorem alike_visit : ∀ (node : Markup.Node) (p : Pass),
    Alike (p.visit task.repaired node) (p.visit task node)
  | .element tag location children, p => by
      simp only [visit]
      refine (alike_tagElement task tag location children (p.enter tag.span)).bind fun p => ?_
      exact (alike_visitAll children p).bind fun p => .refl _
  | .text _, _ => .refl _

theorem alike_visitAll : ∀ (nodes : List Markup.Node) (p : Pass),
    Alike (p.visitAll task.repaired nodes) (p.visitAll task nodes)
  | [], _ => .refl _
  | node :: nodes, p => by
      simp only [visitAll]
      exact (alike_visit node p).bind fun p => alike_visitAll nodes p

end

end Pass

theorem alike_tagFile (config : Config) (source path : String) (file : FileInfo) :
    Alike (tagFile config.repaired source path file) (tagFile config source path file) := by
  unfold tagFile
  cases SourceModule.parse source path with
  | error e => exact .refl _
  | ok m =>
      have hmodule :
          Alike (tagModule config.repaired source file m) (tagModule config source file m) := by
        refine (Related.refl (noteLibrary file (LibraryBindings.ofImports m.imports))).bind fun _ => ?_
        exact (Pass.alike_visitAll (FileTask.ofModule config source file m) m.elements {}).bind
          fun pass => .refl _
      exact hmodule.bind fun outcome => .refl _

/-! ## Sessions -/

namespace Tagger

/-- Two taggers with results for a module, with the same counters and the same output. -/
def SameResult (r r' : Tagger × Option Spliced) : Prop :=
  r.1.statistics = r'.1.statistics ∧ r.2 = r'.2

theorem alike_reportFile (config : Config) (file : FileInfo) (tagged : List String) :
    Alike (reportFile config.repaired file tagged) (reportFile config file tagged) := by
  have hrepaired : config.repaired.onTransform = config.onTransform.map fun _ _ => .ok () := rfl
  unfold reportFile
  rw [hrepaired]
  cases config.onTransform with
  | none => exact .refl _
  | some hook =>
      refine alike_invoke ?_
      cases (hook (FileReport.ofTagged file.relativePath tagged)).reply none with
      | ok => exact .refl _
      | error failure => exact alike_log _ _ _ (pure ())

theorem related_process (t : Tagger) (code path : String) (file : FileInfo) :
    Related SameResult (process { t with config := t.config.repaired } code path file)
      (t.process code path file) := by
  refine (alike_tagFile t.config code path file).bind fun result => ?_
  cases result with
  | error e => exact ⟨⟨rfl, rfl⟩, rfl⟩
  | ok outcome =>
      refine (alike_reportFile t.config file outcome.tagged).bind fun _ => ?_
      exact ⟨⟨rfl, rfl⟩, rfl⟩

theorem related_transform (t : Tagger) (code id : String) :
    Related SameResult (transform { t with config := t.config.repaired } code id)
      (t.transform code id) := by
  refine Related.ite ⟨⟨rfl, rfl⟩, rfl⟩ (Related.ite ?_ ⟨⟨rfl, rfl⟩, rfl⟩)
  exact related_process t code (modulePath id) (FileInfo.ofPath t.config.root (modulePath id))

theorem alike_finish (t : Tagger) (files : FileTree) (order : Statistics.Order) :
    Alike (finish { t with config := t.config.repaired } files order) (t.finish files order) := by
  have hrepaired : t.config.repaired.onComplete = t.config.onComplete.map fun _ _ => .ok () := rfl
  unfold finish
  refine (Related.refl _).bind fun _ => ?_
  rw [hrepaired]
  cases t.config.onComplete with
  | none => exact .refl _
  | some hook =>
      refine alike_invoke ?_
      cases (hook t.statistics).reply none with
      | ok => exact .refl _
      | error failure => exact alike_log _ _ _ _

end Tagger

namespace Session

theorem alike_step (s : Session) (x : Step) : Alike (s.step x.repaired) (s.step x) := by
  obtain ⟨hooks, action⟩ := x
  cases action with
  | transform code id =>
      refine (Tagger.related_transform (s.tagger hooks) code id).bind fun r r' h => ?_
      obtain ⟨hstatistics, houtput⟩ := h
      exact .pure (by rw [hstatistics, houtput])
  | finish order =>
      exact (Tagger.alike_finish (s.tagger hooks) s.files order).bind fun files => .refl _
  | edit files => exact .refl _

theorem next_repaired (s : Session) (x : Step) : s.next x.repaired = s.next x :=
  congrArg Prod.fst (s.alike_step x).value

theorem snapshot_repaired (s : Session) (x : Step) : s.snapshot x.repaired = s.snapshot x := by
  obtain ⟨hvalue, hcalls⟩ := s.alike_step x
  simp only [snapshot, next_repaired, hvalue, hcalls]

theorem run_map_repaired (s : Session) (steps : List Step) :
    s.run (steps.map Step.repaired) = s.run steps := by
  induction steps generalizing s with
  | nil => rfl
  | cons x steps ih => simp only [List.map_cons, run, snapshot_repaired, next_repaired, ih]

end Session

/-! ## Other orders -/

/-- The same action, in which an export may have another order. -/
inductive Action.Reordered : Action → Action → Prop
  | transform (code id : String) : Reordered (.transform code id) (.transform code id)
  | finish (order order' : Statistics.Order) : Reordered (.finish order) (.finish order')
  | edit (files : FileTree) : Reordered (.edit files) (.edit files)

/-- The same step, in which an export may have another order. -/
structure Step.Reordered (x x' : Step) : Prop where
  hooks : x.hooks = x'.hooks
  action : x.action.Reordered x'.action

/-- What can be seen is the same, but for the order in which counts stand in exported files. -/
structure Snapshot.Alike (a b : Snapshot) : Prop where
  output : a.output = b.output
  statistics : a.statistics = b.statistics
  calls : a.calls = b.calls
  files : a.files.Agrees Statistics.SameText b.files

namespace Session

/-- Sessions in the same state, but for the order in which counts stand in exported files. -/
structure Alike (s s' : Session) : Prop where
  config : s.config = s'.config
  statistics : s.statistics = s'.statistics
  files : s.files.Agrees Statistics.SameText s'.files

theorem related_finish (t : Tagger) {files files' : FileTree}
    (h : files.Agrees Statistics.SameText files') (order order' : Statistics.Order) :
    Related (FileTree.Agrees Statistics.SameText) (t.finish files order) (t.finish files' order') := by
  unfold Tagger.finish
  refine (Related.refl _).bind fun _ => ?_
  cases t.config.exportStats with
  | none =>
      cases t.config.onComplete with
      | none => exact .pure h
      | some hook =>
          refine (Related.refl _).bind fun answer => ?_
          cases answer with
          | ok => exact .pure h
          | error failure => exact (Related.refl (warn _ _)).bind fun _ => .pure h
  | some target =>
      obtain ⟨hfiles, hevents⟩ :=
        Export.writeLogged_agrees h t.config.root target t.statistics order order'
      have hwrite : Related (FileTree.Agrees Statistics.SameText)
          (Export.writeLogged files t.config.root target t.statistics order)
          (Export.writeLogged files' t.config.root target t.statistics order') :=
        ⟨hfiles, congrArg (List.filterMap Event.call?) hevents⟩
      cases t.config.onComplete with
      | none => exact hwrite
      | some hook =>
          refine (Related.refl _).bind fun answer => ?_
          cases answer with
          | ok => exact hwrite
          | error failure => exact (Related.refl (warn _ _)).bind fun _ => hwrite

theorem related_step {s s' : Session} (h : s.Alike s') {x x' : Step} (hx : x.Reordered x') :
    Related (fun r r' => r.1.Alike r'.1 ∧ r.2 = r'.2) (s.step x) (s'.step x') := by
  obtain ⟨config, statistics, files⟩ := s
  obtain ⟨config', statistics', files'⟩ := s'
  obtain ⟨rfl, rfl, hfiles⟩ := h
  obtain ⟨hooks, action⟩ := x
  obtain ⟨hooks', action'⟩ := x'
  obtain ⟨rfl, haction⟩ := hx
  cases haction with
  | transform code id => exact (Related.refl _).bind fun r => .pure ⟨⟨rfl, rfl, hfiles⟩, rfl⟩
  | finish order order' =>
      exact (related_finish _ hfiles order order').bind fun after after' hafter =>
        .pure ⟨⟨rfl, rfl, hafter⟩, rfl⟩
  | edit files =>
      exact .pure ⟨⟨rfl, rfl, .refl Statistics.SameText.refl files⟩, rfl⟩

theorem run_reordered {s s' : Session} (h : s.Alike s') {steps steps' : List Step}
    (hsteps : List.Forall₂ Step.Reordered steps steps') :
    List.Forall₂ Snapshot.Alike (s.run steps) (s'.run steps') := by
  induction hsteps generalizing s s' with
  | nil => exact .nil
  | cons hx _ ih =>
      obtain ⟨⟨hnext, houtput⟩, hcalls⟩ := related_step h hx
      exact .cons ⟨houtput, hnext.statistics, hcalls, hnext.files⟩ (ih hnext)

/-- A session can be seen to do the same, step by step, if its hooks are repaired: the same outputs,
counters and files, and the same calls of hooks. Only the records in the log may differ. If the counts are
exported in other orders as well, only the exported texts differ, and in nothing but that order. -/
theorem run_repaired (config : Config) (files : FileTree) (steps : List Step) :
    run { config, files } (steps.map Step.repaired) = run { config, files } steps ∧
      ∀ others, List.Forall₂ Step.Reordered others steps → List.Forall₂ Snapshot.Alike
        (run { config, files } (others.map Step.repaired)) (run { config, files } steps) := by
  refine ⟨run_map_repaired _ steps, fun others hothers => ?_⟩
  rw [run_map_repaired]
  exact run_reordered ⟨rfl, rfl, .refl Statistics.SameText.refl files⟩ hothers

end Session

end OriginTags
