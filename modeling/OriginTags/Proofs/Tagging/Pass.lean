import OriginTags.Tagging.Tagger
import Mathlib.Tactic.SplitIfs
/-!
# What a pass tags

A pass walks over the forest of a file with a stack of the elements around. What it tags is said here
without the walk: the elements of the forest, in the order of their opening tags, that meet a few
conditions on their name, their depth and the user's predicate.
-/

namespace OriginTags

/-! ## Elements in their places -/

namespace Markup

/-- An element of a forest, with the opening tags of the elements around it, innermost first. -/
structure Site where
  around : List OpeningTag
  tag : OpeningTag
  location : Option Position
  children : List Node

/-- The depth of an element: one more than the number of elements around it. -/
def Site.depth (site : Site) : Nat := site.around.length + 1

/-- The name of an element as it is written. -/
def Site.name (site : Site) : String := site.tag.name.display

mutual

/-- The elements of a node, parents before children, below the elements `around`. -/
def Node.sites (around : List OpeningTag) : Node → List Site
  | .element tag location children =>
    ⟨around, tag, location, children⟩ :: sitesOf (tag :: around) children
  | .text _ => []

/-- The elements of a forest, in source order. -/
def sitesOf (around : List OpeningTag) : List Node → List Site
  | [] => []
  | node :: nodes => node.sites around ++ sitesOf around nodes

end

end Markup

open Markup (Site)

/-! ## Conditions -/

/-- Whether an import of a library binds a name in one of some ways. -/
def BoundByLibrary (imports : List Markup.Import) (kinds : List Markup.ImportKind) (name : String) :
    Prop :=
  ∃ i ∈ imports, isLibrarySource i.source = true ∧ ∃ b ∈ i.bindings, b.kind ∈ kinds ∧ b.name = name

/-- The context in which an element of a file is tagged. -/
def siteContext (config : Config) (file : FileInfo) (site : Site) : ElementContext :=
  ElementContext.ofElement site.tag site.location site.children file site.depth
    config.includeProps config.includeContent

/-- An element gets attributes. -/
structure Taggable (config : Config) (imports : List Markup.Import) (file : FileInfo) (site : Site) :
    Prop where
  notExcluded : site.name ∉ config.excludeElements
  notCustomExcluded : site.name ∉ config.customExcludes
  notLibraryName : ¬ BoundByLibrary imports [.named, .default] site.name
  /-- It is no member of a library that was imported as a whole. -/
  notLibraryMember : ∀ parts, site.tag.name = .member parts →
    ¬ BoundByLibrary imports [.namespaced] (parts.headD "")
  depthAllowed :
    if config.tagOnlyRoots then site.depth = 1
    else (config.minDepth = 0 ∨ config.minDepth ≤ site.depth) ∧
      (config.maxDepth = 0 ∨ site.depth ≤ config.maxDepth)
  /-- The predicate says yes or fails, if there is one. -/
  notRejected : ∀ predicate, config.shouldTag = some predicate →
    (predicate (siteContext config file site)).reply (some (siteContext config file site)) ≠ .ok false
  hasAttributes : (Attributes.generate config (siteContext config file site)).value ≠ ""

theorem mem_named_ofImports {imports : List Markup.Import} {name : String} :
    name ∈ (LibraryBindings.ofImports imports).named ↔
      BoundByLibrary imports [.named, .default] name := by
  have hkind : ∀ kind : Markup.ImportKind, kind ≠ .namespaced ↔ kind ∈ [.named, .default] := by
    intro kind
    cases kind <;> simp
  simp only [LibraryBindings.ofImports, BoundByLibrary, List.mem_map, List.mem_filter,
    List.mem_flatMap, bne_iff_ne, hkind]
  constructor
  · rintro ⟨b, ⟨⟨i, ⟨hi, hlib⟩, hb⟩, hk⟩, rfl⟩
    exact ⟨i, hi, hlib, b, hb, hk, rfl⟩
  · rintro ⟨i, hi, hlib, b, hb, hk, rfl⟩
    exact ⟨b, ⟨⟨i, ⟨hi, hlib⟩, hb⟩, hk⟩, rfl⟩

theorem mem_namespaces_ofImports {imports : List Markup.Import} {name : String} :
    name ∈ (LibraryBindings.ofImports imports).namespaces ↔
      BoundByLibrary imports [.namespaced] name := by
  simp only [LibraryBindings.ofImports, BoundByLibrary, List.mem_map, List.mem_filter,
    List.mem_flatMap, beq_iff_eq, List.mem_singleton]
  constructor
  · rintro ⟨b, ⟨⟨i, ⟨hi, hlib⟩, hb⟩, hk⟩, rfl⟩
    exact ⟨i, hi, hlib, b, hb, hk, rfl⟩
  · rintro ⟨i, hi, hlib, b, hb, hk, rfl⟩
    exact ⟨b, ⟨⟨i, ⟨hi, hlib⟩, hb⟩, hk⟩, rfl⟩

theorem depthExclusion_eq_none_iff {config : Config} {depth : Nat} :
    depthExclusion config depth = none ↔
      if config.tagOnlyRoots then depth = 1
      else (config.minDepth = 0 ∨ config.minDepth ≤ depth) ∧
        (config.maxDepth = 0 ∨ depth ≤ config.maxDepth) := by
  unfold depthExclusion
  split
  · by_cases hdepth : depth = 1 <;> simp [hdepth]
  · split
    · simp only [reduceCtorEq, false_iff]
      omega
    · split
      · simp only [reduceCtorEq, false_iff]
        omega
      · simp only [true_iff]
        omega

theorem isEligible_iff {config : Config} {imports : List Markup.Import} {name : Markup.TagName}
    {depth : Nat} :
    isEligible config (LibraryBindings.ofImports imports) name depth = true ↔
      name.display ∉ config.excludeElements ∧ name.display ∉ config.customExcludes ∧
        ¬ BoundByLibrary imports [.named, .default] name.display ∧
        (∀ parts, name = .member parts → ¬ BoundByLibrary imports [.namespaced] (parts.headD "")) ∧
        depthExclusion config depth = none := by
  have hmember : (name.isMember = true ∧
      name.root ∈ (LibraryBindings.ofImports imports).namespaces) ↔
      ∃ parts, name = .member parts ∧ BoundByLibrary imports [.namespaced] (parts.headD "") := by
    rw [mem_namespaces_ofImports]
    cases name <;> simp [Markup.TagName.isMember, Markup.TagName.root]
  rw [← mem_named_ofImports]
  simp only [isEligible, exclusion, Option.isNone_iff_eq_none, List.contains_iff_mem,
    Bool.and_eq_true]
  split_ifs with hname hcustom hlibrary hbound
  · simp [hname]
  · simp [hcustom]
  · simp [hlibrary]
  · obtain ⟨parts, hparts, hbound⟩ := hmember.1 hbound
    simp only [false_iff]
    rintro ⟨-, -, -, hnone, -⟩
    exact hnone parts hparts hbound
  · have hnone : ∀ parts, name = .member parts →
        ¬ BoundByLibrary imports [.namespaced] (parts.headD "") :=
      fun parts hparts hmem => hbound (hmember.2 ⟨parts, hparts, hmem⟩)
    simp only [hname, hcustom, hlibrary, not_false_eq_true, true_and]
    exact ⟨fun hdepth => ⟨hnone, hdepth⟩, fun h => h.2⟩

theorem passesPredicate_iff {config : Config} {context : ElementContext} :
    (passesPredicate config context).value = true ↔
      ∀ predicate, config.shouldTag = some predicate →
        (predicate context).reply (some context) ≠ .ok false := by
  unfold passesPredicate
  cases hpredicate : config.shouldTag with
  | none => simp
  | some predicate =>
      cases hanswer : (predicate context).reply (some context) with
      | ok keep => cases keep <;> simp [hanswer]
      | error failure => simp [hanswer]

/-- Whether a pass tags an element. -/
def FileTask.tags (task : FileTask) (site : Site) : Bool :=
  isEligible task.config task.library site.tag.name site.depth &&
    (passesPredicate task.config (siteContext task.config task.file site)).value &&
    !(Attributes.generate task.config (siteContext task.config task.file site)).value.isEmpty

theorem FileTask.tags_iff {config : Config} {source : String} {file : FileInfo} {m : SourceModule}
    {site : Site} :
    (ofModule config source file m).tags site = true ↔ Taggable config m.imports file site := by
  simp only [FileTask.tags, ofModule, Bool.and_eq_true, Bool.not_eq_true', isEligible_iff,
    passesPredicate_iff, depthExclusion_eq_none_iff]
  constructor
  · rintro ⟨⟨⟨hname, hcustom, hlibrary, hmember, hdepth⟩, hpredicate⟩, htext⟩
    exact ⟨hname, hcustom, hlibrary, hmember, hdepth, hpredicate, by simpa using htext⟩
  · rintro ⟨hname, hcustom, hlibrary, hmember, hdepth, hpredicate, htext⟩
    exact ⟨⟨⟨hname, hcustom, hlibrary, hmember, hdepth⟩, hpredicate⟩, by simpa using htext⟩

instance (config : Config) (imports : List Markup.Import) (file : FileInfo) (site : Site) :
    Decidable (Taggable config imports file site) :=
  decidable_of_iff ((FileTask.ofModule config "" file ⟨imports, []⟩).tags site = true)
    FileTask.tags_iff

/-! ## The walk -/

/-- What is inserted into the tag of an element: a space and the attributes of its context. -/
def FileTask.insertion (task : FileTask) (site : Site) : Insertion where
  offset := (insertionPoint task.source site.tag.span site.tag.selfClosing).value
  text := " " ++ (Attributes.generate task.config (siteContext task.config task.file site)).value

namespace Pass

/-- A pass that has tagged some more elements. -/
def noteAll (p : Pass) (task : FileTask) (sites : List Site) : Pass :=
  { p with
    insertions := p.insertions ++ sites.map task.insertion
    tagged := p.tagged ++ sites.map Site.name }

theorem noteAll_nil (p : Pass) (task : FileTask) : p.noteAll task [] = p := by
  simp [noteAll]

theorem noteAll_noteAll (p : Pass) (task : FileTask) (first second : List Site) :
    (p.noteAll task first).noteAll task second = p.noteAll task (first ++ second) := by
  simp [noteAll]

/-- An element is tagged or left alone, and what is open stays open. -/
theorem value_tagElement (task : FileTask) (site : Site) (p : Pass)
    (hdepth : p.opened.length = site.depth) :
    (p.tagElement task site.tag site.location site.children).value =
      p.noteAll task ([site].filter task.tags) := by
  have hcontext : task.context site.depth site.tag site.location site.children =
      siteContext task.config task.file site := rfl
  simp only [tagElement, hdepth, hcontext, List.filter_cons, List.filter_nil, FileTask.tags]
  -- The ways out before anything is inserted, in their order.
  by_cases heligible : isEligible task.config task.library site.tag.name site.depth = true
  case neg => simp [heligible, noteAll_nil]
  case pos =>
    by_cases hpredicate :
        (passesPredicate task.config (siteContext task.config task.file site)).value = true
    case neg => simp [heligible, hpredicate, noteAll_nil]
    case pos =>
      by_cases htext :
          (Attributes.generate task.config (siteContext task.config task.file site)).value = ""
      case pos => simp [heligible, hpredicate, htext, noteAll_nil]
      case neg =>
        simp [heligible, hpredicate, htext, noteAll, note, FileTask.insertion]
        rfl

@[simp] theorem opened_noteAll (p : Pass) (task : FileTask) (sites : List Site) :
    (p.noteAll task sites).opened = p.opened := rfl

theorem leave_noteAll_enter (p : Pass) (task : FileTask) (span : Span) (sites : List Site) :
    ((p.enter span).noteAll task sites).leave = p.noteAll task sites := rfl

mutual

/-- A walk over a node tags what is to be tagged in it and leaves the stack as it was. -/
theorem value_visit (task : FileTask) (around : List Markup.OpeningTag) :
    ∀ (node : Markup.Node) (p : Pass), p.opened.length = around.length →
      (p.visit task node).value = p.noteAll task ((node.sites around).filter task.tags)
  | .element tag location children, p, hdepth => by
      -- The element is tagged first, with itself on the stack, and then what is below it.
      have hsite := value_tagElement task ⟨around, tag, location, children⟩ (p.enter tag.span)
        (by simp [enter, Site.depth, hdepth])
      have hbelow := value_visitAll task (tag :: around) children
        ((p.enter tag.span).noteAll task ([⟨around, tag, location, children⟩].filter task.tags))
        (by simp [enter, hdepth])
      simp only [visit, Traced.value_bind, Traced.value_pure, hsite, hbelow, noteAll_noteAll,
        leave_noteAll_enter, Markup.Node.sites]
      rw [← List.filter_append, List.singleton_append]
  | .text _, p, _ => (noteAll_nil p task).symm

theorem value_visitAll (task : FileTask) (around : List Markup.OpeningTag) :
    ∀ (nodes : List Markup.Node) (p : Pass), p.opened.length = around.length →
      (p.visitAll task nodes).value = p.noteAll task ((Markup.sitesOf around nodes).filter task.tags)
  | [], p, _ => (noteAll_nil p task).symm
  | node :: nodes, p, hdepth => by
      have hfirst := value_visit task around node p hdepth
      have hothers := value_visitAll task around nodes
        (p.noteAll task ((node.sites around).filter task.tags)) hdepth
      simp only [visitAll, Traced.value_bind, hfirst, hothers, noteAll_noteAll, Markup.sitesOf,
        List.filter_append]

end

/-- After every node the stack is what it was before. -/
theorem opened_visit (task : FileTask) (node : Markup.Node) (p : Pass) :
    (p.visit task node).value.opened = p.opened := by
  -- Only the number of elements around matters, so any tags will do.
  let around : List Markup.OpeningTag := p.opened.map fun span => ⟨.plain "", span, false, []⟩
  rw [value_visit task around node p (by simp [around])]
  rfl

end Pass

/-- The pass over a parsed file tags the taggable elements, in order. -/
theorem value_visitAll_ofModule (config : Config) (source : String) (file : FileInfo)
    (m : SourceModule) :
    (Pass.visitAll (FileTask.ofModule config source file m) m.elements {}).value =
      Pass.noteAll {} (FileTask.ofModule config source file m)
        ((Markup.sitesOf [] m.elements).filter fun site =>
          decide (Taggable config m.imports file site)) := by
  rw [Pass.value_visitAll _ [] _ _ rfl]
  congr 2
  funext site
  rw [Bool.eq_iff_iff, FileTask.tags_iff, decide_eq_true_iff]

/-- The names of the tagged elements are those of the taggable elements of the forest, parents before
children and siblings in order, at whatever depth they stand. No node changes the stack for what
comes after it. -/
theorem tagged_eq_taggable_sites (config : Config) (source path : String) (file : FileInfo) :
    (∀ m : SourceModule, (tagModule config source file m).value.tagged =
      ((Markup.sitesOf [] m.elements).filter fun site =>
        decide (Taggable config m.imports file site)).map Site.name) ∧
    (∀ (task : FileTask) (node : Markup.Node) (p : Pass),
      (p.visit task node).value.opened = p.opened) ∧
    (tagFile config source path file).value =
      (SourceModule.parse source path).map fun m => (tagModule config source file m).value := by
  refine ⟨fun m => ?_, Pass.opened_visit, ?_⟩
  · simp only [tagModule, Traced.value_bind, Traced.value_pure, value_visitAll_ofModule]
    exact List.nil_append _
  · unfold tagFile
    cases SourceModule.parse source path with
    | error e => rfl
    | ok m => rfl

end OriginTags
