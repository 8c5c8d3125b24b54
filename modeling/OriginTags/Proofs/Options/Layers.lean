import OriginTags.Config
import OriginTags.Proofs.Dictionary
/-!
# Layers of options

Options stand over other options, setting by setting; the transformers are merged key by key. So it does not
matter which of several layers are put together first, and a preset that stands below them twice adds nothing.
-/

namespace OriginTags

namespace Options

/-! ## Transformers -/

/-- The transformer of an attribute, if there is one. -/
def transformer? (options : Options) (key : String) : Option Transformer :=
  options.transformers.bind fun transformers => transformers.get? key

theorem mergeTransformers_none_left (ts : Option (Dictionary Transformer)) :
    mergeTransformers none ts = ts := by
  cases ts <;> rfl

theorem mergeTransformers_none_right (ts : Option (Dictionary Transformer)) :
    mergeTransformers ts none = ts := by
  cases ts with
  | none => rfl
  | some upper => exact congrArg some upper.merge_empty

theorem mergeTransformers_some (upper base : Dictionary Transformer) :
    mergeTransformers (some upper) (some base) = some (upper.merge base) := rfl

theorem mergeTransformers_assoc (a b c : Option (Dictionary Transformer)) :
    mergeTransformers (mergeTransformers a b) c = mergeTransformers a (mergeTransformers b c) := by
  cases a with
  | none => rw [mergeTransformers_none_left, mergeTransformers_none_left]
  | some a =>
      cases b with
      | none => rw [mergeTransformers_none_left, mergeTransformers_none_right]
      | some b =>
          cases c with
          | none => rw [mergeTransformers_none_right, mergeTransformers_none_right]
          | some c => simp only [mergeTransformers_some, Dictionary.merge_assoc]

theorem mergeTransformers_self (ts : Option (Dictionary Transformer)) :
    mergeTransformers ts ts = ts := by
  cases ts with
  | none => rfl
  | some ts => exact congrArg some ts.merge_self

theorem mergeTransformers_eq_none_iff {upper base : Option (Dictionary Transformer)} :
    mergeTransformers upper base = none ↔ upper = none ∧ base = none := by
  cases upper <;> cases base <;> simp [mergeTransformers]

/-- A merged layer has the transformer of the upper layer, or else that of the base. -/
theorem transformer?_layeredOn (upper base : Options) (key : String) :
    (upper.layeredOn base).transformer? key =
      (upper.transformer? key <|> base.transformer? key) := by
  have hlayered : (upper.layeredOn base).transformers =
      mergeTransformers upper.transformers base.transformers := rfl
  simp only [transformer?, hlayered]
  cases upper.transformers with
  | none => rw [mergeTransformers_none_left]; rfl
  | some us =>
      cases base.transformers with
      | none =>
          rw [mergeTransformers_none_right]
          cases hkey : us.get? key <;> simp [hkey]
      | some bs => exact us.get?_merge bs key

/-! ## Settings -/

/-- What can be set, apart from the transformers. -/
inductive Setting
  | enabled
  | debug
  | extensions
  | attributePrefix
  | excludeElements
  | customExcludes
  | includeProps
  | includeContent
  | includeAttributes
  | excludeAttributes
  | includePaths
  | excludePaths
  | metadataEncoding
  | minDepth
  | maxDepth
  | tagOnlyRoots
  | exportStats
  | preset
  | includeSourceMap
  | groupAttributes
  | root
  | shouldTag
  | customAttributes
  | onTransform
  | onComplete

/-- What a setting holds if it is set. -/
def Setting.Value : Setting → Type
  | .enabled | .debug | .includeProps | .includeContent | .tagOnlyRoots | .includeSourceMap
  | .groupAttributes => Bool
  | .extensions | .excludeElements | .customExcludes | .includeAttributes | .excludeAttributes
  | .includePaths | .excludePaths => List String
  | .attributePrefix | .exportStats | .preset | .root => String
  | .metadataEncoding => MetadataEncoding
  | .minDepth | .maxDepth => Int
  | .shouldTag => TagPredicate
  | .customAttributes => AttributeProvider
  | .onTransform => FileHook
  | .onComplete => RunHook

/-- What some options hold in a setting. -/
def Setting.get : (setting : Setting) → Options → Option setting.Value
  | .enabled, o => o.enabled
  | .debug, o => o.debug
  | .extensions, o => o.extensions
  | .attributePrefix, o => o.attributePrefix
  | .excludeElements, o => o.excludeElements
  | .customExcludes, o => o.customExcludes
  | .includeProps, o => o.includeProps
  | .includeContent, o => o.includeContent
  | .includeAttributes, o => o.includeAttributes
  | .excludeAttributes, o => o.excludeAttributes
  | .includePaths, o => o.includePaths
  | .excludePaths, o => o.excludePaths
  | .metadataEncoding, o => o.metadataEncoding
  | .minDepth, o => o.minDepth
  | .maxDepth, o => o.maxDepth
  | .tagOnlyRoots, o => o.tagOnlyRoots
  | .exportStats, o => o.exportStats
  | .preset, o => o.preset
  | .includeSourceMap, o => o.includeSourceMap
  | .groupAttributes, o => o.groupAttributes
  | .root, o => o.root
  | .shouldTag, o => o.shouldTag
  | .customAttributes, o => o.customAttributes
  | .onTransform, o => o.onTransform
  | .onComplete, o => o.onComplete

/-- The settings and the transformers are all there is to options. -/
theorem ext_settings {a b : Options} (h : ∀ setting : Setting, setting.get a = setting.get b)
    (htransformers : a.transformers = b.transformers) : a = b := by
  cases a
  cases b
  simp only [mk.injEq]
  exact ⟨h .enabled, h .debug, h .extensions, h .attributePrefix, h .excludeElements,
    h .customExcludes, h .includeProps, h .includeContent, h .includeAttributes,
    h .excludeAttributes, h .includePaths, h .excludePaths, h .metadataEncoding, h .minDepth,
    h .maxDepth, h .tagOnlyRoots, h .exportStats, h .preset, h .includeSourceMap,
    h .groupAttributes, h .root, htransformers, h .shouldTag, h .customAttributes, h .onTransform,
    h .onComplete⟩

theorem Setting.get_layeredOn (setting : Setting) (upper base : Options) :
    setting.get (upper.layeredOn base) = (setting.get upper <|> setting.get base) := by
  cases setting <;> rfl

theorem Setting.get_default (setting : Setting) : setting.get {} = none := by
  cases setting <;> rfl

/-! ## Layers -/

theorem layeredOn_assoc (a b c : Options) :
    (a.layeredOn b).layeredOn c = a.layeredOn (b.layeredOn c) := by
  refine ext_settings (fun setting => ?_) (mergeTransformers_assoc _ _ _)
  simp only [Setting.get_layeredOn]
  cases setting.get a <;> rfl

theorem layeredOn_default (a : Options) : a.layeredOn {} = a := by
  refine ext_settings (fun setting => ?_) (mergeTransformers_none_right _)
  rw [Setting.get_layeredOn, Setting.get_default]
  cases setting.get a <;> rfl

theorem default_layeredOn (a : Options) : ({} : Options).layeredOn a = a := by
  refine ext_settings (fun setting => ?_) (mergeTransformers_none_left _)
  rw [Setting.get_layeredOn, Setting.get_default]
  rfl

theorem layeredOn_self (a : Options) : a.layeredOn a = a := by
  refine ext_settings (fun setting => ?_) (mergeTransformers_self _)
  rw [Setting.get_layeredOn]
  cases setting.get a <;> rfl

end Options

/-! ## Presets -/

namespace Config

/-- A known preset is a layer below the options. -/
theorem resolve_of_preset (files : FileTree) {options : Options} (workingDirectory : Option String)
    {name : String} {preset : Preset} (hname : options.preset = some name)
    (hpreset : Preset.ofName? name = some preset) :
    resolve files options workingDirectory =
      complete files (options.layeredOn preset.options) workingDirectory := by
  simp only [resolve, hname, choosePreset, hpreset]
  rfl

end Config

namespace Options

/-- Layers of options with an upper one over a base: what is set in the upper layer counts, and what is not
set there is as in the base. -/
structure Layered (upper base layers : Options) : Prop where
  set : ∀ (setting : Setting) value, setting.get upper = some value →
    setting.get layers = some value
  unset : ∀ setting : Setting, setting.get upper = none → setting.get layers = setting.get base
  transformer : ∀ key transform, upper.transformer? key = some transform →
    layers.transformer? key = some transform
  noTransformer : ∀ key, upper.transformer? key = none →
    layers.transformer? key = base.transformer? key
  noTransformers : layers.transformers = none ↔ upper.transformers = none ∧ base.transformers = none

theorem layered_layeredOn (upper base : Options) : Layered upper base (upper.layeredOn base) where
  set setting value h := by
    rw [Setting.get_layeredOn, h]
    rfl
  unset setting h := by
    rw [Setting.get_layeredOn, h]
    rfl
  transformer key transform h := by
    rw [transformer?_layeredOn, h]
    rfl
  noTransformer key h := by
    rw [transformer?_layeredOn, h]
    rfl
  noTransformers := mergeTransformers_eq_none_iff

/-- Layers of options are associative, and options that set nothing are no layer at all, above or below.
What is set in the upper layer counts, and the transformers are merged key by key. So options with a known
preset come to the same configuration, and to the same warnings, if the preset is put below them first. -/
theorem layeredOn_assoc_and_resolve_preset :
    (∀ a b c : Options, (a.layeredOn b).layeredOn c = a.layeredOn (b.layeredOn c)) ∧
      (∀ a : Options, a.layeredOn {} = a ∧ ({} : Options).layeredOn a = a) ∧
      (∀ upper base : Options, Layered upper base (upper.layeredOn base)) ∧
      ∀ (files : FileTree) (options : Options) (workingDirectory : Option String) (name : String)
        (preset : Preset), options.preset = some name → Preset.ofName? name = some preset →
        Config.resolve files options workingDirectory =
          Config.resolve files (options.layeredOn preset.options) workingDirectory := by
  refine ⟨layeredOn_assoc, fun a => ⟨layeredOn_default a, default_layeredOn a⟩, layered_layeredOn, ?_⟩
  intro files options workingDirectory name preset hname hpreset
  have hlayered : (options.layeredOn preset.options).preset = some name :=
    (layered_layeredOn options preset.options).set .preset name hname
  calc Config.resolve files options workingDirectory
    _ = Config.complete files (options.layeredOn preset.options) workingDirectory :=
      Config.resolve_of_preset files workingDirectory hname hpreset
    _ = Config.complete files ((options.layeredOn preset.options).layeredOn preset.options)
          workingDirectory := by
      rw [layeredOn_assoc, layeredOn_self]
    _ = Config.resolve files (options.layeredOn preset.options) workingDirectory :=
      (Config.resolve_of_preset files workingDirectory hlayered hpreset).symm

/-- A preset below options that set one of its fields in another way and bring a transformer along. -/
theorem resolve_preset_testing :
    let options : Options :=
      { preset := some "testing", includeProps := some true, minDepth := some (-1)
        transformers := some (.ofList [("id", fun value => .ok (.string value))]) }
    options.preset = some "testing" ∧ Preset.ofName? "testing" = some .testing ∧
      Config.resolve ⟨[]⟩ options = Config.resolve ⟨[]⟩ (options.layeredOn Preset.testing.options) ∧
      (Config.resolve ⟨[]⟩ options).value.includeProps = true ∧
      (Config.resolve ⟨[]⟩ options).value.includeAttributes = some ["id", "name", "component"] := by
  intro options
  have hresolve :=
    layeredOn_assoc_and_resolve_preset.2.2.2 ⟨[]⟩ options none "testing" .testing rfl (by decide)
  exact ⟨rfl, by decide, hresolve, rfl, rfl⟩

end Options

end OriginTags
