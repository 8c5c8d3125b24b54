import OriginTags.Proofs.Tagging.Attributes
import OriginTags.Proofs.Text.Bytes
import Mathlib.Tactic.MkIffOfInductiveProp
/-!
# Which attributes an element gets

The attributes of an element are those that the library computes and, behind them, those that the user
supplies. Here both parts are said without the loop that makes them: which keys are computed, and which
of the supplied entries are taken, in what order and with what values.
-/

namespace OriginTags

/-! ## Computed attributes -/

/-- An attribute is not hidden. A list of included attributes decides alone. -/
@[mk_iff]
structure Config.Shows (config : Config) (key : String) : Prop where
  included : ∀ keys, config.includeAttributes = some keys → key ∈ keys
  notExcluded : config.includeAttributes = none →
    ∀ keys, config.excludeAttributes = some keys → key ∉ keys

theorem Config.attributeEnabled_iff {config : Config} {key : String} :
    config.attributeEnabled key = true ↔ config.Shows key := by
  rw [Config.shows_iff, attributeEnabled]
  cases config.includeAttributes with
  | some included => simp
  | none => cases config.excludeAttributes <;> simp

/-- Literal attributes or a text of the element were captured. -/
def ElementContext.Captured (context : ElementContext) : Prop :=
  (∃ props, context.props = some props ∧ props ≠ []) ∨ context.content ≠ none

theorem Metadata.members_ne_nil_iff {context : ElementContext} :
    members context ≠ [] ↔ context.Captured := by
  unfold members ElementContext.Captured
  cases context.content with
  | some text =>
      have hne : Json.Members.insert "text" (.string text) (context.props.getD []) ≠ [] :=
        Dictionary.insertEntry_ne_nil _ _ _
      simp [hne]
  | none => cases context.props <;> simp

namespace Attributes

/-- The library computes an attribute of an element. -/
@[mk_iff]
structure Computes (config : Config) (context : ElementContext) (key : String) : Prop where
  shown : config.Shows key
  captured : key = "metadata" → context.Captured
  /-- A place tells the path, so it is not written where the path is hidden. -/
  located : key = "sourcemap" → config.includeSourceMap = true ∧ config.Shows "path"

theorem keys_plainValues (config : Config) (context : ElementContext) :
    ((plainValues context).filter fun v => config.attributeEnabled v.1).map Prod.fst =
      ["id", "name", "path", "line", "file", "component"].filter config.attributeEnabled := by
  rw [show ["id", "name", "path", "line", "file", "component"] =
    (plainValues context).map Prod.fst from rfl, List.filter_map]
  rfl

theorem keys_metadataValues (config : Config) (context : ElementContext) :
    (metadataValues config context).map Prod.fst =
      if config.attributeEnabled "metadata" = true ∧ Metadata.members context ≠ [] then ["metadata"]
      else [] := by
  unfold metadataValues Metadata.ofContext
  cases config.attributeEnabled "metadata" with
  | false => simp
  | true => cases Metadata.members context <;> simp

theorem keys_sourceMapValues (config : Config) (context : ElementContext) :
    (sourceMapValues config context).map Prod.fst =
      if config.attributeEnabled "sourcemap" = true ∧ config.includeSourceMap = true ∧
        config.attributeEnabled "path" = true then ["sourcemap"] else [] := by
  unfold sourceMapValues
  cases config.includeSourceMap <;> cases config.attributeEnabled "sourcemap" <;>
    cases config.attributeEnabled "path" <;> rfl

theorem computes_iff_enabled {config : Config} {context : ElementContext} {key : String} :
    Computes config context key ↔ config.attributeEnabled key = true ∧
      (key = "metadata" → Metadata.members context ≠ []) ∧
      (key = "sourcemap" → config.includeSourceMap = true ∧ config.attributeEnabled "path" = true) := by
  rw [computes_iff, Config.attributeEnabled_iff, Config.attributeEnabled_iff,
    Metadata.members_ne_nil_iff]

instance (config : Config) (context : ElementContext) (key : String) :
    Decidable (Computes config context key) :=
  decidable_of_iff _ computes_iff_enabled.symm

/-- The keys of the computed attributes, in the order of the known ones. -/
theorem keys_builtinValues_eq (config : Config) (context : ElementContext) :
    (builtinValues config context).value.map Prod.fst =
      builtinAttributes.filter fun key => decide (Computes config context key) := by
  have hknown : builtinAttributes =
      ["id", "name", "path", "line", "file", "component"] ++ ["metadata"] ++ ["sourcemap"] := rfl
  have hplain : ["id", "name", "path", "line", "file", "component"].filter config.attributeEnabled =
      ["id", "name", "path", "line", "file", "component"].filter fun key =>
        decide (Computes config context key) := by
    refine List.filter_congr fun key hkey => ?_
    have hother : key ≠ "metadata" ∧ key ≠ "sourcemap" := by
      constructor <;> (rintro rfl; exact absurd hkey (by decide))
    simp [computes_iff_enabled, hother.1, hother.2]
  simp only [builtinValues, Traced.value_bind, Traced.value_pure, List.map_append, keys_transformAll,
    keys_plainValues, keys_metadataValues, keys_sourceMapValues, hknown, List.filter_append, hplain,
    List.filter_singleton, cond_eq_ite]
  simp [computes_iff_enabled]

/-! ## Supplied attributes -/

/-- What a key is without what the names of attributes begin with, if it begins with that. -/
def IsOwnKey (config : Config) (raw key : String) : Prop :=
  raw = config.attributePrefix ++ "-" ++ key ∨
    key = raw ∧ ∀ rest, raw ≠ config.attributePrefix ++ "-" ++ rest

/-- A text may be a key: a letter, a digit or an underscore, and then these and a few marks. -/
def KeyPattern (key : String) : Prop :=
  ∃ c rest, key.toList = c :: rest ∧ (c.isAlphanum = true ∨ c = '_') ∧
    ∀ d ∈ rest, d.isAlphanum = true ∨ d ∈ ['_', '.', ':', '-']

/-- A supplied entry may be written. -/
@[mk_iff]
structure Admissible (config : Config) (computed : List String) (entry : String × Json) : Prop where
  rawAllowed : entry.1 ∉ ["__proto__", "constructor", "prototype"]
  allowed : stripOwn config entry.1 ∉ ["__proto__", "constructor", "prototype"]
  pattern : KeyPattern (stripOwn config entry.1)
  notNull : entry.2 ≠ .null
  notComputed : stripOwn config entry.1 ∉ computed

/-- A supplied value in full. -/
def suppliedText : Json → String
  | .string s => s
  | value => value.compact

/-- A text, or its first thousand characters and three points. -/
def shortened (text : String) : String :=
  if text.length ≤ 1000 then text else String.ofList (text.toList.take 1000) ++ "..."

theorem isOwnKey_stripOwn (config : Config) (raw : String) :
    IsOwnKey config raw (stripOwn config raw) := by
  unfold stripOwn
  split
  · next rest hlead =>
    left
    rw [← String.toList_inj, String.toList_append, String.toList_ofList]
    exact Text.stripLead?_eq_some.1 hlead
  · next hnone =>
    refine .inr ⟨rfl, ?_⟩
    rintro rest rfl
    have hstrip : Text.stripLead? (config.attributePrefix ++ "-").toList
        (config.attributePrefix ++ "-" ++ rest).toList = some rest.toList :=
      Text.stripLead?_eq_some.2 String.toList_append
    rw [hnone] at hstrip
    cases hstrip

theorem isKey_iff {key : String} : isKey key.toList = true ↔ KeyPattern key := by
  unfold KeyPattern
  cases key.toList with
  | nil => simp [isKey]
  | cons c cs => simp [isKey]

theorem value_truncate (key text : String) : (truncate key text).value = shortened text := by
  simp only [truncate, shortened, maxCustomChars, String.length_toList]
  split
  · rfl
  · rw [String.ofList_append]
    rfl

theorem customText_eq {value : Json} (h : value ≠ .null) :
    customText value = some (suppliedText value) := by
  cases value <;> first | rfl | exact absurd rfl h

instance (config : Config) (computed : List String) (entry : String × Json) :
    Decidable (Admissible config computed entry) :=
  decidable_of_iff (entry.1 ∉ ["__proto__", "constructor", "prototype"] ∧
      stripOwn config entry.1 ∉ ["__proto__", "constructor", "prototype"] ∧
      isKey (stripOwn config entry.1).toList = true ∧ (customText entry.2).isSome = true ∧
      stripOwn config entry.1 ∉ computed) <| by
    have hnull : (customText entry.2).isSome = true ↔ entry.2 ≠ .null := by
      cases entry.2 <;> simp [customText]
    rw [isKey_iff, hnull, admissible_iff]

/-- The supplied entries that may be written, with the keys and values that they are written with. -/
def candidates (config : Config) (computed : List String) (entries : List (String × Json)) : Values :=
  (entries.filter fun entry => decide (Admissible config computed entry)).map fun entry =>
    (stripOwn config entry.1, shortened (suppliedText entry.2))

/-- The first of all attributes with one key, for each key. -/
def firstOfEachKey (vs : Values) : Values := vs.eraseDupsBy fun v w => v.1 == w.1

theorem firstOfEachKey_cons (v : String × String) (vs : Values) :
    firstOfEachKey (v :: vs) = v :: firstOfEachKey (vs.filter fun w => decide (w.1 ≠ v.1)) := by
  rw [firstOfEachKey, List.eraseDupsBy_cons, firstOfEachKey]
  congr 3
  funext w
  simp

theorem admissible_cons_iff {config : Config} {key : String} {computed : List String}
    {entry : String × Json} :
    Admissible config (key :: computed) entry ↔
      stripOwn config entry.1 ≠ key ∧ Admissible config computed entry := by
  simp only [admissible_iff, List.mem_cons, not_or]
  exact ⟨fun ⟨hraw, hown, hpattern, hnull, hkey, hcomputed⟩ =>
    ⟨hkey, hraw, hown, hpattern, hnull, hcomputed⟩,
    fun ⟨hkey, hraw, hown, hpattern, hnull, hcomputed⟩ =>
      ⟨hraw, hown, hpattern, hnull, hkey, hcomputed⟩⟩

/-- A key that is taken is one that may not be used any more. -/
theorem candidates_taken (config : Config) (key : String) (computed : List String)
    (entries : List (String × Json)) :
    candidates config (key :: computed) entries =
      (candidates config computed entries).filter fun v => decide (v.1 ≠ key) := by
  simp only [candidates, List.filter_map, List.filter_filter]
  congr 2
  funext entry
  simp only [Function.comp, ← Bool.decide_and]
  exact decide_eq_decide.2 admissible_cons_iff

theorem candidates_cons_of_admissible {config : Config} {computed : List String}
    {entry : String × Json} (h : Admissible config computed entry) (entries : List (String × Json)) :
    candidates config computed (entry :: entries) =
      (stripOwn config entry.1, shortened (suppliedText entry.2)) ::
        candidates config computed entries := by
  simp [candidates, h]

theorem candidates_cons_of_not_admissible {config : Config} {computed : List String}
    {entry : String × Json} (h : ¬ Admissible config computed entry)
    (entries : List (String × Json)) :
    candidates config computed (entry :: entries) = candidates config computed entries := by
  simp [candidates, h]

/-- The loop over the supplied entries takes the first candidate of each key until the limit is
reached. -/
theorem value_acceptCustom (config : Config) (context : ElementContext)
    (entries : List (String × Json)) (accepted : Nat) (taken : List String) :
    (acceptCustom config context entries accepted taken).value =
      (firstOfEachKey (candidates config taken entries)).take (maxCustom - accepted) := by
  induction entries generalizing accepted taken with
  | nil => exact List.take_nil.symm
  | cons entry rest ih =>
      obtain ⟨raw, value⟩ := entry
      have hskip : ¬ Admissible config taken (raw, value) →
          (firstOfEachKey (candidates config taken rest)).take (maxCustom - accepted) =
            (firstOfEachKey (candidates config taken ((raw, value) :: rest))).take
              (maxCustom - accepted) := fun h => by rw [candidates_cons_of_not_admissible h]
      simp only [acceptCustom]
      split
      case isTrue hforbidden =>
        refine (ih accepted taken).trans (hskip fun h => ?_)
        simp only [Bool.or_eq_true, List.contains_iff_mem] at hforbidden
        exact hforbidden.elim h.rawAllowed h.allowed
      split
      case isTrue hlimit =>
        rw [Nat.sub_eq_zero_of_le hlimit]
        rfl
      split
      case isTrue hkey =>
        refine (ih accepted taken).trans (hskip fun h => ?_)
        rw [isKey_iff.2 h.pattern] at hkey
        cases hkey
      split
      case isTrue htaken =>
        exact (ih accepted taken).trans (hskip fun h => h.notComputed (List.contains_iff_mem.1 htaken))
      case isFalse hforbidden hlimit hkey htaken =>
        by_cases hnull : value = .null
        · subst hnull
          exact (ih accepted taken).trans (hskip fun h => h.notNull rfl)
        · have hadmissible : Admissible config taken (raw, value) := by
            simp only [Bool.or_eq_true, List.contains_iff_mem, not_or] at hforbidden
            refine ⟨hforbidden.1, hforbidden.2, isKey_iff.1 (by simpa using hkey), hnull, ?_⟩
            simpa using htaken
          -- The entry takes one of the places that are left, and its key from those behind it.
          obtain ⟨left, hleft⟩ : ∃ left, maxCustom - accepted = left + 1 :=
            ⟨maxCustom - accepted - 1, by omega⟩
          have hnext : maxCustom - (accepted + 1) = left := by omega
          simp only [customText_eq hnull, Traced.value_bind, Traced.value_pure, value_truncate, ih]
          rw [candidates_cons_of_admissible hadmissible, firstOfEachKey_cons, candidates_taken, hleft,
            hnext, List.take_succ_cons]

/-- The attributes of an element, in two parts. First come those that the library computes: their keys
are the known ones, in the known order, that are shown, with `metadata` only if there is captured data
and `sourcemap` only if it is asked for and the path is shown. Then come those that the user supplies:
of the entries that may be written the first one of each key, at most fifty. A provider that fails
supplies none. -/
theorem values_eq_computed_append_supplied (config : Config) (context : ElementContext) :
    ∃ computed supplied : Values,
      (values config context).value = computed ++ supplied ∧
      computed.map Prod.fst =
        ["id", "name", "path", "line", "file", "component", "metadata", "sourcemap"].filter
          (fun key => decide (Computes config context key)) ∧
      supplied =
        (match config.customAttributes.map fun provider => (provider context).reply (some context) with
          | some (.ok entries) =>
            (firstOfEachKey (candidates config (computed.map Prod.fst) entries)).take 50
          | some (.error _) | none => []) ∧
      ∀ raw, IsOwnKey config raw (stripOwn config raw) := by
  refine ⟨(builtinValues config context).value,
    (customValues config context (builtinValues config context).value).value, rfl,
    keys_builtinValues_eq config context, ?_, isOwnKey_stripOwn config⟩
  unfold customValues
  cases config.customAttributes with
  | none => rfl
  | some provider =>
      simp only [Traced.value_bind, value_invoke, Option.map_some]
      cases (provider context).reply (some context) with
      | error failure => rfl
      | ok entries => exact value_acceptCustom config context entries 0 _

end Attributes

end OriginTags
