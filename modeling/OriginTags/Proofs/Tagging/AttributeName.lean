import OriginTags.Proofs.Tagging.Attributes
import OriginTags.Tagging.Tagger
import Mathlib
/-!
# Names of attributes

In a tag, the name of an attribute is a word, or two words with a colon between them. The names that
are written begin with a letter and go on with letters, digits and four marks, one of which has no
place in words and another may stand in a name only once. The checks of prefixes and of keys let both
through, so which of the written names are names in a tag is said here for the whole name.
-/

namespace OriginTags

/-! ## Grammar -/

/-- Whether some characters form a word in a tag: they could be a name, but for hyphens behind the
first of them. -/
def isTagWord : List Char → Bool
  | [] => false
  | c :: cs => Text.isIdentifierStart c && cs.all fun c => Text.isIdentifierPart c || c == '-'

/-- What the name of an attribute may be in a tag. -/
inductive IsAttributeName : List Char → Prop
  | word {cs : List Char} (h : isTagWord cs = true) : IsAttributeName cs
  | qualified {first second : List Char} (hfirst : isTagWord first = true)
      (hsecond : isTagWord second = true) : IsAttributeName (first ++ ':' :: second)

/-- What makes some letters, digits and marks the name of an attribute: no point, and at most one
colon, which a letter or an underscore follows. -/
structure FewMarks (cs : List Char) : Prop where
  noPoint : '.' ∉ cs
  oneColon : cs.count ':' ≤ 1
  behindColon : ∀ before behind, cs = before ++ ':' :: behind →
    ∃ c rest, behind = c :: rest ∧ (c.isAlpha = true ∨ c = '_')

/-! ## Characters -/

theorem toNat_lt_of_isAlphanum {c : Char} (h : c.isAlphanum = true) : c.toNat < 0x80 := by
  simp only [Char.isAlphanum, Char.isAlpha, Char.isUpper, Char.isLower, Char.isDigit,
    Bool.or_eq_true, Bool.and_eq_true, decide_eq_true_eq, ge_iff_le, UInt32.le_iff_toNat_le,
    Char.reduceVal, UInt32.reduceToNat] at h
  show c.val.toNat < 0x80
  omega

theorem isNameChar_iff {c : Char} :
    isNameChar c = true ↔ c.isAlphanum = true ∨ c ∈ ['_', ':', '.', '-'] := by
  simp [isNameChar]

theorem isTagWord_part_iff {c : Char} (h : isNameChar c = true) :
    (Text.isIdentifierPart c || c == '-') = true ↔ c ≠ '.' ∧ c ≠ ':' := by
  rcases isNameChar_iff.1 h with hc | hc
  · have hpart : Text.isIdentifierPart c = true := by
      simp [Text.isIdentifierPart, toNat_lt_of_isAlphanum hc, hc]
    have hmarks : c ≠ '.' ∧ c ≠ ':' := by
      constructor
      all_goals
        rintro rfl
        cases hc
    simp [hpart, hmarks]
  · simp only [List.mem_cons, List.not_mem_nil, or_false] at hc
    rcases hc with rfl | rfl | rfl | rfl <;> decide

theorem isIdentifierStart_iff {c : Char} (h : isNameChar c = true) :
    Text.isIdentifierStart c = true ↔ c.isAlpha = true ∨ c = '_' := by
  rcases isNameChar_iff.1 h with hc | hc
  · have hdollar : c ≠ '$' := by
      rintro rfl
      cases hc
    simp [Text.isIdentifierStart, toNat_lt_of_isAlphanum hc, hdollar]
  · simp only [List.mem_cons, List.not_mem_nil, or_false] at hc
    rcases hc with rfl | rfl | rfl | rfl <;> decide

/-! ## Words and names -/

theorem isTagWord_cons_iff {c : Char} {cs : List Char} (h : ∀ d ∈ c :: cs, isNameChar d = true) :
    isTagWord (c :: cs) = true ↔ (c.isAlpha = true ∨ c = '_') ∧ '.' ∉ cs ∧ ':' ∉ cs := by
  obtain ⟨hc, hcs⟩ := List.forall_mem_cons.1 h
  have hparts : (cs.all fun d => Text.isIdentifierPart d || d == '-') = true ↔
      '.' ∉ cs ∧ ':' ∉ cs := by
    rw [List.all_eq_true]
    constructor
    · intro hall
      exact ⟨fun hmem => ((isTagWord_part_iff (hcs _ hmem)).1 (hall _ hmem)).1 rfl,
        fun hmem => ((isTagWord_part_iff (hcs _ hmem)).1 (hall _ hmem)).2 rfl⟩
    · rintro ⟨hpoint, hcolon⟩ d hd
      refine (isTagWord_part_iff (hcs d hd)).2 ⟨?_, ?_⟩
      · rintro rfl
        exact hpoint hd
      · rintro rfl
        exact hcolon hd
  rw [isTagWord, Bool.and_eq_true, isIdentifierStart_iff hc, hparts]

/-- A word among letters, digits and marks has no point and no colon, and a letter or an underscore
stands first. -/
theorem isTagWord_iff {cs : List Char} (h : ∀ d ∈ cs, isNameChar d = true) :
    isTagWord cs = true ↔
      (∃ c rest, cs = c :: rest ∧ (c.isAlpha = true ∨ c = '_')) ∧ '.' ∉ cs ∧ ':' ∉ cs := by
  cases cs with
  | nil => simp [isTagWord]
  | cons c cs =>
      rw [isTagWord_cons_iff h]
      constructor
      · rintro ⟨hc, hpoint, hcolon⟩
        have hmark : c ≠ '.' ∧ c ≠ ':' := by
          constructor
          all_goals
            rintro rfl
            revert hc
            decide
        refine ⟨⟨c, cs, rfl, hc⟩, ?_, ?_⟩
        · simp [hpoint, hmark.1.symm]
        · simp [hcolon, hmark.2.symm]
      · rintro ⟨⟨_, _, heq, hc⟩, hpoint, hcolon⟩
        cases heq
        exact ⟨hc, fun hmem => hpoint (List.mem_cons_of_mem _ hmem),
          fun hmem => hcolon (List.mem_cons_of_mem _ hmem)⟩

/-- A colon that stands in a text only once parts it in one way. -/
theorem eq_of_append_colon {first second before behind : List Char} (hfirst : ':' ∉ first)
    (hsecond : ':' ∉ second) (h : first ++ ':' :: second = before ++ ':' :: behind) :
    second = behind := by
  induction first generalizing before with
  | nil =>
      cases before with
      | nil => exact (List.cons.inj h).2
      | cons c before =>
          obtain ⟨rfl, htail⟩ := List.cons.inj h
          exact absurd (htail ▸ List.mem_append_right before List.mem_cons_self) hsecond
  | cons c first ih =>
      cases before with
      | nil => exact absurd ((List.cons.inj h).1 ▸ List.mem_cons_self) hfirst
      | cons d before =>
          exact ih (fun hmem => hfirst (List.mem_cons_of_mem _ hmem)) (List.cons.inj h).2

theorem fewMarks_of_isAttributeName {cs : List Char} (h : ∀ d ∈ cs, isNameChar d = true)
    (hname : IsAttributeName cs) : FewMarks cs := by
  cases hname with
  | word hword =>
      obtain ⟨-, hpoint, hcolon⟩ := (isTagWord_iff h).1 hword
      refine ⟨hpoint, ?_, ?_⟩
      · rw [List.count_eq_zero.2 hcolon]
        exact Nat.zero_le 1
      · rintro before behind rfl
        exact absurd (List.mem_append_right before List.mem_cons_self) hcolon
  | @qualified first second hfirst hsecond =>
      obtain ⟨hchars, hbehind⟩ := List.forall_mem_append.1 h
      have hchars' := (List.forall_mem_cons.1 hbehind).2
      obtain ⟨-, hpoint, hcolon⟩ := (isTagWord_iff hchars).1 hfirst
      obtain ⟨hbegin, hpoint', hcolon'⟩ := (isTagWord_iff hchars').1 hsecond
      refine ⟨by simp [hpoint, hpoint'], ?_, ?_⟩
      · rw [List.count_append, List.count_cons_self, List.count_eq_zero.2 hcolon,
          List.count_eq_zero.2 hcolon']
      · intro before behind heq
        exact eq_of_append_colon hcolon hcolon' heq ▸ hbegin

theorem FewMarks.isAttributeName {cs : List Char} (hmarks : FewMarks cs)
    (hstart : ∃ c rest, cs = c :: rest ∧ c.isAlpha = true) (h : ∀ d ∈ cs, isNameChar d = true) :
    IsAttributeName cs := by
  by_cases hcolon : ':' ∈ cs
  · -- The one colon parts the name into two words.
    obtain ⟨first, second, rfl⟩ := List.append_of_mem hcolon
    obtain ⟨hchars, hbehind⟩ := List.forall_mem_append.1 h
    have hchars' := (List.forall_mem_cons.1 hbehind).2
    obtain ⟨hpoint, hpoint'⟩ : '.' ∉ first ∧ '.' ∉ second := by
      simpa using hmarks.noPoint
    obtain ⟨hnone, hnone'⟩ : ':' ∉ first ∧ ':' ∉ second := by
      have hcount := hmarks.oneColon
      rw [List.count_append, List.count_cons_self] at hcount
      exact ⟨List.count_eq_zero.1 (by omega), List.count_eq_zero.1 (by omega)⟩
    have hbegin : ∃ c rest, first = c :: rest ∧ (c.isAlpha = true ∨ c = '_') := by
      obtain ⟨c, rest, heq, hc⟩ := hstart
      cases first with
      | nil =>
          obtain ⟨rfl, -⟩ := List.cons.inj heq
          cases hc
      | cons d first =>
          obtain ⟨rfl, -⟩ := List.cons.inj heq
          exact ⟨_, first, rfl, .inl hc⟩
    exact .qualified ((isTagWord_iff hchars).2 ⟨hbegin, hpoint, hnone⟩)
      ((isTagWord_iff hchars').2 ⟨hmarks.behindColon first second rfl, hpoint', hnone'⟩)
  · obtain ⟨c, rest, hcs, hc⟩ := hstart
    exact .word ((isTagWord_iff h).2 ⟨⟨c, rest, hcs, .inl hc⟩, hmarks.noPoint, hcolon⟩)

namespace Attributes

/-! ## Written names -/

/-- The names under which attributes are written. -/
def names (config : Config) (vs : Values) : List String :=
  if config.groupAttributes then vs.head?.toList.map fun _ => config.attributePrefix
  else vs.map fun v => config.attributePrefix ++ "-" ++ v.1

theorem isNameChar_of_mem_names {config : Config} {vs : Values}
    (hlead : Config.isAttributePrefix config.attributePrefix.toList = true)
    (hkeys : ∀ v ∈ vs, isKey v.1.toList = true) {name : String} (h : name ∈ names config vs) :
    ∀ c ∈ name.toList, isNameChar c = true := by
  unfold names at h
  split at h
  · obtain ⟨_, _, rfl⟩ := List.mem_map.1 h
    exact Config.isNameChar_of_isAttributePrefix hlead
  · obtain ⟨v, hv, rfl⟩ := List.mem_map.1 h
    exact isNameChar_name hlead (hkeys v hv)

theorem exists_letter_of_mem_names {config : Config} {vs : Values}
    (hlead : Config.isAttributePrefix config.attributePrefix.toList = true) {name : String}
    (h : name ∈ names config vs) : ∃ c rest, name.toList = c :: rest ∧ c.isAlpha = true := by
  obtain ⟨more, hname⟩ : ∃ more, name.toList = config.attributePrefix.toList ++ more := by
    unfold names at h
    split at h
    · obtain ⟨_, _, rfl⟩ := List.mem_map.1 h
      exact ⟨[], (List.append_nil _).symm⟩
    · obtain ⟨v, _, rfl⟩ := List.mem_map.1 h
      exact ⟨"-".toList ++ v.1.toList, by simp⟩
  rw [hname]
  cases hcs : config.attributePrefix.toList with
  | nil =>
      rw [hcs] at hlead
      cases hlead
  | cons c cs =>
      rw [hcs, Config.isAttributePrefix, Bool.and_eq_true] at hlead
      exact ⟨c, cs ++ more, rfl, hlead.1⟩

/-- A reader of the attributes finds the names under which they were written. -/
theorem names_of_render {config : Config} {vs : Values}
    (hlead : Config.isAttributePrefix config.attributePrefix.toList = true)
    (hkeys : ∀ v ∈ vs, isKey v.1.toList = true) :
    ∃ tokens, tokens? (render config vs).toList = some tokens ∧
      tokens.map Prod.fst = names config vs := by
  cases hgroup : config.groupAttributes with
  | false =>
      rw [render_eq_written hgroup]
      refine ⟨_, tokens?_written fun token htoken => ?_, ?_⟩
      · obtain ⟨v, hv, rfl⟩ := List.mem_map.1 htoken
        exact Token.bounded_escape (isNameChar_name hlead (hkeys v hv)) v.2
      · simp [names, hgroup]
  | true =>
      cases vs with
      | nil => exact ⟨[], rfl, by simp [names, hgroup]⟩
      | cons v vs =>
          have hrender : render config (v :: vs) = written [(config.attributePrefix,
              Text.Entity.escape (config.metadataEncoding.encode (grouped (v :: vs))))] := by
            simp only [render, List.isEmpty_cons, Bool.false_eq_true, if_false, hgroup, if_true]
            rfl
          rw [hrender]
          refine ⟨_, tokens?_written fun token htoken => ?_, ?_⟩
          · obtain rfl := List.mem_singleton.1 htoken
            exact Token.bounded_escape (Config.isNameChar_of_isAttributePrefix hlead) _
          · simp [names, hgroup]

/-- Whatever the options, the supplied attributes and the element are, a reader of the attributes
finds the names of the configuration, and those of them that keep to few marks, and no others, are
names of attributes in a tag. -/
theorem isAttributeName_generate (files : FileTree) (options : Options)
    (workingDirectory : Option String) (context : ElementContext) :
    let config := (Config.resolve files options workingDirectory).value
    ∃ tokens, tokens? (generate config context).value.toList = some tokens ∧
      tokens.map Prod.fst = names config (values config context).value ∧
      ∀ token ∈ tokens, (IsAttributeName token.1.toList ↔ FewMarks token.1.toList) := by
  intro config
  have hlead : Config.isAttributePrefix config.attributePrefix.toList = true :=
    Config.isAttributePrefix_resolve files options workingDirectory
  have hkeys : ∀ v ∈ (values config context).value, isKey v.1.toList = true :=
    fun _ => isKey_of_mem_values
  obtain ⟨tokens, htokens, hnames⟩ := names_of_render hlead hkeys
  refine ⟨tokens, htokens, hnames, fun token htoken => ?_⟩
  have hname : token.1 ∈ names config (values config context).value :=
    hnames ▸ List.mem_map_of_mem htoken
  have hchars := isNameChar_of_mem_names hlead hkeys hname
  exact ⟨fewMarks_of_isAttributeName hchars,
    fun hmarks => hmarks.isAttributeName (exists_letter_of_mem_names hlead hname) hchars⟩

/-- A prefix with a point and a supplied key with two colons pass the checks. The names are none in a
tag, and the tagged file is no program any more. -/
theorem isAttributeName_generate_pointed :
    let pointed := (Config.resolve ⟨[]⟩
      { attributePrefix := some "a.b", includeAttributes := some ["name"] }).value
    let supplied := (Config.resolve ⟨[]⟩
      { includeAttributes := some []
        customAttributes := some fun _ => .ok [("x:y:z", .string "1")] }).value
    let context : ElementContext := ⟨"a", "a.tsx", 1, 0, "a.tsx", 1, none, none⟩
    (generate pointed context).value = "a.b-name=\"a\"" ∧ ¬ IsAttributeName "a.b-name".toList ∧
      (generate supplied context).value = "data-dev-x:y:z=\"1\"" ∧
      ¬ IsAttributeName "data-dev-x:y:z".toList ∧
      ((tagFile pointed "<a/>" "a.tsx" ⟨"a.tsx", "a.tsx"⟩).value.toOption.bind
        Outcome.output).map Spliced.code = some "<a a.b-name=\"a\"/>" ∧
      isValidSource "<a/>" = true ∧ isValidSource "<a a.b-name=\"a\"/>" = false := by
  refine ⟨by decide +kernel, fun hname => ?_, by decide +kernel, fun hname => ?_, by decide +kernel,
    by decide +kernel, by decide +kernel⟩
  · have hchars : "a.b-name".toList.all isNameChar = true := by decide
    exact (fewMarks_of_isAttributeName (List.all_eq_true.1 hchars) hname).noPoint (by decide)
  · have hchars : "data-dev-x:y:z".toList.all isNameChar = true := by decide
    exact absurd (fewMarks_of_isAttributeName (List.all_eq_true.1 hchars) hname).oneColon (by decide)

end Attributes

end OriginTags
