import OriginTags.Glob.Pattern
import Mathlib.Computability.Language
/-!
# What regular expressions mean

The language of a regular expression, said by recursion on it, is what the matcher accepts. The text
of an expression means something of its own, by the rules of the notation: a group goes from its
parenthesis to the matching one, a bar separates alternatives inside of a group, a repetition belongs
to the class before it, and a character with a meaning stands for itself behind a backslash.
-/

namespace OriginTags.Glob

/-! ## Languages -/

/-- The texts made of characters of a class. -/
def CharClass.texts (cls : CharClass) : Language Char := {w | ∀ c ∈ w, cls.holds c = true}

/-- The texts that are one character of a class. -/
def CharClass.chars (cls : CharClass) : Language Char := {w | ∃ c, cls.holds c = true ∧ w = [c]}

namespace Regex

/-- The texts that an expression stands for. -/
def language : Regex → Language Char
  | .empty => 1
  | .char c => {[c]}
  | .one cls => cls.chars
  | .many cls => cls.texts
  | .seq first second => first.language * second.language
  | .alt first second => first.language + second.language
  | .group inner => inner.language
  | .optional inner => 1 + inner.language

/-! ## Matching -/

theorem dropOne_eq_some {holds : Char → Bool} {text rest : List Char} :
    dropOne holds text = some rest ↔ ∃ c, holds c = true ∧ text = c :: rest := by
  cases text with
  | nil => simp [dropOne]
  | cons c cs =>
      simp only [dropOne, Option.ite_none_right_eq_some, Option.some.injEq, List.cons.injEq]
      constructor
      · rintro ⟨hc, rfl⟩
        exact ⟨c, hc, rfl, rfl⟩
      · rintro ⟨_, hc, rfl, rfl⟩
        exact ⟨hc, rfl⟩

theorem mem_dropMany {cls : CharClass} {text rest : List Char} :
    rest ∈ dropMany cls text ↔ ∃ part ∈ cls.texts, part ++ rest = text := by
  have hcons : ∀ c part, c :: part ∈ cls.texts ↔ cls.holds c = true ∧ part ∈ cls.texts :=
    fun _ _ => List.forall_mem_cons
  have hnil : [] ∈ cls.texts := fun _ hc => absurd hc List.not_mem_nil
  induction text with
  | nil =>
      simp only [dropMany, List.mem_singleton, List.append_eq_nil_iff]
      constructor
      · rintro rfl
        exact ⟨[], hnil, rfl, rfl⟩
      · rintro ⟨_, _, _, hrest⟩
        exact hrest
  | cons c cs ih =>
      unfold dropMany
      constructor
      · intro hrest
        split at hrest
        · next hc =>
          rcases List.mem_cons.1 hrest with rfl | hrest
          · exact ⟨[], hnil, rfl⟩
          · obtain ⟨part, hpart, rfl⟩ := ih.1 hrest
            exact ⟨c :: part, (hcons c part).2 ⟨hc, hpart⟩, rfl⟩
        · exact ⟨[], hnil, List.mem_singleton.1 hrest⟩
      · rintro ⟨part, hpart, heq⟩
        cases part with
        | nil =>
            obtain rfl : rest = c :: cs := heq
            split <;> exact List.mem_cons_self
        | cons d part =>
            obtain ⟨rfl, htail⟩ := List.cons.inj heq
            obtain ⟨hd, hpart⟩ := (hcons d part).1 hpart
            rw [if_pos hd]
            exact List.mem_cons_of_mem _ (ih.2 ⟨part, hpart, htail⟩)

/-- What may be left of some texts is what stands behind a text of the language. -/
theorem mem_remainders {r : Regex} {texts : List (List Char)} {rest : List Char} :
    rest ∈ r.remainders texts ↔ ∃ text ∈ texts, ∃ part ∈ r.language, part ++ rest = text := by
  induction r generalizing texts rest with
  | empty => simp [remainders, language]
  | char c =>
      simp only [remainders, List.mem_filterMap, dropOne_eq_some, beq_iff_eq]
      constructor
      · rintro ⟨text, htext, d, rfl, rfl⟩
        exact ⟨_, htext, [d], rfl, rfl⟩
      · rintro ⟨text, htext, _, rfl, rfl⟩
        exact ⟨_, htext, c, rfl, rfl⟩
  | one cls =>
      simp only [remainders, List.mem_filterMap, dropOne_eq_some]
      constructor
      · rintro ⟨text, htext, c, hc, rfl⟩
        exact ⟨_, htext, [c], ⟨c, hc, rfl⟩, rfl⟩
      · rintro ⟨text, htext, _, ⟨c, hc, rfl⟩, rfl⟩
        exact ⟨_, htext, c, hc, rfl⟩
  | many cls =>
      simp only [remainders, List.mem_eraseDups, List.mem_flatMap, mem_dropMany, language]
  | seq first second ihFirst ihSecond =>
      simp only [remainders, ihSecond, ihFirst, language, Language.mem_mul]
      constructor
      · rintro ⟨_, ⟨text, htext, a, ha, rfl⟩, b, hb, rfl⟩
        exact ⟨_, htext, a ++ b, ⟨a, ha, b, hb, rfl⟩, List.append_assoc a b rest⟩
      · rintro ⟨text, htext, _, ⟨a, ha, b, hb, rfl⟩, rfl⟩
        exact ⟨b ++ rest, ⟨_, htext, a, ha, (List.append_assoc a b rest).symm⟩, b, hb, rfl⟩
  | alt first second ihFirst ihSecond =>
      simp only [remainders, List.mem_eraseDups, List.mem_append, ihFirst, ihSecond, language,
        Language.mem_add]
      constructor
      · rintro (⟨text, htext, part, hpart, rfl⟩ | ⟨text, htext, part, hpart, rfl⟩)
        · exact ⟨_, htext, part, .inl hpart, rfl⟩
        · exact ⟨_, htext, part, .inr hpart, rfl⟩
      · rintro ⟨text, htext, part, hpart | hpart, rfl⟩
        · exact .inl ⟨_, htext, part, hpart, rfl⟩
        · exact .inr ⟨_, htext, part, hpart, rfl⟩
  | group inner ih => exact ih
  | optional inner ih =>
      simp only [remainders, List.mem_eraseDups, List.mem_append, ih, language, Language.mem_add,
        Language.mem_one]
      constructor
      · rintro (hrest | ⟨text, htext, part, hpart, rfl⟩)
        · exact ⟨rest, hrest, [], .inl rfl, rfl⟩
        · exact ⟨_, htext, part, .inr hpart, rfl⟩
      · rintro ⟨text, htext, part, rfl | hpart, rfl⟩
        · exact .inl htext
        · exact .inr ⟨_, htext, part, hpart, rfl⟩

/-- The matcher accepts the texts of the language. -/
theorem isMatch_iff {r : Regex} {text : List Char} : r.isMatch text = true ↔ text ∈ r.language := by
  simp only [isMatch, List.any_eq_true, List.isEmpty_iff, mem_remainders, List.mem_singleton]
  constructor
  · rintro ⟨_, ⟨_, rfl, part, hpart, rfl⟩, rfl⟩
    rwa [List.append_nil]
  · intro htext
    exact ⟨[], ⟨text, rfl, text, htext, List.append_nil text⟩, rfl⟩

end Regex

/-! ## Notation -/

/-- What has been read of a list of alternatives: the language of the complete ones and that of the
current one. -/
structure Frame where
  complete : Language Char
  current : Language Char

namespace Frame

/-- Nothing read so far. -/
def start : Frame := ⟨0, 1⟩

/-- The current alternative goes on. -/
def push (f : Frame) (l : Language Char) : Frame := { f with current := f.current * l }

/-- All alternatives. -/
def language (f : Frame) : Language Char := f.complete + f.current

/-- The current alternative is complete. -/
def next (f : Frame) : Frame := ⟨f.language, 1⟩

theorem push_push (f : Frame) (l m : Language Char) : (f.push l).push m = f.push (l * m) := by
  simp [push, mul_assoc]

theorem push_one (f : Frame) : f.push 1 = f := by
  simp [push]

end Frame

/-- The language of a text in the notation, from the middle of some open groups on, up to the `$` that
ends it. A bar outside of all groups would reach across the anchors; no glob has one, and it is
refused, as is everything else that globs do not need. -/
def denoteFrom : List Char → (outer : List Frame) → Frame → Option (Language Char)
  | ['$'], [], f => some f.language
  | '(' :: '?' :: ':' :: cs, outer, f => denoteFrom cs (f :: outer) .start
  | ')' :: '?' :: cs, parent :: outer, f => denoteFrom cs outer (parent.push (1 + f.language))
  | ')' :: cs, parent :: outer, f => denoteFrom cs outer (parent.push f.language)
  | '|' :: cs, parent :: outer, f => denoteFrom cs (parent :: outer) f.next
  | '.' :: '*' :: cs, outer, f => denoteFrom cs outer (f.push CharClass.notNewline.texts)
  | '[' :: '^' :: '/' :: ']' :: '*' :: cs, outer, f =>
    denoteFrom cs outer (f.push CharClass.notSlash.texts)
  | '[' :: '^' :: '/' :: ']' :: cs, outer, f => denoteFrom cs outer (f.push CharClass.notSlash.chars)
  | '\\' :: c :: cs, outer, f =>
    if Regex.metaChars.contains c then denoteFrom cs outer (f.push {[c]}) else none
  | c :: cs, outer, f =>
    if Regex.metaChars.contains c then none else denoteFrom cs outer (f.push {[c]})
  | [], _, _ => none

/-- The language of a text in the notation, between its anchors. -/
def denote : List Char → Option (Language Char)
  | '^' :: cs => denoteFrom cs [] .start
  | _ => none

end OriginTags.Glob
