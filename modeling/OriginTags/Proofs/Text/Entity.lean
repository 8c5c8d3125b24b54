import OriginTags.Text.Entity
import Mathlib.Tactic.SplitIfs
/-!
# Reading entities

A text that was escaped reads back, and nothing in it can be taken for the end of an attribute value
or for the beginning of markup: an `&` always begins one of the five entities.
-/

namespace OriginTags.Text.Entity

/-- The entities that are written. -/
def entities : List (List Char) :=
  ["&amp;".toList, "&lt;".toList, "&gt;".toList, "&quot;".toList, "&#39;".toList]

/-- A text with its entities replaced by their characters. An `&` that begins none of them is an
error. -/
def decode? : List Char → Option (List Char)
  | [] => some []
  | '&' :: 'a' :: 'm' :: 'p' :: ';' :: cs => (decode? cs).map ('&' :: ·)
  | '&' :: 'l' :: 't' :: ';' :: cs => (decode? cs).map ('<' :: ·)
  | '&' :: 'g' :: 't' :: ';' :: cs => (decode? cs).map ('>' :: ·)
  | '&' :: 'q' :: 'u' :: 'o' :: 't' :: ';' :: cs => (decode? cs).map ('"' :: ·)
  | '&' :: '#' :: '3' :: '9' :: ';' :: cs => (decode? cs).map ('\'' :: ·)
  | c :: cs => if c = '&' then none else (decode? cs).map (c :: ·)

/-- A string with its entities replaced by their characters. -/
def unescape? (s : String) : Option String := (decode? s.toList).map String.ofList

/-! ## Round trip -/

theorem decode?_cons_of_ne {c : Char} (h : c ≠ '&') (cs : List Char) :
    decode? (c :: cs) = (decode? cs).map (c :: ·) := by
  rw [decode?.eq_def]
  split <;> simp_all

theorem decode?_encodeChar_append (c : Char) (cs : List Char) :
    decode? (encodeChar c ++ cs) = (decode? cs).map (c :: ·) := by
  unfold encodeChar
  split
  case isTrue h => rw [h]; rfl
  split
  case isTrue h => rw [h]; rfl
  split
  case isTrue h => rw [h]; rfl
  split
  case isTrue h => rw [h]; rfl
  split
  case isTrue h => rw [h]; rfl
  case isFalse hamp _ _ _ _ => exact decode?_cons_of_ne hamp cs

theorem decode?_encode (cs : List Char) : decode? (encode cs) = some cs := by
  induction cs with
  | nil => rfl
  | cons c cs ih =>
      have hcons : encode (c :: cs) = encodeChar c ++ encode cs := rfl
      rw [hcons, decode?_encodeChar_append, ih]
      rfl

theorem unescape?_escape (s : String) : unescape? (escape s) = some s := by
  simp [unescape?, escape, decode?_encode]

/-! ## Harmless texts -/

/-- A text that neither ends an attribute value early nor begins markup, whichever quotes it stands
in: quotes apart, it has no character that must be escaped, and every `&` begins an entity. -/
structure Harmless (cs : List Char) : Prop where
  free : ∀ c ∈ cs, c ≠ '<' ∧ c ≠ '>' ∧ c ≠ '\''
  ampersand : ∀ before after, cs = before ++ '&' :: after →
    ∃ entity ∈ entities, entity <+: '&' :: after

theorem Harmless.of_forall {cs : List Char}
    (h : ∀ c ∈ cs, c ≠ '<' ∧ c ≠ '>' ∧ c ≠ '\'' ∧ c ≠ '&') : Harmless cs where
  free c hc := ⟨(h c hc).1, (h c hc).2.1, (h c hc).2.2.1⟩
  ampersand before after heq := absurd rfl (h '&' (by simp [heq])).2.2.2

theorem Harmless.append {a b : List Char} (ha : Harmless a) (hb : Harmless b) :
    Harmless (a ++ b) where
  free c hc := by
    rcases List.mem_append.1 hc with hc | hc
    · exact ha.free c hc
    · exact hb.free c hc
  ampersand before after h := by
    rcases List.append_eq_append_iff.1 h with ⟨mid, rfl, hb'⟩ | ⟨mid, rfl, hmid⟩
    · exact hb.ampersand _ _ hb'
    · cases mid with
      | nil => exact hb.ampersand [] after (by simpa using hmid.symm)
      | cons c mid =>
          -- The `&` stands in the first half, and so does its entity.
          obtain ⟨rfl, rfl⟩ := List.cons.inj hmid
          obtain ⟨entity, hentity, hprefix⟩ := ha.ampersand before mid rfl
          exact ⟨entity, hentity, hprefix.trans (List.prefix_append ('&' :: mid) b)⟩

/-- What is written for a character: an entity, or the character if it needs none. -/
theorem encodeChar_cases (c : Char) :
    encodeChar c ∈ entities ∨
      encodeChar c = [c] ∧ c ≠ '&' ∧ c ≠ '<' ∧ c ≠ '>' ∧ c ≠ '"' ∧ c ≠ '\'' := by
  unfold encodeChar
  split_ifs <;> simp_all [entities]

theorem harmless_entity {entity : List Char} (h : entity ∈ entities) : Harmless entity where
  free := by
    have hfree : ∀ e ∈ entities, ∀ c ∈ e, c ≠ '<' ∧ c ≠ '>' ∧ c ≠ '\'' := by simp [entities]
    exact hfree entity h
  ampersand before after heq := by
    -- An entity has one `&`, its first character.
    have hfirst : ∀ e ∈ entities, ∃ rest, e = '&' :: rest ∧ '&' ∉ rest := by simp [entities]
    obtain ⟨rest, hrest, hnot⟩ := hfirst entity h
    cases before with
    | nil => exact ⟨entity, h, by rw [heq]; simp⟩
    | cons b before =>
        rw [hrest] at heq
        obtain ⟨-, rfl⟩ := List.cons.inj heq
        simp at hnot

theorem harmless_encode (cs : List Char) : Harmless (encode cs) := by
  induction cs with
  | nil => exact .of_forall (by simp [encode])
  | cons c cs ih =>
      have hchar : Harmless (encodeChar c) := by
        rcases encodeChar_cases c with hentity | ⟨hself, hamp, hlt, hgt, -, hapostrophe⟩
        · exact harmless_entity hentity
        · rw [hself]
          exact .of_forall (by simp [hamp, hlt, hgt, hapostrophe])
      exact hchar.append ih

theorem quote_not_mem_encode (cs : List Char) : '"' ∉ encode cs := by
  intro h
  obtain ⟨c, -, hc⟩ := List.mem_flatMap.1 h
  rcases encodeChar_cases c with hentity | ⟨hself, -, -, -, hquote, -⟩
  · have hfree : ∀ e ∈ entities, '"' ∉ e := by decide
    exact hfree _ hentity hc
  · rw [hself, List.mem_singleton] at hc
    exact hquote hc.symm

end OriginTags.Text.Entity
