import Mathlib.Data.List.TakeWhile
import OriginTags.Proofs.Json.Document
import OriginTags.Proofs.Text.Bytes
import OriginTags.Proofs.Text.Suffix
/-!
# How documents end

Whatever is read at the front of a JSON text, what is left is an end of this text. So a text that reads
as an object ends with a brace.
-/

namespace OriginTags.Json

/-! ## Strings and numbers -/

theorem suffix_of_readUnicodeEscape {c : Char} {cs rest : List Char}
    (h : readUnicodeEscape cs = some (c, rest)) : rest <:+ cs := by
  simp only [readUnicodeEscape, Option.bind_eq_bind, Option.bind_eq_some_iff] at h
  obtain ⟨⟨unit, after⟩, hunit, h⟩ := h
  have hafter := Text.suffix_of_readUnit hunit
  dsimp only at h
  split at h
  · cases h
  split at h
  · split at h
    · simp only [Option.bind_eq_some_iff] at h
      obtain ⟨⟨low, last⟩, hlow, h⟩ := h
      simp only [Option.ite_none_right_eq_some, Option.pure_def, Option.some.injEq,
        Prod.mk.injEq] at h
      obtain ⟨-, -, rfl⟩ := h
      exact ((Text.suffix_of_readUnit hlow).trans (Text.suffix_cons_cons _ _ _)).trans hafter
    · cases h
  · simp only [Option.pure_def, Option.some.injEq, Prod.mk.injEq] at h
    exact h.2 ▸ hafter

theorem suffix_of_readEscape {c : Char} {cs rest : List Char} (h : readEscape cs = some (c, rest)) :
    rest <:+ cs := by
  unfold readEscape at h
  split at h
  case h_9 => exact Text.suffix_cons_of_suffix _ (suffix_of_readUnicodeEscape h)
  case h_10 => cases h
  all_goals
    cases h
    exact List.suffix_cons _ _

theorem suffix_of_readString {steps : Nat} {s cs rest : List Char}
    (h : readString steps cs = some (s, rest)) : rest <:+ cs := by
  induction steps generalizing s cs with
  | zero => cases h
  | succ steps ih =>
      cases cs with
      | nil => cases h
      | cons c cs =>
          refine Text.suffix_cons_of_suffix c ?_
          simp only [readString] at h
          split at h
          · cases h
            exact List.suffix_rfl
          split at h
          · simp only [Option.bind_eq_bind, Option.bind_eq_some_iff] at h
            obtain ⟨⟨e, after⟩, hescape, ⟨tail, last⟩, htail, h⟩ := h
            cases h
            exact (ih htail).trans (suffix_of_readEscape hescape)
          split at h
          · cases h
          · simp only [Option.bind_eq_bind, Option.bind_eq_some_iff] at h
            obtain ⟨⟨tail, last⟩, htail, h⟩ := h
            cases h
            exact ih htail

theorem suffix_of_skipBlanks {cs rest : List Char} (h : rest <:+ skipBlanks cs) : rest <:+ cs :=
  h.trans (List.dropWhile_suffix _)

theorem suffix_of_spanDigits {cs digits rest : List Char} (h : spanDigits cs = (digits, rest)) :
    rest <:+ cs := by
  have hrest : (spanDigits cs).2 <:+ cs := Text.suffix_span Char.isDigit cs
  rwa [h] at hrest

theorem suffix_of_readExponent {cs rest : List Char} {n : Int}
    (h : readExponent cs = some (n, rest)) : rest <:+ cs := by
  unfold readExponent at h
  split at h
  next negative after hsign =>
  have hafter : after <:+ cs := by
    split at hsign <;> cases hsign
    · exact List.suffix_cons _ _
    · exact List.suffix_cons _ _
    · exact List.suffix_rfl
  split at h
  · cases h
  · next hspan =>
    cases h
    exact (suffix_of_spanDigits hspan).trans hafter

theorem suffix_of_skipFraction {cs rest : List Char} (h : skipFraction cs = some rest) :
    rest <:+ cs := by
  unfold skipFraction at h
  split at h
  · next after =>
    split at h
    · cases h
    · next hspan =>
      cases h
      exact Text.suffix_cons_of_suffix _ (suffix_of_spanDigits hspan)
  · cases h
    exact List.suffix_rfl

theorem suffix_of_skipExponent {cs rest : List Char} (h : skipExponent cs = some rest) :
    rest <:+ cs := by
  unfold skipExponent at h
  split at h
  case h_3 =>
    cases h
    exact List.suffix_rfl
  all_goals
    simp only [Option.map_eq_some_iff] at h
    obtain ⟨⟨n, last⟩, hread, rfl⟩ := h
    exact Text.suffix_cons_of_suffix _ (suffix_of_readExponent hread)

theorem suffix_of_skipNumber {cs rest : List Char} (h : skipNumber cs = some rest) : rest <:+ cs := by
  have hsign : (Text.stripLead? ['-'] cs |>.getD cs) <:+ cs := by
    cases hstrip : Text.stripLead? ['-'] cs with
    | none => exact List.suffix_rfl
    | some after => exact ⟨['-'], (Text.stripLead?_eq_some.1 hstrip).symm⟩
  unfold skipNumber at h
  split at h
  · cases h
  · cases h
  · next hspan =>
    obtain ⟨middle, hfraction, hexponent⟩ := Option.bind_eq_some_iff.1 h
    exact (suffix_of_skipExponent hexponent).trans
      ((suffix_of_skipFraction hfraction).trans ((suffix_of_spanDigits hspan).trans hsign))

/-! ## Documents -/

namespace Document

theorem suffix_of_readKey {cs rest : List Char} {key : String} (h : readKey cs = some (key, rest)) :
    rest <:+ cs := by
  unfold readKey at h
  split at h
  · next quoted hquote =>
    simp only [Option.bind_eq_bind, Option.bind_eq_some_iff] at h
    obtain ⟨⟨name, after⟩, hname, h⟩ := h
    dsimp only at h
    split at h
    · next hcolon =>
      cases h
      have hafter : rest <:+ after :=
        suffix_of_skipBlanks (by rw [hcolon]; exact List.suffix_cons _ _)
      have hquoted : quoted <:+ cs :=
        suffix_of_skipBlanks (by rw [hquote]; exact List.suffix_cons _ _)
      exact (hafter.trans (suffix_of_readString hname)).trans hquoted
    · cases h
  · cases h

/-- What the text of a document must end with: the brace of an object. -/
def closing : Document → List Char
  | .object _ => ['\x7d']
  | _ => []

theorem suffix_of_word {word cs rest : List Char} {d d' : Document}
    (h : (Text.stripLead? word cs).map (fun rest => (d', rest)) = some (d, rest)) :
    d = d' ∧ rest <:+ cs := by
  obtain ⟨after, hstrip, hread⟩ := Option.map_eq_some_iff.1 h
  cases hread
  exact ⟨rfl, word, (Text.stripLead?_eq_some.1 hstrip).symm⟩

mutual

theorem suffix_of_read : ∀ {fuel : Nat} {cs rest : List Char} {d : Document},
    read fuel cs = some (d, rest) → d.closing ++ rest <:+ cs
  | 0, _, _, _, h => by cases h
  | fuel + 1, cs, rest, d, h => by
      rw [read] at h
      refine suffix_of_skipBlanks ?_
      split at h
      case h_1 heq =>
        simp only [Option.bind_eq_bind, Option.bind_eq_some_iff] at h
        obtain ⟨⟨s, after⟩, hs, h⟩ := h
        cases h
        rw [heq]
        exact Text.suffix_cons_of_suffix _ (suffix_of_readString hs)
      case h_2 heq =>
        rw [heq]
        refine Text.suffix_cons_of_suffix _ (suffix_of_skipBlanks ?_)
        split at h
        · next hend =>
          cases h
          rw [hend]
          exact List.suffix_cons _ _
        · simp only [Option.bind_eq_bind, Option.bind_eq_some_iff] at h
          obtain ⟨⟨item, after⟩, hitem, ⟨items, last⟩, hitems, h⟩ := h
          cases h
          exact (suffix_of_readMoreItems hitems).trans
            ((List.suffix_append _ _).trans (suffix_of_read hitem))
      case h_3 heq =>
        rw [heq]
        refine Text.suffix_cons_of_suffix _ (suffix_of_skipBlanks ?_)
        split at h
        · next hend =>
          cases h
          exact hend ▸ List.suffix_rfl
        · simp only [Option.bind_eq_bind, Option.bind_eq_some_iff] at h
          obtain ⟨⟨key, after⟩, hkey, ⟨value, middle⟩, hvalue, ⟨members, last⟩, hmembers, h⟩ := h
          cases h
          exact (suffix_of_readMoreMembers hmembers).trans
            ((List.suffix_append _ _).trans ((suffix_of_read hvalue).trans (suffix_of_readKey hkey)))
      case h_7 =>
        simp only [Option.bind_eq_bind, Option.bind_eq_some_iff] at h
        obtain ⟨after, hskip, h⟩ := h
        cases h
        exact suffix_of_skipNumber hskip
      all_goals
        rename_i heq
        obtain ⟨rfl, hrest⟩ := suffix_of_word h
        rw [heq]
        exact Text.suffix_cons_of_suffix _ hrest

theorem suffix_of_readMoreItems : ∀ {fuel : Nat} {cs rest : List Char} {items : List Document},
    readMoreItems fuel cs = some (items, rest) → rest <:+ cs
  | 0, _, _, _, h => by cases h
  | fuel + 1, cs, rest, items, h => by
      rw [readMoreItems] at h
      refine suffix_of_skipBlanks ?_
      split at h
      case h_1 heq =>
        cases h
        rw [heq]
        exact List.suffix_cons _ _
      case h_2 heq =>
        simp only [Option.bind_eq_bind, Option.bind_eq_some_iff] at h
        obtain ⟨⟨item, after⟩, hitem, ⟨items, last⟩, hitems, h⟩ := h
        cases h
        rw [heq]
        exact Text.suffix_cons_of_suffix _ ((suffix_of_readMoreItems hitems).trans
          ((List.suffix_append _ _).trans (suffix_of_read hitem)))
      case h_3 => cases h

theorem suffix_of_readMoreMembers :
    ∀ {fuel : Nat} {cs rest : List Char} {members : List (String × Document)},
    readMoreMembers fuel cs = some (members, rest) → '\x7d' :: rest <:+ cs
  | 0, _, _, _, h => by cases h
  | fuel + 1, cs, rest, members, h => by
      rw [readMoreMembers] at h
      refine suffix_of_skipBlanks ?_
      split at h
      case h_1 heq =>
        cases h
        exact heq ▸ List.suffix_rfl
      case h_2 heq =>
        simp only [Option.bind_eq_bind, Option.bind_eq_some_iff] at h
        obtain ⟨⟨key, after⟩, hkey, ⟨value, middle⟩, hvalue, ⟨members, last⟩, hmembers, h⟩ := h
        cases h
        rw [heq]
        exact Text.suffix_cons_of_suffix _ ((suffix_of_readMoreMembers hmembers).trans
          ((List.suffix_append _ _).trans ((suffix_of_read hvalue).trans (suffix_of_readKey hkey))))
      case h_3 => cases h

end

/-- Only blanks may stand behind the last brace of an object. -/
theorem last_of_parse?_object {text : String} {c : Char} {members : List (String × Document)}
    (h : parse? text = some (.object members)) (hlast : text.toList.getLast? = some c) :
    c = '\x7d' ∨ isBlank c = true := by
  simp only [parse?, Option.bind_eq_bind, Option.bind_eq_some_iff] at h
  obtain ⟨⟨d, rest⟩, hread, h⟩ := h
  simp only [Option.ite_none_right_eq_some, Option.pure_def, Option.some.injEq] at h
  obtain ⟨hblank, rfl⟩ := h
  obtain ⟨front, hfront⟩ := suffix_of_read hread
  have hmem : c ∈ '\x7d' :: rest := by
    rw [← hfront, closing] at hlast
    exact List.mem_of_getLast? (by simpa using hlast)
  refine (List.mem_cons.1 hmem).imp_right fun hrest => ?_
  exact List.dropWhile_eq_nil_iff.1 (List.isEmpty_iff.1 hblank) c hrest

end Document

end OriginTags.Json
