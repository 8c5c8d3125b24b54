import Mathlib.Data.List.TakeDrop
import OriginTags.Text.Digit
/-!
# Ends of texts

What a reader leaves of a text is an end of this text.
-/

namespace OriginTags.Text

theorem suffix_span (p : Char → Bool) (cs : List Char) : (cs.span p).2 <:+ cs := by
  rw [List.span_eq_takeWhile_dropWhile]
  exact List.dropWhile_suffix p

theorem suffix_of_cons {c : Char} {a b : List Char} (h : c :: a <:+ b) : a <:+ b :=
  (List.suffix_cons c a).trans h

theorem suffix_cons_of_suffix {a b : List Char} (c : Char) (h : a <:+ b) : a <:+ c :: b :=
  h.trans (List.suffix_cons c b)

theorem suffix_cons_cons (a b : Char) (cs : List Char) : cs <:+ a :: b :: cs :=
  suffix_cons_of_suffix a (List.suffix_cons b cs)

theorem suffix_of_readUnit {cs rest : List Char} {n : Nat} (h : readUnit cs = some (n, rest)) :
    rest <:+ cs := by
  unfold readUnit at h
  split at h
  · simp only [Option.bind_eq_bind, Option.bind_eq_some_iff, Option.pure_def, Option.some.injEq,
      Prod.mk.injEq] at h
    obtain ⟨_, _, _, _, _, _, _, _, _, rfl⟩ := h
    exact ⟨[_, _, _, _], rfl⟩
  · cases h

end OriginTags.Text
