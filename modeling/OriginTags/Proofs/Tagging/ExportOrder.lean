import OriginTags.Proofs.Files.Agreement
import OriginTags.Tagging.Export
/-!
# Exports in any order

The counts of an exported file may stand in any order. Whatever the order, the same file is written, in the
same place and for the same answer, and no later export depends on it.
-/

namespace OriginTags

/-- Two texts are the same, or both are the text of the same counters with the counts of names in some
order. -/
inductive Statistics.SameText : String → String → Prop
  | refl (content : String) : SameText content content
  | counters (s : Statistics) (order order' : Order) :
      SameText (s.toJson order).pretty (s.toJson order').pretty

namespace Export

open OriginTags.Path (Component components ofComponents)
open Statistics (SameText)

variable {R : String → String → Prop} {t t' : FileTree}

theorem staysBelow_agrees (h : t.Agrees R t') (canonicalRoot : List Char) (parts : List Component) :
    staysBelow t canonicalRoot parts = staysBelow t' canonicalRoot parts := by
  unfold staysBelow
  simp only [h.isPresent_eq, h.canonicalize_eq]

theorem confine_agrees (h : t.Agrees R t') (root requested : String) :
    confine t root requested = confine t' root requested := by
  unfold confine
  simp only [h.canonicalize_eq, staysBelow_agrees h]

theorem resolvePath_agrees (h : t.Agrees R t') (root raw : String) :
    resolvePath t root raw = resolvePath t' root raw :=
  confine_agrees h root _

/-- Two exports of the same counters have the same answer, and leave trees that agree. -/
theorem write_agrees (h : t.Agrees SameText t') (root target : String) (statistics : Statistics)
    (order order' : Statistics.Order) :
    (write t root target statistics order).1 = (write t' root target statistics order').1 ∧
      (write t root target statistics order).2.Agrees SameText
        (write t' root target statistics order').2 := by
  unfold write
  rw [resolvePath_agrees h]
  cases resolvePath t' root (Path.display target) with
  | error e => exact ⟨rfl, h⟩
  | ok path =>
      obtain ⟨hmade, hall⟩ :=
        h.makeDirectories (((ancestors (components path.toList)).drop 1).map ofComponents)
      dsimp only
      generalize t.makeDirectories _ = made at hmade hall ⊢
      generalize t'.makeDirectories _ = made' at hmade hall ⊢
      obtain ⟨s, b⟩ := made
      obtain ⟨s', b'⟩ := made'
      obtain rfl : b = b' := hall
      cases b with
      | false => exact ⟨rfl, hmade⟩
      | true =>
          dsimp only
          rw [resolvePath_agrees hmade]
          cases resolvePath s' root (Path.display path) with
          | error e => exact ⟨rfl, hmade⟩
          | ok again =>
              have hwrite := hmade.write again.toList (.counters statistics order order')
              dsimp only
              generalize s.write _ _ = after at hwrite ⊢
              generalize s'.write _ _ = after' at hwrite ⊢
              cases hwrite with
              | none => exact ⟨rfl, hmade⟩
              | some hafter => exact ⟨rfl, hafter⟩

theorem writeLogged_agrees (h : t.Agrees SameText t') (root target : String) (statistics : Statistics)
    (order order' : Statistics.Order) :
    (writeLogged t root target statistics order).value.Agrees SameText
        (writeLogged t' root target statistics order').value ∧
      (writeLogged t root target statistics order).events =
        (writeLogged t' root target statistics order').events := by
  obtain ⟨hanswer, hfiles⟩ := write_agrees h root target statistics order order'
  unfold writeLogged
  generalize write t root target statistics order = outcome at hanswer hfiles ⊢
  generalize write t' root target statistics order' = outcome' at hanswer hfiles ⊢
  obtain ⟨answer, after⟩ := outcome
  obtain ⟨answer', after'⟩ := outcome'
  obtain rfl : answer = answer' := hanswer
  cases answer with
  | ok path => exact ⟨hfiles, rfl⟩
  | error e => cases e <;> exact ⟨hfiles, rfl⟩

end Export

end OriginTags
