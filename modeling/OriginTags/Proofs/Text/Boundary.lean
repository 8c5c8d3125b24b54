import OriginTags.Proofs.Text.Bytes
import Mathlib.Order.Bounds.Basic
/-!
# Looking for boundaries

Where an offset lies inside a character or past the end, the largest boundary that is not above it takes
its place. It is where a walk back from the offset stops, a byte at a time, and no such walk leaves the
text. The last occurrence of a part is found in the same sense: no other occurrence lies behind it.
-/

namespace OriginTags.Text

/-! ## The way back -/

/-- Goes back from an offset to the first boundary, a byte at a time. From zero there is no way back. -/
def backToBoundary? (cs : List Char) : Nat → Option Nat
  | 0 => if isBoundary cs 0 then some 0 else none
  | n + 1 => if isBoundary cs (n + 1) then some (n + 1) else backToBoundary? cs n

theorem le_byteSize_of_isBoundary {cs : List Char} {n : Nat} (h : isBoundary cs n = true) :
    n ≤ byteSize cs := by
  obtain ⟨a, b, rfl, rfl⟩ := exists_split_of_isBoundary h
  simp

theorem isGreatest_floorBoundary (cs : List Char) (n : Nat) :
    IsGreatest {m | isBoundary cs m = true ∧ m ≤ n} (floorBoundary cs n) := by
  constructor
  · exact ⟨isBoundary_floorBoundary cs n, floorBoundary_le cs n⟩
  · rintro m ⟨hm, hle⟩
    exact le_floorBoundary_of_isBoundary hm hle

/-- An offset past the end stands for the end. -/
theorem floorBoundary_min_byteSize (cs : List Char) (n : Nat) :
    floorBoundary cs (min n (byteSize cs)) = floorBoundary cs n := by
  refine (isGreatest_floorBoundary cs _).unique ?_
  constructor
  · have hfloor := isBoundary_floorBoundary cs n
    exact ⟨hfloor, Nat.le_min.2 ⟨floorBoundary_le cs n, le_byteSize_of_isBoundary hfloor⟩⟩
  · rintro m ⟨hm, hle⟩
    exact le_floorBoundary_of_isBoundary hm (Nat.le_trans hle (Nat.min_le_left _ _))

/-- The way back always ends at a boundary, and that is the largest one. -/
theorem backToBoundary?_eq (cs : List Char) (n : Nat) :
    backToBoundary? cs n = some (floorBoundary cs n) := by
  induction n with
  | zero =>
      have hzero : isBoundary cs 0 = true := by cases cs <;> rfl
      rw [backToBoundary?, if_pos hzero, floorBoundary_of_isBoundary hzero]
  | succ n ih =>
      rw [backToBoundary?]
      split
      · next hboundary => rw [floorBoundary_of_isBoundary hboundary]
      · next hinside =>
        -- The offset itself is no boundary, so both offsets have the same ones below them.
        rw [ih, Option.some.injEq]
        refine (isGreatest_floorBoundary cs n).unique ?_
        obtain ⟨⟨hboundary, hle⟩, hgreatest⟩ := isGreatest_floorBoundary cs (n + 1)
        refine ⟨⟨hboundary, ?_⟩, fun m hm => hgreatest ⟨hm.1, Nat.le_succ_of_le hm.2⟩⟩
        refine Nat.le_of_lt_succ (Nat.lt_of_le_of_ne hle ?_)
        intro heq
        rw [heq] at hboundary
        exact hinside hboundary

/-! ## Parts between two offsets -/

/-- A part of a text, from one offset to another. -/
def Between (cs : List Char) (start stop : Nat) (part : List Char) : Prop :=
  ∃ before after, cs = before ++ (part ++ after) ∧ byteSize before = start ∧
    byteSize before + byteSize part = stop

theorem isBoundary_of_append {a b : List Char} {n : Nat} (h : isBoundary (a ++ b) n = true)
    (hle : byteSize a ≤ n) : isBoundary b (n - byteSize a) = true := by
  induction a generalizing n with
  | nil => exact h
  | cons c a ih =>
      have hc := c.utf8Size_pos
      rw [byteSize_cons] at hle ⊢
      obtain ⟨m, rfl⟩ : ∃ m, n = m + 1 := ⟨n - 1, by omega⟩
      rw [List.cons_append, isBoundary, if_neg (by omega)] at h
      rw [← Nat.sub_sub]
      exact ih h (by omega)

theorem slice?_eq_some_iff {cs part : List Char} {start stop : Nat} :
    slice? cs start stop = some part ↔ Between cs start stop part := by
  constructor
  · intro h
    simp only [slice?, Option.ite_none_right_eq_some, Bool.and_eq_true, decide_eq_true_eq,
      Option.some.injEq] at h
    obtain ⟨⟨⟨hle, hstart⟩, hstop⟩, rfl⟩ := h
    obtain ⟨before, rest, rfl, rfl⟩ := exists_split_of_isBoundary hstart
    rw [dropBytes_append]
    refine ⟨before, dropBytes rest (stop - byteSize before), ?_, rfl, ?_⟩
    · rw [takeBytes_append_dropBytes]
    · rw [byteSize_takeBytes, floorBoundary_of_isBoundary (isBoundary_of_append hstop hle)]
      exact Nat.add_sub_cancel' hle
  · rintro ⟨before, after, rfl, rfl, rfl⟩
    exact slice?_append before part after

/-! ## Last occurrences -/

/-- A part of a text begins at an offset, and nowhere behind it. -/
structure LastAt (part cs : List Char) (offset : Nat) : Prop where
  occurs : ∃ a b, cs = a ++ (part ++ b) ∧ byteSize a = offset
  last : ∀ a b, cs = a ++ (part ++ b) → byteSize a ≤ offset

/-- Behind an occurrence, or at it, there is a last one. -/
theorem exists_lastOccurrence?_append (part a b : List Char) :
    ∃ n, lastOccurrence? part (a ++ (part ++ b)) = some n ∧ byteSize a ≤ n := by
  induction a with
  | nil =>
      cases hlast : lastOccurrence? part (part ++ b) with
      | some n => exact ⟨n, hlast, Nat.zero_le n⟩
      | none =>
          -- The text begins with the part, so the search cannot fail.
          exfalso
          cases htext : part ++ b with
          | nil =>
              rw [htext] at hlast
              simp [lastOccurrence?, (List.append_eq_nil_iff.1 htext).1] at hlast
          | cons c cs =>
              have hstarts : startsWith (c :: cs) part = true := by
                rw [startsWith, ← htext, List.isPrefixOf_iff_prefix]
                exact List.prefix_append part b
              rw [htext, lastOccurrence?, if_pos hstarts] at hlast
              split at hlast <;> cases hlast
  | cons c a ih =>
      obtain ⟨n, hlast, hle⟩ := ih
      refine ⟨c.utf8Size + n, ?_, Nat.add_le_add_left hle _⟩
      simp only [List.cons_append, lastOccurrence?, hlast]

theorem lastAt_of_lastOccurrence? {part cs : List Char} {n : Nat}
    (h : lastOccurrence? part cs = some n) : LastAt part cs n := by
  refine ⟨exists_of_lastOccurrence? h, ?_⟩
  rintro a b rfl
  obtain ⟨m, hm, hle⟩ := exists_lastOccurrence?_append part a b
  rw [h] at hm
  cases hm
  exact hle

theorem lastOccurrence?_eq_none_iff {part cs : List Char} :
    lastOccurrence? part cs = none ↔ ¬ part <:+: cs := by
  constructor
  · rintro h ⟨a, b, rfl⟩
    rw [List.append_assoc] at h
    obtain ⟨n, hn, -⟩ := exists_lastOccurrence?_append part a b
    rw [h] at hn
    cases hn
  · intro hnot
    cases h : lastOccurrence? part cs with
    | none => rfl
    | some n =>
        obtain ⟨a, b, rfl, -⟩ := exists_of_lastOccurrence? h
        exact absurd ⟨a, b, List.append_assoc _ _ _⟩ hnot

end OriginTags.Text
