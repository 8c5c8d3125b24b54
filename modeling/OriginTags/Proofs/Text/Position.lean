import OriginTags.Proofs.Text.Bytes
import OriginTags.Text.Position
import Mathlib.Data.List.DropRight
/-!
# Positions of boundaries

The position of a boundary counts the line feeds before it and the characters since the last one of
them. Different boundaries of a text have different positions.
-/

namespace OriginTags.Position

/-- The position behind one more character. -/
def next (p : Position) (c : Char) : Position :=
  if c = '\n' then ⟨p.line + 1, 0⟩ else ⟨p.line, p.column + 1⟩

theorem rtakeWhile_append_of_forall {α : Type} {p : α → Bool} (first : List α) {second : List α}
    (h : ∀ a ∈ second, p a = true) :
    (first ++ second).rtakeWhile p = first.rtakeWhile p ++ second := by
  have hreverse : ∀ a ∈ second.reverse, p a = true := by simpa using h
  rw [List.rtakeWhile, List.reverse_append, List.takeWhile_append_of_pos hreverse,
    List.reverse_append, List.reverse_reverse]
  rfl

/-- The characters of a text after its last line feed. -/
def lastLine (cs : List Char) : List Char := cs.rtakeWhile (· ≠ '\n')

theorem walk_append (a b : List Char) (line column width : Nat) :
    walk (a ++ b) (Text.byteSize a) line column width = a.foldl next ⟨line, column⟩ := by
  induction a generalizing line column width with
  | nil => cases b <;> rfl
  | cons c a ih =>
      have hc := c.utf8Size_pos
      have hrest : c.utf8Size + Text.byteSize a - c.utf8Size = Text.byteSize a := by omega
      simp only [List.cons_append, Text.byteSize_cons, walk, hrest, List.foldl_cons, next]
      rw [if_neg (by omega), if_neg (by omega)]
      split
      · exact ih (line + 1) 0 0
      · exact ih line (column + 1) (width + c.utf8Size)

theorem foldl_next_start (cs : List Char) :
    cs.foldl next {} = ⟨cs.count '\n' + 1, (lastLine cs).length⟩ := by
  induction cs using List.reverseRecOn with
  | nil => rfl
  | append_singleton cs c ih =>
      rw [List.foldl_append, ih, List.foldl_cons, List.foldl_nil, next, List.count_append]
      split
      · next hc => simp [hc, lastLine]
      · next hc => simp [hc, lastLine]

/-- The line of a boundary is one more than the number of line feeds before it, and its column is the
number of characters since the last one. -/
theorem ofOffset_append (a b : List Char) :
    ofOffset (a ++ b) (Text.byteSize a) = ⟨a.count '\n' + 1, (lastLine a).length⟩ := by
  rw [ofOffset, walk_append]
  exact foldl_next_start a

theorem one_le_line {source : List Char} {n : Nat} (h : Text.isBoundary source n = true) :
    1 ≤ (ofOffset source n).line := by
  obtain ⟨a, b, rfl, rfl⟩ := Text.exists_split_of_isBoundary h
  rw [ofOffset_append]
  exact Nat.le_add_left 1 _

/-- Nothing can follow a text without changing its number of lines or the length of its last one. -/
theorem eq_nil_of_position_eq {a d : List Char} (hline : (a ++ d).count '\n' = a.count '\n')
    (hcolumn : (lastLine (a ++ d)).length = (lastLine a).length) : d = [] := by
  have hfree : ∀ c ∈ d, c ≠ '\n' := by
    have hcount : d.count '\n' = 0 := by
      rw [List.count_append] at hline
      omega
    intro c hc heq
    exact List.count_eq_zero.1 hcount (heq ▸ hc)
  -- Without a line feed the second part stands on the last line.
  have hlast : lastLine (a ++ d) = lastLine a ++ d :=
    rtakeWhile_append_of_forall a (by simpa using hfree)
  rw [hlast, List.length_append] at hcolumn
  exact List.length_eq_zero_iff.1 (by omega)

/-- Different boundaries of a text have different positions. -/
theorem ofOffset_injective {source : List Char} {m n : Nat} (hm : Text.isBoundary source m = true)
    (hn : Text.isBoundary source n = true)
    (hline : (ofOffset source m).line = (ofOffset source n).line)
    (hcolumn : (ofOffset source m).column = (ofOffset source n).column) : m = n := by
  obtain ⟨a, b, hab, rfl⟩ := Text.exists_split_of_isBoundary hm
  obtain ⟨a', b', hab', rfl⟩ := Text.exists_split_of_isBoundary hn
  have hfirst : ofOffset source (Text.byteSize a) = ⟨a.count '\n' + 1, (lastLine a).length⟩ := by
    rw [hab, ofOffset_append]
  have hsecond : ofOffset source (Text.byteSize a') = ⟨a'.count '\n' + 1, (lastLine a').length⟩ := by
    rw [hab', ofOffset_append]
  rw [hfirst, hsecond] at hline hcolumn
  have hcount : a.count '\n' = a'.count '\n' := Nat.succ.inj hline
  -- One of the two halves is a first part of the other one.
  rcases List.append_eq_append_iff.1 (hab.symm.trans hab') with ⟨d, rfl, -⟩ | ⟨d, rfl, -⟩
  · rw [eq_nil_of_position_eq hcount.symm hcolumn.symm, List.append_nil]
  · rw [eq_nil_of_position_eq hcount hcolumn, List.append_nil]

end OriginTags.Position
