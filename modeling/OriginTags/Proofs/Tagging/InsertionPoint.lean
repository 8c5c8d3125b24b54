import OriginTags.Tagging.Insertion
import OriginTags.Proofs.Text.Boundary
/-!
# Insertion points of any span

A span may reach past the source, be inverted or cut a character. Its insertion point is a boundary of the
source all the same: the start of the last delimiter in the text of the span, and where that is no text,
or has no delimiter, the largest boundary near its end.
-/

namespace OriginTags

open Text (Between LastAt byteSize isBoundary floorBoundary backToBoundary?)

/-- The part of a span that lies in a source. Of an inverted span only its end is left. -/
def Span.within (source : List Char) (span : Span) : Span where
  start := min span.start (min span.stop (byteSize source))
  stop := min span.stop (byteSize source)

theorem Span.start_within_le (source : List Char) (span : Span) :
    (span.within source).start ≤ (span.within source).stop := Nat.min_le_right _ _

/-- Where attributes go into a source that has a tag, to end with a delimiter, in some range. -/
structure GoesInto (source : List Char) (range : Span) (delimiter : List Char) (point : Nat) :
    Prop where
  boundary : isBoundary source point = true
  le_stop : point ≤ range.stop
  start_le : isBoundary source range.start = true → range.start ≤ point
  at_last : ∀ part, Between source range.start range.stop part → delimiter <:+: part →
    ∃ offset, LastAt delimiter part offset ∧ point = range.start + offset
  at_end : ∀ part, Between source range.start range.stop part → delimiter <:+ part →
    point = range.stop - delimiter.length
  /-- Without a delimiter the way back from near the end leads to the point. -/
  near_end : (∀ part, Between source range.start range.stop part → ¬ delimiter <:+: part) →
    backToBoundary? source (max (range.stop - delimiter.length) range.start) = some point ∧
      IsGreatest {b | isBoundary source b = true ∧
        b ≤ max (range.stop - delimiter.length) range.start} point

/-- A point is found by a delimiter, or there is none to be found. -/
theorem insertionPoint_cases (source : List Char) (span : Span) (selfClosing : Bool) :
    (∃ part offset, Between source (span.within source).start (span.within source).stop part ∧
      LastAt (closingDelimiter selfClosing) part offset ∧
      (insertionPoint source span selfClosing).value = (span.within source).start + offset) ∨
    ((∀ part, Between source (span.within source).start (span.within source).stop part →
      ¬ closingDelimiter selfClosing <:+: part) ∧
      (insertionPoint source span selfClosing).value =
        floorBoundary source (max ((span.within source).stop - (closingDelimiter selfClosing).length)
          (span.within source).start)) := by
  simp only [insertionPoint]
  split
  case h_1 offset hlast =>
    left
    cases hslice : Text.slice? source (span.within source).start (span.within source).stop with
    | none =>
        -- No delimiter occurs in an empty text.
        rw [Span.within] at hslice
        rw [hslice] at hlast
        cases selfClosing <;> cases hlast
    | some part =>
        have hbetween := Text.slice?_eq_some_iff.1 hslice
        rw [Span.within] at hslice
        rw [hslice, Option.getD_some] at hlast
        exact ⟨part, offset, hbetween, Text.lastAt_of_lastOccurrence? hlast, rfl⟩
  case h_2 hnone =>
    refine .inr ⟨fun part hpart => ?_, rfl⟩
    have hslice := Text.slice?_eq_some_iff.2 hpart
    rw [Span.within] at hslice
    rw [hslice, Option.getD_some] at hnone
    exact Text.lastOccurrence?_eq_none_iff.1 hnone

theorem Text.Between.unique {cs part other : List Char} {start stop : Nat}
    (h : Between cs start stop part) (hother : Between cs start stop other) : part = other :=
  Option.some.inj ((Text.slice?_eq_some_iff.2 h).symm.trans (Text.slice?_eq_some_iff.2 hother))

/-- A part that a text ends with begins at its last occurrence where the end begins. -/
theorem Text.LastAt.eq_of_append {part lead : List Char} {offset : Nat}
    (h : LastAt part (lead ++ part) offset) : offset = byteSize lead := by
  obtain ⟨a, b, hsplit, rfl⟩ := h.occurs
  have hle := h.last lead [] (by simp)
  have hsize := congrArg byteSize hsplit
  simp only [Text.byteSize_append] at hsize
  omega

theorem byteSize_closingDelimiter (selfClosing : Bool) :
    byteSize (closingDelimiter selfClosing) = (closingDelimiter selfClosing).length := by
  cases selfClosing <;> rfl

/-- The point in front of the last delimiter. -/
theorem GoesInto.of_last {source delimiter part : List Char} {range : Span} {offset : Nat}
    (hsize : byteSize delimiter = delimiter.length)
    (hpart : Between source range.start range.stop part) (hlast : LastAt delimiter part offset) :
    GoesInto source range delimiter (range.start + offset) := by
  have ⟨before, after, hsource, hstart, hstop⟩ := hpart
  have ⟨a, b, hsplit, hoffset⟩ := hlast.occurs
  have hpoint : range.start + offset = byteSize (before ++ a) := by
    rw [Text.byteSize_append, hstart, hoffset]
  have hwhole : source = (before ++ a) ++ ((delimiter ++ b) ++ after) := by
    rw [hsource, hsplit]
    simp only [List.append_assoc]
  refine ⟨?_, ?_, fun _ => Nat.le_add_right _ _, ?_, ?_, ?_⟩
  · rw [hpoint, hwhole]
    exact Text.isBoundary_append _ _
  · rw [hpoint, ← hstop, hsplit]
    simp only [Text.byteSize_append]
    omega
  · intro other hother _
    obtain rfl := hpart.unique hother
    exact ⟨offset, hlast, rfl⟩
  · rintro other hother ⟨lead, rfl⟩
    obtain rfl := hpart.unique hother
    rw [hlast.eq_of_append, ← hstart, ← hstop, Text.byteSize_append, hsize]
    omega
  · intro hnot
    exact absurd ⟨a, b, by rw [hsplit, List.append_assoc]⟩ (hnot part hpart)

/-- The point near the end of a range in which no delimiter occurs. -/
theorem GoesInto.of_not_occurs {source delimiter : List Char} {range : Span}
    (hrange : range.start ≤ range.stop)
    (hnone : ∀ part, Between source range.start range.stop part → ¬ delimiter <:+: part) :
    GoesInto source range delimiter
      (floorBoundary source (max (range.stop - delimiter.length) range.start)) := by
  refine ⟨Text.isBoundary_floorBoundary source _, ?_, fun hstart => ?_, ?_, ?_, fun _ => ?_⟩
  · have hle := Text.floorBoundary_le source (max (range.stop - delimiter.length) range.start)
    omega
  · exact Text.le_floorBoundary_of_isBoundary hstart (Nat.le_max_right _ _)
  · intro part hpart hinfix
    exact absurd hinfix (hnone part hpart)
  · intro part hpart hsuffix
    exact absurd hsuffix.isInfix (hnone part hpart)
  · exact ⟨Text.backToBoundary?_eq source _, Text.isGreatest_floorBoundary source _⟩

/-- Whatever the span, attributes go before the last delimiter in the text of the span, and without one
near its end. -/
theorem insertionPoint_goesInto (source : List Char) (span : Span) (selfClosing : Bool) :
    GoesInto source (span.within source) (closingDelimiter selfClosing)
      (insertionPoint source span selfClosing).value := by
  obtain ⟨part, offset, hpart, hlast, hpoint⟩ | ⟨hnone, hpoint⟩ :=
    insertionPoint_cases source span selfClosing
  · rw [hpoint]
    exact .of_last (byteSize_closingDelimiter selfClosing) hpart hlast
  · rw [hpoint]
    exact .of_not_occurs (span.start_within_le source) hnone

/-- An inverted span whose end cuts a character. -/
example : (insertionPoint "<ä".toList ⟨9, 2⟩ false).value = 1 := by decide

end OriginTags
