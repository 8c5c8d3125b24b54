import Mathlib.Data.List.Induction
import OriginTags.Proofs.Splice.SourceMap
import OriginTags.Proofs.Splice.Weave
/-!
# Maps of splices

The map of a splice leads every character that was kept back to its place in the source. The mapper
counts lines and columns of two texts at once and adds a segment where they stop going in step; the
invariant is that, between two such points, the last segment and the place of the mapper are the
same distance apart in both texts.
-/

namespace OriginTags.Splice

/-! ## Places -/

/-- The line, counted from zero, of what stands behind a text. -/
def lineOf (cs : List Char) : Nat := cs.count '\n'

/-- The column, in 16-bit units, of what stands behind a text: the width of its last line. -/
def columnOf (cs : List Char) : Nat :=
  ((cs.reverse.takeWhile fun c => c != '\n').map Text.unitWidth).sum

/-- The place behind a text that begins at a place. -/
def Mark.over (m : Mark) (cs : List Char) : Mark := cs.foldl Mark.after m

theorem over_start (cs : List Char) : Mark.over {} cs = ⟨lineOf cs, columnOf cs⟩ := by
  induction cs using List.reverseRecOn with
  | nil => rfl
  | append_singleton cs c ih =>
      simp only [Mark.over, List.foldl_append, List.foldl_cons, List.foldl_nil] at ih ⊢
      rw [ih]
      -- A line feed begins a line, and any other character makes the last one wider.
      by_cases hc : c = '\n'
      · simp [hc, Mark.after, lineOf, columnOf]
      · simp [hc, Mark.after, lineOf, columnOf, Nat.add_comm]

/-- One place is before another in the order of reading. -/
def Mark.Before (a b : Mark) : Prop := a.line < b.line ∨ a.line = b.line ∧ a.column < b.column

/-- One place is before another or the same. -/
def Mark.Upto (a b : Mark) : Prop := a.line < b.line ∨ a.line = b.line ∧ a.column ≤ b.column

theorem Mark.Before.of_upto {a b c : Mark} (hab : a.Before b) (hbc : b.Upto c) : a.Before c := by
  unfold Mark.Before Mark.Upto at *
  omega

theorem Mark.before_after (m : Mark) (c : Char) : m.Before (m.after c) := by
  have hwidth : 0 < Text.unitWidth c := by
    unfold Text.unitWidth
    split <;> omega
  unfold Mark.after Mark.Before
  split
  · exact Or.inl (Nat.lt_succ_self _)
  · exact Or.inr ⟨rfl, Nat.lt_add_of_pos_right hwidth⟩

theorem Mark.Upto.refl (m : Mark) : m.Upto m := Or.inr ⟨rfl, Nat.le_refl _⟩

theorem Mark.Upto.of_before {a b : Mark} (h : a.Before b) : a.Upto b := by
  unfold Mark.Before Mark.Upto at *
  omega

theorem Mark.Upto.trans {a b c : Mark} (hab : a.Upto b) (hbc : b.Upto c) : a.Upto c := by
  unfold Mark.Upto at *
  omega

theorem Mark.upto_over (m : Mark) (cs : List Char) : m.Upto (m.over cs) := by
  induction cs generalizing m with
  | nil => exact Mark.Upto.refl m
  | cons c cs ih => exact (Mark.Upto.of_before (m.before_after c)).trans (ih (m.after c))

/-! ## Segments of cells -/

/-- The segment that begins at a cell, if one does. -/
def Mapper.emit (m : Mapper) : Cell → List Segment
  | .kept _ => if m.pending then [⟨m.output, m.source⟩] else []
  | .inserted _ => []

theorem Mapper.emit_cases (m : Mapper) (cell : Cell) :
    m.emit cell = [] ∨ m.emit cell = [⟨m.output, m.source⟩] := by
  cases cell with
  | inserted text => exact Or.inl rfl
  | kept c => cases hpending : m.pending <;> simp [Mapper.emit, hpending]

theorem Mapper.eq_of_mem_emit (m : Mapper) {cell : Cell} {s : Segment} (hs : s ∈ m.emit cell) :
    s = ⟨m.output, m.source⟩ := by
  rcases m.emit_cases cell with hnone | hone
  · simp [hnone] at hs
  · simpa [hone] using hs

/-- Goes over a cell. -/
def Mapper.step (m : Mapper) : Cell → Mapper
  | .kept c => m.keep c
  | .inserted text => { m with output := m.output.over text, pending := true }

/-- Goes over some cells. -/
def Mapper.run (m : Mapper) (cells : List Cell) : Mapper := cells.foldl Mapper.step m

/-- The segments of some cells. -/
def cellSegments : List Cell → Mapper → List Segment
  | [], _ => []
  | cell :: cells, m => m.emit cell ++ cellSegments cells (m.step cell)

theorem cellSegments_append (first second : List Cell) (m : Mapper) :
    cellSegments (first ++ second) m = cellSegments first m ++ cellSegments second (m.run first) := by
  induction first generalizing m with
  | nil => rfl
  | cons cell cells ih => simp [cellSegments, Mapper.run, ih]

theorem keptSegments_eq (text : List Char) (m : Mapper) :
    keptSegments text m =
      (cellSegments (text.map .kept) m, m.run (text.map .kept)) := by
  induction text generalizing m with
  | nil => rfl
  | cons c cs ih =>
      simp only [keptSegments, ih, List.map_cons, cellSegments, Mapper.emit, Mapper.step, Mapper.run,
        List.foldl_cons]
      cases m.pending <;> rfl

theorem foldl_insert (text : List Char) (m : Mapper) :
    text.foldl Mapper.insert m = { m with output := m.output.over text } := by
  induction text generalizing m with
  | nil => rfl
  | cons c cs ih => simp [ih, Mapper.insert, Mark.over]

theorem segments_eq (parts : List Piece) (m : Mapper) :
    segments parts m = cellSegments (parts.flatMap Piece.cells) m := by
  induction parts generalizing m with
  | nil => rfl
  | cons part rest ih =>
      cases part with
      | kept text =>
          simp only [segments, keptSegments_eq, ih, List.flatMap_cons, Piece.cells,
            cellSegments_append]
      | inserted text =>
          simp only [segments, foldl_insert, ih, List.flatMap_cons, Piece.cells, List.cons_append,
            List.nil_append, cellSegments, Mapper.emit, Mapper.step]

/-- The mapper counts both texts. -/
theorem output_run (m : Mapper) (cells : List Cell) :
    (m.run cells).output = m.output.over (cells.flatMap Cell.text) := by
  induction cells generalizing m with
  | nil => rfl
  | cons cell cells ih =>
      have hrun : m.run (cell :: cells) = (m.step cell).run cells := rfl
      rw [hrun, ih]
      cases cell <;> simp [Mapper.step, Mapper.keep, Mark.over, Cell.text]

theorem source_run (m : Mapper) (cells : List Cell) :
    (m.run cells).source = m.source.over (cells.flatMap Cell.keptText) := by
  induction cells generalizing m with
  | nil => rfl
  | cons cell cells ih =>
      have hrun : m.run (cell :: cells) = (m.step cell).run cells := rfl
      rw [hrun, ih]
      cases cell <;> simp [Mapper.step, Mapper.keep, Mark.over, Cell.keptText]

/-! ## The invariant -/

/-- A segment leads from a place in the new text to a place in the source: it is on the same lines,
and as far behind in one text as in the other. -/
structure Segment.Leads (s : Segment) (output source : Mark) : Prop where
  line : s.output.line = output.line
  column : s.output.column ≤ output.column
  sourceLine : s.source.line = source.line
  sourceColumn : s.source.column + (output.column - s.output.column) = source.column

/-- The segments that were written are in order and before the place of the mapper, and the last one
leads from there, unless the next kept character begins a new one. -/
structure Tracks (done : List Segment) (m : Mapper) : Prop where
  sorted : done.Pairwise fun a b => a.output.Before b.output
  below : ∀ s ∈ done, s.output.Before m.output
  leads : m.pending = false → ∃ s, done.getLast? = some s ∧ s.Leads m.output m.source

theorem Segment.Leads.after {s : Segment} {output source : Mark} (h : s.Leads output source)
    {c : Char} (hc : c ≠ '\n') : s.Leads (output.after c) (source.after c) := by
  obtain ⟨hline, hcolumn, hsourceLine, hsourceColumn⟩ := h
  simp only [Mark.after, hc, if_false]
  refine ⟨hline, ?_, hsourceLine, ?_⟩
  · show s.output.column ≤ output.column + Text.unitWidth c
    omega
  · show s.source.column + (output.column + Text.unitWidth c - s.output.column) =
      source.column + Text.unitWidth c
    omega

/-- At a kept character there is a segment that leads back: an old one, or the one that begins
there. -/
theorem Tracks.leads_emit {done : List Segment} {m : Mapper} (h : Tracks done m) (c : Char) :
    ∃ s, (done ++ m.emit (.kept c)).getLast? = some s ∧ s.Leads m.output m.source := by
  cases hpending : m.pending with
  | true =>
      refine ⟨⟨m.output, m.source⟩, ?_, rfl, Nat.le_refl _, rfl, ?_⟩
      · simp [Mapper.emit, hpending]
      · simp
  | false =>
      obtain ⟨s, hlast, hleads⟩ := h.leads hpending
      exact ⟨s, by simpa [Mapper.emit, hpending] using hlast, hleads⟩

theorem Tracks.upto_of_mem_emit {done : List Segment} {m : Mapper} (h : Tracks done m) (cell : Cell)
    {s : Segment} (hs : s ∈ done ++ m.emit cell) : s.output.Upto m.output := by
  rcases List.mem_append.1 hs with hold | hnew
  · exact Mark.Upto.of_before (h.below s hold)
  · rw [m.eq_of_mem_emit hnew]
    exact Mark.Upto.refl _

theorem Tracks.sorted_emit {done : List Segment} {m : Mapper} (h : Tracks done m) (cell : Cell) :
    (done ++ m.emit cell).Pairwise fun a b => a.output.Before b.output := by
  rcases m.emit_cases cell with hnone | hone
  · simpa [hnone] using h.sorted
  · rw [hone]
    refine List.pairwise_append.2 ⟨h.sorted, List.pairwise_singleton _ _, ?_⟩
    intro a ha b hb
    rw [List.mem_singleton.1 hb]
    exact h.below a ha

/-- Going over a cell keeps the invariant. -/
theorem Tracks.step {done : List Segment} {m : Mapper} (h : Tracks done m) (cell : Cell) :
    Tracks (done ++ m.emit cell) (m.step cell) where
  sorted := h.sorted_emit cell
  below := by
    intro s hs
    cases cell with
    | kept c =>
        have hupto := h.upto_of_mem_emit (.kept c) hs
        have hafter := m.output.before_after c
        show s.output.Before (m.output.after c)
        unfold Mark.Before Mark.Upto at *
        omega
    | inserted text =>
        have hold : s ∈ done := by simpa [Mapper.emit] using hs
        exact (h.below s hold).of_upto (m.output.upto_over text)
  leads := by
    intro hpending
    -- Behind an insertion and behind a line feed the next segment is pending.
    cases cell with
    | inserted text => simp [Mapper.step] at hpending
    | kept c =>
        have hc : c ≠ '\n' := by simpa [Mapper.step, Mapper.keep] using hpending
        obtain ⟨s, hlast, hleads⟩ := h.leads_emit c
        exact ⟨s, hlast, hleads.after hc⟩

theorem Tracks.run {done : List Segment} {m : Mapper} (h : Tracks done m) (cells : List Cell) :
    Tracks (done ++ cellSegments cells m) (m.run cells) := by
  induction cells generalizing done m with
  | nil => simpa [cellSegments, Mapper.run] using h
  | cons cell cells ih =>
      have hnext := ih (h.step cell)
      rwa [List.append_assoc] at hnext

theorem tracks_run (cells : List Cell) : Tracks (cellSegments cells {}) (Mapper.run {} cells) := by
  have hstart : Tracks [] {} := ⟨List.Pairwise.nil, by simp, by simp⟩
  simpa using hstart.run cells

/-- What follows a place has its segments at that place or behind it. -/
theorem upto_of_mem_cellSegments {cells : List Cell} {m : Mapper} {s : Segment}
    (hs : s ∈ cellSegments cells m) : m.output.Upto s.output := by
  induction cells generalizing m with
  | nil => simp [cellSegments] at hs
  | cons cell cells ih =>
      rcases List.mem_append.1 hs with hemit | hrest
      · rw [m.eq_of_mem_emit hemit]
        exact Mark.Upto.refl _
      · -- Neither kind of cell goes back.
        refine Mark.Upto.trans ?_ (ih hrest)
        cases cell with
        | kept c => exact Mark.Upto.of_before (m.output.before_after c)
        | inserted text => exact m.output.upto_over text

/-! ## The way back -/

open SourceMap (Entry Origin entryOf)

/-- The last entry of a map on a line that is not behind a column. -/
def entryAt? (entries : List Entry) (line column : Nat) : Option Entry :=
  (entries.filter fun e => e.line == line && decide (e.column ≤ column)).getLast?

/-- The entry for what stands behind `lead` in the new text leads to what stands behind `before` in
the first source of the map. -/
def LeadsBack (entries : List Entry) (lead before : List Char) : Prop :=
  ∃ e origin, entryAt? entries (lineOf lead) (columnOf lead) = some e ∧ e.origin = some origin ∧
    origin.source = 0 ∧ origin.line = lineOf before ∧
    origin.column + (columnOf lead - e.column) = columnOf before

/-- Segments up to a place and segments behind it: the last of the former is found, if it is on the
line of the place. -/
theorem entryAt?_map_append {first second : List Segment} {s : Segment} {place source : Mark}
    (hlast : first.getLast? = some s) (hleads : s.Leads place source)
    (hsecond : ∀ t ∈ second, place.Before t.output) :
    entryAt? ((first ++ second).map entryOf) place.line place.column = some (entryOf s) := by
  obtain ⟨others, rfl⟩ := List.getLast?_eq_some_iff.1 hlast
  have hnone : (second.map entryOf).filter
      (fun e => e.line == place.line && decide (e.column ≤ place.column)) = [] := by
    refine List.filter_eq_nil_iff.2 ?_
    intro e he
    obtain ⟨t, ht, rfl⟩ := List.mem_map.1 he
    have hbefore := hsecond t ht
    unfold Mark.Before at hbefore
    intro hkept
    obtain ⟨hline, hcolumn⟩ := Bool.and_eq_true_iff.1 hkept
    have hline' : t.output.line = place.line := beq_iff_eq.1 hline
    have hcolumn' : t.output.column ≤ place.column := of_decide_eq_true hcolumn
    omega
  have hfound : ((entryOf s).line == place.line && decide ((entryOf s).column ≤ place.column)) =
      true := by
    simp [entryOf, hleads.line, hleads.column]
  simp only [entryAt?, List.map_append, List.filter_append, hnone, List.append_nil, List.map_cons,
    List.map_nil, List.filter_cons, hfound, if_true, List.filter_nil, List.getLast?_concat]

theorem pairwise_column_of_sorted {segments : List Segment}
    (h : segments.Pairwise fun a b => a.output.Before b.output) (line : Nat) :
    ((segments.map entryOf).filter fun e => e.line == line).Pairwise
      fun a b => a.column < b.column := by
  rw [List.filter_map, List.pairwise_map]
  have hline : (segments.filter ((fun e => e.line == line) ∘ entryOf)).Pairwise
      fun a b => a.output.Before b.output := h.filter _
  refine hline.imp_of_mem ?_
  -- On one line the order of places is the order of columns.
  intro a b ha hb hbefore
  have hla : a.output.line = line := by simpa [entryOf] using (List.mem_filter.1 ha).2
  have hlb : b.output.line = line := by simpa [entryOf] using (List.mem_filter.1 hb).2
  show a.output.column < b.output.column
  unfold Mark.Before at hbefore
  omega

/-- The entry for a kept character leads back, from what stands before it to what was kept of that. -/
theorem leadsBack_cellSegments (lead : List Cell) (c : Char) (tail : List Cell) :
    LeadsBack ((cellSegments (lead ++ .kept c :: tail) {}).map entryOf) (lead.flatMap Cell.text)
      (lead.flatMap Cell.keptText) := by
  have htracks := tracks_run lead
  have houtput := output_run {} lead
  have hsource := source_run {} lead
  rw [cellSegments_append]
  generalize Mapper.run {} lead = m at htracks houtput hsource ⊢
  rw [over_start] at houtput hsource
  obtain ⟨s, hlast, hleads⟩ := htracks.leads_emit c
  -- Whatever comes behind the character begins behind it in the new text too.
  have hbehind : ∀ t ∈ cellSegments tail (m.keep c), m.output.Before t.output := by
    intro t ht
    exact (m.output.before_after c).of_upto (upto_of_mem_cellSegments ht)
  have hfound := entryAt?_map_append hlast hleads hbehind
  rw [houtput, List.append_assoc] at hfound
  rw [houtput, hsource] at hleads
  exact ⟨entryOf s, _, hfound, rfl, rfl, hleads.sourceLine, hleads.sourceColumn⟩

/-- The map of a splice reads as a map of its source, in which the columns of every line increase.
Every character of the source stands in the new text behind what is woven from the characters before
it, and the last entry that is not behind its place there leads to its place in the source. -/
theorem map_leads_back (source name : String) (insertions : List Insertion) :
    ∃ entries, SourceMap.read? (finish source insertions name).map = some ⟨[name], entries⟩ ∧
      (∀ line, (entries.filter fun e => e.line == line).Pairwise fun a b => a.column < b.column) ∧
      ∀ before c after, source.toList = before ++ c :: after →
        ∃ lead tail, lead = weave (insertions.map (settle source.toList)) 0 before ∧
          tail = weave (insertions.map (settle source.toList)) (Text.byteSize before + c.utf8Size)
            after ∧
          (finish source insertions name).code.toList = lead ++ c :: tail ∧
          LeadsBack entries lead before := by
  have hcells := cells_pieces_arrange source.toList insertions
  have hcode := code_finish source name insertions
  generalize insertions.map (settle source.toList) = settled at hcells hcode ⊢
  have hsegments : segments (pieces (arrange source.toList insertions) 0 source.toList) {} =
      cellSegments (weaveCells settled 0 source.toList) {} := by
    rw [segments_eq, hcells]
  have htracks := tracks_run (weaveCells settled 0 source.toList)
  refine ⟨(cellSegments (weaveCells settled 0 source.toList) {}).map entryOf, ?_, ?_, ?_⟩
  · show SourceMap.read? (mapJson name source (segments _ {})).compact = _
    rw [hsegments]
    refine SourceMap.read?_mapJson name source (htracks.sorted.imp ?_)
    intro a b hbefore
    unfold Mark.Before at hbefore
    omega
  · exact pairwise_column_of_sorted htracks.sorted
  · intro before c after hsource
    rw [hsource] at hcode ⊢
    refine ⟨_, _, rfl, rfl, ?_, ?_⟩
    · rw [hcode, ← text_weaveCells, weaveCells_append_cons, List.flatMap_append, List.flatMap_cons,
        text_weaveCells, text_weaveCells, Nat.zero_add]
      rfl
    · have hback := leadsBack_cellSegments (weaveCells settled 0 before) c
        (weaveCells settled (0 + Text.byteSize before + c.utf8Size) after)
      rwa [text_weaveCells, keptText_weaveCells, ← weaveCells_append_cons] at hback

theorem map_leads_back_over_lines :
    "a😀b".toList = ['a', '😀'] ++ 'b' :: [] ∧
      ∃ entries,
        SourceMap.read? (finish "a😀b" [⟨9, "!"⟩, ⟨5, "x\ny"⟩] "t.tsx").map =
          some ⟨["t.tsx"], entries⟩ ∧
        LeadsBack entries ['a', '😀', 'x', '\n', 'y'] ['a', '😀'] := by
  obtain ⟨entries, hread, -, hback⟩ := map_leads_back "a😀b" "t.tsx" [⟨9, "!"⟩, ⟨5, "x\ny"⟩]
  have hsource : "a😀b".toList = ['a', '😀'] ++ 'b' :: [] := by decide
  obtain ⟨lead, tail, hlead, -, -, hleads⟩ := hback _ _ _ hsource
  have hwoven : lead = ['a', '😀', 'x', '\n', 'y'] := by
    rw [hlead]
    decide
  exact ⟨hsource, entries, hread, hwoven ▸ hleads⟩

end OriginTags.Splice
