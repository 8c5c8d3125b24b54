import OriginTags.Proofs.Text.Bytes
import OriginTags.Tagging.Splice
/-!
# Woven texts

What a splice gives, said without its pieces: a walk over the boundaries of the source that writes,
at each of them, the texts inserted there, and then the next character. The pieces of a splice spell
the same text, and what they keep is the source.
-/

namespace OriginTags.Splice

open Text (byteSize takeBytes dropBytes isBoundary floorBoundary)

/-! ## Insertions in order -/

/-- Insertions that can be made one after the other, from an offset on: in order, and each one at a
boundary of the text that begins there. -/
structure Arranged (start : Nat) (rest : List Char) (insertions : List Insertion) : Prop where
  sorted : insertions.Pairwise fun a b => a.offset ≤ b.offset
  above : ∀ i ∈ insertions, start ≤ i.offset
  boundary : ∀ i ∈ insertions, isBoundary rest (i.offset - start) = true

/-- The first of some arranged insertions splits the text, and the others are arranged behind it. -/
theorem Arranged.split {start : Nat} {rest : List Char} {i : Insertion} {others : List Insertion}
    (h : Arranged start rest (i :: others)) :
    ∃ a b, rest = a ++ b ∧ i.offset = start + byteSize a ∧ Arranged i.offset b others := by
  obtain ⟨hfirst, hsorted⟩ := List.pairwise_cons.1 h.sorted
  have habove := h.above i List.mem_cons_self
  obtain ⟨a, b, rfl, ha⟩ :=
    Text.exists_split_of_isBoundary (h.boundary i List.mem_cons_self)
  refine ⟨a, b, rfl, by omega, hsorted, hfirst, ?_⟩
  intro j hj
  have hle := hfirst j hj
  obtain ⟨a', b', heq, ha'⟩ :=
    Text.exists_split_of_isBoundary (h.boundary j (List.mem_cons_of_mem _ hj))
  -- Both boundaries split one text, and the first half of the earlier one is the shorter.
  rcases List.append_eq_append_iff.1 heq with ⟨mid, rfl, rfl⟩ | ⟨mid, rfl, rfl⟩
  · refine Text.isBoundary_iff.2 ⟨mid, b', rfl, ?_⟩
    simp only [Text.byteSize_append] at ha'
    omega
  · refine Text.isBoundary_iff.2 ⟨[], _, rfl, ?_⟩
    simp only [Text.byteSize_append] at ha
    simp only [Text.byteSize_nil]
    omega

theorem offset_le_trans (a b c : Insertion) (hab : decide (a.offset ≤ b.offset) = true)
    (hbc : decide (b.offset ≤ c.offset) = true) : decide (a.offset ≤ c.offset) = true := by
  simp only [decide_eq_true_eq] at *
  omega

theorem offset_le_total (a b : Insertion) :
    (decide (a.offset ≤ b.offset) || decide (b.offset ≤ a.offset)) = true := by
  simp only [Bool.or_eq_true, decide_eq_true_eq]
  omega

theorem arrange_perm (source : List Char) (insertions : List Insertion) :
    (arrange source insertions).Perm (insertions.map (settle source)) :=
  List.mergeSort_perm _ _

theorem arranged_arrange (source : List Char) (insertions : List Insertion) :
    Arranged 0 source (arrange source insertions) where
  sorted := by
    have h := List.pairwise_mergeSort offset_le_trans offset_le_total (insertions.map (settle source))
    exact h.imp fun hab => by simpa using hab
  above := fun _ _ => Nat.zero_le _
  boundary := by
    intro i hi
    obtain ⟨j, -, rfl⟩ := List.mem_map.1 ((arrange_perm source insertions).mem_iff.1 hi)
    exact Text.isBoundary_floorBoundary source j.offset

/-- Insertions at one offset keep their order. -/
theorem filter_arrange (source : List Char) (insertions : List Insertion) (offset : Nat) :
    (arrange source insertions).filter (fun i => i.offset == offset) =
      (insertions.map (settle source)).filter (fun i => i.offset == offset) := by
  symm
  -- Those at one offset are sorted as they are, so sorting all leaves them a sublist.
  have hsorted : ((insertions.map (settle source)).filter (fun i => i.offset == offset)).Pairwise
      fun a b => decide (a.offset ≤ b.offset) = true := by
    refine List.Pairwise.imp_of_mem ?_ (List.pairwise_of_forall fun _ _ => trivial)
    intro a b ha hb _
    simp only [List.mem_filter, beq_iff_eq] at ha hb
    simp [ha.2, hb.2]
  have hsub := List.sublist_mergeSort offset_le_trans offset_le_total hsorted List.filter_sublist
  have hsub' := hsub.filter (fun i => i.offset == offset)
  rw [List.filter_filter] at hsub'
  simp only [Bool.and_self] at hsub'
  exact hsub'.eq_of_length ((arrange_perm source insertions).filter _).length_eq.symm

/-- An insertion at a boundary stays where it is. -/
theorem settle_of_isBoundary {source : List Char} {i : Insertion}
    (h : isBoundary source i.offset = true) : settle source i = i := by
  simp [settle, Text.floorBoundary_of_isBoundary h]

/-! ## Pieces -/

/-- What a piece keeps of the source. -/
def Piece.keptText : Piece → List Char
  | .kept text => text
  | .inserted _ => []

/-- The insertions among some pieces, each at the offset of the source that stands before it. -/
def placed : (offset : Nat) → List Piece → List Insertion
  | _, [] => []
  | offset, .kept text :: rest => placed (offset + byteSize text) rest
  | offset, .inserted text :: rest => ⟨offset, String.ofList text⟩ :: placed offset rest

/-- A text is a source with some insertions and is the same otherwise: it falls into pieces, of which
the kept ones are the source and the others are the insertions, at their offsets. -/
def Inserts (source : List Char) (insertions : List Insertion) (code : List Char) : Prop :=
  ∃ parts : List Piece, code = parts.flatMap Piece.text ∧ source = parts.flatMap Piece.keptText ∧
    (placed 0 parts).Perm insertions

theorem keptText_pieces (insertions : List Insertion) (start : Nat) (rest : List Char) :
    (pieces insertions start rest).flatMap Piece.keptText = rest := by
  induction insertions generalizing start rest with
  | nil => simp [pieces, Piece.keptText]
  | cons i others ih =>
      simp only [pieces, List.flatMap_cons, Piece.keptText, ih, List.nil_append]
      exact Text.takeBytes_append_dropBytes rest _

theorem placed_pieces {insertions : List Insertion} {start : Nat} {rest : List Char}
    (h : Arranged start rest insertions) : placed start (pieces insertions start rest) = insertions := by
  induction insertions generalizing start rest with
  | nil => rfl
  | cons i others ih =>
      obtain ⟨a, b, rfl, hoffset, hothers⟩ := h.split
      have hsize : i.offset - start = byteSize a := by omega
      simp only [pieces, placed, hsize, Text.takeBytes_append, Text.dropBytes_append, ← hoffset,
        String.ofList_toList, ih hothers]

/-- The code of a splice is the source with the settled insertions. -/
theorem inserts_finish (source name : String) (insertions : List Insertion) :
    Inserts source.toList (insertions.map (settle source.toList))
      (finish source insertions name).code.toList := by
  refine ⟨pieces (arrange source.toList insertions) 0 source.toList, ?_, ?_, ?_⟩
  · simp [finish]
  · rw [keptText_pieces]
  · -- Arranging the insertions only changes their order.
    rw [placed_pieces (arranged_arrange source.toList insertions)]
    exact arrange_perm source.toList insertions

/-! ## Texts between the characters -/

/-- The texts that are inserted at an offset, in order. -/
def textsAt (insertions : List Insertion) (offset : Nat) : List Char :=
  (insertions.filter fun i => i.offset == offset).flatMap fun i => i.text.toList

/-- A text that begins at an offset, with what is inserted at each of its boundaries. -/
def weave (insertions : List Insertion) : (start : Nat) → List Char → List Char
  | start, [] => textsAt insertions start
  | start, c :: cs => textsAt insertions start ++ c :: weave insertions (start + c.utf8Size) cs

/-- A part of the new text that is not split any further: a character of the source, or an insertion
as a whole. -/
inductive Cell
  | kept (c : Char)
  | inserted (text : List Char)

/-- The text of a cell. -/
def Cell.text : Cell → List Char
  | .kept c => [c]
  | .inserted text => text

/-- What a cell keeps of the source. -/
def Cell.keptText : Cell → List Char
  | .kept c => [c]
  | .inserted _ => []

/-- The cells of a piece. -/
def Piece.cells : Piece → List Cell
  | .kept text => text.map .kept
  | .inserted text => [.inserted text]

/-- The cells that are inserted at an offset. -/
def cellsAt (insertions : List Insertion) (offset : Nat) : List Cell :=
  (insertions.filter fun i => i.offset == offset).map fun i => .inserted i.text.toList

/-- The cells of a text that begins at an offset, with what is inserted at its boundaries. -/
def weaveCells (insertions : List Insertion) : (start : Nat) → List Char → List Cell
  | start, [] => cellsAt insertions start
  | start, c :: cs =>
    cellsAt insertions start ++ .kept c :: weaveCells insertions (start + c.utf8Size) cs

theorem text_cellsAt (insertions : List Insertion) (offset : Nat) :
    (cellsAt insertions offset).flatMap Cell.text = textsAt insertions offset := by
  simp only [cellsAt, textsAt, List.flatMap_map, Cell.text]

theorem keptText_cellsAt (insertions : List Insertion) (offset : Nat) :
    (cellsAt insertions offset).flatMap Cell.keptText = [] := by
  simp [cellsAt, List.flatMap_map, Cell.keptText]

theorem text_weaveCells (insertions : List Insertion) (start : Nat) (cs : List Char) :
    (weaveCells insertions start cs).flatMap Cell.text = weave insertions start cs := by
  induction cs generalizing start with
  | nil => exact text_cellsAt insertions start
  | cons c cs ih =>
      simp only [weaveCells, weave, List.flatMap_append, List.flatMap_cons, text_cellsAt, ih,
        Cell.text, List.singleton_append]

theorem keptText_weaveCells (insertions : List Insertion) (start : Nat) (cs : List Char) :
    (weaveCells insertions start cs).flatMap Cell.keptText = cs := by
  induction cs generalizing start with
  | nil => exact keptText_cellsAt insertions start
  | cons c cs ih =>
      simp only [weaveCells, List.flatMap_append, List.flatMap_cons, keptText_cellsAt, ih,
        Cell.keptText, List.nil_append, List.singleton_append]

/-- What stands before a kept character is woven from the text before it. -/
theorem weaveCells_append_cons (insertions : List Insertion) (start : Nat) (before : List Char)
    (c : Char) (after : List Char) :
    weaveCells insertions start (before ++ c :: after) =
      weaveCells insertions start before ++ .kept c ::
        weaveCells insertions (start + byteSize before + c.utf8Size) after := by
  induction before generalizing start with
  | nil => simp [weaveCells]
  | cons b bs ih => simp [weaveCells, ih, Nat.add_assoc]

/-- Insertions before a text leave it alone. -/
theorem weaveCells_cons_of_lt {i : Insertion} {others : List Insertion} {start : Nat}
    (h : i.offset < start) (cs : List Char) :
    weaveCells (i :: others) start cs = weaveCells others start cs := by
  have hat : ∀ offset, i.offset < offset → cellsAt (i :: others) offset = cellsAt others offset := by
    intro offset hlt
    simp [cellsAt, Nat.ne_of_lt hlt]
  induction cs generalizing start with
  | nil => exact hat start h
  | cons c cs ih =>
      have hnext : i.offset < start + c.utf8Size := by omega
      simp only [weaveCells, hat start h, ih hnext]

/-- An insertion at the beginning of a text stands first. -/
theorem weaveCells_cons_of_eq {i : Insertion} {others : List Insertion} {start : Nat}
    (h : i.offset = start) (cs : List Char) :
    weaveCells (i :: others) start cs = .inserted i.text.toList :: weaveCells others start cs := by
  have hat : cellsAt (i :: others) start = .inserted i.text.toList :: cellsAt others start := by
    simp [cellsAt, h]
  cases cs with
  | nil => exact hat
  | cons c cs =>
      have hlt : i.offset < start + c.utf8Size := by
        have := c.utf8Size_pos
        omega
      simp only [weaveCells, hat, weaveCells_cons_of_lt hlt, List.cons_append]

/-- A text without insertions before its end is kept. -/
theorem weaveCells_append {insertions : List Insertion} {start : Nat} {a : List Char}
    (h : ∀ i ∈ insertions, start + byteSize a ≤ i.offset) (b : List Char) :
    weaveCells insertions start (a ++ b) =
      a.map .kept ++ weaveCells insertions (start + byteSize a) b := by
  induction a generalizing start with
  | nil => simp
  | cons c cs ih =>
      -- All insertions stand behind the text, so none stands before its first character.
      have hnone : cellsAt insertions start = [] := by
        have hfilter : insertions.filter (fun i => i.offset == start) = [] := by
          refine List.filter_eq_nil_iff.2 fun i hi => ?_
          have hle := h i hi
          have hpos := c.utf8Size_pos
          simp only [Text.byteSize_cons] at hle
          simp only [beq_iff_eq]
          omega
        rw [cellsAt, hfilter, List.map_nil]
      have habove : ∀ i ∈ insertions, start + c.utf8Size + byteSize cs ≤ i.offset := by
        intro i hi
        have hle := h i hi
        simp only [Text.byteSize_cons] at hle
        omega
      simp only [List.cons_append, weaveCells, hnone, List.nil_append, ih habove, List.map_cons,
        Text.byteSize_cons, Nat.add_assoc]

/-- The pieces of a splice are the woven text, cell by cell. -/
theorem cells_pieces {insertions : List Insertion} {start : Nat} {rest : List Char}
    (h : Arranged start rest insertions) :
    (pieces insertions start rest).flatMap Piece.cells = weaveCells insertions start rest := by
  induction insertions generalizing start rest with
  | nil =>
      have hkept : weaveCells [] start (rest ++ []) =
          rest.map .kept ++ weaveCells [] (start + byteSize rest) [] :=
        weaveCells_append (by simp) []
      rw [List.append_nil] at hkept
      rw [hkept]
      simp [pieces, Piece.cells, weaveCells, cellsAt]
  | cons i others ih =>
      obtain ⟨a, b, rfl, hoffset, hothers⟩ := h.split
      have hsize : i.offset - start = byteSize a := by omega
      -- The first insertion stands right behind `a`, and the others do not stand before it.
      have habove : ∀ j ∈ i :: others, start + byteSize a ≤ j.offset := by
        intro j hj
        rcases List.mem_cons.1 hj with rfl | hj
        · omega
        · have := hothers.above j hj
          omega
      simp only [pieces, hsize, Text.takeBytes_append, Text.dropBytes_append, List.flatMap_cons,
        ih hothers, weaveCells_append habove, weaveCells_cons_of_eq hoffset]
      rw [← hoffset]
      rfl

/-- Only the order of the insertions at each single offset matters. -/
theorem weaveCells_congr {first second : List Insertion}
    (h : ∀ offset, first.filter (fun i => i.offset == offset) =
      second.filter (fun i => i.offset == offset)) (start : Nat) (cs : List Char) :
    weaveCells first start cs = weaveCells second start cs := by
  induction cs generalizing start with
  | nil => simp only [weaveCells, cellsAt, h]
  | cons c cs ih => simp only [weaveCells, cellsAt, h, ih]

/-- The cells of a splice. -/
theorem cells_pieces_arrange (source : List Char) (insertions : List Insertion) :
    (pieces (arrange source insertions) 0 source).flatMap Piece.cells =
      weaveCells (insertions.map (settle source)) 0 source := by
  rw [cells_pieces (arranged_arrange source insertions)]
  exact weaveCells_congr (filter_arrange source insertions) 0 source

theorem text_cells (parts : List Piece) :
    (parts.flatMap Piece.cells).flatMap Cell.text = parts.flatMap Piece.text := by
  rw [List.flatMap_assoc]
  congr 1
  funext part
  cases part <;> simp [Piece.cells, Piece.text, List.flatMap_map, Cell.text]

/-- The code of a splice is woven from its source. -/
theorem code_finish (source name : String) (insertions : List Insertion) :
    (finish source insertions name).code.toList =
      weave (insertions.map (settle source.toList)) 0 source.toList := by
  simp only [finish, String.toList_ofList]
  rw [← text_cells, cells_pieces_arrange, text_weaveCells]

end OriginTags.Splice
