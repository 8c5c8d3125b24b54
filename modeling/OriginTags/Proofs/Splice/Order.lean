import OriginTags.Proofs.Splice.Mapping
import OriginTags.Proofs.Text.Boundary
/-!
# The order of insertions

What a splice gives is the woven text of its insertions in the order in which they were asked for, each at
the largest boundary that is not above its offset. No cut of the source fails on the way. So only the order
of the insertions at each single boundary counts, for the code as well as for the map.
-/

namespace OriginTags.Splice

open Text (byteSize isBoundary slice? backToBoundary?)

/-! ## Cuts -/

/-- Cuts a text at insertions, one after the other. A cut fails if it goes back, reaches past the end or
lies inside a character. -/
def cuts? (source : List Char) : (cursor : Nat) → List Insertion → Option (List Piece)
  | cursor, [] => do
    let rest ← slice? source cursor (byteSize source)
    return [.kept rest]
  | cursor, i :: others => do
    let part ← slice? source cursor i.offset
    let parts ← cuts? source i.offset others
    return .kept part :: .inserted i.text.toList :: parts

/-- No cut at arranged insertions fails. -/
theorem cuts?_eq {before rest : List Char} {insertions : List Insertion}
    (h : Arranged (byteSize before) rest insertions) :
    cuts? (before ++ rest) (byteSize before) insertions =
      some (pieces insertions (byteSize before) rest) := by
  induction insertions generalizing before rest with
  | nil =>
      have hslice := Text.slice?_append before rest []
      rw [List.append_nil] at hslice
      simp [cuts?, pieces, hslice]
  | cons i others ih =>
      obtain ⟨a, b, rfl, hoffset, hothers⟩ := h.split
      have hsize : i.offset - byteSize before = byteSize a := by omega
      have hslice := Text.slice?_append before a b
      rw [← hoffset] at hslice
      -- The next cut goes on from where this one ended.
      have hend : i.offset = byteSize (before ++ a) := by rw [hoffset, Text.byteSize_append]
      have hparts := ih (hend ▸ hothers)
      rw [List.append_assoc, ← hend] at hparts
      simp [cuts?, pieces, hslice, hparts, hsize, Text.takeBytes_append, Text.dropBytes_append]

theorem cuts?_arrange (source : List Char) (insertions : List Insertion) :
    cuts? source 0 (arrange source insertions) = some (pieces (arrange source insertions) 0 source) :=
  @cuts?_eq [] source _ (arranged_arrange source insertions)

/-! ## Reordering -/

/-- An insertion settles where the way back from its offset ends, or from the end of the source. -/
structure Settles (source : List Char) (i settled : Insertion) : Prop where
  text : settled.text = i.text
  found : backToBoundary? source (min i.offset (byteSize source)) = some settled.offset
  greatest : IsGreatest {b | isBoundary source b = true ∧ b ≤ min i.offset (byteSize source)}
    settled.offset

theorem settles_settle (source : List Char) (i : Insertion) : Settles source i (settle source i) := by
  have hoffset : (settle source i).offset =
      Text.floorBoundary source (min i.offset (byteSize source)) :=
    (Text.floorBoundary_min_byteSize source i.offset).symm
  refine ⟨rfl, ?_, ?_⟩
  · rw [hoffset, Text.backToBoundary?_eq]
  · rw [hoffset]
    exact Text.isGreatest_floorBoundary source _

/-- At each boundary of a source two lists have the same insertions, in the same order. -/
def SameOrder (source : List Char) (first second : List Insertion) : Prop :=
  ∀ boundary, first.filter (fun i => (settle source i).offset == boundary) =
    second.filter (fun i => (settle source i).offset == boundary)

/-- Neighbours that settle at different boundaries may change places. -/
theorem sameOrder_swap {source : List Char} {i j : Insertion}
    (h : (settle source i).offset ≠ (settle source j).offset) (others : List Insertion) :
    SameOrder source (i :: j :: others) (j :: i :: others) := by
  intro boundary
  by_cases hi : (settle source i).offset = boundary
  · have hj : (settle source j).offset ≠ boundary := fun hj => h (hi.trans hj.symm)
    simp [hi, hj]
  · simp [List.filter_cons, hi]

/-- Code and map are read off the woven cells. -/
theorem finish_eq (source name : String) (insertions : List Insertion) :
    finish source insertions name =
      let cells := weaveCells (insertions.map (settle source.toList)) 0 source.toList
      { code := String.ofList (cells.flatMap Cell.text)
        map := (mapJson name source (cellSegments cells {})).compact } := by
  simp only [finish, segments_eq, ← text_cells, cells_pieces_arrange]

theorem finish_congr {source name : String} {first second : List Insertion}
    (h : SameOrder source.toList first second) :
    finish source first name = finish source second name := by
  have hsettled : ∀ boundary,
      (first.map (settle source.toList)).filter (fun i => i.offset == boundary) =
        (second.map (settle source.toList)).filter (fun i => i.offset == boundary) := by
    intro boundary
    rw [List.filter_map, List.filter_map]
    exact congrArg _ (h boundary)
  rw [finish_eq, finish_eq, weaveCells_congr hsettled]

/-- Every insertion settles at the largest boundary that is not above its offset, the source is cut there
without a failure, and the code is woven from the source and the settled insertions in the order of their
calls. Any other order that keeps the insertions of each boundary in line gives the same code and map. -/
theorem finish_weaves (source name : String) (insertions : List Insertion) :
    (∀ i ∈ insertions, Settles source.toList i (settle source.toList i)) ∧
      (∃ parts, cuts? source.toList 0 (arrange source.toList insertions) = some parts ∧
        (finish source insertions name).code.toList = parts.flatMap Piece.text) ∧
      (finish source insertions name).code.toList =
        weave (insertions.map (settle source.toList)) 0 source.toList ∧
      ∀ others, SameOrder source.toList insertions others →
        finish source others name = finish source insertions name := by
  refine ⟨fun i _ => settles_settle source.toList i, ⟨_, cuts?_arrange source.toList insertions, ?_⟩,
    code_finish source name insertions, fun others h => (finish_congr h).symm⟩
  simp [finish]

/-- Three insertions into a text of three bytes: one inside its second character, one past its end and one
at the boundary where the first one settles. -/
theorem finish_weaves_reordered :
    SameOrder "aä".toList [⟨2, "x"⟩, ⟨9, "y"⟩, ⟨1, "z"⟩] [⟨9, "y"⟩, ⟨2, "x"⟩, ⟨1, "z"⟩] ∧
      (finish "aä" [⟨2, "x"⟩, ⟨9, "y"⟩, ⟨1, "z"⟩] "t.tsx").code.toList = "axzäy".toList ∧
      finish "aä" [⟨9, "y"⟩, ⟨2, "x"⟩, ⟨1, "z"⟩] "t.tsx" =
        finish "aä" [⟨2, "x"⟩, ⟨9, "y"⟩, ⟨1, "z"⟩] "t.tsx" := by
  obtain ⟨-, -, hcode, hothers⟩ := finish_weaves "aä" "t.tsx" [⟨2, "x"⟩, ⟨9, "y"⟩, ⟨1, "z"⟩]
  have hsame : SameOrder "aä".toList [⟨2, "x"⟩, ⟨9, "y"⟩, ⟨1, "z"⟩]
      [⟨9, "y"⟩, ⟨2, "x"⟩, ⟨1, "z"⟩] := sameOrder_swap (by decide) _
  refine ⟨hsame, ?_, hothers _ hsame⟩
  rw [hcode]
  decide

end OriginTags.Splice
