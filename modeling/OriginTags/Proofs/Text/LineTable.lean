import OriginTags.Proofs.Text.Boundary
import OriginTags.Proofs.Text.Payload
import OriginTags.Proofs.Text.Position
/-!
# Line tables

A position can be looked up in a table of the offsets at which lines begin: the last of them that is not
above an offset is found by halving the table. Every access to the table that the look-up makes, and every
difference that it takes, exists, and what it finds is the position that a walk over the source finds. Only
its line number may be one too large for a machine word.
-/

namespace OriginTags

open Position (lastLine)
open Text (byteSize isBoundary)

/-! ## Line feeds among bytes -/

namespace Text

/-- The byte of a line feed. -/
def lineFeed : UInt8 := 10

/-- No other character has the byte of a line feed in it. -/
theorem lineFeed_not_mem {c : Char} (hc : c ≠ '\n') : lineFeed ∉ String.utf8EncodeChar c := by
  have hbyte : ∀ n : Nat, lineFeed = UInt8.ofNat n → n % 256 = 10 := by
    intro n hn
    simpa [lineFeed] using (congrArg UInt8.toNat hn).symm
  intro hmem
  unfold String.utf8EncodeChar at hmem
  dsimp only at hmem
  split at hmem
  · next hone =>
    have hvalue := hbyte _ (List.mem_singleton.1 hmem)
    refine hc (Char.toNat_inj.1 ?_)
    show c.val.toNat = 10
    omega
  · -- All bytes of a longer form are above 127.
    exfalso
    split at hmem
    · rcases List.mem_cons.1 hmem with h | hmem
      · have := hbyte _ h
        omega
      · have := hbyte _ (List.mem_singleton.1 hmem)
        omega
    · split at hmem
      · simp only [List.mem_cons, List.not_mem_nil, or_false] at hmem
        rcases hmem with h | h | h
        all_goals
          have hvalue := hbyte _ h
          omega
      · simp only [List.mem_cons, List.not_mem_nil, or_false] at hmem
        rcases hmem with h | h | h | h
        all_goals
          have hvalue := hbyte _ h
          omega

theorem bytes_cons (c : Char) (cs : List Char) :
    bytes (c :: cs) = String.utf8EncodeChar c ++ bytes cs := rfl

theorem length_bytes (cs : List Char) : (bytes cs).length = byteSize cs := by
  induction cs with
  | nil => rfl
  | cons c cs ih => rw [bytes_cons, List.length_append, ih, String.length_utf8EncodeChar, byteSize_cons]

theorem count_bytes (cs : List Char) : (bytes cs).count lineFeed = cs.count '\n' := by
  induction cs with
  | nil => rfl
  | cons c cs ih =>
      rw [bytes_cons, List.count_append, ih]
      by_cases hc : c = '\n'
      · subst hc
        rw [List.count_cons_self, show (String.utf8EncodeChar '\n').count lineFeed = 1 by decide]
        exact Nat.add_comm _ _
      · rw [List.count_eq_zero.2 (lineFeed_not_mem hc), List.count_cons_of_ne hc, Nat.zero_add]

theorem rtakeWhile_bytes (cs : List Char) :
    (bytes cs).rtakeWhile (· ≠ lineFeed) = bytes (lastLine cs) := by
  induction cs using List.reverseRecOn with
  | nil => rfl
  | append_singleton cs c ih =>
      rw [bytes_append, lastLine, List.rtakeWhile_concat]
      by_cases hc : c = '\n'
      · subst hc
        rw [show bytes ['\n'] = [lineFeed] by decide, List.rtakeWhile_concat]
        simp [bytes]
      · have hfree : ∀ b ∈ bytes [c], decide (b ≠ lineFeed) = true := by
          intro b hb
          rw [bytes_cons, List.mem_append] at hb
          refine decide_eq_true fun heq => ?_
          rcases hb with hb | hb
          · exact lineFeed_not_mem hc (heq ▸ hb)
          · cases hb
        rw [Position.rtakeWhile_append_of_forall _ hfree, ih]
        simp [hc, lastLine, bytes_append]

/-- An offset splits a text at a boundary or inside the character behind one. -/
theorem exists_split_of_le {cs : List Char} {n : Nat} (h : n ≤ byteSize cs) :
    ∃ a b m, cs = a ++ b ∧ n = byteSize a + m ∧
      (m = 0 ∨ ∃ c rest, b = c :: rest ∧ 0 < m ∧ m < c.utf8Size) := by
  induction cs generalizing n with
  | nil => exact ⟨[], [], 0, rfl, Nat.le_zero.1 h, .inl rfl⟩
  | cons c cs ih =>
      by_cases hlt : n < c.utf8Size
      · refine ⟨[], c :: cs, n, rfl, by simp, ?_⟩
        rcases Nat.eq_zero_or_pos n with hzero | hpos
        · exact .inl hzero
        · exact .inr ⟨c, cs, rfl, hpos, hlt⟩
      · rw [byteSize_cons] at h
        obtain ⟨a, b, m, rfl, hn, hm⟩ := ih (n := n - c.utf8Size) (by omega)
        refine ⟨c :: a, b, m, rfl, ?_, hm⟩
        rw [byteSize_cons, Nat.add_assoc, ← hn, Nat.add_sub_of_le (Nat.not_lt.1 hlt)]

end Text

/-! ## Tables -/

/-- The offsets behind the line feeds of some bytes that begin at an offset. -/
def startsBehind (start : Nat) (bs : List UInt8) : List Nat :=
  ((bs.zipIdx start).filter fun b => b.1 == Text.lineFeed).map fun b => b.2 + 1

/-- The offsets at which the lines of a source begin, in order. -/
structure LineTable where
  starts : Array Nat

/-- Where a number is in a table, or before which entry it would have to be put. -/
inductive Rank
  | present (index : Nat)
  | absent (index : Nat)

/-- The index of the last entry that is not above the number. -/
def Rank.line : Rank → Nat
  | .present index => index
  | .absent index => index - 1

/-- Looks for a number between two indices of a table by halving. A missing entry would be a failure. -/
def rank? (starts : Array Nat) (x low high : Nat) : Option Rank :=
  if low < high then
    match starts[low + (high - low) / 2]? with
    | none => none
    | some start =>
      if start = x then some (.present (low + (high - low) / 2))
      else if start < x then rank? starts x (low + (high - low) / 2 + 1) high
      else rank? starts x low (low + (high - low) / 2)
  else some (.absent low)
termination_by high - low

namespace LineTable

def ofSource (source : List Char) : LineTable where
  starts := (0 :: startsBehind 0 (Text.bytes source)).toArray

/-- The position of an offset. A missing entry, a line that begins behind the offset, and a line whose
number is not below `2 ^ 32` are failures. -/
def position? (table : LineTable) (source : List Char) (offset : Nat) : Option Position := do
  let offset := min offset (byteSize source)
  let rank ← rank? table.starts offset 0 table.starts.size
  let start ← table.starts[rank.line]?
  let width ← if start ≤ offset then some (offset - start) else none
  -- Inside a character the column is counted in bytes.
  let column := match Text.slice? source start offset with
    | some line => line.length
    | none => width
  let index := rank.line % 2 ^ 32
  if index + 1 < 2 ^ 32 then return ⟨index + 1, column % 2 ^ 32⟩ else none

end LineTable

/-! ## Starts of lines -/

theorem startsBehind_cons (start : Nat) (b : UInt8) (bs : List UInt8) :
    startsBehind start (b :: bs) =
      if b = Text.lineFeed then (start + 1) :: startsBehind (start + 1) bs
      else startsBehind (start + 1) bs := by
  by_cases hb : b = Text.lineFeed <;> simp [startsBehind, hb]

theorem startsBehind_append (start : Nat) (first second : List UInt8) :
    startsBehind start (first ++ second) =
      startsBehind start first ++ startsBehind (start + first.length) second := by
  simp only [startsBehind, List.zipIdx_append, List.filter_append, List.map_append]

theorem length_startsBehind (start : Nat) (bs : List UInt8) :
    (startsBehind start bs).length = bs.count Text.lineFeed := by
  induction bs generalizing start with
  | nil => rfl
  | cons b bs ih =>
      rw [startsBehind_cons, List.count_cons]
      by_cases hb : b = Text.lineFeed <;> simp [hb, ih]

theorem bounds_of_mem_startsBehind {start m : Nat} {bs : List UInt8} (h : m ∈ startsBehind start bs) :
    start < m ∧ m ≤ start + bs.length := by
  induction bs generalizing start with
  | nil => cases h
  | cons b bs ih =>
      rw [startsBehind_cons] at h
      rw [List.length_cons]
      split at h
      · rcases List.mem_cons.1 h with rfl | h
        · omega
        · have := ih h
          omega
      · have := ih h
        omega

theorem pairwise_startsBehind (start : Nat) (bs : List UInt8) :
    (startsBehind start bs).Pairwise (· < ·) := by
  induction bs generalizing start with
  | nil => exact List.Pairwise.nil
  | cons b bs ih =>
      rw [startsBehind_cons]
      split
      · exact List.pairwise_cons.2 ⟨fun m hm => (bounds_of_mem_startsBehind hm).1, ih (start + 1)⟩
      · exact ih (start + 1)

/-- The last line of some bytes begins where its length says. -/
theorem getElem?_starts (bs : List UInt8) :
    (0 :: startsBehind 0 bs)[bs.count Text.lineFeed]? =
      some (bs.length - (bs.rtakeWhile (· ≠ Text.lineFeed)).length) := by
  induction bs using List.reverseRecOn with
  | nil => rfl
  | append_singleton bs b ih =>
      have hlength : (0 :: startsBehind 0 bs).length = bs.count Text.lineFeed + 1 := by
        rw [List.length_cons, length_startsBehind]
      rw [startsBehind_append, ← List.cons_append, List.rtakeWhile_concat, List.length_append,
        List.count_append]
      by_cases hb : b = Text.lineFeed
      · subst hb
        rw [show [Text.lineFeed].count Text.lineFeed = 1 by decide, ← hlength,
          List.getElem?_append_right (Nat.le_refl _)]
        simp [startsBehind]
      · have hnone : [b].count Text.lineFeed = 0 := List.count_eq_zero.2 (by simpa [eq_comm] using hb)
        rw [hnone, Nat.add_zero, List.getElem?_append_left (by omega), ih]
        simp [hb]

/-! ## The search -/

/-- The entries of a table up to an index are not above a number, those behind it are, and no earlier one
is the number itself. -/
structure Splits (starts : Array Nat) (x k : Nat) : Prop where
  lt_size : k < starts.size
  le_iff : ∀ i start, starts[i]? = some start → (start ≤ x ↔ i ≤ k)
  eq_of_present : ∀ i, starts[i]? = some x → i = k

theorem splits_append {first second : List Nat} {x : Nat} (hne : first ≠ [])
    (hsorted : first.Pairwise (· < ·)) (hfirst : ∀ start ∈ first, start ≤ x)
    (hsecond : ∀ start ∈ second, x < start) :
    Splits (first ++ second).toArray x (first.length - 1) := by
  have hpos := List.length_pos_iff.2 hne
  have hiff : ∀ i start, (first ++ second).toArray[i]? = some start →
      (start ≤ x ↔ i ≤ first.length - 1) := by
    intro i start hstart
    rw [List.getElem?_toArray] at hstart
    by_cases hi : i < first.length
    · rw [List.getElem?_append_left hi] at hstart
      have hle := hfirst start (List.mem_of_getElem? hstart)
      omega
    · rw [List.getElem?_append_right (by omega)] at hstart
      have hlt := hsecond start (List.mem_of_getElem? hstart)
      omega
  refine ⟨by simp; omega, hiff, fun i hi => ?_⟩
  have hle := (hiff i x hi).1 (Nat.le_refl x)
  by_contra hother
  -- An earlier entry is smaller than the last one, and that is not above the number.
  rw [List.getElem?_toArray, List.getElem?_append_left (by omega)] at hi
  obtain ⟨hlt, hx⟩ := List.getElem?_eq_some_iff.1 hi
  have hlast := List.pairwise_iff_getElem.1 hsorted i (first.length - 1) hlt (by omega) (by omega)
  have hbound := hfirst _ (List.getElem_mem (show first.length - 1 < first.length by omega))
  omega

/-- Halving keeps the index between its ends, so the search ends there. -/
theorem Splits.exists_rank {starts : Array Nat} {x k low high : Nat} (h : Splits starts x k)
    (hlow : low ≤ k + 1) (hhigh : k < high) (hsize : high ≤ starts.size) :
    ∃ rank, rank? starts x low high = some rank ∧ rank.line = k := by
  fun_induction rank? starts x low high with
  | case1 low high hlt hnone =>
      rw [Array.getElem?_eq_none_iff] at hnone
      omega
  | case2 low high hlt hstart => exact ⟨_, rfl, h.eq_of_present _ hstart⟩
  | case3 low high hlt start hstart hne hless ih =>
      have hle := (h.le_iff _ _ hstart).1 (Nat.le_of_lt hless)
      exact ih (by omega) hhigh hsize
  | case4 low high hlt start hstart hne hless ih =>
      have hnot := mt (h.le_iff _ _ hstart).2 (by omega)
      exact ih hlow (by omega) (by omega)
  | case5 low high hlt =>
      refine ⟨_, rfl, ?_⟩
      show low - 1 = k
      omega

/-- A table falls into the starts of lines up to an offset and those behind it. -/
theorem starts_ofSource {source : List Char} {n : Nat} (h : n ≤ byteSize source) :
    (LineTable.ofSource source).starts =
      ((0 :: startsBehind 0 ((Text.bytes source).take n)) ++
        startsBehind n ((Text.bytes source).drop n)).toArray := by
  have hlength : 0 + ((Text.bytes source).take n).length = n := by
    rw [List.length_take, Text.length_bytes]
    omega
  have happend := startsBehind_append 0 ((Text.bytes source).take n) ((Text.bytes source).drop n)
  rw [List.take_append_drop, hlength] at happend
  rw [LineTable.ofSource, happend, List.cons_append]

/-- The line of an offset is counted by the line feeds before it. -/
theorem splits_ofSource {source : List Char} {n : Nat} (h : n ≤ byteSize source) :
    Splits (LineTable.ofSource source).starts n (((Text.bytes source).take n).count Text.lineFeed) := by
  have hsplits : Splits (LineTable.ofSource source).starts n
      ((0 :: startsBehind 0 ((Text.bytes source).take n)).length - 1) := by
    rw [starts_ofSource h]
    refine splits_append (List.cons_ne_nil _ _) ?_ ?_ ?_
    · exact List.pairwise_cons.2
        ⟨fun m hm => (bounds_of_mem_startsBehind hm).1, pairwise_startsBehind _ _⟩
    · intro start hstart
      rcases List.mem_cons.1 hstart with rfl | hstart
      · exact Nat.zero_le n
      · have hle := (bounds_of_mem_startsBehind hstart).2
        rw [List.length_take] at hle
        omega
    · exact fun start hstart => (bounds_of_mem_startsBehind hstart).1
  rwa [List.length_cons, Nat.add_sub_cancel, length_startsBehind] at hsplits

theorem getElem?_starts_ofSource {source : List Char} {n : Nat} (h : n ≤ byteSize source) :
    (LineTable.ofSource source).starts[((Text.bytes source).take n).count Text.lineFeed]? =
      some (n - (((Text.bytes source).take n).rtakeWhile (· ≠ Text.lineFeed)).length) := by
  have hlength : ((Text.bytes source).take n).length = n := by
    rw [List.length_take, Text.length_bytes]
    omega
  rw [starts_ofSource h, List.getElem?_toArray, List.getElem?_append_left (by
    rw [List.length_cons, length_startsBehind]
    exact Nat.lt_succ_self _), getElem?_starts, hlength]

/-! ## Walks -/

namespace Position

/-- The position behind one more character, with the bytes of its line. -/
def nextWide (s : Position × Nat) (c : Char) : Position × Nat :=
  (next s.1 c, if c = '\n' then 0 else s.2 + c.utf8Size)

theorem foldl_nextWide_start (cs : List Char) :
    cs.foldl nextWide ({}, 0) =
      (⟨cs.count '\n' + 1, (lastLine cs).length⟩, byteSize (lastLine cs)) := by
  induction cs using List.reverseRecOn with
  | nil => rfl
  | append_singleton cs c ih =>
      rw [List.foldl_append, ih, List.foldl_cons, List.foldl_nil, nextWide, next, List.count_append]
      by_cases hc : c = '\n' <;> simp [hc, lastLine]

theorem walk_append_add (a b : List Char) (m line column width : Nat) :
    walk (a ++ b) (byteSize a + m) line column width =
      walk b m (a.foldl nextWide (⟨line, column⟩, width)).1.line
        (a.foldl nextWide (⟨line, column⟩, width)).1.column
        (a.foldl nextWide (⟨line, column⟩, width)).2 := by
  induction a generalizing line column width with
  | nil => simp
  | cons c a ih =>
      have hc := c.utf8Size_pos
      have hrest : c.utf8Size + byteSize a + m - c.utf8Size = byteSize a + m := by omega
      simp only [List.cons_append, Text.byteSize_cons, walk, hrest, List.foldl_cons, nextWide, next]
      rw [if_neg (by omega), if_neg (by omega)]
      split
      · exact ih (line + 1) 0 0
      · exact ih line (column + 1) (width + c.utf8Size)

/-- The position behind a text, and some bytes. -/
theorem ofOffset_append_add (a b : List Char) (m : Nat) :
    ofOffset (a ++ b) (byteSize a + m) =
      walk b m (a.count '\n' + 1) (lastLine a).length (byteSize (lastLine a)) := by
  have hstart := foldl_nextWide_start a
  rw [ofOffset, walk_append_add, show (⟨1, 0⟩ : Position) = {} from rfl, hstart]

/-- An offset past the end has the position of the end. -/
theorem ofOffset_min (source : List Char) (offset : Nat) :
    ofOffset source (min offset (byteSize source)) = ofOffset source offset := by
  rcases Nat.le_total offset (byteSize source) with hle | hle
  · rw [Nat.min_eq_left hle]
  · obtain ⟨m, rfl⟩ := Nat.exists_eq_add_of_le hle
    have hend := ofOffset_append_add source [] 0
    have hpast := ofOffset_append_add source [] m
    rw [List.append_nil] at hend hpast
    rw [Nat.min_eq_right hle, hpast]
    exact hend

end Position

/-! ## Look-ups -/

/-- The bytes before an offset have the line feeds and the last line of the characters before it, and the
bytes of a character that is cut. -/
theorem take_bytes_append {a b : List Char} {m : Nat}
    (hm : m = 0 ∨ ∃ c rest, b = c :: rest ∧ 0 < m ∧ m < c.utf8Size) :
    ((Text.bytes (a ++ b)).take (byteSize a + m)).count Text.lineFeed = a.count '\n' ∧
      (((Text.bytes (a ++ b)).take (byteSize a + m)).rtakeWhile (· ≠ Text.lineFeed)).length =
        byteSize (lastLine a) + m := by
  have hcut : ((Text.bytes b).take m).length = m ∧ ∀ x ∈ (Text.bytes b).take m, x ≠ Text.lineFeed := by
    rcases hm with rfl | ⟨c, rest, rfl, hpos, hlt⟩
    · simp
    · have hc : c ≠ '\n' := by
        rintro rfl
        have hone : '\n'.utf8Size = 1 := by decide
        omega
      rw [Text.bytes_cons, List.take_append_of_le_length (by rw [String.length_utf8EncodeChar]; omega)]
      refine ⟨by rw [List.length_take, String.length_utf8EncodeChar]; omega, ?_⟩
      rintro x hx rfl
      exact Text.lineFeed_not_mem hc (List.mem_of_mem_take hx)
  obtain ⟨hlength, hfree⟩ := hcut
  have htake : (Text.bytes (a ++ b)).take (byteSize a + m) = Text.bytes a ++ (Text.bytes b).take m := by
    rw [Text.bytes_append, ← Text.length_bytes a, List.take_length_add_append]
  rw [htake]
  constructor
  · rw [List.count_append, Text.count_bytes,
      List.count_eq_zero.2 fun hmem => hfree _ hmem rfl, Nat.add_zero]
  · rw [Position.rtakeWhile_append_of_forall _ (by simpa using hfree), Text.rtakeWhile_bytes,
      List.length_append, Text.length_bytes, hlength]

/-- The last line of a text is the slice from its start, whatever follows. -/
theorem slice?_lastLine (a b : List Char) :
    Text.slice? (a ++ b) (byteSize a - byteSize (lastLine a)) (byteSize a) = some (lastLine a) := by
  obtain ⟨front, hfront⟩ : lastLine a <:+ a := List.rtakeWhile_suffix _ a
  have hsize : byteSize a = byteSize front + byteSize (lastLine a) := by
    rw [← Text.byteSize_append, hfront]
  have hslice := Text.slice?_append front (lastLine a) b
  rwa [← List.append_assoc, hfront, ← hsize, show byteSize front =
    byteSize a - byteSize (lastLine a) by omega] at hslice

theorem isBoundary_inside {a rest : List Char} {c : Char} {m : Nat} (hpos : 0 < m)
    (hlt : m < c.utf8Size) : isBoundary (a ++ c :: rest) (byteSize a + m) = false := by
  rw [Bool.eq_false_iff]
  intro hboundary
  have hinside := Text.isBoundary_of_append hboundary (Nat.le_add_right _ _)
  rw [Nat.add_sub_cancel_left] at hinside
  obtain ⟨k, rfl⟩ := Nat.exists_eq_succ_of_ne_zero (Nat.ne_of_gt hpos)
  rw [isBoundary, if_pos hlt] at hinside
  cases hinside

/-- What is looked up in the table, before it is cut to a machine word: the line of an offset, counted from
zero, and its column. -/
theorem LineTable.lookup_eq (source : List Char) (offset : Nat) :
    (ofSource source).position? source offset =
      let p := Position.ofOffset source offset
      if (p.line - 1) % 2 ^ 32 + 1 < 2 ^ 32 then
        some ⟨(p.line - 1) % 2 ^ 32 + 1, p.column % 2 ^ 32⟩
      else none := by
  have hle : min offset (byteSize source) ≤ byteSize source := Nat.min_le_right _ _
  have hsplits := splits_ofSource hle
  have hstart := getElem?_starts_ofSource hle
  rw [← Position.ofOffset_min source offset]
  obtain ⟨rank, hrank, hline⟩ := hsplits.exists_rank (Nat.zero_le _) hsplits.lt_size (Nat.le_refl _)
  rw [← hline] at hstart
  simp only [position?, hrank, hstart, Option.bind_eq_bind, Option.bind_some]
  obtain ⟨a, b, m, rfl, hn, hm⟩ := Text.exists_split_of_le hle
  obtain ⟨hcount, hlast⟩ := take_bytes_append hm
  have hsuffix : byteSize (lastLine a) ≤ byteSize a :=
    Text.byteSize_le_of_suffix (List.rtakeWhile_suffix _ a)
  rw [hn] at hline ⊢
  rw [hlast, hline, hcount, Position.ofOffset_append_add,
    show byteSize a + m - (byteSize (lastLine a) + m) = byteSize a - byteSize (lastLine a) by omega,
    if_pos (by omega)]
  rcases hm with rfl | ⟨c, rest, rfl, hpos, hlt⟩
  · simp only [Nat.add_zero, slice?_lastLine]
    cases b <;> rfl
  · have hnone : Text.slice? (a ++ c :: rest) (byteSize a - byteSize (lastLine a)) (byteSize a + m) =
        none := by
      rw [Text.slice?, isBoundary_inside hpos hlt, Bool.and_false]
      rfl
    rw [hnone, Position.walk, if_neg (Nat.ne_of_gt hpos), if_pos hlt]
    have hwidth : byteSize a + m - (byteSize a - byteSize (lastLine a)) = byteSize (lastLine a) + m := by
      omega
    simp [hwidth]

/-! ## Positions in bytes -/

namespace Position

/-- A position is that of an offset: its line counts the line feeds among the bytes before the offset, and
between two characters its column counts the characters since the last one of them. -/
structure Locates (source : List Char) (offset : Nat) (p : Position) : Prop where
  line : p.line =
    1 + ((Text.bytes source).take (min offset (byteSize source))).count Text.lineFeed
  column : ∀ a b, source = a ++ b → byteSize a = min offset (byteSize source) →
    p.column = (lastLine a).length

theorem locates_ofOffset (source : List Char) (offset : Nat) :
    Locates source offset (ofOffset source offset) := by
  rw [← ofOffset_min]
  constructor
  · obtain ⟨a, b, m, rfl, hn, hm⟩ :=
      Text.exists_split_of_le (Nat.min_le_right offset (byteSize source))
    rw [hn, (take_bytes_append hm).1, ofOffset_append_add, Nat.add_comm]
    rcases hm with rfl | ⟨c, rest, rfl, hpos, hlt⟩
    · cases b <;> rfl
    · rw [walk, if_neg (Nat.ne_of_gt hpos), if_pos hlt]
  · rintro a b rfl hsize
    rw [← hsize, ofOffset_append]

theorem column_le_byteSize (source : List Char) (offset : Nat) :
    (ofOffset source offset).column ≤ byteSize source := by
  rw [← ofOffset_min]
  obtain ⟨a, b, m, rfl, hn, hm⟩ :=
    Text.exists_split_of_le (Nat.min_le_right offset (byteSize source))
  have hlast : byteSize (lastLine a) ≤ byteSize a :=
    Text.byteSize_le_of_suffix (List.rtakeWhile_suffix _ a)
  have hn' : byteSize a + m ≤ byteSize (a ++ b) := hn ▸ Nat.min_le_right _ _
  rw [hn, ofOffset_append_add]
  rcases hm with rfl | ⟨c, rest, rfl, hpos, hlt⟩
  · have hcolumn : (walk b 0 (a.count '\n' + 1) (lastLine a).length (byteSize (lastLine a))).column =
        (lastLine a).length := by cases b <;> rfl
    have hlength := Text.length_le_byteSize (lastLine a)
    omega
  · rw [walk, if_neg (Nat.ne_of_gt hpos), if_pos hlt]
    show byteSize (lastLine a) + m ≤ byteSize (a ++ c :: rest)
    omega

/-- There are no more line feeds before an offset than bytes. -/
theorem line_le (source : List Char) (offset : Nat) :
    (ofOffset source offset).line ≤ 1 + min offset (byteSize source) := by
  have hcount := List.count_le_length
    (l := (Text.bytes source).take (min offset (byteSize source))) (a := Text.lineFeed)
  rw [List.length_take] at hcount
  rw [(locates_ofOffset source offset).line]
  omega

/-- There is one more line than bytes at the end of a source of line feeds only, and nowhere else are
there that many. -/
theorem byteSize_lt_line_iff (source : List Char) (offset : Nat) :
    byteSize source < (ofOffset source offset).line ↔
      source = List.replicate (byteSize source) '\n' ∧ byteSize source ≤ offset := by
  have hline := (locates_ofOffset source offset).line
  constructor
  · intro hlt
    have hle := line_le source offset
    have htake := (List.take_sublist (min offset (byteSize source)) (Text.bytes source)).count_le
      Text.lineFeed
    rw [Text.count_bytes] at htake
    have hlength := Text.length_le_byteSize source
    have hcount := List.count_le_length (l := source) (a := '\n')
    have hall : ∀ c ∈ source, '\n' = c := List.count_eq_length.1 (by omega)
    exact ⟨List.eq_replicate_iff.2 ⟨by omega, fun c hc => (hall c hc).symm⟩, by omega⟩
  · rintro ⟨hsource, hoffset⟩
    have hcount : source.count '\n' = byteSize source := by
      conv_lhs => rw [hsource, List.count_replicate_self]
    rw [hline, Nat.min_eq_right hoffset, ← Text.length_bytes, List.take_length, Text.count_bytes, hcount,
      Text.length_bytes]
    omega

end Position

/-! ## Machine words -/

/-- The line number of an offset is above all those that fit: it stands behind as many line feeds as fit
into a source, and nothing else. -/
def LineTable.Overflows (source : List Char) (offset : Nat) : Prop :=
  source = List.replicate (2 ^ 32 - 1) '\n' ∧ 2 ^ 32 - 1 ≤ offset

theorem byteSize_replicate_lineFeed (n : Nat) : byteSize (List.replicate n '\n') = n := by
  induction n with
  | zero => rfl
  | succ n ih =>
      have hsize : '\n'.utf8Size = 1 := by decide
      rw [List.replicate_succ, Text.byteSize_cons, ih, hsize, Nat.add_comm]

/-- In a source of less than `2 ^ 32` bytes the table finds the position of every offset, unless its line
number does not fit. -/
theorem LineTable.position?_eq {source : List Char} (hsize : byteSize source < 2 ^ 32) (offset : Nat) :
    (Overflows source offset ∧ (ofSource source).position? source offset = none) ∨
      (¬ Overflows source offset ∧ (Position.ofOffset source offset).line < 2 ^ 32 ∧
        (ofSource source).position? source offset = some (Position.ofOffset source offset)) := by
  have hone : 1 ≤ (Position.ofOffset source offset).line := by
    rw [(Position.locates_ofOffset source offset).line]
    exact Nat.le_add_right 1 _
  have hline := Position.line_le source offset
  have hcolumn := Position.column_le_byteSize source offset
  have hlast := Position.byteSize_lt_line_iff source offset
  have hlookup := lookup_eq source offset
  simp only [Nat.mod_eq_of_lt (show (Position.ofOffset source offset).line - 1 < 2 ^ 32 by omega),
    Nat.mod_eq_of_lt (Nat.lt_of_le_of_lt hcolumn hsize), Nat.sub_add_cancel hone] at hlookup
  by_cases hfits : (Position.ofOffset source offset).line < 2 ^ 32
  · refine .inr ⟨fun ⟨hsource, hoffset⟩ => ?_, hfits, by rw [hlookup, if_pos hfits]⟩
    have hbytes : byteSize source = 2 ^ 32 - 1 := by rw [hsource, byteSize_replicate_lineFeed]
    have hlt := hlast.2 ⟨by rw [hbytes]; exact hsource, by omega⟩
    omega
  · refine .inl ⟨?_, by rw [hlookup, if_neg hfits]⟩
    have hbytes : byteSize source = 2 ^ 32 - 1 := by omega
    have hall := hlast.1 (by omega)
    rwa [hbytes] at hall

end OriginTags
