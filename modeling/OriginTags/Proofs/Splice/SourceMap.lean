import OriginTags.Proofs.Json.RoundTrip
import OriginTags.Tagging.Splice
/-!
# Reading source maps

A reader of source maps of version 3, as tools that use one have it: the mappings are numbers in
base 64 between commas and semicolons, and each number is relative to the one before it in its
place. What a splice writes reads back as its segments.
-/

namespace OriginTags.SourceMap

/-! ## Numbers -/

/-- The value of a base64 digit. -/
def digitValue? (c : Char) : Option Nat :=
  let n := c.toNat
  if 0x41 ≤ n && n ≤ 0x5A then some (n - 0x41)
  else if 0x61 ≤ n && n ≤ 0x7A then some (n - 0x61 + 26)
  else if 0x30 ≤ n && n ≤ 0x39 then some (n - 0x30 + 52)
  else if c = '+' then some 62
  else if c = '/' then some 63
  else none

/-- The number of some bits, of which the lowest is the sign. -/
def signed (bits : Nat) : Int :=
  if bits % 2 = 0 then bits / 2 else -(bits / 2)

/-- What the text of the mappings is made of. -/
inductive Token
  | number (n : Int)
  | comma
  | semicolon
deriving DecidableEq, Repr

/-- The tokens of a text. The digits of a number come least first, five bits each, and the sixth bit
tells that more follow. Inside a number, `bits` is what was read of it and `weight` is the value of
its next bit. -/
def tokens : (weight bits : Nat) → List Char → Option (List Token)
  | weight, _, [] => if weight = 1 then some [] else none
  | weight, bits, c :: cs =>
    -- A separator does not stand inside a number.
    if c = ',' then
      if weight = 1 then (tokens 1 0 cs).map (.comma :: ·) else none
    else if c = ';' then
      if weight = 1 then (tokens 1 0 cs).map (.semicolon :: ·) else none
    else do
      let digit ← digitValue? c
      if digit < 32 then (tokens 1 0 cs).map (.number (signed (bits + weight * digit)) :: ·)
      else tokens (weight * 32) (bits + weight * (digit - 32)) cs

theorem digitValue?_digit : ∀ n < 64, digitValue? (Text.Base64.digit n) = some n := by decide

theorem digit_ne_separator : ∀ n < 64,
    Text.Base64.digit n ≠ ',' ∧ Text.Base64.digit n ≠ ';' := by decide

theorem tokens_digit {n : Nat} (h : n < 64) (weight bits : Nat) (rest : List Char) :
    tokens weight bits (Text.Base64.digit n :: rest) =
      if n < 32 then (tokens 1 0 rest).map (.number (signed (bits + weight * n)) :: ·)
      else tokens (weight * 32) (bits + weight * (n - 32)) rest := by
  obtain ⟨hcomma, hsemicolon⟩ := digit_ne_separator n h
  simp [tokens, hcomma, hsemicolon, digitValue?_digit n h]

/-- The digits of a number complete what was read of it. -/
theorem tokens_digitsOf32 {fuel n : Nat} (h : n < fuel) (weight bits : Nat) (rest : List Char) :
    tokens weight bits (Splice.digitsOf32 fuel n ++ rest) =
      (tokens 1 0 rest).map (.number (signed (bits + weight * n)) :: ·) := by
  induction fuel generalizing n weight bits with
  | zero => omega
  | succ fuel ih =>
      by_cases hsmall : n < 32
      · simp only [Splice.digitsOf32, hsmall, if_true, List.cons_append, List.nil_append]
        rw [tokens_digit (by omega), if_pos hsmall]
      · simp only [Splice.digitsOf32, hsmall, if_false, List.cons_append]
        rw [tokens_digit (by omega), if_neg (by omega), ih (by omega)]
        -- The digit that was read and the digits that follow are the two parts of a division.
        have hdigit : n % 32 + 32 - 32 = n % 32 := by omega
        have hsum : bits + weight * (n % 32) + weight * 32 * (n / 32) = bits + weight * n := by
          rw [Nat.add_assoc, Nat.mul_assoc, ← Nat.mul_add, Nat.mod_add_div]
        rw [hdigit, hsum]

theorem tokens_delta (new old : Nat) (rest : List Char) :
    tokens 1 0 (Splice.delta new old ++ rest) =
      (tokens 1 0 rest).map (.number ((new : Int) - old) :: ·) := by
  unfold Splice.delta Splice.signedDigits
  have hsigned : ∀ n : Int,
      signed (0 + 1 * (if n < 0 then 2 * n.natAbs + 1 else 2 * n.natAbs)) = n := by
    intro n
    unfold signed
    split <;> split <;> omega
  rw [tokens_digitsOf32 (by omega), hsigned]

/-! ## Entries -/

/-- A place in one of the sources of a map. -/
structure Origin where
  source : Nat
  line : Nat
  column : Nat
deriving DecidableEq, Repr

/-- An entry of a map: a place in the new text, and where it comes from, if it comes from a source. -/
structure Entry where
  line : Nat
  column : Nat
  origin : Option Origin
deriving DecidableEq, Repr

/-- Where the reading of a map stands: the line of the new text, and what the next numbers are
relative to. -/
structure Cursor where
  line : Nat := 0
  column : Nat := 0
  source : Nat := 0
  sourceLine : Nat := 0
  sourceColumn : Nat := 0
  name : Nat := 0
deriving DecidableEq, Repr

/-- A number moved by a difference. -/
def shift (n : Nat) (difference : Int) : Option Nat :=
  if 0 ≤ n + difference then some (n + difference).toNat else none

theorem shift_sub (new old : Nat) : shift old ((new : Int) - old) = some new := by
  unfold shift
  rw [if_pos (by omega)]
  congr 1
  omega

/-- The entry that some fields spell, and where the reading stands behind it. -/
def Cursor.close (c : Cursor) : List Int → Option (List Entry × Cursor)
  | [] => some ([], c)
  | [column] => do
    -- What stands here comes from no source.
    let column ← shift c.column column
    return ([⟨c.line, column, none⟩], { c with column })
  | column :: source :: line :: sourceColumn :: name => do
    let column ← shift c.column column
    let source ← shift c.source source
    let line ← shift c.sourceLine line
    let sourceColumn ← shift c.sourceColumn sourceColumn
    let entry : Entry := ⟨c.line, column, some ⟨source, line, sourceColumn⟩⟩
    let next : Cursor := { c with column, source, sourceLine := line, sourceColumn }
    -- The name of what stands there may follow.
    match name with
    | [] => return ([entry], next)
    | [name] => do
      let name ← shift c.name name
      return ([entry], { next with name })
    | _ => none
  | _ => none

/-- Goes to the next line of the new text, where columns count from zero again. -/
def Cursor.nextLine (c : Cursor) : Cursor := { c with line := c.line + 1, column := 0 }

/-- The entries of some tokens; `fields` are the numbers since the last separator. -/
def entries : Cursor → (fields : List Int) → List Token → Option (List Entry)
  | c, fields, [] => do
    let (found, _) ← c.close fields
    return found
  | c, fields, .number n :: rest => entries c (fields ++ [n]) rest
  | c, fields, .comma :: rest => do
    let (found, c) ← c.close fields
    let others ← entries c [] rest
    return found ++ others
  | c, fields, .semicolon :: rest => do
    let (found, c) ← c.close fields
    let others ← entries c.nextLine [] rest
    return found ++ others

/-- The entries that a text of mappings spells. -/
def decode? (text : List Char) : Option (List Entry) := do
  let found ← tokens 1 0 text
  entries {} [] found

/-- The string that a value is. -/
def string? : Json → Option String
  | .string s => some s
  | _ => none

/-- The entries of a map, with the names of its sources. -/
structure Contents where
  sources : List String
  entries : List Entry
deriving DecidableEq, Repr

/-- Reads the text of a map of version 3. -/
def read? (text : String) : Option Contents := do
  let .object members ← Json.parse? text | none
  let .number (.int 3) ← Json.Members.get? members "version" | none
  let .array sources ← Json.Members.get? members "sources" | none
  let .string mappings ← Json.Members.get? members "mappings" | none
  return { sources := ← sources.mapM string?, entries := ← decode? mappings.toList }

/-! ## Reading what was written -/

section Segments

open Splice (Segment)

/-- The entry of a segment; a splice has one source. -/
def entryOf (s : Segment) : Entry :=
  ⟨s.output.line, s.output.column, some ⟨0, s.source.line, s.source.column⟩⟩

/-- Where the reading of a map stands behind a segment. -/
def Cursor.behind (s : Segment) : Cursor where
  line := s.output.line
  column := s.output.column
  sourceLine := s.source.line
  sourceColumn := s.source.column

/-- The numbers of a segment relative to the one before it. -/
def fieldsOf (s previous : Segment) (column : Nat) : List Int :=
  [(s.output.column : Int) - column, 0, (s.source.line : Int) - previous.source.line,
    (s.source.column : Int) - previous.source.column]

theorem tokens_segmentText (s previous : Segment) (column : Nat) (rest : List Char) :
    tokens 1 0 (Splice.segmentText s previous column ++ rest) =
      (tokens 1 0 rest).map ((fieldsOf s previous column).map .number ++ ·) := by
  -- There is one source, so the source never changes.
  have hzero : ['A'] = Splice.delta 0 0 := by decide
  simp only [Splice.segmentText, hzero, List.append_assoc, tokens_delta, Option.map_map]
  rfl

theorem tokens_semicolons (n : Nat) (rest : List Char) :
    tokens 1 0 (List.replicate n ';' ++ rest) =
      (tokens 1 0 rest).map (List.replicate n .semicolon ++ ·) := by
  induction n with
  | zero => simp
  | succ n ih =>
      simp only [List.replicate_succ, List.cons_append, tokens, ih, Option.map_map]
      rfl

theorem entries_numbers (c : Cursor) (fields numbers : List Int) (rest : List Token) :
    entries c fields (numbers.map .number ++ rest) = entries c (fields ++ numbers) rest := by
  induction numbers generalizing fields with
  | nil => simp
  | cons n numbers ih => simp [entries, ih]

theorem entries_semicolons (c : Cursor) (n : Nat) (rest : List Token) (hcolumn : c.column = 0) :
    entries c [] (List.replicate n .semicolon ++ rest) =
      entries { c with line := c.line + n } [] rest := by
  induction n generalizing c with
  | zero => simp
  | succ n ih =>
      simp only [List.replicate_succ, List.cons_append, entries, Cursor.close, Option.bind_eq_bind,
        Option.bind_some, List.nil_append]
      rw [ih c.nextLine rfl]
      simp [Cursor.nextLine, hcolumn, Nat.add_assoc, Nat.add_comm 1]

/-- The fields of a segment lead from the one before it to the segment. -/
theorem close_fieldsOf (s previous : Segment) (column : Nat) :
    Cursor.close { Cursor.behind previous with line := s.output.line, column }
      (fieldsOf s previous column) = some ([entryOf s], Cursor.behind s) := by
  have hsource : shift 0 0 = some 0 := rfl
  simp [Cursor.close, fieldsOf, Cursor.behind, shift_sub, hsource, entryOf]

/-- The text behind a segment reads as the segments that follow, whatever the fields of the segment
itself are read from. -/
theorem exists_tokens_mappingsAfter {previous : Segment} {rest : List Segment}
    (h : (previous :: rest).Pairwise fun a b => a.output.line ≤ b.output.line) :
    ∃ found, tokens 1 0 (Splice.mappingsAfter previous rest) = some found ∧
      ∀ c fields, Cursor.close c fields = some ([entryOf previous], Cursor.behind previous) →
        entries c fields found = some ((previous :: rest).map entryOf) := by
  induction rest generalizing previous with
  | nil =>
      refine ⟨[], rfl, ?_⟩
      intro c fields hclose
      simp [entries, hclose]
  | cons s rest ih =>
      obtain ⟨hfirst, hrest⟩ := List.pairwise_cons.1 h
      have hle : previous.output.line ≤ s.output.line := hfirst s List.mem_cons_self
      obtain ⟨found, htokens, hentries⟩ := ih hrest
      by_cases hline : s.output.line - previous.output.line = 0
      · -- On one line a comma stands between the segments.
        refine ⟨.comma :: ((fieldsOf s previous previous.output.column).map .number ++ found), ?_, ?_⟩
        · simp [Splice.mappingsAfter, hline, tokens, tokens_segmentText, htokens]
        · intro c fields hclose
          have hnext := hentries _ _ (close_fieldsOf s previous previous.output.column)
          have hcursor : { Cursor.behind previous with
              line := s.output.line, column := previous.output.column } = Cursor.behind previous := by
            have hsame : s.output.line = previous.output.line := by omega
            simp [Cursor.behind, hsame]
          rw [hcursor] at hnext
          simp [entries, hclose, entries_numbers, hnext]
      · -- The first semicolon ends the segment, and the others pass empty lines.
        obtain ⟨n, hn⟩ := Nat.exists_eq_succ_of_ne_zero hline
        refine ⟨.semicolon :: (List.replicate n .semicolon ++
          ((fieldsOf s previous 0).map .number ++ found)), ?_, ?_⟩
        · simp [Splice.mappingsAfter, hn, List.replicate_succ, tokens, tokens_semicolons,
            tokens_segmentText, htokens]
        · intro c fields hclose
          have hnext := hentries _ _ (close_fieldsOf s previous 0)
          have hcursor : { (Cursor.behind previous).nextLine with
                line := (Cursor.behind previous).nextLine.line + n } =
              { Cursor.behind previous with line := s.output.line, column := 0 } := by
            have hline' : previous.output.line + 1 + n = s.output.line := by omega
            simp [Cursor.behind, Cursor.nextLine, hline']
          simp only [entries, hclose, Option.bind_eq_bind, Option.bind_some]
          rw [entries_semicolons _ n _ rfl, hcursor, entries_numbers, List.nil_append, hnext]
          rfl

/-- The mappings of segments with lines in order decode to the segments. -/
theorem decode?_mappings {segments : List Segment}
    (h : segments.Pairwise fun a b => a.output.line ≤ b.output.line) :
    decode? (Splice.mappings segments) = some (segments.map entryOf) := by
  cases segments with
  | nil => rfl
  | cons s rest =>
      obtain ⟨found, htokens, hentries⟩ := exists_tokens_mappingsAfter h
      -- The first segment is relative to the beginning of both texts.
      have hclose := hentries _ _ (close_fieldsOf s ⟨{}, {}⟩ 0)
      simp only [decode?, Splice.mappings, List.append_assoc, tokens_semicolons, tokens_segmentText,
        htokens, Option.map_some, Option.bind_eq_bind, Option.bind_some]
      rw [entries_semicolons _ _ _ rfl, entries_numbers, List.nil_append]
      simpa [Cursor.behind] using hclose

/-- The text of a map reads as its segments and the name of its source. -/
theorem read?_mapJson (name source : String) {segments : List Segment}
    (h : segments.Pairwise fun a b => a.output.line ≤ b.output.line) :
    read? (Splice.mapJson name source segments).compact =
      some { sources := [name], entries := segments.map entryOf } := by
  have hreadable : Json.Readable (Splice.mapJson name source segments) Json.depthLimit := by
    simp [Splice.mapJson, Json.Readable, Json.ReadableMembers, Json.ReadableItems, Json.ofNat,
      Json.FitsWord, Json.depthLimit]
  rw [read?, Json.parse?_compact hreadable]
  simp [Splice.mapJson, Json.ofNat, Json.Members.get?, List.lookup_cons, string?, decode?_mappings h]

end Segments

end OriginTags.SourceMap
