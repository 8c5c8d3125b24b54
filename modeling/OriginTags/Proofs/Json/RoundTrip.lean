import OriginTags.Proofs.Json.Layout
/-!
# Reading what was written

The reader gives back every value that either writer has written, as long as the numbers of the value
are integers of 64 bits and its containers are not nested too deeply.
-/

namespace OriginTags.Json

/-! ## Readable values -/

mutual

/-- A value that can be read back: its numbers are integers of 64 bits, and its containers nest at
most `depth` deep. -/
def Readable : Json → (depth : Nat) → Prop
  | .number (.int n), _ => FitsWord n
  | .number (.double _), _ => False
  | .array items, depth => 0 < depth ∧ ReadableItems items (depth - 1)
  | .object members, depth => 0 < depth ∧ ReadableMembers members (depth - 1)
  | .null, _ | .bool _, _ | .string _, _ => True

def ReadableItems : List Json → (depth : Nat) → Prop
  | [], _ => True
  | item :: items, depth => Readable item depth ∧ ReadableItems items depth

def ReadableMembers : List (String × Json) → (depth : Nat) → Prop
  | [], _ => True
  | (_, value) :: members, depth => Readable value depth ∧ ReadableMembers members depth

end

/-- A value that holds no others is read from its text, and blanks in front of it are skipped. -/
theorem readValue_scalar {j : Json} {fuel depth : Nat} {lead rest : List Char}
    (hlead : ∀ c ∈ lead, isBlank c = true) (hrest : Closed rest) (hfuel : 0 < fuel)
    (hj : Readable j depth) (hscalar : j matches .null | .bool _ | .number _ | .string _) :
    readValue fuel depth (lead ++ (write j ++ rest)) = some (j, rest) := by
  obtain ⟨fuel, rfl⟩ : ∃ k, fuel = k + 1 := ⟨fuel - 1, by omega⟩
  cases j with
  | null =>
      simp only [write, readValue, skipBlanks_append hlead, List.cons_append]
      rw [skipBlanks_cons (by decide)]
      rfl
  | bool b =>
      cases b <;>
      · simp only [write, readValue, skipBlanks_append hlead, List.cons_append]
        rw [skipBlanks_cons (by decide)]
        rfl
  | string s =>
      simp only [write, quote, readValue, skipBlanks_append hlead, List.cons_append,
        List.append_assoc, List.nil_append]
      rw [skipBlanks_cons (by decide)]
      simp only [readString_quoted]
      simp
  | number n =>
      cases n with
      | double x => exact absurd hj (by simp [Readable])
      | int n =>
          obtain ⟨c, cs, hcs, hc⟩ := exists_cons_intText n
          have hread := readNumber_intText (n := n) (by simpa [Readable] using hj) hrest
          simp only [write, Number.text, readValue, skipBlanks_append hlead]
          rw [hcs, List.cons_append] at hread ⊢
          rw [skipBlanks_cons (isBlank_of_begins_number hc)]
          split
          case h_7 => simp [hread]
          -- No other kind of value begins like a number.
          all_goals
            rename_i heq
            obtain ⟨rfl, -⟩ := List.cons.inj heq
            exact absurd hc (by decide)
  | array _ => simp at hscalar
  | object _ => simp at hscalar

/-! ## Blanks in front of values -/

theorem readValue_skipBlanks (fuel depth : Nat) (cs : List Char) :
    readValue fuel depth (skipBlanks cs) = readValue fuel depth cs := by
  cases fuel with
  | zero => rfl
  | succ fuel => simp only [readValue, skipBlanks_skipBlanks]

theorem readItems_skipBlanks (fuel depth : Nat) (cs : List Char) :
    readItems fuel depth (skipBlanks cs) = readItems fuel depth cs := by
  cases fuel with
  | zero => rfl
  | succ fuel => simp only [readItems, readValue_skipBlanks]

theorem readMembers_skipBlanks (fuel depth : Nat) (cs : List Char) :
    readMembers fuel depth (skipBlanks cs) = readMembers fuel depth cs := by
  cases fuel with
  | zero => rfl
  | succ fuel => simp only [readMembers, skipBlanks_skipBlanks]

/-! ## Values in a layout -/

namespace Layout

variable (l : Layout)

/-- Every text begins with a character that is no blank and ends no container. -/
theorem exists_cons_text {j : Json} {depth : Nat} (level : Nat) (hj : Readable j depth) :
    ∃ c cs, l.text level j = c :: cs ∧ isBlank c = false ∧ c ≠ ']' := by
  cases j with
  | null =>
      simp only [text, write]
      exact ⟨_, _, rfl, by decide, by decide⟩
  | bool b =>
      cases b <;>
      · simp only [text, write]
        exact ⟨_, _, rfl, by decide, by decide⟩
  | number n =>
      cases n with
      | double x => exact absurd hj (by simp [Readable])
      | int n =>
          obtain ⟨c, cs, hcs, hc⟩ := exists_cons_intText n
          refine ⟨c, cs, by simp [text, write, Number.text, hcs], isBlank_of_begins_number hc, ?_⟩
          rintro rfl
          exact absurd hc (by decide)
  | string s =>
      simp only [text, write, quote]
      exact ⟨_, _, rfl, by decide, by decide⟩
  | array items =>
      cases items <;>
      · simp only [text]
        exact ⟨_, _, rfl, by decide, by decide⟩
  | object members =>
      cases members <;>
      · simp only [text]
        exact ⟨_, _, rfl, by decide, by decide⟩

/-- A container with items does not end right behind its beginning. -/
theorem skipBlanks_items_ne {item : Json} {items : List Json} {depth : Nat} (level : Nat)
    (hitem : Readable item depth) (rest : List Char) {after : List Char} :
    skipBlanks (l.items level (item :: items) ++ rest) ≠ ']' :: after := by
  obtain ⟨c, cs, hcs, hblank, hc⟩ := l.exists_cons_text level hitem
  cases items <;>
  · simp only [Layout.items, List.append_assoc, skipBlanks_append (l.blank_gap level), hcs,
      List.cons_append, skipBlanks_cons hblank]
    intro heq
    exact hc (List.cons.inj heq).1

theorem skipBlanks_members_ne (level : Nat) (member : String × Json)
    (members : List (String × Json)) (rest : List Char) {after : List Char} :
    skipBlanks (l.members level (member :: members) ++ rest) ≠ '\x7d' :: after := by
  cases members <;>
  · simp only [Layout.members, List.append_assoc, skipBlanks_append (l.blank_gap level), quote,
      List.cons_append, skipBlanks_cons (show isBlank '"' = false by decide)]
    intro heq
    exact absurd (List.cons.inj heq).1 (by decide)

mutual

theorem readValue_text : ∀ (j : Json) (level fuel depth : Nat) (lead rest : List Char),
    (∀ c ∈ lead, isBlank c = true) → Closed rest → Readable j depth →
    2 * (l.text level j).length ≤ fuel →
    readValue fuel depth (lead ++ (l.text level j ++ rest)) = some (j, rest)
  | .null, _, _, _, _, _, hlead, hrest, hj, hfuel => by
      simp only [text] at hfuel ⊢
      exact readValue_scalar hlead hrest (by simp [write] at hfuel; omega) hj rfl
  | .bool b, _, _, _, _, _, hlead, hrest, hj, hfuel => by
      simp only [text] at hfuel ⊢
      exact readValue_scalar hlead hrest (by cases b <;> simp [write] at hfuel <;> omega) hj rfl
  | .number n, level, _, _, _, _, hlead, hrest, hj, hfuel => by
      obtain ⟨c, cs, hcs, -, -⟩ := exists_cons_text l level hj
      rw [hcs] at hfuel
      simp only [text]
      exact readValue_scalar hlead hrest (by simp at hfuel; omega) hj rfl
  | .string s, _, _, _, _, _, hlead, hrest, hj, hfuel => by
      simp only [text] at hfuel ⊢
      exact readValue_scalar hlead hrest (by simp [write, quote] at hfuel; omega) hj rfl
  | .array [], level, fuel, depth, lead, rest, hlead, _, hj, hfuel => by
      simp only [text, List.length_cons] at hfuel
      obtain ⟨fuel, rfl⟩ : ∃ k, fuel = k + 1 := ⟨fuel - 1, by omega⟩
      obtain ⟨depth, rfl⟩ : ∃ k, depth = k + 1 := ⟨depth - 1, by simp [Readable] at hj; omega⟩
      simp only [text, readValue, skipBlanks_append hlead, List.cons_append, List.nil_append]
      rw [skipBlanks_cons (by decide)]
      simp only
      rw [skipBlanks_cons (by decide)]
      rfl
  | .array (item :: items), level, fuel, depth, lead, rest, hlead, _, hj, hfuel => by
      simp only [text, List.length_cons, List.length_append] at hfuel
      simp only [Readable] at hj
      obtain ⟨fuel, rfl⟩ : ∃ k, fuel = k + 1 := ⟨fuel - 1, by omega⟩
      obtain ⟨depth, rfl⟩ : ∃ k, depth = k + 1 := ⟨depth - 1, by omega⟩
      have hread := readItems_text (item :: items) (level + 1) fuel depth (l.gap level) rest
        (List.cons_ne_nil _ _) (l.blank_gap level) (by simpa using hj.2) (by omega)
      rw [← readItems_skipBlanks] at hread
      simp only [text, readValue, skipBlanks_append hlead, List.cons_append, List.append_assoc,
        List.nil_append]
      rw [skipBlanks_cons (by decide)]
      simp only
      split
      case h_1 heq => exact absurd heq (l.skipBlanks_items_ne (level + 1) (by simpa using hj.2.1) _)
      case h_2 => simp [hread]
  | .object [], level, fuel, depth, lead, rest, hlead, _, hj, hfuel => by
      simp only [text, List.length_cons] at hfuel
      obtain ⟨fuel, rfl⟩ : ∃ k, fuel = k + 1 := ⟨fuel - 1, by omega⟩
      obtain ⟨depth, rfl⟩ : ∃ k, depth = k + 1 := ⟨depth - 1, by simp [Readable] at hj; omega⟩
      simp only [text, readValue, skipBlanks_append hlead, List.cons_append, List.nil_append]
      rw [skipBlanks_cons (by decide)]
      simp only
      rw [skipBlanks_cons (by decide)]
      rfl
  | .object (member :: members), level, fuel, depth, lead, rest, hlead, _, hj, hfuel => by
      simp only [text, List.length_cons, List.length_append] at hfuel
      simp only [Readable] at hj
      obtain ⟨fuel, rfl⟩ : ∃ k, fuel = k + 1 := ⟨fuel - 1, by omega⟩
      obtain ⟨depth, rfl⟩ : ∃ k, depth = k + 1 := ⟨depth - 1, by omega⟩
      have hread := readMembers_text (member :: members) (level + 1) fuel depth (l.gap level) rest
        (List.cons_ne_nil _ _) (l.blank_gap level) (by simpa using hj.2) (by omega)
      rw [← readMembers_skipBlanks] at hread
      simp only [text, readValue, skipBlanks_append hlead, List.cons_append, List.append_assoc,
        List.nil_append]
      rw [skipBlanks_cons (by decide)]
      simp only
      split
      case h_1 heq => exact absurd heq (l.skipBlanks_members_ne (level + 1) member members _)
      case h_2 => simp [hread]

theorem readItems_text : ∀ (items : List Json) (level fuel depth : Nat) (tail rest : List Char),
    items ≠ [] → (∀ c ∈ tail, isBlank c = true) → ReadableItems items depth →
    2 * (l.items level items).length + 1 ≤ fuel →
    readItems fuel depth (l.items level items ++ (tail ++ ']' :: rest)) = some (items, rest)
  | [], _, _, _, _, _, h, _, _, _ => absurd rfl h
  | [item], level, fuel, depth, tail, rest, _, htail, hitems, hfuel => by
      simp only [Layout.items, List.length_append] at hfuel
      obtain ⟨fuel, rfl⟩ : ∃ k, fuel = k + 1 := ⟨fuel - 1, by omega⟩
      have hread := readValue_text item level fuel depth (l.gap level) (tail ++ ']' :: rest)
        (l.blank_gap level) (closed_append htail (closed_cons (by decide))) hitems.1 (by omega)
      simp only [Layout.items, List.append_assoc, readItems, hread, Option.bind_eq_bind,
        Option.bind_some, skipBlanks_append htail]
      rw [skipBlanks_cons (by decide)]
      rfl
  | item :: next :: more, level, fuel, depth, tail, rest, _, htail, hitems, hfuel => by
      simp only [Layout.items, List.length_append, List.length_cons] at hfuel
      obtain ⟨fuel, rfl⟩ : ∃ k, fuel = k + 1 := ⟨fuel - 1, by omega⟩
      have hread := readValue_text item level fuel depth (l.gap level)
        (',' :: (l.items level (next :: more) ++ (tail ++ ']' :: rest)))
        (l.blank_gap level) (closed_cons (by decide)) hitems.1 (by omega)
      have hmore := readItems_text (next :: more) level fuel depth tail rest
        (List.cons_ne_nil _ _) htail hitems.2 (by omega)
      simp only [Layout.items, List.append_assoc, List.cons_append, readItems, hread,
        Option.bind_eq_bind, Option.bind_some]
      rw [skipBlanks_cons (by decide)]
      simp [hmore]

theorem readMembers_text :
    ∀ (members : List (String × Json)) (level fuel depth : Nat) (tail rest : List Char),
    members ≠ [] → (∀ c ∈ tail, isBlank c = true) → ReadableMembers members depth →
    2 * (l.members level members).length + 1 ≤ fuel →
    readMembers fuel depth (l.members level members ++ (tail ++ '\x7d' :: rest)) =
      some (members, rest)
  | [], _, _, _, _, _, h, _, _, _ => absurd rfl h
  | [(key, value)], level, fuel, depth, tail, rest, _, htail, hmembers, hfuel => by
      simp only [Layout.members, List.length_append, List.length_cons] at hfuel
      obtain ⟨fuel, rfl⟩ : ∃ k, fuel = k + 1 := ⟨fuel - 1, by omega⟩
      have hread := readValue_text value level fuel depth l.colon (tail ++ '\x7d' :: rest)
        l.blank_colon (closed_append htail (closed_cons (by decide))) hmembers.1 (by omega)
      simp only [Layout.members, quote, List.append_assoc, List.cons_append, List.nil_append,
        readMembers, skipBlanks_append (l.blank_gap level)]
      rw [skipBlanks_cons (by decide)]
      simp only [readString_quoted, Option.bind_eq_bind, Option.bind_some]
      rw [skipBlanks_cons (by decide)]
      simp only [hread, Option.bind_some, skipBlanks_append htail]
      rw [skipBlanks_cons (by decide)]
      simp
  | (key, value) :: next :: more, level, fuel, depth, tail, rest, _, htail, hmembers, hfuel => by
      simp only [Layout.members, List.length_append, List.length_cons] at hfuel
      obtain ⟨fuel, rfl⟩ : ∃ k, fuel = k + 1 := ⟨fuel - 1, by omega⟩
      have hread := readValue_text value level fuel depth l.colon
        (',' :: (l.members level (next :: more) ++ (tail ++ '\x7d' :: rest)))
        l.blank_colon (closed_cons (by decide)) hmembers.1 (by omega)
      have hmore := readMembers_text (next :: more) level fuel depth tail rest
        (List.cons_ne_nil _ _) htail hmembers.2 (by omega)
      simp only [Layout.members, quote, List.append_assoc, List.cons_append, List.nil_append,
        readMembers, skipBlanks_append (l.blank_gap level)]
      rw [skipBlanks_cons (by decide)]
      simp only [readString_quoted, Option.bind_eq_bind, Option.bind_some]
      rw [skipBlanks_cons (by decide)]
      simp only [hread, Option.bind_some]
      rw [skipBlanks_cons (by decide)]
      simp [hmore]

end

end Layout

/-- A text in any layout reads as its value. -/
theorem parse?_text (l : Layout) {j : Json} (hj : Readable j depthLimit) :
    parse? (String.ofList (l.text 0 j)) = some j := by
  have hread := l.readValue_text j 0 (2 * (l.text 0 j).length + 2) depthLimit [] []
    (by simp) (by simp [Closed]) hj (by omega)
  simp only [List.nil_append, List.append_nil] at hread
  simp only [parse?, String.toList_ofList, hread, Option.bind_eq_bind, Option.bind_some]
  rfl

theorem parse?_compact {j : Json} (hj : Readable j depthLimit) : parse? j.compact = some j := by
  rw [compact, ← Layout.text_plain 0]
  exact parse?_text Layout.plain hj

theorem parse?_pretty {j : Json} (hj : Readable j depthLimit) : parse? j.pretty = some j := by
  rw [pretty, ← Layout.text_lines 0]
  exact parse?_text Layout.lines hj

end OriginTags.Json
