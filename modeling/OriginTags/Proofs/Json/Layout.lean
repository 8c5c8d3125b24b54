import OriginTags.Proofs.Json.Scalar
/-!
# Layouts

The compact and the indented text of a value are cases of one text: they differ in the blanks that
stand between its parts.
-/

namespace OriginTags.Json

/-- The blanks of a text: before each item at a level and before the end of a container, and behind
the colon of a member. -/
structure Layout where
  gap : Nat → List Char
  colon : List Char
  blank_gap : ∀ level, ∀ c ∈ gap level, isBlank c = true
  blank_colon : ∀ c ∈ colon, isBlank c = true

namespace Layout

mutual

/-- The text of a value that stands at a level. -/
def text (l : Layout) (level : Nat) : Json → List Char
  | .array [] => ['[', ']']
  | .array (item :: items) =>
    '[' :: (l.items (level + 1) (item :: items) ++ l.gap level ++ [']'])
  | .object [] => ['\x7b', '\x7d']
  | .object (member :: members) =>
    '\x7b' :: (l.members (level + 1) (member :: members) ++ l.gap level ++ ['\x7d'])
  | .null => write .null
  | .bool b => write (.bool b)
  | .number n => write (.number n)
  | .string s => write (.string s)

/-- Items with commas between them. -/
def items (l : Layout) (level : Nat) : List Json → List Char
  | [] => []
  | [item] => l.gap level ++ l.text level item
  | item :: next :: more => l.gap level ++ l.text level item ++ ',' :: l.items level (next :: more)

/-- Members with commas between them. -/
def members (l : Layout) (level : Nat) : List (String × Json) → List Char
  | [] => []
  | [(key, value)] => l.gap level ++ quote key.toList ++ ':' :: l.colon ++ l.text level value
  | (key, value) :: next :: more =>
    l.gap level ++ quote key.toList ++ ':' :: l.colon ++ l.text level value ++
      ',' :: l.members level (next :: more)

end

/-- No blanks at all. -/
def plain : Layout where
  gap := fun _ => []
  colon := []
  blank_gap := by simp
  blank_colon := by simp

/-- Every item and member on a line of its own. -/
def lines : Layout where
  gap := newline
  colon := [' ']
  blank_gap := by
    intro level c hc
    rcases List.mem_cons.1 hc with rfl | hc
    · rfl
    · rw [List.eq_of_mem_replicate hc]
      rfl
  blank_colon := by simp [isBlank]

@[simp] theorem gap_plain (level : Nat) : plain.gap level = [] := rfl

@[simp] theorem colon_plain : plain.colon = [] := rfl

@[simp] theorem gap_lines (level : Nat) : lines.gap level = newline level := rfl

@[simp] theorem colon_lines : lines.colon = [' '] := rfl

/-! ## The compact text -/

mutual

theorem text_plain (level : Nat) : ∀ j : Json, plain.text level j = write j
  | .array [] => by simp [text, write, writeItems]
  | .array (item :: items) => by simp [text, write, items_plain (level + 1) (item :: items)]
  | .object [] => by simp [text, write, writeMembers]
  | .object (member :: members) => by
      simp [text, write, members_plain (level + 1) (member :: members)]
  | .null => by simp [text]
  | .bool _ => by simp [text]
  | .number _ => by simp [text]
  | .string _ => by simp [text]

theorem items_plain (level : Nat) : ∀ items : List Json, plain.items level items = writeItems items
  | [] => by simp [Layout.items, writeItems]
  | [item] => by simp [Layout.items, writeItems, writeMoreItems, text_plain level item]
  | item :: next :: more => by
      simp [Layout.items, writeItems, writeMoreItems, text_plain level item,
        items_plain level (next :: more)]

theorem members_plain (level : Nat) :
    ∀ members : List (String × Json), plain.members level members = writeMembers members
  | [] => by simp [Layout.members, writeMembers]
  | [(key, value)] => by
      simp [Layout.members, writeMembers, writeMoreMembers, text_plain level value]
  | (key, value) :: (next, other) :: more => by
      simp [Layout.members, writeMembers, writeMoreMembers, text_plain level value,
        members_plain level ((next, other) :: more)]

end

/-! ## The indented text -/

theorem indentItems_cons (level : Nat) (item : Json) (items : List Json) :
    indentItems level (item :: items) =
      ',' :: (newline level ++ indent level item ++ indentItems level items) := by
  rw [indentItems]

theorem indentMembers_cons (level : Nat) (key : String) (value : Json)
    (members : List (String × Json)) :
    indentMembers level ((key, value) :: members) =
      ',' :: (newline level ++ quote key.toList ++ [':', ' '] ++ indent level value ++
        indentMembers level members) := by
  rw [indentMembers]

mutual

theorem text_lines (level : Nat) : ∀ j : Json, lines.text level j = indent level j
  | .array [] => by simp [text, indent]
  | .array (item :: items) => by
      have h := items_lines (level + 1) (item :: items) (List.cons_ne_nil _ _)
      simp only [indentItems, List.cons.injEq, true_and] at h
      simp [text, indent, h]
  | .object [] => by simp [text, indent]
  | .object ((key, value) :: members) => by
      have h := members_lines (level + 1) ((key, value) :: members) (List.cons_ne_nil _ _)
      simp only [indentMembers, List.cons.injEq, true_and] at h
      simp [text, indent, h]
  | .null => by simp [text, indent]
  | .bool _ => by simp [text, indent]
  | .number _ => by simp [text, indent]
  | .string _ => by simp [text, indent]

theorem items_lines (level : Nat) : ∀ items : List Json, items ≠ [] →
    ',' :: lines.items level items = indentItems level items
  | [], h => absurd rfl h
  | [item], _ => by simp [Layout.items, indentItems, text_lines level item]
  | item :: next :: more, _ => by
      have h := items_lines level (next :: more) (List.cons_ne_nil _ _)
      simp [Layout.items, indentItems_cons level item, text_lines level item, h]

theorem members_lines (level : Nat) : ∀ members : List (String × Json), members ≠ [] →
    ',' :: lines.members level members = indentMembers level members
  | [], h => absurd rfl h
  | [(key, value)], _ => by simp [Layout.members, indentMembers, text_lines level value]
  | (key, value) :: next :: more, _ => by
      have h := members_lines level (next :: more) (List.cons_ne_nil _ _)
      simp [Layout.members, indentMembers_cons level key, text_lines level value, h]

end

end Layout

end OriginTags.Json
