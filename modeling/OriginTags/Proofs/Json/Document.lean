import OriginTags.Proofs.Json.Numeral
/-!
# Documents

A document is what a JSON text says, with its numbers as they are spelled. The reader of documents knows
no limits, neither of the size of numbers nor of the depth of containers, and it gives back every value
that the library writes.
-/

namespace OriginTags.Json

/-- What a JSON text says: a number is its text, and an object has its members as written. -/
inductive Document
  | null
  | bool (b : Bool)
  | number (text : String)
  | string (s : String)
  | array (items : List Document)
  | object (members : List (String × Document))

namespace Document

/-! ## Reading -/

/-- The key of a member and the colon behind it. -/
def readKey (cs : List Char) : Option (String × List Char) := do
  let '"' :: rest := skipBlanks cs | none
  let (key, rest) ← readString (rest.length + 1) rest
  let ':' :: rest := skipBlanks rest | none
  return (String.ofList key, rest)

mutual

/-- A value; `fuel` bounds the number of steps. -/
def read : (fuel : Nat) → List Char → Option (Document × List Char)
  | 0, _ => none
  | fuel + 1, cs =>
    match skipBlanks cs with
    | '"' :: rest => do
      let (s, rest) ← readString (rest.length + 1) rest
      return (.string (String.ofList s), rest)
    | '[' :: rest =>
      match skipBlanks rest with
      | ']' :: rest => some (.array [], rest)
      | rest => do
        let (item, rest) ← read fuel rest
        let (items, rest) ← readMoreItems fuel rest
        return (.array (item :: items), rest)
    | '\x7b' :: rest =>
      match skipBlanks rest with
      | '\x7d' :: rest => some (.object [], rest)
      | rest => do
        let (key, rest) ← readKey rest
        let (value, rest) ← read fuel rest
        let (members, rest) ← readMoreMembers fuel rest
        return (.object ((key, value) :: members), rest)
    | 't' :: rest => (Text.stripLead? "rue".toList rest).map fun rest => (.bool true, rest)
    | 'f' :: rest => (Text.stripLead? "alse".toList rest).map fun rest => (.bool false, rest)
    | 'n' :: rest => (Text.stripLead? "ull".toList rest).map fun rest => (.null, rest)
    | rest => do
      let after ← skipNumber rest
      return (.number (String.ofList (rest.take (rest.length - after.length))), after)

/-- The other items of an array, each one behind a comma, and the closing bracket. -/
def readMoreItems : (fuel : Nat) → List Char → Option (List Document × List Char)
  | 0, _ => none
  | fuel + 1, cs =>
    match skipBlanks cs with
    | ']' :: rest => some ([], rest)
    | ',' :: rest => do
      let (item, rest) ← read fuel rest
      let (items, rest) ← readMoreItems fuel rest
      return (item :: items, rest)
    | _ => none

/-- The other members of an object, each one behind a comma, and the closing brace. -/
def readMoreMembers : (fuel : Nat) → List Char → Option (List (String × Document) × List Char)
  | 0, _ => none
  | fuel + 1, cs =>
    match skipBlanks cs with
    | '\x7d' :: rest => some ([], rest)
    | ',' :: rest => do
      let (key, rest) ← readKey rest
      let (value, rest) ← read fuel rest
      let (members, rest) ← readMoreMembers fuel rest
      return ((key, value) :: members, rest)
    | _ => none

end

/-- The document of a JSON text. -/
def parse? (text : String) : Option Document := do
  let (d, rest) ← read (text.toList.length + 1) text.toList
  if (skipBlanks rest).isEmpty then return d else none

/-! ## Documents of values -/

/-- The document of a number. JSON has no text for those that are not finite. -/
def ofNumber : Number → Document
  | .double .nan | .double (.infinite _) => .null
  | n => .number (String.ofList n.text)

mutual

/-- The document of a value. -/
def ofJson : Json → Document
  | .null => .null
  | .bool b => .bool b
  | .number n => ofNumber n
  | .string s => .string s
  | .array items => .array (ofItems items)
  | .object members => .object (ofMembers members)

def ofItems : List Json → List Document
  | [] => []
  | item :: items => ofJson item :: ofItems items

def ofMembers : List (String × Json) → List (String × Document)
  | [] => []
  | (key, value) :: members => (key, ofJson value) :: ofMembers members

end

theorem lookup_ofMembers (members : Members) (key : String) :
    (ofMembers members).lookup key = (members.lookup key).map ofJson := by
  induction members with
  | nil => rfl
  | cons member members ih =>
      obtain ⟨name, value⟩ := member
      rw [ofMembers, List.lookup_cons, List.lookup_cons, ih]
      split <;> rfl

/-! ## The text of a document -/

mutual

/-- The compact text of a document. -/
def text : Document → List Char
  | .null => ['n', 'u', 'l', 'l']
  | .bool true => ['t', 'r', 'u', 'e']
  | .bool false => ['f', 'a', 'l', 's', 'e']
  | .number t => t.toList
  | .string s => quote s.toList
  | .array [] => ['[', ']']
  | .array (item :: items) => '[' :: (text item ++ moreItems items ++ [']'])
  | .object [] => ['\x7b', '\x7d']
  | .object ((key, value) :: members) =>
    '\x7b' :: (quote key.toList ++ ':' :: (text value ++ moreMembers members) ++ ['\x7d'])

def moreItems : List Document → List Char
  | [] => []
  | item :: items => ',' :: (text item ++ moreItems items)

def moreMembers : List (String × Document) → List Char
  | [] => []
  | (key, value) :: members =>
    ',' :: (quote key.toList ++ ':' :: (text value ++ moreMembers members))

end

theorem text_ofNumber (n : Number) : (ofNumber n).text = n.text := by
  unfold ofNumber
  split
  · simp [text, Number.text, doubleText]
  · simp [text, Number.text, doubleText]
  · simp [text]

mutual

theorem text_ofJson : ∀ j : Json, (ofJson j).text = write j
  | .null => by simp [ofJson, text, write]
  | .bool b => by cases b <;> simp [ofJson, text, write]
  | .number n => by rw [ofJson, text_ofNumber, write]
  | .string s => by rw [ofJson, text, write]
  | .array [] => by simp [ofJson, ofItems, text, write, writeItems]
  | .array (item :: items) => by
      rw [ofJson, ofItems, text, text_ofJson item, moreItems_ofItems items, write, writeItems]
  | .object [] => by simp [ofJson, ofMembers, text, write, writeMembers]
  | .object ((key, value) :: members) => by
      rw [ofJson, ofMembers, text, text_ofJson value, moreMembers_ofMembers members, write,
        writeMembers]

theorem moreItems_ofItems : ∀ items : List Json, moreItems (ofItems items) = writeMoreItems items
  | [] => by rw [ofItems, moreItems, writeMoreItems]
  | item :: items => by
      rw [ofItems, moreItems, text_ofJson item, moreItems_ofItems items, writeMoreItems]

theorem moreMembers_ofMembers :
    ∀ members : Members, moreMembers (ofMembers members) = writeMoreMembers members
  | [] => by rw [ofMembers, moreMembers, writeMoreMembers]
  | (key, value) :: members => by
      rw [ofMembers, moreMembers, text_ofJson value, moreMembers_ofMembers members, writeMoreMembers]

end

/-- Values of one document are written alike. -/
theorem write_eq_of_ofJson_eq {j j' : Json} (h : ofJson j = ofJson j') : write j = write j' := by
  rw [← text_ofJson, h, text_ofJson]

/-! ## Reading what was written -/

theorem closed_moreItems (items : List Json) (rest : List Char) :
    Closed (writeMoreItems items ++ ']' :: rest) := by
  cases items <;> exact closed_cons (by decide)

theorem closed_moreMembers (members : Members) (rest : List Char) :
    Closed (writeMoreMembers members ++ '\x7d' :: rest) := by
  cases members <;> exact closed_cons (by decide)

theorem readKey_quote (key : String) (rest : List Char) :
    readKey (quote key.toList ++ ':' :: rest) = some (key, rest) := by
  simp only [readKey, quote, List.cons_append, List.append_assoc, List.nil_append]
  rw [skipBlanks_cons (by decide)]
  simp only [readString_quoted, Option.bind_eq_bind, Option.bind_some]
  rw [skipBlanks_cons (by decide)]
  simp

theorem read_numeral {text rest : List Char} (h : IsNumeral text) (hrest : Closed rest) (fuel : Nat) :
    read (fuel + 1) (text ++ rest) = some (.number (String.ofList text), rest) := by
  have hskip := skipNumber_append h hrest
  have htake : (text ++ rest).take ((text ++ rest).length - rest.length) = text := by simp
  obtain ⟨c, cs, rfl, hc⟩ := h.exists_cons
  simp only [read, List.cons_append] at hskip htake ⊢
  rw [skipBlanks_cons (isBlank_of_begins_number hc)]
  split
  case h_7 => simp only [hskip, htake, Option.bind_eq_bind, Option.bind_some, Option.pure_def]
  -- No other kind of value begins like a number.
  all_goals
    rename_i heq
    obtain ⟨rfl, -⟩ := List.cons.inj heq
    exact absurd hc (by decide)

theorem read_null (fuel : Nat) (rest : List Char) :
    read (fuel + 1) (['n', 'u', 'l', 'l'] ++ rest) = some (.null, rest) := by
  simp only [read, List.cons_append]
  rw [skipBlanks_cons (by decide)]
  rfl

theorem read_number (n : Number) {rest : List Char} (hrest : Closed rest) (fuel : Nat) :
    read (fuel + 1) (n.text ++ rest) = some (ofNumber n, rest) := by
  unfold ofNumber
  split
  · exact read_null fuel rest
  · exact read_null fuel rest
  · next hnan hinfinite =>
    refine read_numeral ?_ hrest fuel
    match n, hnan, hinfinite with
    | .int n, _, _ => exact isNumeral_intText n
    | .double (.finite negative significand exponent), _, _ => exact isNumeral_doubleText _ _ _
    | .double .nan, hnan, _ => exact absurd rfl hnan
    | .double (.infinite negative), _, hinfinite => exact absurd rfl (hinfinite negative)

/-- A text that begins with a closing bracket is no value. -/
theorem skipBlanks_ne_bracket {fuel : Nat} {cs : List Char} (h : (read fuel cs).isSome = true)
    (rest : List Char) : skipBlanks cs ≠ ']' :: rest := by
  intro heq
  cases fuel with
  | zero => simp [read] at h
  | succ fuel =>
      rw [read, heq] at h
      cases h

theorem read_skipBlanks (fuel : Nat) (cs : List Char) : read fuel (skipBlanks cs) = read fuel cs := by
  cases fuel with
  | zero => rfl
  | succ fuel => simp only [read, skipBlanks_skipBlanks]

mutual

theorem read_write : ∀ (j : Json) (fuel : Nat) (rest : List Char), (write j).length ≤ fuel →
    Closed rest → read (fuel + 1) (write j ++ rest) = some (ofJson j, rest)
  | .null, fuel, rest, _, _ => read_null fuel rest
  | .bool b, _, _, _, _ => by
      cases b <;>
      · simp only [write, read, List.cons_append]
        rw [skipBlanks_cons (by decide)]
        rfl
  | .number n, fuel, _, _, hrest => read_number n hrest fuel
  | .string s, _, _, _, _ => by
      simp only [write, quote, read, List.cons_append, List.append_assoc, List.nil_append]
      rw [skipBlanks_cons (by decide)]
      simp only [readString_quoted]
      simp [ofJson]
  | .array [], _, _, _, _ => by
      simp only [write, writeItems, read, List.cons_append, List.nil_append]
      rw [skipBlanks_cons (by decide)]
      simp only
      rw [skipBlanks_cons (by decide)]
      rfl
  | .array (item :: items), fuel, rest, hfuel, _ => by
      simp only [write, writeItems, List.length_cons, List.length_append] at hfuel
      obtain ⟨fuel, rfl⟩ : ∃ k, fuel = k + 1 := ⟨fuel - 1, by omega⟩
      have hitem := read_write item fuel (writeMoreItems items ++ ']' :: rest) (by omega)
        (closed_moreItems items rest)
      have hitems := readMoreItems_write items fuel rest (by omega)
      have hne := skipBlanks_ne_bracket (by rw [hitem]; rfl)
      rw [← read_skipBlanks] at hitem
      rw [read]
      simp only [write, writeItems, List.cons_append, List.append_assoc, List.nil_append]
      rw [skipBlanks_cons (by decide)]
      -- `hne` settles that the array is not the empty one.
      simp only
      simp [hitem, hitems, ofJson, ofItems]
  | .object [], _, _, _, _ => by
      simp only [write, writeMembers, read, List.cons_append, List.nil_append]
      rw [skipBlanks_cons (by decide)]
      simp only
      rw [skipBlanks_cons (by decide)]
      rfl
  | .object ((key, value) :: members), fuel, rest, hfuel, _ => by
      simp only [write, writeMembers, List.length_cons, List.length_append] at hfuel
      obtain ⟨fuel, rfl⟩ : ∃ k, fuel = k + 1 := ⟨fuel - 1, by omega⟩
      have hkey := readKey_quote key
        (write value ++ (writeMoreMembers members ++ '\x7d' :: rest))
      have hvalue := read_write value fuel (writeMoreMembers members ++ '\x7d' :: rest) (by omega)
        (closed_moreMembers members rest)
      have hmembers := readMoreMembers_write members fuel rest (by omega)
      rw [read]
      simp only [write, writeMembers, quote, List.cons_append, List.append_assoc,
        List.nil_append] at hkey ⊢
      rw [skipBlanks_cons (by decide)]
      simp only
      rw [skipBlanks_cons (by decide)]
      simp [hkey, hvalue, hmembers, ofJson, ofMembers]

theorem readMoreItems_write : ∀ (items : List Json) (fuel : Nat) (rest : List Char),
    (writeMoreItems items).length ≤ fuel →
    readMoreItems (fuel + 1) (writeMoreItems items ++ ']' :: rest) = some (ofItems items, rest)
  | [], _, _, _ => by
      simp only [writeMoreItems, readMoreItems, List.nil_append]
      rw [skipBlanks_cons (by decide)]
      rfl
  | item :: items, fuel, rest, hfuel => by
      simp only [writeMoreItems, List.length_cons, List.length_append] at hfuel
      obtain ⟨fuel, rfl⟩ : ∃ k, fuel = k + 1 := ⟨fuel - 1, by omega⟩
      have hitem := read_write item fuel (writeMoreItems items ++ ']' :: rest) (by omega)
        (closed_moreItems items rest)
      have hitems := readMoreItems_write items fuel rest (by omega)
      rw [readMoreItems]
      simp only [writeMoreItems, List.cons_append, List.append_assoc]
      rw [skipBlanks_cons (by decide)]
      simp [hitem, hitems, ofItems]

theorem readMoreMembers_write : ∀ (members : Members) (fuel : Nat) (rest : List Char),
    (writeMoreMembers members).length ≤ fuel →
    readMoreMembers (fuel + 1) (writeMoreMembers members ++ '\x7d' :: rest) =
      some (ofMembers members, rest)
  | [], _, _, _ => by
      simp only [writeMoreMembers, readMoreMembers, List.nil_append]
      rw [skipBlanks_cons (by decide)]
      rfl
  | (key, value) :: members, fuel, rest, hfuel => by
      simp only [writeMoreMembers, List.length_cons, List.length_append] at hfuel
      obtain ⟨fuel, rfl⟩ : ∃ k, fuel = k + 1 := ⟨fuel - 1, by omega⟩
      have hkey := readKey_quote key
        (write value ++ (writeMoreMembers members ++ '\x7d' :: rest))
      have hvalue := read_write value fuel (writeMoreMembers members ++ '\x7d' :: rest) (by omega)
        (closed_moreMembers members rest)
      have hmembers := readMoreMembers_write members fuel rest (by omega)
      rw [readMoreMembers]
      simp only [writeMoreMembers, List.cons_append, List.append_assoc]
      rw [skipBlanks_cons (by decide)]
      simp [hkey, hvalue, hmembers, ofMembers]

end

/-- Every value is read from its compact text, with its numbers as they are spelled there. -/
theorem parse?_compact (j : Json) : parse? j.compact = some (ofJson j) := by
  have hread := read_write j (write j).length [] le_rfl (by simp [Closed])
  rw [List.append_nil] at hread
  simp only [parse?, compact, String.toList_ofList, hread, Option.bind_eq_bind, Option.bind_some]
  rfl

example : parse? "[ 1e999, \x7b \"a\" : -0.50 \x7d ]" =
    some (.array [.number "1e999", .object [("a", .number "-0.50")]]) := by rfl

end Document

end OriginTags.Json
