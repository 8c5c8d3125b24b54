import OriginTags.Json.Reader
/-!
# Skipping JSON

What nobody looks at only has to be well-formed: a skipped number may be of any size, and a skipped
escape need not name a character.
-/

namespace OriginTags.Json

open Text (readUnit)

/-- The characters after a string, whose opening quote has been read. -/
def skipString : List Char → Option (List Char)
  | [] => none
  | '"' :: rest => some rest
  | '\\' :: 'u' :: a :: b :: c :: d :: rest =>
    if (readUnit [a, b, c, d]).isSome then skipString rest else none
  | '\\' :: c :: rest => if "\"\\/bfnrt".toList.contains c then skipString rest else none
  | c :: rest => if c.toNat < 0x20 then none else skipString rest

def skipFraction : List Char → Option (List Char)
  | '.' :: rest =>
    match spanDigits rest with
    | ([], _) => none
    | (_, rest) => some rest
  | rest => some rest

def skipExponent : List Char → Option (List Char)
  | 'e' :: rest | 'E' :: rest => (readExponent rest).map Prod.snd
  | rest => some rest

def skipNumber (cs : List Char) : Option (List Char) :=
  match spanDigits (Text.stripLead? ['-'] cs |>.getD cs) with
  | ([], _) => none
  | ('0' :: _ :: _, _) => none
  | (_, rest) => (skipFraction rest).bind skipExponent

mutual

/-- The characters after a value; `fuel` bounds the number of steps. -/
def skipValue : (fuel : Nat) → List Char → Option (List Char)
  | 0, _ => none
  | fuel + 1, cs =>
    match skipBlanks cs with
    | '"' :: rest => skipString rest
    | '[' :: rest =>
      match skipBlanks rest with
      | ']' :: rest => some rest
      | rest => skipItems fuel rest
    | '\x7b' :: rest =>
      match skipBlanks rest with
      | '\x7d' :: rest => some rest
      | rest => skipMembers fuel rest
    | 't' :: rest => Text.stripLead? "rue".toList rest
    | 'f' :: rest => Text.stripLead? "alse".toList rest
    | 'n' :: rest => Text.stripLead? "ull".toList rest
    | rest => skipNumber rest

/-- The characters after one or more items and the closing bracket. -/
def skipItems : (fuel : Nat) → List Char → Option (List Char)
  | 0, _ => none
  | fuel + 1, cs => do
    match skipBlanks (← skipValue fuel cs) with
    | ']' :: rest => return rest
    | ',' :: rest => skipItems fuel rest
    | _ => none

/-- The characters after one or more members and the closing brace. -/
def skipMembers : (fuel : Nat) → List Char → Option (List Char)
  | 0, _ => none
  | fuel + 1, cs => do
    let '"' :: rest := skipBlanks cs | none
    let ':' :: rest := skipBlanks (← skipString rest) | none
    match skipBlanks (← skipValue fuel rest) with
    | '\x7d' :: rest => return rest
    | ',' :: rest => skipMembers fuel rest
    | _ => none

end

end OriginTags.Json
