import OriginTags.Decimal.Binary64
import OriginTags.Dictionary
/-!
# JSON values

The members of an object are a list of pairs. Objects that the library builds are canonical: their
keys are sorted by bytes and distinct. A document that was read keeps its members as written.
-/

namespace OriginTags

/-- A JSON number: an integer, or a double for everything written with a fraction or an exponent
and for integers beyond 64 bits. -/
inductive Json.Number
  | int (n : Int)
  | double (x : Binary64)
deriving DecidableEq, Repr

inductive Json
  | null
  | bool (b : Bool)
  | number (n : Json.Number)
  | string (s : String)
  | array (items : List Json)
  | object (members : List (String × Json))
deriving Repr, Inhabited

namespace Json

abbrev Members := List (String × Json)

def ofNat (n : Nat) : Json := .number (.int n)

/-- A double as a value: JSON has no text for the numbers that are not finite. -/
def ofDouble : Binary64 → Json
  | .finite negative significand exponent => .number (.double (.finite negative significand exponent))
  | _ => .null

namespace Members

def get? (members : Members) (key : String) : Option Json :=
  members.lookup key

def insert (key : String) (value : Json) (members : Members) : Members :=
  Dictionary.insertEntry key value members

/-- Sorted members with the given entries; of two entries with one key the later one counts. -/
def ofList (entries : List (String × Json)) : Members :=
  entries.foldl (fun members entry => insert entry.1 entry.2 members) []

end Members

mutual

def canonical : Json → Json
  | .array items => .array (canonicalItems items)
  | .object members => .object (Members.ofList (canonicalMembers members))
  | other => other

def canonicalItems : List Json → List Json
  | [] => []
  | item :: items => canonical item :: canonicalItems items

def canonicalMembers : List (String × Json) → List (String × Json)
  | [] => []
  | (key, value) :: members => (key, canonical value) :: canonicalMembers members

end

end Json

end OriginTags
