import OriginTags.Json.Basic
/-!
# Statistics

The counters of a run and what is reported of a single file.
-/

namespace OriginTags

structure Statistics where
  totalFiles : Nat := 0
  processedFiles : Nat := 0
  totalElements : Nat := 0
  errors : Nat := 0
  /-- How often each element was tagged, by name. -/
  byElementType : Dictionary Nat := .empty
deriving Inhabited

/-- What is reported of a file after its elements were tagged. -/
structure FileReport where
  filePath : String
  elementCount : Nat
  /-- The different names, in the order of their first use. -/
  elements : List String
deriving DecidableEq, Repr

/-- Names without repetitions, in the order of their first use; `seen` holds earlier ones. -/
def distinctNames : (seen : List String) → List String → List String
  | seen, [] => seen.reverse
  | seen, name :: names =>
    if seen.contains name then distinctNames seen names else distinctNames (name :: seen) names

/-- The report of a file with the names of its tagged elements. -/
def FileReport.ofTagged (filePath : String) (tagged : List String) : FileReport :=
  { filePath, elementCount := tagged.length, elements := distinctNames [] tagged }

namespace Statistics

/-- Counts a name once more. -/
def countName (counts : Dictionary Nat) (name : String) : Dictionary Nat :=
  counts.insert name ((counts.get? name).getD 0 + 1)

/-- Counts a file whose elements were tagged. -/
def commit (s : Statistics) (tagged : List String) : Statistics :=
  { s with
    processedFiles := s.processedFiles + 1
    totalElements := s.totalElements + tagged.length
    byElementType := tagged.foldl countName s.byElementType }

/-- Whether an entry comes before another one: by count, then by name. -/
def ranksBefore (a b : String × Nat) : Bool :=
  b.2 < a.2 || (a.2 == b.2 && a.1 ≤ b.1)

def summaryNames : Nat := 5

/-- The names that were tagged most often, with their counts. -/
def mostTagged (s : Statistics) : List (String × Nat) :=
  (s.byElementType.entries.mergeSort ranksBefore).take summaryNames

/-- The counters in words. -/
def summary (s : Statistics) : String :=
  let top := String.intercalate ", " (s.mostTagged.map fun (name, count) => name ++ "=" ++ toString count)
  "tagged " ++ toString s.totalElements ++ " elements in " ++ toString s.processedFiles ++ "/" ++
    toString s.totalFiles ++ " files (" ++ toString s.errors ++ " errors)" ++
    (if top.isEmpty then "" else "; most tagged: " ++ top)

/-- An order in which the counts of names are written. It may be any, and another one each time. -/
structure Order where
  arrange : Dictionary Nat → List (String × Nat)
  perm : ∀ counts, (arrange counts).Perm counts.entries

def Order.sorted : Order := ⟨Dictionary.entries, fun _ => .refl _⟩

/-- The counters as a JSON object. -/
def toJson (s : Statistics) (order : Order := .sorted) : Json :=
  .object
    [("totalFiles", .ofNat s.totalFiles),
     ("processedFiles", .ofNat s.processedFiles),
     ("totalElements", .ofNat s.totalElements),
     ("errors", .ofNat s.errors),
     ("byElementType",
      .object ((order.arrange s.byElementType).map fun (name, count) => (name, .ofNat count)))]

end Statistics

end OriginTags
