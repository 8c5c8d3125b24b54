import Mathlib.Data.List.Nodup
import OriginTags.Proofs.Dictionary
import OriginTags.Proofs.Json.RoundTrip
import OriginTags.Tagging.Statistics
/-!
# Statistics as JSON

The counters of a run can be read back from their JSON text, in whatever order it has the names.
-/

namespace OriginTags

/-! ## Dictionaries -/

namespace Dictionary

variable {α : Type}

theorem insertEntry_of_forall_lt {key : String} {value : α} {entries : List (String × α)}
    (h : ∀ e ∈ entries, e.1 < key) : insertEntry key value entries = entries ++ [(key, value)] := by
  induction entries with
  | nil => rfl
  | cons entry rest ih =>
      have hentry := h entry List.mem_cons_self
      have hne : key ≠ entry.1 := fun heq => String.lt_irrefl _ (heq ▸ hentry)
      have hlt : ¬ key < entry.1 := fun hlt => String.lt_irrefl _ (String.lt_trans hlt hentry)
      have hrest := ih fun e he => h e (List.mem_cons_of_mem _ he)
      simp [insertEntry, hne, hlt, hrest]

theorem entries_foldl_insert (d : Dictionary α) (entries : List (String × α))
    (h : (d.entries ++ entries).Pairwise fun a b => a.1 < b.1) :
    (entries.foldl (fun d entry => d.insert entry.1 entry.2) d).entries = d.entries ++ entries := by
  induction entries generalizing d with
  | nil => simp
  | cons entry rest ih =>
      have hlast : ∀ e ∈ d.entries, e.1 < entry.1 := fun e he =>
        (List.pairwise_append.1 h).2.2 e he entry List.mem_cons_self
      have hinsert : (d.insert entry.1 entry.2).entries = d.entries ++ [entry] :=
        insertEntry_of_forall_lt hlast
      rw [List.foldl_cons, ih, hinsert, List.append_assoc, List.singleton_append]
      rwa [hinsert, List.append_assoc, List.singleton_append]

/-- A dictionary is made of its entries. -/
theorem ofList_entries (d : Dictionary α) : ofList d.entries = d := by
  have hentries : (ofList d.entries).entries = d.entries :=
    entries_foldl_insert empty d.entries d.sorted
  cases hlist : ofList d.entries
  cases d
  simp_all

theorem insert_comm (d : Dictionary α) {key key' : String} (hne : key ≠ key') (value value' : α) :
    (d.insert key value).insert key' value' = (d.insert key' value').insert key value := by
  refine ext_get? fun name => ?_
  simp only [get?_insert]
  by_cases hname : name = key
  · rw [if_pos hname, if_pos hname, if_neg (hname ▸ hne)]
  · rw [if_neg hname, if_neg hname]

/-- A key has one value. -/
theorem eq_of_key_eq (d : Dictionary α) {a b : String × α} (ha : a ∈ d.entries)
    (hb : b ∈ d.entries) (hkey : a.1 = b.1) : a = b := by
  have hnodup : (d.entries.map Prod.fst).Nodup :=
    List.Pairwise.map _ (fun _ _ hlt heq => String.lt_irrefl _ (heq ▸ hlt)) d.sorted
  exact List.inj_on_of_nodup_map hnodup ha hb hkey

/-- A dictionary is made of its entries in any order. -/
theorem ofList_perm {d : Dictionary α} {entries : List (String × α)}
    (h : entries.Perm d.entries) : ofList entries = d := by
  rw [← ofList_entries d, ofList, ofList]
  refine h.foldl_eq' (fun a ha b hb z => ?_) empty
  -- Two entries are one, or they have different keys.
  by_cases hkey : a.1 = b.1
  · rw [eq_of_key_eq d (h.subset ha) (h.subset hb) hkey]
  · exact insert_comm z hkey a.2 b.2

end Dictionary

/-! ## Counters -/

namespace Statistics

/-- The natural number that a value is. -/
def nat? : Json → Option Nat
  | .number (.int (.ofNat n)) => some n
  | _ => none

/-- A member with a counter. -/
def count? (member : String × Json) : Option (String × Nat) := do
  let n ← nat? member.2
  return (member.1, n)

/-- Reads counters from an object that has just the five members of counters. -/
def ofJson? : Json → Option Statistics
  | .object members => do
    if members.length ≠ 5 then none
    let totalFiles ← nat? (← Json.Members.get? members "totalFiles")
    let processedFiles ← nat? (← Json.Members.get? members "processedFiles")
    let totalElements ← nat? (← Json.Members.get? members "totalElements")
    let errors ← nat? (← Json.Members.get? members "errors")
    let .object counts ← Json.Members.get? members "byElementType" | none
    let byElementType := Dictionary.ofList (← counts.mapM count?)
    return { totalFiles, processedFiles, totalElements, errors, byElementType }
  | _ => none

/-- Counters that fit into a machine word. -/
structure Fits (s : Statistics) : Prop where
  totalFiles : s.totalFiles < 2 ^ 64
  processedFiles : s.processedFiles < 2 ^ 64
  totalElements : s.totalElements < 2 ^ 64
  errors : s.errors < 2 ^ 64
  byElementType : ∀ e ∈ s.byElementType.entries, e.2 < 2 ^ 64

theorem fitsWord_ofNat {n : Nat} (h : n < 2 ^ 64) : Json.FitsWord n := by
  unfold Json.FitsWord
  omega

theorem readableMembers_counts {entries : List (String × Nat)} (h : ∀ e ∈ entries, e.2 < 2 ^ 64)
    (depth : Nat) :
    Json.ReadableMembers (entries.map fun (name, count) => (name, .ofNat count)) depth := by
  induction entries with
  | nil => trivial
  | cons e entries ih =>
      exact ⟨fitsWord_ofNat (h e List.mem_cons_self), ih fun e he => h e (List.mem_cons_of_mem _ he)⟩

theorem mapM_count? (entries : List (String × Nat)) :
    (entries.map fun (name, count) => (name, Json.ofNat count)).mapM count? = some entries := by
  induction entries with
  | nil => rfl
  | cons e entries ih =>
      rw [List.map_cons, List.mapM_cons, ih]
      rfl

theorem ofJson?_toJson (s : Statistics) (order : Order) : ofJson? (s.toJson order) = some s := by
  have hcounts := mapM_count? (order.arrange s.byElementType)
  have hnat : ∀ n : Nat, nat? (.ofNat n) = some n := fun _ => rfl
  simp [ofJson?, toJson, Json.Members.get?, List.lookup_cons, hnat, hcounts,
    Dictionary.ofList_perm (order.perm _), -List.mapM_map]

/-- The indented text of counters reads back as the counters. -/
theorem parse?_toJson {s : Statistics} (h : s.Fits) (order : Order) :
    Json.parse? (s.toJson order).pretty = some (s.toJson order) := by
  have hcounts : ∀ e ∈ order.arrange s.byElementType, e.2 < 2 ^ 64 := fun e he =>
    h.byElementType e ((order.perm _).subset he)
  exact Json.parse?_pretty ⟨by decide, fitsWord_ofNat h.totalFiles, fitsWord_ofNat h.processedFiles,
    fitsWord_ofNat h.totalElements, fitsWord_ofNat h.errors,
    ⟨by decide, readableMembers_counts hcounts _⟩, trivial⟩

end Statistics

end OriginTags
