import OriginTags.Proofs.Tagging.History
import OriginTags.Proofs.Text.ByteOrder
import Mathlib.Data.List.Forall2
import Mathlib.Data.List.Sort
/-!
# Summaries

A summary lists the names that were tagged most often. No two entries have the same rank, so there is
only one list of the first ones: it depends neither on the order in which names were counted nor on the
order in which the counts are visited.
-/

namespace OriginTags.Statistics

/-! ## Ranks -/

/-- An entry ranks before another one if its count is larger, or if the counts are the same and the
bytes of its name are smaller. -/
def Precedes (a b : String × Nat) : Prop :=
  b.2 < a.2 ∨ a.2 = b.2 ∧ Text.bytes a.1.toList < Text.bytes b.1.toList

instance (a b : String × Nat) : Decidable (Precedes a b) := inferInstanceAs (Decidable (_ ∨ _))

theorem precedes_iff {a b : String × Nat} : Precedes a b ↔ b.2 < a.2 ∨ a.2 = b.2 ∧ a.1 < b.1 := by
  rw [Precedes, Text.bytes_lt_iff, ← String.lt_iff_toList_lt]

theorem ranksBefore_iff {a b : String × Nat} : ranksBefore a b = true ↔ Precedes a b ∨ a = b := by
  rw [precedes_iff, Prod.ext_iff, ranksBefore, Bool.or_eq_true, Bool.and_eq_true, decide_eq_true_iff,
    beq_iff_eq, decide_eq_true_iff, le_iff_lt_or_eq]
  tauto

instance : IsStrictTotalOrder (String × Nat) Precedes where
  irrefl a h := by
    rcases precedes_iff.1 h with hcount | ⟨-, hname⟩
    · exact Nat.lt_irrefl _ hcount
    · exact String.lt_irrefl _ hname
  trans a b c hab hbc := by
    rw [precedes_iff] at hab hbc ⊢
    rcases hab with hab | ⟨hab, hab'⟩ <;> rcases hbc with hbc | ⟨hbc, hbc'⟩
    · exact .inl (by omega)
    · exact .inl (by omega)
    · exact .inl (by omega)
    · exact .inr ⟨hab.trans hbc, String.lt_trans hab' hbc'⟩
  trichotomous a b hab hba := by
    rw [precedes_iff, not_or, not_and] at hab hba
    have hcount : a.2 = b.2 := by omega
    exact Prod.ext (le_antisymm (not_lt.1 (hba.2 hcount.symm)) (not_lt.1 (hab.2 hcount))) hcount

theorem ranksBefore_trans (a b c : String × Nat) (hab : ranksBefore a b = true)
    (hbc : ranksBefore b c = true) : ranksBefore a c = true := by
  rw [ranksBefore_iff] at hab hbc ⊢
  rcases hab with hab | rfl
  · rcases hbc with hbc | rfl
    · exact .inl (trans_of Precedes hab hbc)
    · exact .inl hab
  · exact hbc

theorem ranksBefore_total (a b : String × Nat) : (ranksBefore a b || ranksBefore b a) = true := by
  rw [Bool.or_eq_true, ranksBefore_iff, ranksBefore_iff]
  rcases trichotomous_of Precedes a b with h | h | h
  · exact .inl (.inl h)
  · exact .inl (.inr h)
  · exact .inr (.inl h)

/-! ## First entries -/

/-- Entries of a dictionary are its first ones, up to some number of them: they stand in the order of
their ranks, and each of them ranks before all entries that are left out. -/
structure FirstOf (counts : Dictionary Nat) (limit : Nat) (top : List (String × Nat)) : Prop where
  length_eq : top.length = min limit counts.size
  ranked : top.Pairwise Precedes
  subset : top ⊆ counts.entries
  before : ∀ e ∈ top, ∀ other ∈ counts.entries, other ∉ top → Precedes e other

namespace FirstOf

variable {counts : Dictionary Nat} {limit : Nat} {top top' : List (String × Nat)}

theorem nodup (h : FirstOf counts limit top) : top.Nodup := h.ranked.nodup

/-- An entry that only one of two lists has would leave room for another one, and each would rank
before the other. -/
theorem subset_of (h : FirstOf counts limit top) (h' : FirstOf counts limit top') : top ⊆ top' := by
  intro e he
  by_contra hmissing
  obtain ⟨other, hother, hnot⟩ : ∃ other ∈ top', other ∉ top := by
    by_contra hall
    have hsubset : top' ⊆ top := fun x hx => by_contra fun hx' => hall ⟨x, hx, hx'⟩
    have hperm : top'.Perm top :=
      (List.subperm_of_subset h'.nodup hsubset).perm_of_length_le (by rw [h.length_eq, h'.length_eq])
    exact hmissing (hperm.mem_iff.2 he)
  have hfirst := h.before e he other (h'.subset hother) hnot
  have hsecond := h'.before other hother e (h.subset he) hmissing
  exact asymm_of Precedes hfirst hsecond

/-- There is one list of first entries. -/
theorem unique (h : FirstOf counts limit top) (h' : FirstOf counts limit top') : top = top' := by
  have hperm : top.Perm top' :=
    (List.perm_ext_iff_of_nodup h.nodup h'.nodup).2 fun e =>
      ⟨fun he => h.subset_of h' he, fun he => h'.subset_of h he⟩
  exact hperm.eq_of_pairwise' h.ranked h'.ranked

end FirstOf

theorem nodup_entries (counts : Dictionary Nat) : counts.entries.Nodup :=
  List.Nodup.of_map Prod.fst (List.pairwise_map.2 counts.sorted).nodup

/-- The first entries of a dictionary are found by sorting, in whatever order they are visited. -/
theorem firstOf_take_mergeSort {counts : Dictionary Nat} {visited : List (String × Nat)}
    (h : visited.Perm counts.entries) (limit : Nat) :
    FirstOf counts limit ((visited.mergeSort ranksBefore).take limit) := by
  have hperm : (visited.mergeSort ranksBefore).Perm counts.entries :=
    (List.mergeSort_perm visited ranksBefore).trans h
  have hranked : (visited.mergeSort ranksBefore).Pairwise Precedes := by
    have hsorted := List.pairwise_mergeSort ranksBefore_trans ranksBefore_total visited
    have hnodup : (visited.mergeSort ranksBefore).Nodup := hperm.nodup_iff.2 (nodup_entries counts)
    refine (hsorted.and hnodup).imp fun ⟨hranks, hne⟩ => ?_
    exact (ranksBefore_iff.1 hranks).resolve_right hne
  refine ⟨?_, hranked.take, fun e he => hperm.subset (List.mem_of_mem_take he), ?_⟩
  · rw [List.length_take, hperm.length_eq, Dictionary.size]
  · intro e he other hother hnot
    rw [← List.take_append_drop limit (visited.mergeSort ranksBefore)] at hranked hperm
    have hrest : other ∈ (visited.mergeSort ranksBefore).drop limit :=
      (List.mem_append.1 (hperm.mem_iff.2 hother)).resolve_left hnot
    exact (List.pairwise_append.1 hranked).2.2 e he other hrest

/-! ## Texts -/

/-- An entry in words. -/
def entryText (e : String × Nat) : String := e.1 ++ "=" ++ toString e.2

/-- What a summary says of the entries that it lists. -/
def listText : List (String × Nat) → String
  | [] => ""
  | top => "; most tagged: " ++ String.intercalate ", " (top.map entryText)

/-- The summary that lists some entries. -/
def summaryListing (s : Statistics) (top : List (String × Nat)) : String :=
  "tagged " ++ toString s.totalElements ++ " elements in " ++ toString s.processedFiles ++ "/" ++
    toString s.totalFiles ++ " files (" ++ toString s.errors ++ " errors)" ++ listText top

/-- The summary as it is made when the counts are visited in some order. -/
def summaryVisiting (s : Statistics) (visited : List (String × Nat)) : String :=
  s.summaryListing ((visited.mergeSort ranksBefore).take summaryNames)

theorem summary_eq_summaryListing (s : Statistics) : s.summary = s.summaryListing s.mostTagged := by
  unfold summary summaryListing
  cases s.mostTagged with
  | nil => rfl
  | cons e rest =>
      simp only [listText]
      exact congrArg _ (if_neg (by simp))

/-! ## Commits -/

/-- The same commits in another order, with the names of each of them in another order. -/
def Rearranged (commits commits' : List (List String)) : Prop :=
  ∃ reordered, commits.Perm reordered ∧ List.Forall₂ List.Perm reordered commits'

theorem commit_perm (s : Statistics) {names names' : List String} (h : names.Perm names') :
    s.commit names = s.commit names' := by
  rw [commit, commit, h.length_eq, h.foldl_eq]

theorem commit_comm (s : Statistics) (first second : List String) :
    (s.commit first).commit second = (s.commit second).commit first := by
  simp only [commit, foldl_countName_comm first second]
  congr 1
  omega

instance : RightCommutative commit := ⟨commit_comm⟩

theorem foldl_commit_rearranged {commits commits' : List (List String)}
    (h : Rearranged commits commits') (s : Statistics) :
    commits.foldl commit s = commits'.foldl commit s := by
  obtain ⟨reordered, hperm, hnames⟩ := h
  have hcommit : ∀ s s' : Statistics, s = s' → ∀ names names' : List String, names.Perm names' →
      s.commit names = s'.commit names' := by
    rintro s _ rfl names names' hnames
    exact s.commit_perm hnames
  exact (hperm.foldl_eq s).trans (List.rel_foldl hcommit rfl hnames)

/-! ## Summaries -/

/-- A summary lists five entries, or all if there are fewer: the first ones by count and then by name,
in a strict total order of entries. It is the same text in whatever order the counts are visited, and in
whatever order the files were counted and each of them had its names. -/
theorem summary_lists_first (start : Statistics) :
    IsStrictTotalOrder (String × Nat) Precedes ∧
      (∀ commits : List (List String), ∃ top,
        FirstOf (commits.foldl commit start).byElementType 5 top ∧
          (commits.foldl commit start).summary =
            (commits.foldl commit start).summaryListing top) ∧
      ∀ (commits commits' : List (List String)) (visited : List (String × Nat)),
        Rearranged commits commits' →
        visited.Perm (commits.foldl commit start).byElementType.entries →
        (commits.foldl commit start).summaryVisiting visited =
          (commits'.foldl commit start).summary := by
  refine ⟨inferInstance, fun commits => ?_, fun commits commits' visited hrearranged hvisited => ?_⟩
  · exact ⟨_, firstOf_take_mergeSort (List.Perm.refl _) 5, summary_eq_summaryListing _⟩
  · rw [← foldl_commit_rearranged hrearranged, summary_eq_summaryListing, summaryVisiting]
    have hfirst := firstOf_take_mergeSort hvisited summaryNames
    have hfirst' := firstOf_take_mergeSort
      (List.Perm.refl (commits.foldl commit start).byElementType.entries) summaryNames
    rw [hfirst.unique hfirst', mostTagged]

/-- Seven names, six of them with the same count, that are counted and visited in two orders. -/
theorem summary_lists_first_ties :
    let commits := [["é", "b", "a", "b"], ["z", "e", "d", "c"]]
    let commits' := [["c", "d", "e", "z"], ["b", "b", "a", "é"]]
    let visited := [("é", 1), ("z", 1), ("e", 1), ("d", 1), ("c", 1), ("b", 2), ("a", 1)]
    let counted : Statistics := commits.foldl commit {}
    Rearranged commits commits' ∧ visited.Perm counted.byElementType.entries ∧
      counted.summaryVisiting visited = (commits'.foldl commit {}).summary ∧
      (commits'.foldl commit {}).summary =
        "tagged 8 elements in 2/0 files (0 errors); most tagged: b=2, a=1, c=1, d=1, e=1" := by
  intro commits commits' visited counted
  have hrearranged : Rearranged commits commits' :=
    ⟨commits.reverse, (List.reverse_perm commits).symm,
      .cons (by decide) (.cons (by decide) .nil)⟩
  have hvisited : visited.Perm counted.byElementType.entries := by decide
  have hfirst : FirstOf (commits'.foldl commit {}).byElementType 5
      [("b", 2), ("a", 1), ("c", 1), ("d", 1), ("e", 1)] :=
    ⟨by decide, by decide, by decide, by decide⟩
  obtain ⟨top, htop, hsummary⟩ := (summary_lists_first {}).2.1 commits'
  refine ⟨hrearranged, hvisited, (summary_lists_first {}).2.2 _ _ _ hrearranged hvisited, ?_⟩
  rw [hsummary, htop.unique hfirst]
  decide +kernel

end OriginTags.Statistics
