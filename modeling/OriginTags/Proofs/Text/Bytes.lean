import OriginTags.Text.Bytes
/-!
# Boundaries of texts

A boundary splits a text in two, and its offset is the size of the first half. Everything that cuts
or searches a text by byte offsets is described by such a split.
-/

namespace OriginTags.Text

/-! ## Sizes -/

@[simp] theorem byteSize_nil : byteSize [] = 0 := rfl

@[simp] theorem byteSize_cons (c : Char) (cs : List Char) :
    byteSize (c :: cs) = c.utf8Size + byteSize cs := rfl

@[simp] theorem byteSize_append (a b : List Char) : byteSize (a ++ b) = byteSize a + byteSize b := by
  induction a with
  | nil => simp
  | cons c cs ih => simp [ih, Nat.add_assoc]

theorem length_le_byteSize (cs : List Char) : cs.length ≤ byteSize cs := by
  induction cs with
  | nil => exact Nat.le_refl 0
  | cons c cs ih =>
      have hc := c.utf8Size_pos
      rw [List.length_cons, byteSize_cons]
      omega

theorem byteSize_le_of_suffix {a b : List Char} (h : a <:+ b) : byteSize a ≤ byteSize b := by
  obtain ⟨lead, rfl⟩ := h
  simp

/-! ## Splits -/

theorem takeBytes_append_dropBytes (cs : List Char) (n : Nat) :
    takeBytes cs n ++ dropBytes cs n = cs := by
  induction cs generalizing n with
  | nil => rfl
  | cons c cs ih =>
      simp only [takeBytes, dropBytes]
      split
      · rfl
      · rw [List.cons_append, ih]

theorem byteSize_takeBytes (cs : List Char) (n : Nat) :
    byteSize (takeBytes cs n) = floorBoundary cs n := by
  induction cs generalizing n with
  | nil => rfl
  | cons c cs ih =>
      simp only [takeBytes, floorBoundary]
      split
      · rfl
      · rw [byteSize_cons, ih]

theorem takeBytes_append (a b : List Char) : takeBytes (a ++ b) (byteSize a) = a := by
  induction a with
  | nil =>
      cases b with
      | nil => rfl
      | cons c cs => simp [takeBytes, c.utf8Size_pos]
  | cons c cs ih => simp [takeBytes, ih]

theorem dropBytes_append (a b : List Char) : dropBytes (a ++ b) (byteSize a) = b := by
  have h := takeBytes_append_dropBytes (a ++ b) (byteSize a)
  rw [takeBytes_append] at h
  exact List.append_cancel_left h

theorem floorBoundary_append (a b : List Char) : floorBoundary (a ++ b) (byteSize a) = byteSize a := by
  rw [← byteSize_takeBytes, takeBytes_append]

/-! ## Boundaries -/

theorem isBoundary_append (a b : List Char) : isBoundary (a ++ b) (byteSize a) = true := by
  induction a with
  | nil => cases b <;> rfl
  | cons c cs ih =>
      have hc := c.utf8Size_pos
      obtain ⟨n, hn⟩ : ∃ n, byteSize (c :: cs) = n + 1 := ⟨byteSize (c :: cs) - 1, by simp; omega⟩
      simp only [byteSize_cons] at hn
      have hrest : n + 1 - c.utf8Size = byteSize cs := by omega
      simp only [List.cons_append, byteSize_cons, hn, isBoundary, hrest, ih]
      simp; omega

theorem exists_split_of_isBoundary {cs : List Char} {n : Nat} (h : isBoundary cs n = true) :
    ∃ a b, cs = a ++ b ∧ byteSize a = n := by
  fun_induction isBoundary cs n with
  | case1 cs => exact ⟨[], cs, rfl, rfl⟩
  | case2 n => exact absurd h (by simp)
  | case3 c cs n hlt => exact absurd h (by simp)
  | case4 c cs n hle ih =>
      obtain ⟨a, b, rfl, ha⟩ := ih h
      exact ⟨c :: a, b, rfl, by rw [byteSize_cons, ha]; omega⟩

/-- A boundary is the size of the first half of a split. -/
theorem isBoundary_iff {cs : List Char} {n : Nat} :
    isBoundary cs n = true ↔ ∃ a b, cs = a ++ b ∧ byteSize a = n := by
  constructor
  · exact exists_split_of_isBoundary
  · rintro ⟨a, b, rfl, rfl⟩
    exact isBoundary_append a b

theorem isBoundary_floorBoundary (cs : List Char) (n : Nat) :
    isBoundary cs (floorBoundary cs n) = true :=
  isBoundary_iff.2 ⟨_, _, (takeBytes_append_dropBytes cs n).symm, byteSize_takeBytes cs n⟩

theorem floorBoundary_of_isBoundary {cs : List Char} {n : Nat} (h : isBoundary cs n = true) :
    floorBoundary cs n = n := by
  obtain ⟨a, b, rfl, rfl⟩ := exists_split_of_isBoundary h
  exact floorBoundary_append a b

/-! ## Parts of a text -/

/-- A slice stands in its text, at its start. -/
theorem exists_split_of_slice? {cs part : List Char} {start stop : Nat}
    (h : slice? cs start stop = some part) :
    ∃ a b, cs = a ++ part ++ b ∧ byteSize a = start := by
  simp only [slice?] at h
  split at h
  case isFalse => cases h
  case isTrue hcond =>
    obtain ⟨a, b, rfl, rfl⟩ : ∃ a b, cs = a ++ b ∧ byteSize a = start :=
      exists_split_of_isBoundary (by simp at hcond; exact hcond.1.2)
    rw [dropBytes_append] at h
    cases h
    refine ⟨a, dropBytes b (stop - byteSize a), ?_, rfl⟩
    rw [List.append_assoc, takeBytes_append_dropBytes]

theorem slice?_append (a part b : List Char) :
    slice? (a ++ (part ++ b)) (byteSize a) (byteSize a + byteSize part) = some part := by
  have hstart := isBoundary_append a (part ++ b)
  have hstop := isBoundary_append (a ++ part) b
  rw [byteSize_append, List.append_assoc] at hstop
  rw [slice?, hstart, hstop, dropBytes_append]
  simp [takeBytes_append]

theorem stripLead?_eq_some {lead cs rest : List Char} :
    stripLead? lead cs = some rest ↔ cs = lead ++ rest := by
  fun_induction stripLead? lead cs with
  | case1 cs => simp
  | case2 => simp
  | case3 c cs lead ih => simp [ih]
  | case4 l lead c cs hne => simp [Ne.symm hne]

theorem occursIn_iff_infix {part cs : List Char} : occursIn part cs = true ↔ part <:+: cs := by
  induction cs with
  | nil => simp [occursIn]
  | cons c cs ih =>
      rw [occursIn, Bool.or_eq_true, ih, startsWith, List.isPrefixOf_iff_prefix,
        List.infix_cons_iff]

/-- The last occurrence of a part is an occurrence. -/
theorem exists_of_lastOccurrence? {part cs : List Char} {n : Nat}
    (h : lastOccurrence? part cs = some n) : ∃ a b, cs = a ++ (part ++ b) ∧ byteSize a = n := by
  induction cs generalizing n with
  | nil =>
      simp only [lastOccurrence?, Option.ite_none_right_eq_some, Option.some.injEq,
        List.isEmpty_iff] at h
      exact ⟨[], [], by simp [h.1], h.2⟩
  | cons c cs ih =>
      simp only [lastOccurrence?] at h
      split at h
      case h_1 k hk =>
        obtain ⟨a, b, rfl, rfl⟩ := ih hk
        cases h
        exact ⟨c :: a, b, rfl, rfl⟩
      case h_2 =>
        simp only [startsWith, Option.ite_none_right_eq_some, Option.some.injEq,
          List.isPrefixOf_iff_prefix] at h
        obtain ⟨⟨b, hb⟩, hn⟩ := h
        exact ⟨[], b, hb.symm, hn⟩

theorem exists_split_of_lastOccurrence? {part cs : List Char} {n : Nat}
    (h : lastOccurrence? part cs = some n) : ∃ a b, cs = a ++ b ∧ byteSize a = n := by
  obtain ⟨a, b, hsplit, hn⟩ := exists_of_lastOccurrence? h
  exact ⟨a, part ++ b, hsplit, hn⟩

theorem lastOccurrence?_eq_none {part cs : List Char} (h : cs.length < part.length) :
    lastOccurrence? part cs = none := by
  cases hlast : lastOccurrence? part cs with
  | none => rfl
  | some n =>
      obtain ⟨a, b, rfl, -⟩ := exists_of_lastOccurrence? hlast
      simp only [List.length_append] at h
      omega

/-- A part that a text ends with has its last occurrence there. -/
theorem lastOccurrence?_append {part : List Char} (hpart : part ≠ []) (a : List Char) :
    lastOccurrence? part (a ++ part) = some (byteSize a) := by
  induction a with
  | nil =>
      obtain ⟨c, cs, rfl⟩ := List.exists_cons_of_ne_nil hpart
      have hnone : lastOccurrence? (c :: cs) cs = none := lastOccurrence?_eq_none (by simp)
      simp [lastOccurrence?, hnone, startsWith]
  | cons c cs ih => simp [lastOccurrence?, ih]

/-- Two first halves of one size are the same. -/
theorem append_inj_of_byteSize {a b a' b' : List Char} (h : a ++ b = a' ++ b')
    (hsize : byteSize a = byteSize a') : a = a' ∧ b = b' := by
  have ha : a = a' := by rw [← takeBytes_append a b, h, hsize, takeBytes_append]
  subst ha
  exact ⟨rfl, List.append_cancel_left h⟩

/-- The shorter one of two first halves is the beginning of the other. -/
theorem exists_append_of_byteSize_le {a b a' b' : List Char} (h : a ++ b = a' ++ b')
    (hsize : byteSize a ≤ byteSize a') : ∃ mid, a' = a ++ mid ∧ b = mid ++ b' := by
  rcases List.append_eq_append_iff.1 h with ⟨mid, rfl, rfl⟩ | ⟨mid, rfl, rfl⟩
  · exact ⟨mid, rfl, rfl⟩
  · rw [byteSize_append] at hsize
    have hmid : mid.length = 0 := by
      have := length_le_byteSize mid
      omega
    obtain rfl := List.eq_nil_of_length_eq_zero hmid
    exact ⟨[], by simp, by simp⟩

theorem le_floorBoundary {a b : List Char} {n : Nat} (h : byteSize a ≤ n) :
    byteSize a ≤ floorBoundary (a ++ b) n := by
  induction a generalizing n with
  | nil => exact Nat.zero_le _
  | cons c cs ih =>
      simp only [byteSize_cons] at h
      have hrest := ih (show byteSize cs ≤ n - c.utf8Size by omega)
      simp only [List.cons_append, floorBoundary, byteSize_cons]
      rw [if_neg (by omega)]
      omega

theorem floorBoundary_le (cs : List Char) (n : Nat) : floorBoundary cs n ≤ n := by
  induction cs generalizing n with
  | nil => exact Nat.zero_le n
  | cons c cs ih =>
      have hrest := ih (n - c.utf8Size)
      simp only [floorBoundary]
      split <;> omega

theorem le_floorBoundary_of_isBoundary {cs : List Char} {m n : Nat} (h : isBoundary cs m = true)
    (hle : m ≤ n) : m ≤ floorBoundary cs n := by
  obtain ⟨a, b, rfl, rfl⟩ := exists_split_of_isBoundary h
  exact le_floorBoundary hle

/-- No character has more than four bytes, so a boundary is near. -/
theorem sub_three_le_floorBoundary {cs : List Char} {n : Nat} (h : n ≤ byteSize cs) :
    n - 3 ≤ floorBoundary cs n := by
  induction cs generalizing n with
  | nil =>
      rw [byteSize_nil] at h
      omega
  | cons c cs ih =>
      have hc := c.utf8Size_le_four
      simp only [floorBoundary]
      split
      · omega
      · rw [byteSize_cons] at h
        have hrest := ih (n := n - c.utf8Size) (by omega)
        omega

theorem slice?_floorBoundary (cs : List Char) (n : Nat) :
    slice? cs 0 (floorBoundary cs n) = some (takeBytes cs n) := by
  have h := slice?_append [] (takeBytes cs n) (dropBytes cs n)
  rwa [takeBytes_append_dropBytes, byteSize_takeBytes, byteSize_nil, List.nil_append,
    Nat.zero_add] at h

theorem replaceChar_of_not_mem {old new : Char} {cs : List Char} (h : old ∉ cs) :
    replaceChar old new cs = cs := by
  have hkept : ∀ c ∈ cs, (if c = old then new else c) = c := by
    intro c hc
    have hne : c ≠ old := by
      rintro rfl
      exact h hc
    rw [if_neg hne]
  rw [replaceChar, List.map_congr_left hkept, List.map_id']

/-! ## Joined texts -/

theorem intercalate_append (sep : List Char) {first second : List (List Char)} (hfirst : first ≠ [])
    (hsecond : second ≠ []) :
    sep.intercalate (first ++ second) = sep.intercalate first ++ sep ++ sep.intercalate second := by
  induction first with
  | nil => exact absurd rfl hfirst
  | cons s rest ih =>
      by_cases hrest : rest = []
      · rw [hrest, List.singleton_append, List.intercalate_cons_of_ne_nil hsecond,
          List.intercalate_singleton]
      · rw [List.cons_append, List.intercalate_cons_of_ne_nil (by simp [hrest]), ih hrest,
          List.intercalate_cons_of_ne_nil hrest]
        simp only [List.append_assoc]

end OriginTags.Text
