import OriginTags.Dictionary
/-!
# Looking up in dictionaries

What a dictionary holds under a key after another key was set or another dictionary was merged into it, and
that a dictionary is known once all its look-ups are.
-/

namespace OriginTags.Dictionary

variable {α : Type}

theorem lookup_cons_eq (entry : String × α) (rest : List (String × α)) (name : String) :
    (entry :: rest).lookup name = if name = entry.1 then some entry.2 else rest.lookup name := by
  rw [List.lookup_cons]
  by_cases hname : name = entry.1
  · simp [hname]
  · simp [hname, beq_false_of_ne hname]

theorem lookup_insertEntry (key name : String) (value : α)
    (entries : List (String × α)) :
    (insertEntry key value entries).lookup name =
      if name = key then some value else entries.lookup name := by
  induction entries with
  | nil => rw [insertEntry, lookup_cons_eq]
  | cons entry rest ih =>
      unfold insertEntry
      split
      · next hkey =>
        subst hkey
        rw [lookup_cons_eq, lookup_cons_eq]
        split <;> rfl
      · next hkey =>
        split
        · rw [lookup_cons_eq]
        · -- The entry stays in front, and its key is not the one that is set.
          rw [lookup_cons_eq, lookup_cons_eq, ih]
          split
          · next hname => rw [if_neg (hname ▸ Ne.symm hkey)]
          · rfl

theorem insertEntry_ne_nil (key : String) (value : α) (entries : List (String × α)) :
    insertEntry key value entries ≠ [] := by
  intro hnil
  have hlookup := lookup_insertEntry key key value entries
  rw [hnil, if_pos rfl] at hlookup
  cases hlookup

theorem get?_insert (d : Dictionary α) (key name : String) (value : α) :
    (d.insert key value).get? name = if name = key then some value else d.get? name :=
  lookup_insertEntry key name value d.entries

theorem lookup_eq_none_of_forall_lt {key : String} {entries : List (String × α)}
    (h : ∀ e ∈ entries, key < e.1) : entries.lookup key = none := by
  rw [List.lookup_eq_none_iff]
  intro e he
  simpa using fun heq : key = e.1 => String.lt_irrefl key (by simpa [← heq] using h e he)

theorem insertEntry_perm {key : String} {value : α} {entries : List (String × α)}
    (h : key ∉ entries.map Prod.fst) :
    (insertEntry key value entries).Perm ((key, value) :: entries) := by
  induction entries with
  | nil => exact List.Perm.refl _
  | cons entry rest ih =>
      have hne : key ≠ entry.1 := fun heq => h (heq ▸ List.mem_cons_self)
      have hrest := ih fun hmem => h (List.mem_cons_of_mem _ hmem)
      simp only [insertEntry, if_neg hne]
      split
      · exact List.Perm.refl _
      · exact (hrest.cons entry).trans (List.Perm.swap _ _ _)

/-! ## Equal look-ups -/

/-- A list does not begin with a key before all those of another one that answers for it alike. -/
theorem not_lt_of_lookup_eq {a b : String × α} {as bs : List (String × α)}
    (hb : (b :: bs).Pairwise fun x y => x.1 < y.1)
    (h : (a :: as).lookup a.1 = (b :: bs).lookup a.1) : ¬ a.1 < b.1 := by
  intro hlt
  have hnone : (b :: bs).lookup a.1 = none := by
    refine lookup_eq_none_of_forall_lt fun e he => ?_
    rcases List.mem_cons.1 he with rfl | he
    · exact hlt
    · exact String.lt_trans hlt ((List.pairwise_cons.1 hb).1 e he)
  rw [hnone, lookup_cons_eq, if_pos rfl] at h
  cases h

theorem eq_of_lookup_eq {as bs : List (String × α)} (ha : as.Pairwise fun x y => x.1 < y.1)
    (hb : bs.Pairwise fun x y => x.1 < y.1) (h : ∀ key, as.lookup key = bs.lookup key) :
    as = bs := by
  induction as generalizing bs with
  | nil =>
      cases bs with
      | nil => rfl
      | cons b bs =>
          have hfirst := h b.1
          rw [lookup_cons_eq, if_pos rfl] at hfirst
          cases hfirst
  | cons a as ih =>
      cases bs with
      | nil =>
          have hfirst := h a.1
          rw [lookup_cons_eq, if_pos rfl] at hfirst
          cases hfirst
      | cons b bs =>
          have hkey : a.1 = b.1 := String.le_antisymm
            (String.not_lt.1 (not_lt_of_lookup_eq ha (h b.1).symm))
            (String.not_lt.1 (not_lt_of_lookup_eq hb (h a.1)))
          have hvalue : a.2 = b.2 := by
            have hfirst := h a.1
            rw [lookup_cons_eq, lookup_cons_eq, if_pos rfl, if_pos hkey] at hfirst
            exact Option.some.inj hfirst
          obtain ⟨hfirst, hrest⟩ := List.pairwise_cons.1 ha
          obtain ⟨hfirst', hrest'⟩ := List.pairwise_cons.1 hb
          have htail : as = bs := by
            refine ih hrest hrest' fun key => ?_
            have hlookup := h key
            rw [lookup_cons_eq, lookup_cons_eq, ← hkey] at hlookup
            by_cases hsame : key = a.1
            · -- Neither tail has the first key again.
              rw [hsame, lookup_eq_none_of_forall_lt hfirst,
                lookup_eq_none_of_forall_lt (hkey ▸ hfirst')]
            · rwa [if_neg hsame, if_neg hsame] at hlookup
          rw [htail, Prod.ext hkey hvalue]

theorem ext_get? {d d' : Dictionary α} (h : ∀ key, d.get? key = d'.get? key) : d = d' := by
  obtain ⟨entries, hsorted⟩ := d
  obtain ⟨entries', hsorted'⟩ := d'
  obtain rfl : entries = entries' := eq_of_lookup_eq hsorted hsorted' h
  rfl

/-! ## Keys -/

theorem mem_keys_iff (d : Dictionary α) (name : String) :
    name ∈ d.keys ↔ (d.get? name).isSome = true := by
  rw [keys, List.mem_map, get?, List.lookup_isSome_iff]
  constructor
  · rintro ⟨entry, hentry, rfl⟩
    exact ⟨entry, hentry, beq_self_eq_true _⟩
  · rintro ⟨entry, hentry, hname⟩
    exact ⟨entry, hentry, (eq_of_beq hname).symm⟩

theorem mem_keys_insert (d : Dictionary α) (key name : String) (value : α) :
    name ∈ (d.insert key value).keys ↔ name = key ∨ name ∈ d.keys := by
  rw [mem_keys_iff, mem_keys_iff, get?_insert]
  split
  · next hname => simp [hname]
  · next hname => simp [hname]

/-! ## Merged dictionaries -/

theorem get?_foldl_insert {entries : List (String × α)}
    (h : entries.Pairwise fun a b => a.1 < b.1) (d : Dictionary α) (name : String) :
    (entries.foldl (fun d entry => d.insert entry.1 entry.2) d).get? name =
      (entries.lookup name <|> d.get? name) := by
  induction entries generalizing d with
  | nil => rfl
  | cons entry rest ih =>
      obtain ⟨hfirst, hrest⟩ := List.pairwise_cons.1 h
      rw [List.foldl_cons, ih hrest, get?_insert, lookup_cons_eq]
      by_cases hname : name = entry.1
      · -- The key of an entry is not set again by those behind it.
        have hnone : rest.lookup name = none := lookup_eq_none_of_forall_lt (hname ▸ hfirst)
        rw [if_pos hname, if_pos hname, hnone]
        rfl
      · rw [if_neg hname, if_neg hname]

theorem get?_merge (upper base : Dictionary α) (name : String) :
    (upper.merge base).get? name = (upper.get? name <|> base.get? name) :=
  get?_foldl_insert upper.sorted base name

theorem merge_empty (upper : Dictionary α) : upper.merge empty = upper := by
  refine ext_get? fun name => ?_
  rw [get?_merge]
  cases upper.get? name <;> rfl

theorem merge_self (d : Dictionary α) : d.merge d = d := by
  refine ext_get? fun name => ?_
  rw [get?_merge]
  cases d.get? name <;> rfl

theorem merge_assoc (a b c : Dictionary α) : (a.merge b).merge c = a.merge (b.merge c) := by
  refine ext_get? fun name => ?_
  simp only [get?_merge]
  cases a.get? name <;> rfl

end OriginTags.Dictionary
