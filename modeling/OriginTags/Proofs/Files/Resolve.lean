import OriginTags.Proofs.Files.Spelling
import OriginTags.Proofs.Files.Walk
/-!
# Resolved paths

The laws of walks for the paths themselves: what a path resolves to, with and without following a
link at its end, where every place may be on the way or only some, and in a tree with one more entry.
-/

namespace OriginTags.FileTree

open OriginTags.Path (Proper absolute)

/-! ## Any path -/

/-- What is found in a tree by a fixed path: always nothing, or the end of a walk from the root. -/
inductive Lookup (allowed : Place → Bool) (followLast : Bool) : (FileTree → Resolution) → Prop
  | blocked : Lookup allowed followLast fun _ => .blocked
  | noDirectory : Lookup allowed followLast fun _ => .noDirectory
  | walk (path : List Char) :
      Lookup allowed followLast fun t => t.resolveFrom allowed followLast maxLinks [] (names path)

theorem lookup_resolveWithin (allowed : Place → Bool) (followLast : Bool) (path : List Char) :
    Lookup allowed followLast fun t => t.resolveWithin allowed followLast path := by
  unfold resolveWithin
  split
  · exact .blocked
  · split
    · exact .walk path
    · exact .noDirectory

theorem resolve_of_byteSize_le {path : List Char} (h : Path.byteSize path ≤ maxPathBytes)
    (t : FileTree) (followLast : Bool) :
    t.resolve followLast path = t.resolveWithin (fun _ => true) followLast path :=
  if_neg (Nat.not_lt.2 h)

/-- A path is too long, or it leads where it leads through any places. -/
theorem resolve_cases (path : List Char) :
    (∀ (t : FileTree) followLast, t.resolve followLast path = .blocked) ∨
      (Path.byteSize path ≤ maxPathBytes ∧ ∀ (t : FileTree) followLast,
        t.resolve followLast path = t.resolveWithin (fun _ => true) followLast path) := by
  by_cases hlong : maxPathBytes < Path.byteSize path
  · exact .inl fun t followLast => if_pos hlong
  · exact .inr ⟨Nat.not_lt.1 hlong, resolve_of_byteSize_le (Nat.not_lt.1 hlong)⟩

theorem lookup_resolve (followLast : Bool) (path : List Char) :
    Lookup (fun _ => true) followLast fun t => t.resolve followLast path := by
  rcases resolve_cases path with h | ⟨-, h⟩
  · simp only [h]
    exact .blocked
  · simp only [h]
    exact lookup_resolveWithin _ followLast path

section

variable {allowed : Place → Bool} {followLast : Bool} {find : FileTree → Resolution} {t : FileTree}
  {place : Place} {entry : FileEntry}

theorem Lookup.holds (h : Lookup allowed followLast find) (ht : t.WellFormed) :
    (find t).Holds t allowed := by
  cases h with
  | blocked => trivial
  | noDirectory => trivial
  | walk path =>
      exact (walk_resolveFrom t allowed followLast maxLinks [] (names path)).holds ht (get?_nil t)
        (open_nil allowed) fun n hn => no_slash_of_mem_names hn

theorem Lookup.extend (h : Lookup allowed followLast find) {t' : FileTree}
    (hextend : ∀ q e, t.get? q = some e → t'.get? q = some e) (hfound : find t = .found place entry) :
    find t' = .found place entry := by
  cases h with
  | blocked => cases hfound
  | noDirectory => cases hfound
  | walk path =>
      have hend : t.resolveFrom allowed followLast maxLinks [] (names path) = .found place entry := hfound
      have hwalk := walk_resolveFrom t allowed followLast maxLinks [] (names path)
      rw [hend] at hwalk
      exact (hwalk.extend hextend ⟨place, entry, rfl⟩).resolveFrom_eq

theorem Lookup.ne_link (h : Lookup allowed true find) (target : String) :
    find t ≠ .found place (.link target) := by
  cases h with
  | blocked => simp
  | noDirectory => simp
  | walk path => exact (walk_resolveFrom t allowed true maxLinks [] (names path)).ne_link place target

/-- What is put at the end of a path is found there. -/
theorem Lookup.put (h : Lookup allowed followLast find) (ht : t.WellFormed)
    (hentry : ∀ target, entry ≠ .link target)
    (hend : find t = .missing place ∨ ∃ content, find t = .found place (.file content)) :
    place ≠ [] ∧ find (t.put place entry) = .found place entry := by
  have hholds := h.holds ht
  have hold : t.get? place = none ∨ ∃ content, t.get? place = some (.file content) := by
    rcases hend with hmissing | ⟨content, hfound⟩
    · rw [hmissing] at hholds
      exact Or.inl hholds.1
    · rw [hfound] at hholds
      exact Or.inr ⟨content, hholds.1⟩
  have hnil : place ≠ [] := by
    rintro rfl
    simp at hold
  refine ⟨hnil, ?_⟩
  cases h with
  | blocked => simp at hend
  | noDirectory => simp at hend
  | walk path =>
      have hwalk := walk_resolveFrom t allowed followLast maxLinks [] (names path)
      refine (hwalk.put (fun q hq => ?_) ?_ hentry hold hend).resolveFrom_eq
      · rw [get?_put t hnil, if_neg hq]
      · rw [get?_put t hnil, if_pos rfl]

end

/-- Following the last link makes a difference only where there is one. -/
theorem resolveWithin_follow_last (t : FileTree) (allowed : Place → Bool) (path : List Char) :
    (∃ place target, t.resolveWithin allowed false path = .found place (.link target)) ∨
      t.resolveWithin allowed true path = t.resolveWithin allowed false path := by
  unfold resolveWithin
  split
  · exact .inr rfl
  · split
    · exact (walk_resolveFrom t allowed false maxLinks [] (names path)).follow_last.imp_right
        Walk.resolveFrom_eq
    · exact .inr rfl

theorem resolve_follow_last (t : FileTree) (path : List Char) :
    (∃ place target, t.resolve false path = .found place (.link target)) ∨
      t.resolve true path = t.resolve false path := by
  rcases resolve_cases path with h | ⟨-, h⟩
  · exact .inr (by rw [h, h])
  · rw [h, h]
    exact resolveWithin_follow_last t _ path

theorem isPresent_of_resolve {t : FileTree} {path : List Char} {place : Place} {entry : FileEntry}
    (h : t.resolve true path = .found place entry) : t.isPresent path = true := by
  rcases resolve_follow_last t path with ⟨other, target, hlink⟩ | hsame
  · simp [isPresent, hlink]
  · simp [isPresent, ← hsame, h]

theorem isPresent_eq_false {t : FileTree} {path : List Char} {r : Resolution}
    (h : t.resolve false path = r) (hr : ∀ place entry, r ≠ .found place entry) :
    t.isPresent path = false := by
  subst h
  unfold isPresent
  split
  · next place entry hfound => exact absurd hfound (hr place entry)
  · rfl

theorem resolve_true_of_not_isPresent {t : FileTree} {path : List Char}
    (h : t.isPresent path = false) : t.resolve true path = t.resolve false path := by
  rcases resolve_follow_last t path with ⟨other, target, hlink⟩ | hsame
  · simp [isPresent, hlink] at h
  · exact hsame

/-- A path that leads to nothing leads to nothing through a last link either. -/
theorem resolve_true_eq {t : FileTree} {path : List Char} {r : Resolution}
    (h : t.resolve false path = r) (hr : ∀ place entry, r ≠ .found place entry) :
    t.resolve true path = r := by
  rcases resolve_follow_last t path with ⟨place, target, hlink⟩ | hsame
  · exact absurd (h.symm.trans hlink) (hr place _)
  · rw [hsame, h]

/-- Where only some places may be on the way, a path leads where it leads through any, or nowhere. -/
theorem resolveWithin_relax {t : FileTree} {allowed : Place → Bool} {followLast : Bool}
    {path : List Char} (h : t.resolveWithin allowed followLast path ≠ .blocked) :
    t.resolveWithin (fun _ => true) followLast path = t.resolveWithin allowed followLast path := by
  unfold resolveWithin at h ⊢
  split
  · rfl
  · next hnull =>
    rw [if_neg hnull] at h
    split
    · next habsolute =>
      rw [if_pos habsolute] at h
      exact ((walk_resolveFrom t allowed followLast maxLinks [] (names path)).relax h).resolveFrom_eq
    · rfl

/-- A file is written to a file, or where there is nothing yet. -/
theorem exists_put_of_write {t after : FileTree} {path : List Char} {content : String}
    (h : t.write path content = some after) :
    ∃ place, (t.resolve true path = .missing place ∨
        ∃ old, t.resolve true path = .found place (.file old)) ∧
      after = t.put place (.file content) := by
  unfold FileTree.write at h
  split at h
  · rename_i place old hfound
    exact ⟨place, Or.inr ⟨old, hfound⟩, (Option.some.inj h).symm⟩
  · rename_i place hmissing
    exact ⟨place, Or.inl hmissing, (Option.some.inj h).symm⟩
  · cases h

/-! ## Paths with proper names -/

theorem ofComponents_absolute (ns : List String) :
    Path.ofComponents (absolute ns) = placeText ns :=
  Path.ofComponents_absolute ns

theorem components_placeText {ns : List String} (h : ∀ n ∈ ns, Proper n) :
    Path.components (placeText ns) = absolute ns := by
  rw [← ofComponents_absolute, Path.components_absolute h]

theorem placeText_append (ns more : List String) : placeText ns <+: placeText (ns ++ more) := by
  by_cases hns : ns = []
  · exact ⟨['/'].intercalate (more.map String.toList), by simp [hns, placeText]⟩
  · by_cases hmore : more = []
    · exact ⟨[], by simp [hmore]⟩
    · rw [placeText, placeText, List.map_append,
        Text.intercalate_append _ (by simpa using hns) (by simpa using hmore), List.append_assoc]
      exact List.prefix_append ('/' :: _) _

theorem placeText_concat {place : Place} (h : place ≠ []) (name : String) :
    placeText (place ++ [name]) = placeText place ++ '/' :: name.toList := by
  rw [placeText, placeText, List.map_append,
    Text.intercalate_append _ (by simpa using h) (by simp)]
  simp

theorem byteSize_placeText_concat {place : Place} (h : place ≠ []) (name : String) :
    Path.byteSize (placeText (place ++ [name])) =
      Path.byteSize (placeText place) + 1 + Path.byteSize name.toList := by
  have hslash : Path.charBytes '/' = [0x2f] := by decide
  rw [placeText_concat h]
  simp only [Path.byteSize, Path.bytes, List.flatMap_append, List.flatMap_cons, hslash,
    List.length_append, List.length_singleton]
  omega

theorem byteSize_mono {a b : List Char} (h : a <+: b) : Path.byteSize a ≤ Path.byteSize b := by
  obtain ⟨more, rfl⟩ := h
  simp [Path.byteSize, Path.bytes]

theorem isReachable_of_prefix {place before : Place} (h : isReachable place = true)
    (hbefore : before <+: place) : isReachable before = true := by
  obtain ⟨more, rfl⟩ := hbefore
  exact decide_eq_true (Nat.le_trans (byteSize_mono (placeText_append before more))
    (of_decide_eq_true h))

theorem names_placeText {ns : List String} (h : ∀ n ∈ ns, Proper n) (hne : ns ≠ []) :
    names (placeText ns) = "" :: ns := by
  have hslash : ∀ s ∈ ns.map String.toList, '/' ∉ s := by
    intro s hs
    obtain ⟨n, hn, rfl⟩ := List.mem_map.1 hs
    exact (h n hn).no_slash
  have hsegments : (['/'].intercalate (ns.map String.toList)).splitOn '/' = ns.map String.toList :=
    List.splitOn_intercalate '/' hslash (by simpa using hne)
  simp [names, placeText, List.splitOn_cons_eq_if_modifyHead, hsegments, Function.comp_def]

theorem resolveWithin_placeText {ns : List String} (h : ∀ n ∈ ns, Proper n)
    (hnull : '\x00' ∉ placeText ns) (t : FileTree) (allowed : Place → Bool) (followLast : Bool) :
    t.resolveWithin allowed followLast (placeText ns) =
      t.resolveFrom allowed followLast maxLinks [] ns := by
  have hcontains : (placeText ns).contains '\x00' = false := by simpa using hnull
  have habsolute : Path.isAbsolute (placeText ns) = true := rfl
  rw [resolveWithin, hcontains, if_neg Bool.false_ne_true, if_pos habsolute]
  by_cases hne : ns = []
  · subst hne
    rfl
  · rw [names_placeText h hne]
    rfl

/-- The text of a place leads to it, if the way there is open. -/
theorem resolveWithin_placeText_of_open {t : FileTree} (ht : t.WellFormed) {allowed : Place → Bool}
    {place : Place} {entry : FileEntry} (hopen : Open allowed place) (hget : t.get? place = some entry)
    (hentry : ∀ target, entry ≠ .link target) (hnull : '\x00' ∉ placeText place) :
    t.resolveWithin allowed true (placeText place) = .found place entry := by
  rw [resolveWithin_placeText hopen.proper hnull]
  exact (walk_along ht 40 hentry (get?_nil t) hopen hget).resolveFrom_eq

/-- The way to a path leads through the path before its last name. -/
theorem resolveWithin_concat (t : FileTree) (allowed : Place → Bool) {ns : List String}
    {name : String} (h : ∀ n ∈ ns ++ [name], Proper n) (hnull : '\x00' ∉ placeText (ns ++ [name])) :
    t.resolveWithin allowed false (placeText (ns ++ [name])) =
      (t.resolveWithin allowed true (placeText ns)).enter t allowed name := by
  have hns : ∀ n ∈ ns, Proper n := fun n hn => h n (List.mem_append_left _ hn)
  have hnull' : '\x00' ∉ placeText ns := fun hmem => hnull ((placeText_append ns [name]).subset hmem)
  rw [resolveWithin_placeText h hnull, resolveWithin_placeText hns hnull']
  exact ((walk_resolveFrom t allowed true maxLinks [] ns).concat (h name (by simp))).resolveFrom_eq

theorem null_not_mem_of_resolve {t : FileTree} {followLast : Bool} {path : List Char}
    (h : t.resolve followLast path ≠ .blocked) : '\x00' ∉ path := by
  intro hmem
  rcases resolve_cases path with hblocked | ⟨-, hresolve⟩
  · exact h (hblocked t followLast)
  · rw [hresolve, resolveWithin, if_pos (by simpa using hmem)] at h
    exact h rfl

theorem resolve_concat (t : FileTree) {ns : List String} {name : String}
    (h : ∀ n ∈ ns ++ [name], Proper n) :
    t.resolve false (placeText (ns ++ [name])) = .blocked ∨
      t.resolve false (placeText (ns ++ [name])) =
        (t.resolve true (placeText ns)).enter t (fun _ => true) name := by
  by_cases hblocked : t.resolve false (placeText (ns ++ [name])) = .blocked
  · exact .inl hblocked
  · right
    have hnull := null_not_mem_of_resolve hblocked
    rcases resolve_cases (placeText (ns ++ [name])) with hlong | ⟨hsize, hresolve⟩
    · exact absurd (hlong t false) hblocked
    · -- If the longer text is short enough for a path, the shorter one is.
      have hshort : Path.byteSize (placeText ns) ≤ maxPathBytes :=
        Nat.le_trans (byteSize_mono (placeText_append ns [name])) hsize
      rw [hresolve, resolveWithin_concat t _ h hnull, resolve_of_byteSize_le hshort]

/-! ## Canonical paths -/

theorem canonicalize_eq_some_iff {t : FileTree} {path text : List Char} :
    t.canonicalize path = some text ↔
      ∃ place entry, t.resolveWithin isReachable true path = .found place entry ∧
        placeText place = text := by
  unfold canonicalize
  cases t.resolveWithin isReachable true path <;> simp

/-- What is found by a canonical path, in any way of looking it up. -/
structure Canonical (t : FileTree) (text : List Char) (place : Place) (entry : FileEntry) : Prop where
  eq_placeText : text = placeText place
  open_place : Open isReachable place
  resolves : t.resolve true text = .found place entry
  found : t.resolveWithin isReachable true text = .found place entry

theorem isReachable_of_open {place : Place} (h : Open isReachable place) :
    isReachable place = true := by
  cases place using List.reverseRecOn with
  | nil => decide
  | append_singleton before name => exact (h before name List.prefix_rfl).2.2

/-- A canonical path leads to the place that it spells. -/
theorem exists_canonical {t : FileTree} (ht : t.WellFormed) {text : List Char}
    (h : t.canonicalize text = some text) : ∃ place entry, Canonical t text place entry := by
  obtain ⟨place, entry, hfound, htext⟩ := canonicalize_eq_some_iff.1 h
  have hholds := (lookup_resolveWithin isReachable true text).holds ht
  rw [hfound] at hholds
  have hsize : Path.byteSize text ≤ maxPathBytes :=
    htext ▸ of_decide_eq_true (isReachable_of_open hholds.2)
  have hblocked : t.resolveWithin isReachable true text ≠ .blocked := by simp [hfound]
  have hresolves : t.resolve true text = .found place entry := by
    rw [resolve_of_byteSize_le hsize, resolveWithin_relax hblocked, hfound]
  exact ⟨place, entry, htext.symm, hholds.2, hresolves, hfound⟩

/-- A path that spells the place that it leads to is canonical. -/
theorem canonical_of_resolve {t : FileTree} (ht : t.WellFormed) {text : List Char} {place : Place}
    {entry : FileEntry} (hresolves : t.resolve true text = .found place entry)
    (htext : text = placeText place) : Canonical t text place entry := by
  have hlookup := lookup_resolve true text
  have hholds := hlookup.holds ht
  rw [hresolves] at hholds
  have hreachable : isReachable place = true := by
    rcases resolve_cases text with hlong | ⟨hsize, -⟩
    · simp [hlong] at hresolves
    · exact decide_eq_true (htext ▸ hsize)
  have hopen : Open isReachable place := fun before name hprefix =>
    ⟨(hholds.2 before name hprefix).1, (hholds.2 before name hprefix).2.1,
      isReachable_of_prefix hreachable hprefix⟩
  have hentry : ∀ target, entry ≠ .link target := by
    rintro target rfl
    exact hlookup.ne_link target hresolves
  have hnull : '\x00' ∉ placeText place :=
    htext ▸ null_not_mem_of_resolve (by rw [hresolves]; simp)
  refine ⟨htext, hopen, hresolves, ?_⟩
  rw [htext, resolveWithin_placeText_of_open ht hopen hholds.1 hentry hnull]

theorem Canonical.canonicalize_eq {t : FileTree} {text : List Char} {place : Place}
    {entry : FileEntry} (h : Canonical t text place entry) : t.canonicalize text = some text :=
  canonicalize_eq_some_iff.2 ⟨place, entry, h.found, h.eq_placeText.symm⟩

theorem Canonical.extend {t t' : FileTree} {text : List Char} {place : Place} {entry : FileEntry}
    (h : Canonical t text place entry) (hextend : ∀ q e, t.get? q = some e → t'.get? q = some e) :
    Canonical t' text place entry :=
  ⟨h.eq_placeText, h.open_place, (lookup_resolve true text).extend hextend h.resolves,
    (lookup_resolveWithin isReachable true text).extend hextend h.found⟩

/-- A path with all links followed is canonical, if it holds no null character. -/
theorem canonicalize_canonicalize {t : FileTree} (ht : t.WellFormed) {path text : List Char}
    (h : t.canonicalize path = some text) (hnull : '\x00' ∉ text) :
    t.canonicalize text = some text := by
  obtain ⟨place, entry, hfound, rfl⟩ := canonicalize_eq_some_iff.1 h
  have hlookup := lookup_resolveWithin isReachable true path
  have hholds := hlookup.holds ht
  rw [hfound] at hholds
  have hentry : ∀ target, entry ≠ .link target := by
    rintro target rfl
    exact hlookup.ne_link target hfound
  exact canonicalize_eq_some_iff.2
    ⟨place, entry, resolveWithin_placeText_of_open ht hholds.2 hholds.1 hentry hnull, rfl⟩

end OriginTags.FileTree
