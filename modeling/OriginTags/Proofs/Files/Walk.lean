import Mathlib.Data.List.Induction
import OriginTags.Files.Tree
import OriginTags.Proofs.Files.Path
/-!
# Walks through a file tree

The resolution of a path as a relation, with a rule for each kind of name on the way. What a walk
meets, what one more name leads to and how a changed tree changes a walk are all read off the rules.
-/

namespace OriginTags.FileTree

open OriginTags.Path (Proper)

/-! ## Trees -/

/-- Everything stands in a directory. -/
def WellFormed (t : FileTree) : Prop :=
  ∀ place entry, place ≠ [] → t.get? place = some entry → t.get? place.dropLast = some .directory

@[simp] theorem get?_nil (t : FileTree) : t.get? [] = some .directory := by
  simp [get?]

theorem mem_of_lookup_eq_some {entries : List (Place × FileEntry)} {place : Place}
    {entry : FileEntry} (h : entries.lookup place = some entry) : (place, entry) ∈ entries := by
  obtain ⟨before, after, rfl, -⟩ := List.lookup_eq_some_iff.1 h
  simp

/-- A tree is well-formed if what it lists stands in directories. -/
theorem wellFormed_of_entries {t : FileTree}
    (h : ∀ e ∈ t.entries, t.get? e.1.dropLast = some .directory) : t.WellFormed := by
  intro place entry hplace hget
  rw [get?, if_neg hplace] at hget
  exact h _ (mem_of_lookup_eq_some hget)

theorem lookup_map_replace (entries : List (Place × FileEntry)) (place other : Place)
    (entry : FileEntry) :
    (entries.map fun e => if e.1 = place then (place, entry) else e).lookup other =
      if other = place then (entries.lookup place).map fun _ => entry else entries.lookup other := by
  induction entries with
  | nil => simp
  | cons e entries ih =>
      obtain ⟨p, old⟩ := e
      by_cases hp : p = place
      · by_cases hother : other = place
        · simp [hp, hother]
        · have hbeq : (other == place) = false := by simpa using hother
          simp [List.lookup_cons, hp, hother, hbeq, ih]
      · have hbeq : (place == p) = false := by simpa using fun heq => hp heq.symm
        by_cases hother : other = place
        · simp only [hother, if_true] at ih
          simp [List.lookup_cons, hp, hother, hbeq, ih]
        · simp [List.lookup_cons, hp, hother, ih]

theorem get?_put_of_ne_nil (t : FileTree) (place : Place) (entry : FileEntry) {other : Place}
    (hother : other ≠ []) :
    (t.put place entry).get? other = if other = place then some entry else t.get? other := by
  unfold put
  cases hold : t.entries.lookup place with
  | some old =>
      simp only [Option.isSome_some, if_true, get?, hother, if_false, lookup_map_replace, hold,
        Option.map_some]
  | none =>
      simp only [Option.isSome_none, Bool.false_eq_true, if_false, get?, hother, List.lookup_append]
      by_cases hsame : other = place
      · simp [hsame, hold]
      · have hbeq : (other == place) = false := by simpa using hsame
        simp [List.lookup_cons, hsame, hbeq]

/-- A tree changes only where something is put. -/
theorem get?_put (t : FileTree) {place : Place} (hplace : place ≠ []) (entry : FileEntry)
    (other : Place) :
    (t.put place entry).get? other = if other = place then some entry else t.get? other := by
  by_cases hnil : other = []
  · simp [hnil, Ne.symm hplace]
  · exact get?_put_of_ne_nil t place entry hnil

/-- A new directory in a directory leaves the tree well-formed. -/
theorem WellFormed.put_directory {t : FileTree} (h : t.WellFormed) {place : Place}
    (hnil : place ≠ []) (hnone : t.get? place = none)
    (hparent : t.get? place.dropLast = some .directory) : (t.put place .directory).WellFormed := by
  intro other entry hother hget
  rw [get?_put t hnil] at hget ⊢
  by_cases hsame : other = place
  · subst hsame
    have hne : other.dropLast ≠ other := by
      intro heq
      have hlength := congrArg List.length heq
      have hpos := List.length_pos_iff.2 hnil
      simp only [List.length_dropLast] at hlength
      omega
    rw [if_neg hne, hparent]
  · rw [if_neg hsame] at hget
    have hold := h other entry hother hget
    -- Whatever is in the new place now, it is a directory.
    split
    · rfl
    · exact hold

/-- Nothing stands below a place that holds nothing. -/
theorem WellFormed.get?_concat_of_none {t : FileTree} (h : t.WellFormed) {place : Place}
    (hnone : t.get? place = none) (name : String) : t.get? (place ++ [name]) = none := by
  cases hget : t.get? (place ++ [name]) with
  | none => rfl
  | some entry =>
      have hparent := h _ entry (by simp) hget
      rw [List.dropLast_concat, hnone] at hparent
      exact absurd hparent (by simp)

/-- What something stands below is a directory. -/
theorem WellFormed.get?_of_append {t : FileTree} (h : t.WellFormed) {place below : Place}
    (hbelow : below ≠ []) {entry : FileEntry} (hget : t.get? (place ++ below) = some entry) :
    t.get? place = some .directory := by
  induction below using List.reverseRecOn generalizing entry with
  | nil => exact absurd rfl hbelow
  | append_singleton below name ih =>
      rw [← List.append_assoc] at hget
      have hparent := h _ entry (by simp) hget
      rw [List.dropLast_concat] at hparent
      by_cases hnil : below = []
      · rwa [hnil, List.append_nil] at hparent
      · exact ih hnil hparent

/-! ## Walks -/

/-- A name that leads from a directory to an entry of it. -/
structure Enters (allowed : Place → Bool) (place : Place) (name : String) : Prop where
  ne_empty : name ≠ ""
  ne_dot : name ≠ "."
  ne_dots : name ≠ ".."
  short : isShort name = true
  allowed : allowed (place ++ [name]) = true

/-- The walk from a place along some names, through at most `links` links, and how it ends. -/
inductive Walk (t : FileTree) (allowed : Place → Bool) (followLast : Bool) :
    (links : Nat) → Place → List String → Resolution → Prop
  | exhausted {place names} : Walk t allowed followLast 0 place names .blocked
  | arrive {links place} : Walk t allowed followLast (links + 1) place [] (.found place .directory)
  | skip {links place name rest r} (hname : name = "" ∨ name = ".")
      (h : Walk t allowed followLast (links + 1) place rest r) :
      Walk t allowed followLast (links + 1) place (name :: rest) r
  | up {links place rest r} (h : Walk t allowed followLast (links + 1) place.dropLast rest r) :
      Walk t allowed followLast (links + 1) place (".." :: rest) r
  | refused {links place name rest} (hname : name ≠ "" ∧ name ≠ "." ∧ name ≠ "..")
      (hrefused : (isShort name && allowed (place ++ [name])) = false) :
      Walk t allowed followLast (links + 1) place (name :: rest) .blocked
  | missing {links place name} (hname : Enters allowed place name)
      (hget : t.get? (place ++ [name]) = none) :
      Walk t allowed followLast (links + 1) place [name] (.missing (place ++ [name]))
  | lost {links place name rest} (hname : Enters allowed place name)
      (hget : t.get? (place ++ [name]) = none) (hrest : rest ≠ []) :
      Walk t allowed followLast (links + 1) place (name :: rest) .noDirectory
  | enter {links place name rest r} (hname : Enters allowed place name)
      (hget : t.get? (place ++ [name]) = some .directory)
      (h : Walk t allowed followLast (links + 1) (place ++ [name]) rest r) :
      Walk t allowed followLast (links + 1) place (name :: rest) r
  | file {links place name content} (hname : Enters allowed place name)
      (hget : t.get? (place ++ [name]) = some (.file content)) :
      Walk t allowed followLast (links + 1) place [name] (.found (place ++ [name]) (.file content))
  | throughFile {links place name rest content} (hname : Enters allowed place name)
      (hget : t.get? (place ++ [name]) = some (.file content)) (hrest : rest ≠ []) :
      Walk t allowed followLast (links + 1) place (name :: rest) .blocked
  | stop {links place name target} (hname : Enters allowed place name)
      (hget : t.get? (place ++ [name]) = some (.link target)) (hlast : followLast = false) :
      Walk t allowed followLast (links + 1) place [name] (.found (place ++ [name]) (.link target))
  | follow {links place name rest target r} (hname : Enters allowed place name)
      (hget : t.get? (place ++ [name]) = some (.link target))
      (hlast : rest = [] → followLast = true)
      (h : Walk t allowed followLast links (if Path.isAbsolute target.toList then [] else place)
        (names target.toList ++ rest) r) :
      Walk t allowed followLast (links + 1) place (name :: rest) r

section

variable {t : FileTree} {allowed : Place → Bool} {followLast : Bool} {links : Nat} {place : Place}

theorem resolveFrom_enters {name : String} (hname : Enters allowed place name) (rest : List String) :
    t.resolveFrom allowed followLast (links + 1) place (name :: rest) =
      match t.get? (place ++ [name]) with
      | none => if rest.isEmpty then .missing (place ++ [name]) else .noDirectory
      | some .directory => t.resolveFrom allowed followLast (links + 1) (place ++ [name]) rest
      | some (.file content) =>
        if rest.isEmpty then .found (place ++ [name]) (.file content) else .blocked
      | some (.link target) =>
        if rest.isEmpty && !followLast then .found (place ++ [name]) (.link target)
        else t.resolveFrom allowed followLast links (if Path.isAbsolute target.toList then [] else place)
          (names target.toList ++ rest) := by
  have hstep : t.resolveFrom allowed followLast (links + 1) place (name :: rest) =
      t.follow allowed (t.resolveFrom allowed followLast links) followLast place (name :: rest) := rfl
  rw [hstep]
  simp only [FileTree.follow, hname.ne_empty, hname.ne_dot, hname.ne_dots, hname.short, hname.allowed,
    decide_false, Bool.or_self, Bool.and_self, Bool.false_eq_true, if_false, if_true]
  rfl

/-- A walk ends as the resolution says. -/
theorem Walk.resolveFrom_eq {names : List String} {r : Resolution}
    (h : Walk t allowed followLast links place names r) :
    t.resolveFrom allowed followLast links place names = r := by
  induction h with
  | exhausted => rfl
  | arrive => rfl
  | skip hname _ ih =>
      rw [← ih]
      rcases hname with rfl | rfl <;> rfl
  | up _ ih =>
      rw [← ih]
      rfl
  | refused hname hrefused => simp [resolveFrom, FileTree.follow, hname, hrefused]
  | missing hname hget => simp [resolveFrom_enters hname, hget]
  | lost hname hget hrest => simp [resolveFrom_enters hname, hget, hrest]
  | enter hname hget _ ih => simp [resolveFrom_enters hname, hget, ih]
  | file hname hget => simp [resolveFrom_enters hname, hget]
  | throughFile hname hget hrest => simp [resolveFrom_enters hname, hget, hrest]
  | stop hname hget hlast => simp [resolveFrom_enters hname, hget, hlast]
  | @follow links place name rest target r hname hget hlast _ ih =>
      have hgo : (rest.isEmpty && !followLast) = false := by
        cases rest with
        | nil => simp [hlast rfl]
        | cons _ _ => rfl
      simp only [resolveFrom_enters hname, hget, hgo, Bool.false_eq_true, if_false, ih]

/-- Every resolution is a walk. -/
theorem walk_resolveFrom (t : FileTree) (allowed : Place → Bool) (followLast : Bool) (links : Nat)
    (place : Place) (names : List String) :
    Walk t allowed followLast links place names
      (t.resolveFrom allowed followLast links place names) := by
  induction links generalizing place names with
  | zero => exact .exhausted
  | succ links ihLinks =>
      induction names generalizing place with
      | nil => exact .arrive
      | cons name rest ihRest =>
          by_cases hskip : name = "" ∨ name = "."
          · have hresult : t.resolveFrom allowed followLast (links + 1) place (name :: rest) =
                t.resolveFrom allowed followLast (links + 1) place rest := by
              rcases hskip with rfl | rfl <;> rfl
            rw [hresult]
            exact .skip hskip (ihRest place)
          by_cases hup : name = ".."
          · subst hup
            exact .up (ihRest place.dropLast)
          obtain ⟨hempty, hdot⟩ := not_or.1 hskip
          cases hallowed : isShort name && allowed (place ++ [name]) with
          | false =>
              have hwalk : Walk t allowed followLast (links + 1) place (name :: rest) .blocked :=
                .refused ⟨hempty, hdot, hup⟩ hallowed
              rw [hwalk.resolveFrom_eq]
              exact hwalk
          | true =>
              -- Any other name is looked up.
              obtain ⟨hshort, hplace⟩ := Bool.and_eq_true_iff.1 hallowed
              have hname : Enters allowed place name := ⟨hempty, hdot, hup, hshort, hplace⟩
              rw [resolveFrom_enters hname]
              cases hget : t.get? (place ++ [name]) with
              | none =>
                  cases rest with
                  | nil => exact .missing hname hget
                  | cons next more => exact .lost hname hget (List.cons_ne_nil _ _)
              | some entry =>
                  cases entry with
                  | directory => exact .enter hname hget (ihRest (place ++ [name]))
                  | file content =>
                      cases rest with
                      | nil => exact .file hname hget
                      | cons next more => exact .throughFile hname hget (List.cons_ne_nil _ _)
                  | link target =>
                      cases rest with
                      | nil =>
                          cases followLast with
                          | false => exact .stop hname hget rfl
                          | true => exact .follow hname hget (fun _ => rfl) (ihLinks _ _)
                      | cons next more => exact .follow hname hget (by simp) (ihLinks _ _)

end

/-! ## One more name -/

/-- What a name leads to from where a walk ended, if a link at the end is not followed. -/
def Resolution.enter (t : FileTree) (allowed : Place → Bool) (name : String) : Resolution → Resolution
  | .found place .directory =>
    if isShort name && allowed (place ++ [name]) then
      match t.get? (place ++ [name]) with
      | none => .missing (place ++ [name])
      | some entry => .found (place ++ [name]) entry
    else .blocked
  | .missing _ => .noDirectory
  | .noDirectory => .noDirectory
  | _ => .blocked

section

variable {t : FileTree} {allowed : Place → Bool} {followLast : Bool} {links : Nat} {place : Place}
  {names : List String} {r : Resolution}

/-- Only from a directory does a name lead to a place that can be filled. -/
theorem Resolution.enter_eq_missing {name : String} (h : r.enter t allowed name = .missing place) :
    ∃ other, r = .found other .directory ∧ place = other ++ [name] := by
  unfold Resolution.enter at h
  split at h
  · split at h
    · split at h
      · exact ⟨_, rfl, (Resolution.missing.inj h).symm⟩
      · cases h
    · cases h
  · cases h
  · cases h
  · cases h

theorem walk_enter (t : FileTree) (allowed : Place → Bool) (links : Nat) (place : Place)
    {name : String} (hname : Proper name) :
    Walk t allowed false (links + 1) place [name]
      (Resolution.enter t allowed name (.found place .directory)) := by
  unfold Resolution.enter
  by_cases hallowed : (isShort name && allowed (place ++ [name])) = true
  · obtain ⟨hshort, hplace⟩ := Bool.and_eq_true_iff.1 hallowed
    have henters : Enters allowed place name :=
      ⟨hname.ne_empty, hname.ne_dot, hname.ne_dots, hshort, hplace⟩
    simp only [hallowed, if_true]
    cases hget : t.get? (place ++ [name]) with
    | none => exact .missing henters hget
    | some entry =>
        cases entry with
        | directory => exact .enter henters hget .arrive
        | file content => exact .file henters hget
        | link target => exact .stop henters hget rfl
  · simp only [hallowed]
    exact .refused ⟨hname.ne_empty, hname.ne_dot, hname.ne_dots⟩ (by simpa using hallowed)

/-- A walk goes on with one more name from where it ended. -/
theorem Walk.concat (h : Walk t allowed true links place names r) {name : String}
    (hname : Proper name) :
    Walk t allowed false links place (names ++ [name]) (r.enter t allowed name) := by
  induction h with
  | exhausted => exact .exhausted
  | arrive => exact walk_enter t allowed _ _ hname
  | skip hskip _ ih => exact .skip hskip ih
  | up _ ih => exact .up ih
  | refused hplain hrefused => exact .refused hplain hrefused
  | missing henters hget => exact .lost henters hget (by simp)
  | lost henters hget _ => exact .lost henters hget (by simp)
  | enter henters hget _ ih => exact .enter henters hget ih
  | file henters hget => exact .throughFile henters hget (by simp)
  | throughFile henters hget _ => exact .throughFile henters hget (by simp)
  -- A walk that follows its last link does not stop at one.
  | stop _ _ hlast => exact absurd hlast (by simp)
  | follow henters hget _ _ ih =>
      rw [List.append_assoc] at ih
      exact .follow henters hget (by simp) ih

/-- Following the last link makes a difference only where there is one. -/
theorem Walk.follow_last (h : Walk t allowed false links place names r) :
    (∃ other target, r = .found other (.link target)) ∨ Walk t allowed true links place names r := by
  induction h with
  | exhausted => exact Or.inr .exhausted
  | arrive => exact Or.inr .arrive
  | skip hskip _ ih => exact ih.imp_right (.skip hskip)
  | up _ ih => exact ih.imp_right .up
  | refused hplain hrefused => exact Or.inr (.refused hplain hrefused)
  | missing henters hget => exact Or.inr (.missing henters hget)
  | lost henters hget hrest => exact Or.inr (.lost henters hget hrest)
  | enter henters hget _ ih => exact ih.imp_right (.enter henters hget)
  | file henters hget => exact Or.inr (.file henters hget)
  | throughFile henters hget hrest => exact Or.inr (.throughFile henters hget hrest)
  | stop _ _ _ => exact Or.inl ⟨_, _, rfl⟩
  | follow henters hget _ _ ih => exact ih.imp_right (.follow henters hget fun _ => rfl)

/-- Where every place may be on the way, a walk ends as it does where only some may, unless it comes to
one that may not. -/
theorem Walk.relax (h : Walk t allowed followLast links place names r) (hr : r ≠ .blocked) :
    Walk t (fun _ => true) followLast links place names r := by
  have hanywhere : ∀ {place : Place} {name : String}, Enters allowed place name →
      Enters (fun _ => true) place name := fun henters =>
    ⟨henters.ne_empty, henters.ne_dot, henters.ne_dots, henters.short, rfl⟩
  induction h with
  | exhausted => exact absurd rfl hr
  | arrive => exact .arrive
  | skip hskip _ ih => exact .skip hskip (ih hr)
  | up _ ih => exact .up (ih hr)
  | refused _ _ => exact absurd rfl hr
  | missing henters hget => exact .missing (hanywhere henters) hget
  | lost henters hget hrest => exact .lost (hanywhere henters) hget hrest
  | enter henters hget _ ih => exact .enter (hanywhere henters) hget (ih hr)
  | file henters hget => exact .file (hanywhere henters) hget
  | throughFile _ _ _ => exact absurd rfl hr
  | stop henters hget hlast => exact .stop (hanywhere henters) hget hlast
  | follow henters hget hlast _ ih => exact .follow (hanywhere henters) hget hlast (ih hr)

/-! ## Places that walks reach -/

/-- A walk that follows its last link does not end at a link. -/
theorem Walk.ne_link (h : Walk t allowed true links place names r) (other : Place) (target : String) :
    r ≠ .found other (.link target) := by
  induction h with
  | exhausted => simp
  | arrive => simp
  | skip _ _ ih => exact ih
  | up _ ih => exact ih
  | refused _ _ => simp
  | missing _ _ => simp
  | lost _ _ _ => simp
  | enter _ _ _ ih => exact ih
  | file _ _ => simp
  | throughFile _ _ _ => simp
  | stop _ _ hlast => exact absurd hlast (by simp)
  | follow _ _ _ _ ih => exact ih

/-- The way to a place from the root leads through entries of directories, none of them refused. -/
def Open (allowed : Place → Bool) (place : Place) : Prop :=
  ∀ before name, before ++ [name] <+: place →
    Proper name ∧ isShort name = true ∧ allowed (before ++ [name]) = true

theorem open_nil (allowed : Place → Bool) : Open allowed [] := by
  intro before name h
  simp at h

theorem Open.of_prefix {place before : Place} (h : Open allowed place) (hbefore : before <+: place) :
    Open allowed before := fun first name hfirst => h first name (hfirst.trans hbefore)

theorem Open.concat (h : Open allowed place) {name : String} (hname : Enters allowed place name)
    (hslash : '/' ∉ name.toList) : Open allowed (place ++ [name]) := by
  intro before other hprefix
  rcases List.prefix_concat_iff.1 hprefix with heq | hbefore
  · obtain ⟨rfl, hlast⟩ := List.append_inj' heq rfl
    obtain rfl := List.singleton_inj.1 hlast
    exact ⟨⟨hname.ne_empty, hname.ne_dot, hname.ne_dots, hslash⟩, hname.short, hname.allowed⟩
  · exact h before other hbefore

theorem Open.proper (h : Open allowed place) : ∀ n ∈ place, Proper n := by
  intro n hn
  obtain ⟨before, after, rfl⟩ := List.append_of_mem hn
  exact (h before n ⟨after, by simp⟩).1

/-- The names of a place lead to it. -/
theorem walk_along (ht : t.WellFormed) (links : Nat) {entry : FileEntry}
    (hentry : ∀ target, entry ≠ .link target) {before names : Place}
    (hbefore : t.get? before = some .directory) (hopen : Open allowed (before ++ names))
    (hget : t.get? (before ++ names) = some entry) :
    Walk t allowed true (links + 1) before names (.found (before ++ names) entry) := by
  induction names generalizing before with
  | nil =>
      rw [List.append_nil] at hget ⊢
      obtain rfl : FileEntry.directory = entry := Option.some.inj (hbefore.symm.trans hget)
      exact .arrive
  | cons name rest ih =>
      rw [List.append_cons] at hget hopen ⊢
      obtain ⟨hname, hshort, hallowed⟩ := hopen before name (List.prefix_append _ _)
      have henters : Enters allowed before name :=
        ⟨hname.ne_empty, hname.ne_dot, hname.ne_dots, hshort, hallowed⟩
      by_cases hdirectory : t.get? (before ++ [name]) = some .directory
      · exact .enter henters hdirectory (ih hdirectory hopen hget)
      · -- Only the end of the place may be no directory, and then it is a file.
        have hrest : rest = [] := by
          by_contra hne
          exact hdirectory (ht.get?_of_append hne hget)
        subst hrest
        rw [List.append_nil] at hget ⊢
        cases entry with
        | directory => exact absurd hget hdirectory
        | file content => exact .file henters hget
        | link target => exact absurd rfl (hentry target)

/-- What a walk says of its end is so, and the way there is open. -/
def Resolution.Holds (t : FileTree) (allowed : Place → Bool) : Resolution → Prop
  | .found place entry => t.get? place = some entry ∧ Open allowed place
  | .missing place => t.get? place = none ∧ Open allowed place
  | .noDirectory => True
  | .blocked => True

theorem no_slash_of_mem_names {path : List Char} {name : String} (h : name ∈ FileTree.names path) :
    '/' ∉ name.toList := by
  obtain ⟨s, hs, rfl⟩ := List.mem_map.1 h
  simpa using Path.slash_not_mem_of_mem_splitOn hs

theorem Walk.holds (ht : t.WellFormed) (h : Walk t allowed followLast links place names r)
    (hplace : t.get? place = some .directory) (hopen : Open allowed place)
    (hnames : ∀ n ∈ names, '/' ∉ n.toList) : r.Holds t allowed := by
  induction h with
  | exhausted => trivial
  | arrive => exact ⟨hplace, hopen⟩
  | skip _ _ ih => exact ih hplace hopen fun n hn => hnames n (List.mem_cons_of_mem _ hn)
  | @up links place rest r _ ih =>
      refine ih ?_ (hopen.of_prefix (List.dropLast_prefix _))
        fun n hn => hnames n (List.mem_cons_of_mem _ hn)
      by_cases hnil : place = []
      · simp [hnil]
      · exact ht place _ hnil hplace
  | refused _ _ => trivial
  | missing henters hget => exact ⟨hget, hopen.concat henters (hnames _ List.mem_cons_self)⟩
  | lost _ _ _ => trivial
  | enter henters hget _ ih =>
      exact ih hget (hopen.concat henters (hnames _ List.mem_cons_self))
        fun n hn => hnames n (List.mem_cons_of_mem _ hn)
  | file henters hget => exact ⟨hget, hopen.concat henters (hnames _ List.mem_cons_self)⟩
  | throughFile _ _ _ => trivial
  | stop henters hget _ => exact ⟨hget, hopen.concat henters (hnames _ List.mem_cons_self)⟩
  | @follow links place name rest target r henters hget _ _ ih =>
      have hrest : ∀ n ∈ FileTree.names target.toList ++ rest, '/' ∉ n.toList := by
        intro n hn
        rcases List.mem_append.1 hn with hn | hn
        · exact no_slash_of_mem_names hn
        · exact hnames n (List.mem_cons_of_mem _ hn)
      -- A link leads on from the root or from the directory that it stands in.
      split at ih
      · exact ih (get?_nil t) (open_nil allowed) hrest
      · exact ih hplace hopen hrest

/-! ## Walks in a changed tree -/

/-- A walk that finds something finds it in a larger tree. -/
theorem Walk.extend {t' : FileTree} (hextend : ∀ q e, t.get? q = some e → t'.get? q = some e)
    (h : Walk t allowed followLast links place names r) (hfound : ∃ other entry, r = .found other entry) :
    Walk t' allowed followLast links place names r := by
  obtain ⟨other, entry, hr⟩ := hfound
  induction h with
  | exhausted => cases hr
  | arrive => exact .arrive
  | skip hskip _ ih => exact .skip hskip (ih hr)
  | up _ ih => exact .up (ih hr)
  | refused _ _ => cases hr
  | missing _ _ => cases hr
  | lost _ _ _ => cases hr
  | enter henters hget _ ih => exact .enter henters (hextend _ _ hget) (ih hr)
  | file henters hget => exact .file henters (hextend _ _ hget)
  | throughFile _ _ _ => cases hr
  | stop henters hget hlast => exact .stop henters (hextend _ _ hget) hlast
  | follow henters hget hlast _ ih => exact .follow henters (hextend _ _ hget) hlast (ih hr)

/-- A walk that ends at a file, or where one can be, finds what is put there. -/
theorem Walk.put {t' : FileTree} {other : Place} {entry : FileEntry}
    (hsame : ∀ q, q ≠ other → t'.get? q = t.get? q) (hother : t'.get? other = some entry)
    (hentry : ∀ target, entry ≠ .link target) (h : Walk t allowed followLast links place names r)
    (hold : t.get? other = none ∨ ∃ content, t.get? other = some (.file content))
    (hr : r = .missing other ∨ ∃ content, r = .found other (.file content)) :
    Walk t' allowed followLast links place names (.found other entry) := by
  -- What a walk passes through is a directory or a link, so it is not the changed place.
  have hkept : ∀ q e, t.get? q = some e → (∀ content, e ≠ .file content) → t'.get? q = some e := by
    intro q e hget hfile
    rw [hsame q, hget]
    rintro rfl
    rcases hold with hnone | ⟨content, hcontent⟩
    · simp [hnone] at hget
    · rw [hcontent] at hget
      exact hfile content (Option.some.inj hget).symm
  have hend : ∀ {links : Nat} {place : Place} {name : String}, Enters allowed place name →
      place ++ [name] = other →
      Walk t' allowed followLast (links + 1) place [name] (.found other entry) := by
    rintro links place name henters rfl
    cases entry with
    | directory => exact .enter henters hother .arrive
    | file content => exact .file henters hother
    | link target => exact absurd rfl (hentry target)
  induction h with
  | exhausted => simp at hr
  | arrive => simp at hr
  | skip hskip _ ih => exact .skip hskip (ih hr)
  | up _ ih => exact .up (ih hr)
  | refused _ _ => simp at hr
  | missing henters _ => exact hend henters (by simpa using hr)
  | lost _ _ _ => simp at hr
  | enter henters hget _ ih => exact .enter henters (hkept _ _ hget (by simp)) (ih hr)
  | file henters _ => exact hend henters (by simpa using hr)
  | throughFile _ _ _ => simp at hr
  | stop _ _ _ => simp at hr
  | follow henters hget hlast _ ih =>
      exact .follow henters (hkept _ _ hget (by simp)) hlast (ih hr)

end

end OriginTags.FileTree
