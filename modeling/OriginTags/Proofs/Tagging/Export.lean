import Mathlib.Data.List.Induction
import OriginTags.Proofs.Files.Resolve
import OriginTags.Proofs.Tagging.Statistics
import OriginTags.Tagging.Export
/-!
# Confined exports

An export changes nothing outside of its root. The check before it looks at the nearest thing that
exists on the way to the file, and what is made behind that is new and empty. So the check after it
sees the same, as long as it can: it knows the path by its text only, and a directory whose place has
too long a text has no canonical path. What is written goes where the check looked.
-/

namespace OriginTags.Export

open FileTree (Canonical WellFormed placeText Resolution)
open OriginTags.Path (Component IsText Proper absolute components ofComponents)

/-! ## The directories around a path -/

theorem beginnings_concat (cs : List Component) (c : Component) :
    beginnings (cs ++ [c]) = beginnings cs ++ [cs ++ [c]] := by
  induction cs with
  | nil => rfl
  | cons first rest ih => simp [beginnings, ih]

theorem ancestors_absolute_concat (ns : List String) (name : String) :
    ancestors (absolute (ns ++ [name])) = absolute (ns ++ [name]) :: ancestors (absolute ns) := by
  simp [ancestors, absolute, beginnings_concat]

theorem exists_ancestors_absolute (ns : List String) :
    ∃ rest, ancestors (absolute ns) = absolute ns :: rest := by
  cases ns using List.reverseRecOn with
  | nil => exact ⟨[], rfl⟩
  | append_singleton ns name => exact ⟨_, ancestors_absolute_concat ns name⟩

/-- The paths of a directory and of those around it, innermost first. -/
def enclosing (ns : List String) : List (List Char) := (ancestors (absolute ns)).map ofComponents

theorem enclosing_concat (ns : List String) (name : String) :
    enclosing (ns ++ [name]) = placeText (ns ++ [name]) :: enclosing ns := by
  rw [enclosing, ancestors_absolute_concat, List.map_cons, FileTree.ofComponents_absolute]
  rfl

/-! ## Where a path lands -/

/-- A path has a canonical path, and that is below a root. -/
def Lands (t : FileTree) (root : Place) (ns : List String) : Prop :=
  ∃ place entry, t.resolveWithin FileTree.isReachable true (placeText ns) = .found place entry ∧
    root <+: place

/-- What exists of a path lies below a root. -/
def Stays (t : FileTree) (root : Place) (ns : List String) : Prop :=
  staysBelow t (placeText root) (absolute ns) = true

theorem stays_of_isPresent {t : FileTree} (ht : t.WellFormed) {root : Place}
    (hroot : ∀ n ∈ root, Proper n) {ns : List String}
    (hpresent : t.isPresent (placeText ns) = true) : Stays t root ns ↔ Lands t root ns := by
  obtain ⟨rest, hrest⟩ := exists_ancestors_absolute ns
  -- The path itself is the nearest thing that exists.
  have hfind : (ancestors (absolute ns)).find? (fun a => t.isPresent (ofComponents a)) =
      some (absolute ns) := by
    rw [hrest, List.find?_cons, FileTree.ofComponents_absolute, hpresent]
  have hholds := (FileTree.lookup_resolveWithin FileTree.isReachable true (placeText ns)).holds ht
  unfold Stays staysBelow Lands
  simp only [hfind, FileTree.ofComponents_absolute, FileTree.canonicalize]
  cases hresolve : t.resolveWithin FileTree.isReachable true (placeText ns) with
  | found place entry =>
      rw [hresolve] at hholds
      have hbelow : isBelow (components (placeText root)) (components (placeText place)) = true ↔
          root <+: place := by
        rw [FileTree.components_placeText hroot, FileTree.components_placeText hholds.2.proper, isBelow,
          List.isPrefixOf_iff_prefix, Path.absolute_prefix_iff]
      simp [hbelow]
  | missing place => simp
  | noDirectory => simp
  | blocked => simp

theorem stays_concat {t : FileTree} {root : Place} {ns : List String} {name : String}
    (habsent : t.isPresent (placeText (ns ++ [name])) = false) :
    Stays t root (ns ++ [name]) ↔ Stays t root ns := by
  unfold Stays staysBelow
  rw [ancestors_absolute_concat, List.find?_cons, FileTree.ofComponents_absolute, habsent]

/-- The canonical path of a path spells the place that the path leads to, unless the path is too long. -/
theorem Lands.resolve_cases {t : FileTree} {root : Place} {ns : List String} (h : Lands t root ns) :
    t.resolve true (placeText ns) = .blocked ∨
      ∃ place entry, t.resolve true (placeText ns) = .found place entry ∧ root <+: place ∧
        t.resolveWithin FileTree.isReachable true (placeText ns) = .found place entry := by
  obtain ⟨place, entry, hfound, hinside⟩ := h
  rcases FileTree.resolve_cases (placeText ns) with hlong | ⟨-, hsame⟩
  · exact .inl (hlong t true)
  · refine .inr ⟨place, entry, ?_, hinside, hfound⟩
    rw [hsame, FileTree.resolveWithin_relax (by rw [hfound]; simp), hfound]

theorem Lands.prefix_of_resolve {t : FileTree} {root : Place} {ns : List String}
    (h : Lands t root ns) {place : Place} {entry : FileEntry}
    (hresolve : t.resolve true (placeText ns) = .found place entry) :
    root <+: place ∧
      t.resolveWithin FileTree.isReachable true (placeText ns) = .found place entry := by
  rcases h.resolve_cases with hblocked | ⟨other, found, hother, hinside, hfound⟩
  · simp [hblocked] at hresolve
  · obtain ⟨rfl, rfl⟩ := Resolution.found.inj (hother.symm.trans hresolve)
    exact ⟨hinside, hfound⟩

/-- What leads to a place with too long a text has no canonical path. -/
theorem isReachable_of_lands {t : FileTree} (ht : t.WellFormed) {root : Place} {ns : List String}
    (h : Lands t root ns) {place : Place} {entry : FileEntry}
    (hresolve : t.resolve true (placeText ns) = .found place entry) :
    FileTree.isReachable place = true := by
  have hholds := (FileTree.lookup_resolveWithin FileTree.isReachable true (placeText ns)).holds ht
  rw [(h.prefix_of_resolve hresolve).2] at hholds
  exact FileTree.isReachable_of_open hholds.2

/-! ## Directories below a root -/

/-- A path leads to a directory below a root, and to the same one by its canonical path unless the text
of the directory is too long. -/
structure LeadsTo (t : FileTree) (root : Place) (ns : List String) (place : Place) : Prop where
  found : t.resolve true (placeText ns) = .found place .directory
  inside : root <+: place
  seen : FileTree.isReachable place = true →
    t.resolveWithin FileTree.isReachable true (placeText ns) = .found place .directory

/-- A path leads to a place below a root where nothing is yet, in the same two ways. -/
structure Vacant (t : FileTree) (root : Place) (ns : List String) (place : Place) : Prop where
  missing : t.resolve true (placeText ns) = .missing place
  inside : root <+: place
  parent : t.get? place.dropLast = some .directory
  seen : FileTree.isReachable place = true →
    t.resolveWithin FileTree.isReachable true (placeText ns) = .missing place

theorem LeadsTo.get?_eq {t : FileTree} (ht : t.WellFormed) {root : Place} {ns : List String}
    {place : Place} (h : LeadsTo t root ns place) : t.get? place = some .directory := by
  have hholds := (FileTree.lookup_resolve true (placeText ns)).holds ht
  rw [h.found] at hholds
  exact hholds.1

/-- A directory that the check may look at is one that a path leads to. -/
theorem leadsTo_of_stays {t : FileTree} (ht : t.WellFormed) {root : Place}
    (hroot : ∀ n ∈ root, Proper n) {ns : List String} (hstays : Stays t root ns) {place : Place}
    (hfound : t.resolve true (placeText ns) = .found place .directory) : LeadsTo t root ns place := by
  have hpresent := FileTree.isPresent_of_resolve hfound
  obtain ⟨hinside, hseen⟩ :=
    ((stays_of_isPresent ht hroot hpresent).1 hstays).prefix_of_resolve hfound
  exact ⟨hfound, hinside, fun _ => hseen⟩

/-- A new name in a directory below a root leads to a new place in it. -/
theorem LeadsTo.vacant {t : FileTree} (ht : t.WellFormed) {root : Place} {ns : List String}
    {place : Place} (h : LeadsTo t root ns place) {name : String}
    (hns : ∀ n ∈ ns ++ [name], Proper n) {new : Place}
    (hmissing : t.resolve false (placeText (ns ++ [name])) = .missing new) :
    new = place ++ [name] ∧ Vacant t root (ns ++ [name]) new := by
  have hnull := FileTree.null_not_mem_of_resolve (by rw [hmissing]; simp)
  have henter : Resolution.enter t (fun _ => true) name (.found place .directory) = .missing new := by
    rcases t.resolve_concat hns with hblocked | henter
    · simp [hmissing] at hblocked
    · rw [← h.found, ← henter, hmissing]
  obtain ⟨other, hother, rfl⟩ := Resolution.enter_eq_missing henter
  obtain ⟨rfl, -⟩ := Resolution.found.inj hother
  refine ⟨rfl, FileTree.resolve_true_eq hmissing (by simp), h.inside.trans (List.prefix_append _ _),
    ?_, fun hreachable => ?_⟩
  · rw [List.dropLast_concat]
    exact h.get?_eq ht
  · -- The names on the way are as few as those of the new place, so they may be on the way too.
    have hseen := h.seen (FileTree.isReachable_of_prefix hreachable (List.prefix_append _ _))
    have hwithin : t.resolveWithin FileTree.isReachable false (placeText (ns ++ [name])) =
        .missing (place ++ [name]) := by
      rw [t.resolveWithin_concat _ hns hnull, hseen, ← henter]
      simp only [Resolution.enter, hreachable, Bool.and_true]
    rcases t.resolveWithin_follow_last FileTree.isReachable (placeText (ns ++ [name])) with
      ⟨link, target, hlink⟩ | hsame
    · simp [hwithin] at hlink
    · rw [hsame, hwithin]

/-- A new entry goes to a directory below the root. -/
theorem vacant_of_stays {t : FileTree} (ht : t.WellFormed) {root : Place}
    (hroot : ∀ n ∈ root, Proper n) {ns : List String} {name : String}
    (hns : ∀ n ∈ ns ++ [name], Proper n) (hstays : Stays t root (ns ++ [name])) {place : Place}
    (hmissing : t.resolve false (placeText (ns ++ [name])) = .missing place) :
    Vacant t root (ns ++ [name]) place := by
  have habsent : t.isPresent (placeText (ns ++ [name])) = false := by
    simp [FileTree.isPresent, hmissing]
  rcases t.resolve_concat hns with hblocked | henter
  · simp [hmissing] at hblocked
  · rw [hmissing] at henter
    obtain ⟨other, hother, -⟩ := Resolution.enter_eq_missing henter.symm
    -- Nothing is at the end of the path, so the check was made on the directory around it.
    have hleads := leadsTo_of_stays ht hroot ((stays_concat habsent).1 hstays) hother
    exact (hleads.vacant ht hns hmissing).2

/-! ## Made directories -/

/-- A tree in which directories were made, all of them below a root, and whether the last one is
there. If any was made, the last one is, and it is empty. -/
structure Made (t : FileTree) (root : Place) (ns : List String) (made : FileTree × Bool) : Prop where
  wellFormed : made.1.WellFormed
  keeps : ∀ q e, t.get? q = some e → made.1.get? q = some e
  fresh : ∀ q, made.1.get? q ≠ t.get? q → root <+: q ∧ made.1.get? q = some .directory
  ready : made.2 = true → made.1 = t ∨ ∃ place, LeadsTo made.1 root ns place ∧
    ∀ name, made.1.get? (place ++ [name]) = none

theorem made_self {t : FileTree} (ht : t.WellFormed) (root : Place) (ns : List String) (b : Bool) :
    Made t root ns (t, b) :=
  ⟨ht, fun _ _ h => h, fun _ h => absurd rfl h, fun _ => .inl rfl⟩

/-- One more directory, in a place where nothing is yet. -/
theorem Made.put {t t' : FileTree} {root : Place} {ns ns' : List String} {b : Bool}
    (h : Made t root ns (t', b)) {place : Place} (hvacant : Vacant t' root ns' place) :
    Made t root ns' (t'.put place .directory, true) := by
  have hnone : t'.get? place = none := by
    have hholds := (FileTree.lookup_resolve true (placeText ns')).holds h.wellFormed
    rw [hvacant.missing] at hholds
    exact hholds.1
  have hentry : ∀ target, FileEntry.directory ≠ .link target := by simp
  obtain ⟨hnil, hfound⟩ := (FileTree.lookup_resolve true (placeText ns')).put h.wellFormed hentry
    (.inl hvacant.missing)
  have hget := FileTree.get?_put t' hnil .directory
  refine ⟨h.wellFormed.put_directory hnil hnone hvacant.parent, ?_, ?_, ?_⟩
  · -- Nothing stood in the new place, so nothing is lost.
    intro q e hold
    have hq : q ≠ place := by
      rintro rfl
      simp [h.keeps q e hold] at hnone
    rw [hget, if_neg hq]
    exact h.keeps q e hold
  · intro q hq
    rw [hget] at hq ⊢
    by_cases hsame : q = place
    · exact ⟨hsame ▸ hvacant.inside, if_pos hsame⟩
    · rw [if_neg hsame] at hq ⊢
      exact h.fresh q hq
  · refine fun _ => .inr ⟨place, ⟨hfound, hvacant.inside, fun hreachable => ?_⟩, fun name => ?_⟩
    · exact ((FileTree.lookup_resolveWithin FileTree.isReachable true (placeText ns')).put
        h.wellFormed hentry (.inl (hvacant.seen hreachable))).2
    · rw [hget, if_neg (by simp)]
      exact h.wellFormed.get?_concat_of_none hnone name

/-- In an empty directory a name leads to a new place, or to none at all. -/
theorem resolve_concat_of_empty {t : FileTree} {ns : List String} {name : String}
    (hns : ∀ n ∈ ns ++ [name], Proper n) {place : Place}
    (hfound : t.resolve true (placeText ns) = .found place .directory)
    (hempty : t.get? (place ++ [name]) = none) :
    t.resolve false (placeText (ns ++ [name])) = .blocked ∨
      t.resolve false (placeText (ns ++ [name])) = .missing (place ++ [name]) := by
  rcases t.resolve_concat hns with hblocked | henter
  · exact .inl hblocked
  · rw [henter, hfound, Resolution.enter]
    split
    · rw [hempty]
      exact .inr rfl
    · exact .inl rfl

/-- One more directory in a new one: it is made, or its name is too long for that. -/
theorem Made.next {t t' : FileTree} {root : Place} {ns : List String} {name : String}
    (hns : ∀ n ∈ ns ++ [name], Proper n) (h : Made t root ns (t', true)) {place : Place}
    (hleads : LeadsTo t' root ns place) (hempty : t'.get? (place ++ [name]) = none) :
    Made t root (ns ++ [name])
      (match t'.resolve false (placeText (ns ++ [name])) with
      | .missing place => (t'.put place .directory, true)
      | _ => (t', t'.isDirectory (placeText (ns ++ [name])))) := by
  rcases resolve_concat_of_empty hns hleads.found hempty with hblocked | hmissing
  · have hresolve := FileTree.resolve_true_eq hblocked (by simp)
    have hdirectory : t'.isDirectory (placeText (ns ++ [name])) = false := by
      rw [FileTree.isDirectory, hresolve]
    rw [hblocked, hdirectory]
    exact ⟨h.wellFormed, h.keeps, h.fresh, by simp⟩
  · rw [hmissing]
    exact h.put (hleads.vacant h.wellFormed hns hmissing).2

/-- The directories of a path that stays below a root are made below it. -/
theorem made_makeDirectories {t : FileTree} (ht : t.WellFormed) {root : Place}
    (hroot : ∀ n ∈ root, Proper n) {ns : List String} (hns : ∀ n ∈ ns, Proper n)
    (hstays : Stays t root ns) : Made t root ns (t.makeDirectories (enclosing ns)) := by
  induction ns using List.reverseRecOn with
  | nil => exact made_self ht root [] _
  | append_singleton ns name ih =>
      rw [enclosing_concat, FileTree.makeDirectories]
      cases hresolve : t.resolve false (placeText (ns ++ [name])) with
      | found place entry => exact made_self ht root _ _
      | blocked => exact made_self ht root _ _
      | missing place =>
          exact (made_self ht root ns true).put (vacant_of_stays ht hroot hns hstays hresolve)
      | noDirectory =>
          have habsent : t.isPresent (placeText (ns ++ [name])) = false := by
            simp [FileTree.isPresent, hresolve]
          have hmade := ih (fun n hn => hns n (List.mem_append_left _ hn))
            ((stays_concat habsent).1 hstays)
          generalize t.makeDirectories (enclosing ns) = made at hmade ⊢
          obtain ⟨t', b⟩ := made
          cases b with
          | false => exact ⟨hmade.wellFormed, hmade.keeps, hmade.fresh, by simp⟩
          | true =>
              -- Either all directories around were there, or the innermost one is new and empty.
              rcases hmade.ready rfl with rfl | ⟨place, hleads, hempty⟩
              · simp only [Bool.not_true, Bool.false_eq_true, if_false, hresolve]
                exact made_self ht root _ _
              · exact hmade.next hns hleads (hempty name)

theorem makeDirectories_of_isPresent {t : FileTree} {ns : List String}
    (h : t.isPresent (placeText ns) = true) :
    t.makeDirectories (enclosing ns) = (t, t.isDirectory (placeText ns)) := by
  obtain ⟨rest, hrest⟩ := exists_ancestors_absolute ns
  rw [enclosing, hrest, List.map_cons, FileTree.ofComponents_absolute, FileTree.makeDirectories]
  unfold FileTree.isPresent at h
  split
  · simp_all
  · simp_all
  · rfl

/-- The directories around a path that stays below a root are made below it. -/
theorem made_of_stays {t : FileTree} (ht : t.WellFormed) {root : Place}
    (hroot : ∀ n ∈ root, Proper n) {ns : List String} {name : String}
    (hns : ∀ n ∈ ns ++ [name], Proper n) (hstays : Stays t root (ns ++ [name])) :
    Made t root ns (t.makeDirectories (enclosing ns)) := by
  cases hpresent : t.isPresent (placeText (ns ++ [name])) with
  | false =>
      exact made_makeDirectories ht hroot (fun n hn => hns n (List.mem_append_left _ hn))
        ((stays_concat hpresent).1 hstays)
  | true =>
      -- The way to something that exists is there, even if it leads out of the root and back.
      have hns' : t.isPresent (placeText ns) = true := by
        rcases t.resolve_concat hns with hblocked | henter
        · simp [FileTree.isPresent, hblocked] at hpresent
        · cases hresolve : t.resolve true (placeText ns) with
          | found place entry => exact FileTree.isPresent_of_resolve hresolve
          | missing place =>
              simp [FileTree.isPresent, henter, hresolve, Resolution.enter] at hpresent
          | noDirectory => simp [FileTree.isPresent, henter, hresolve, Resolution.enter] at hpresent
          | blocked => simp [FileTree.isPresent, henter, hresolve, Resolution.enter] at hpresent
      rw [makeDirectories_of_isPresent hns']
      exact made_self ht root ns _

/-- Once directories around a path are made, the path is still below the root just if the innermost of
them has a canonical path. -/
theorem exists_stays_iff_of_made {t t' : FileTree} {root : Place} (hroot : ∀ n ∈ root, Proper n)
    {ns : List String} {name : String} (hns : ∀ n ∈ ns ++ [name], Proper n)
    (hmade : Made t root ns (t', true)) (hne : t' ≠ t) :
    ∃ place, t'.resolve true (placeText ns) = .found place .directory ∧
      (Stays t' root (ns ++ [name]) ↔ FileTree.isReachable place = true) := by
  obtain ⟨place, hleads, hempty⟩ := (hmade.ready rfl).resolve_left hne
  have habsent : t'.isPresent (placeText (ns ++ [name])) = false := by
    rcases resolve_concat_of_empty hns hleads.found (hempty name) with hblocked | hmissing
    · simp [FileTree.isPresent, hblocked]
    · simp [FileTree.isPresent, hmissing]
  have hpresent := FileTree.isPresent_of_resolve hleads.found
  refine ⟨place, hleads.found, ?_⟩
  rw [stays_concat habsent, stays_of_isPresent hmade.wellFormed hroot hpresent]
  exact ⟨fun hlands => isReachable_of_lands hmade.wellFormed hlands hleads.found,
    fun hreachable => ⟨place, .directory, hleads.seen hreachable, hleads.inside⟩⟩

/-! ## The checks -/

/-- A root that is an existing directory, spelled as the place that it leads to. -/
structure IsRoot (t : FileTree) (root : String) (place : Place) : Prop where
  resolves : t.resolve true root.toList = .found place .directory
  canonical : root.toList = placeText place

theorem IsRoot.isCanonical {t : FileTree} (ht : t.WellFormed) {root : String} {place : Place}
    (h : IsRoot t root place) : Canonical t root.toList place .directory :=
  FileTree.canonical_of_resolve ht h.resolves h.canonical

theorem filter_absolute (ns : List String) :
    (absolute ns).filter (· != .current) = absolute ns := by
  refine List.filter_eq_self.2 ?_
  intro c hc
  rcases List.mem_cons.1 hc with rfl | hc
  · rfl
  · obtain ⟨n, -, rfl⟩ := List.mem_map.1 hc
    rfl

theorem requestedComponents_placeText (root : List Char) {ns : List String}
    (hns : ∀ n ∈ ns, Proper n) : requestedComponents root (placeText ns) = absolute ns := by
  have habsolute : Path.isAbsolute (placeText ns) = true := rfl
  rw [requestedComponents, Path.join_of_isAbsolute root habsolute, FileTree.components_placeText hns,
    filter_absolute]

/-- Without double dots, a path that is requested has proper names. -/
theorem exists_requestedComponents {root : Place} (hroot : ∀ n ∈ root, Proper n) {raw : List Char}
    (hraw : Component.parent ∉ components raw) :
    ∃ ns, (∀ n ∈ ns, Proper n) ∧ requestedComponents (placeText root) raw = absolute ns := by
  have habsolute : Path.isAbsolute (Path.join (placeText root) raw) = true :=
    Path.isAbsolute_join rfl raw
  have hparent : Component.parent ∉ components (Path.join (placeText root) raw) := by
    intro hmem
    rcases Path.mem_splitOn_join (Path.parent_mem_components.1 hmem) with hbase | hpath
    · have hdots := Path.parent_mem_components.2 hbase
      rw [FileTree.components_placeText hroot] at hdots
      simp [absolute] at hdots
    · exact hraw (Path.parent_mem_components.2 hpath)
  obtain ⟨ns, hns, hcomponents⟩ := Path.exists_absolute habsolute hparent
  exact ⟨ns, hns, by rw [requestedComponents, hcomponents, filter_absolute]⟩

/-- What is requested of a root by a text is a text if the root is. -/
theorem isText_of_requestedComponents {root raw : List Char} (hroot : IsText root) (hraw : IsText raw)
    {ns : List String} (h : requestedComponents root raw = absolute ns) : IsText (placeText ns) := by
  refine (Path.isText_intercalate fun s hs => ?_).slash_cons
  obtain ⟨n, hn, rfl⟩ := List.mem_map.1 hs
  have hname : Component.normal n.toList ∈ components (Path.join root raw) := by
    have hmem : Component.normal n.toList ∈ requestedComponents root raw := by
      rw [h]
      exact List.mem_cons_of_mem _ (List.mem_map_of_mem hn)
    exact (List.mem_filter.1 hmem).1
  exact (hroot.join hraw).of_mem_splitOn (Path.mem_splitOn_of_normal_mem hname)

/-- Names that lead strictly below a root, where what exists of their path stays. -/
structure Passes (t : FileTree) (root : Place) (ns : List String) : Prop where
  proper : ∀ n ∈ ns, Proper n
  inside : root <+: ns
  ne_root : root ≠ ns
  stays : Stays t root ns

/-- A path strictly below a root has a last name. -/
theorem Passes.exists_concat {t : FileTree} {root : Place} {ns : List String} (h : Passes t root ns) :
    ∃ before name, ns = before ++ [name] := by
  cases ns using List.reverseRecOn with
  | nil => exact absurd (List.prefix_nil.1 h.inside) h.ne_root
  | append_singleton before name => exact ⟨before, name, rfl⟩

section

variable {t : FileTree} {root : String} {place : Place} {entry : FileEntry}

/-- A path without double dots is accepted if it passes by its names and by its links. -/
theorem confine_of_requested (hroot : Canonical t root.toList place entry) {requested : String}
    (hparent : Component.parent ∉ components requested.toList) {ns : List String}
    (hproper : ∀ n ∈ ns, Proper n)
    (hns : requestedComponents root.toList requested.toList = absolute ns) :
    (Passes t place ns ∧ confine t root requested = .ok (String.ofList (placeText ns))) ∨
      (¬ Passes t place ns ∧
        confine t root requested = .error (.outsideRoot (String.ofList (placeText ns)))) := by
  have hcontains : (components requested.toList).contains .parent = false := by simpa using hparent
  have hrootParts : components root.toList = absolute place := by
    rw [hroot.eq_placeText, FileTree.components_placeText hroot.open_place.proper]
  have hbelow : isBelow (absolute place) (absolute ns) = true ↔ place <+: ns := by
    rw [isBelow, List.isPrefixOf_iff_prefix, Path.absolute_prefix_iff]
  unfold confine
  simp only [hcontains, Bool.false_eq_true, if_false, hns, hrootParts, hroot.canonicalize_eq,
    FileTree.ofComponents_absolute]
  by_cases hinside : place <+: ns
  · by_cases hne : place = ns
    · right
      exact ⟨fun h => h.ne_root hne, by simp [hne]⟩
    · have hne' : ¬ absolute ns = absolute place := fun heq => hne (Path.absolute_inj.1 heq).symm
      by_cases hstays : Stays t place ns
      · left
        refine ⟨⟨hproper, hinside, hne, hstays⟩, ?_⟩
        unfold Stays at hstays
        simp [hbelow.2 hinside, hne', hroot.eq_placeText, hstays]
      · right
        refine ⟨fun h => hstays h.stays, ?_⟩
        unfold Stays at hstays
        simp [hbelow.2 hinside, hne', hroot.eq_placeText, hstays]
  · right
    have hbelow' : isBelow (absolute place) (absolute ns) = false := by
      simpa using fun h => hinside (hbelow.1 h)
    exact ⟨fun h => hinside h.inside, by simp [hbelow']⟩

/-- A plain path is accepted as it is or refused as it is. -/
theorem confine_placeText (hroot : Canonical t root.toList place entry) {ns : List String}
    (hns : ∀ n ∈ ns, Proper n) :
    (Passes t place ns ∧ confine t root (String.ofList (placeText ns)) =
        .ok (String.ofList (placeText ns))) ∨
      (¬ Passes t place ns ∧ confine t root (String.ofList (placeText ns)) =
        .error (.outsideRoot (String.ofList (placeText ns)))) := by
  refine confine_of_requested hroot ?_ hns ?_
  · rw [String.toList_ofList, FileTree.components_placeText hns]
    simp [absolute]
  · rw [String.toList_ofList, requestedComponents_placeText root.toList hns]

/-- What is accepted passes, and it is a text if the root and what was requested are. -/
theorem confine_cases (hroot : Canonical t root.toList place entry) (requested : String) :
    (∃ ns, Passes t place ns ∧ confine t root requested = .ok (String.ofList (placeText ns)) ∧
        (IsText root.toList → IsText requested.toList → IsText (placeText ns))) ∨
      ∃ path, confine t root requested = .error (.outsideRoot path) := by
  by_cases hparent : Component.parent ∈ components requested.toList
  · exact .inr ⟨requested, by rw [confine, if_pos (by simpa using hparent)]⟩
  · obtain ⟨ns, hns, hrequested⟩ := exists_requestedComponents hroot.open_place.proper hparent
    rw [← hroot.eq_placeText] at hrequested
    rcases confine_of_requested hroot hparent hns hrequested with ⟨hpasses, hok⟩ | ⟨-, herror⟩
    · exact .inl ⟨ns, hpasses, hok, fun hbase hraw =>
        isText_of_requestedComponents hbase hraw hrequested⟩
    · exact .inr ⟨_, herror⟩

end

/-! ## Exports -/

/-- What can be written at the end of a path that stays below a root is below the root. -/
theorem prefix_of_writable {t : FileTree} (ht : t.WellFormed) {root : Place}
    (hroot : ∀ n ∈ root, Proper n) {ns : List String} {name : String}
    (hns : ∀ n ∈ ns ++ [name], Proper n) (hstays : Stays t root (ns ++ [name])) {place : Place}
    (h : t.resolve true (placeText (ns ++ [name])) = .missing place ∨
      ∃ old, t.resolve true (placeText (ns ++ [name])) = .found place (.file old)) :
    root <+: place := by
  rcases h with hmissing | ⟨old, hfound⟩
  · -- A link that leads nowhere would have been refused, so the last name is free.
    have habsent : t.isPresent (placeText (ns ++ [name])) = false := by
      cases hpresent : t.isPresent (placeText (ns ++ [name])) with
      | false => rfl
      | true =>
          have hlands := (stays_of_isPresent ht hroot hpresent).1 hstays
          rcases hlands.resolve_cases with hblocked | ⟨other, entry, hother, -⟩
          · simp [hmissing] at hblocked
          · simp [hmissing] at hother
    rw [FileTree.resolve_true_of_not_isPresent habsent] at hmissing
    exact (vacant_of_stays ht hroot hns hstays hmissing).inside
  · -- A file that exists is where the check looked.
    have hpresent := FileTree.isPresent_of_resolve hfound
    exact (((stays_of_isPresent ht hroot hpresent).1 hstays).prefix_of_resolve hfound).1

/-- What is written to a path that stays below a root is a file below it, and the path leads to it. -/
theorem exists_write {t : FileTree} (ht : t.WellFormed) {root : Place}
    (hroot : ∀ n ∈ root, Proper n) {ns : List String} {name : String}
    (hns : ∀ n ∈ ns ++ [name], Proper n) (hstays : Stays t root (ns ++ [name])) {content : String}
    {after : FileTree} (hwrite : t.write (placeText (ns ++ [name])) content = some after) :
    ∃ place, root <+: place ∧ (∀ q, q ≠ place → after.get? q = t.get? q) ∧
      after.resolve true (placeText (ns ++ [name])) = .found place (.file content) := by
  obtain ⟨place, hresolve, rfl⟩ := FileTree.exists_put_of_write hwrite
  have hentry : ∀ target, FileEntry.file content ≠ .link target := by simp
  obtain ⟨hnil, hfound⟩ := (FileTree.lookup_resolve true _).put ht hentry hresolve
  refine ⟨place, prefix_of_writable ht hroot hns hstays hresolve, ?_, hfound⟩
  intro q hq
  rw [FileTree.get?_put t hnil, if_neg hq]

/-- The directories that are made before the file of a path is written, innermost first. -/
def directoriesAround (path : String) : List (List Char) :=
  ((ancestors (components path.toList)).drop 1).map ofComponents

theorem parents_placeText {ns : List String} {name : String} (h : ∀ n ∈ ns ++ [name], Proper n) :
    ((ancestors (components (String.ofList (placeText (ns ++ [name]))).toList)).drop 1).map
      ofComponents = enclosing ns := by
  rw [String.toList_ofList, FileTree.components_placeText h, ancestors_absolute_concat]
  rfl

theorem directoriesAround_placeText {ns : List String} {name : String}
    (h : ∀ n ∈ ns ++ [name], Proper n) :
    directoriesAround (String.ofList (placeText (ns ++ [name]))) = enclosing ns :=
  parents_placeText h

/-- The directory of a path leads to a place whose text is too long for a path. -/
def IsOverlong (t : FileTree) (path : String) : Prop :=
  ∃ directory ∈ (directoriesAround path).head?, ∃ place,
    t.resolve true directory = .found place .directory ∧
      FileTree.maxPathBytes < Path.byteSize (placeText place)

theorem isOverlong_iff {t : FileTree} {ns : List String} {name : String}
    (hns : ∀ n ∈ ns ++ [name], Proper n) {place : Place}
    (hfound : t.resolve true (placeText ns) = .found place .directory) :
    IsOverlong t (String.ofList (placeText (ns ++ [name]))) ↔ FileTree.isReachable place = false := by
  obtain ⟨rest, hrest⟩ := exists_ancestors_absolute ns
  rw [IsOverlong, directoriesAround_placeText hns, enclosing, hrest, List.map_cons,
    FileTree.ofComponents_absolute, List.head?_cons]
  simp [hfound, FileTree.isReachable]

/-- What an export may do: change things below the root only; make new directories and no more when it
refuses, and not even these below a root that is a text, unless the directory is too deep for a
canonical path; and say that it wrote a file only if that file is below the root and reads as the
statistics. -/
structure Confined (files : FileTree) (root : String) (place : Place) (statistics : Statistics)
    (outcome : Except ExportError String × FileTree) : Prop where
  outside : ∀ q, ¬ place <+: q → outcome.2.get? q = files.get? q
  leftovers : ∀ path, outcome.1 = .error (.outsideRoot path) → ∀ q,
    outcome.2.get? q ≠ files.get? q → files.get? q = none ∧ outcome.2.get? q = some .directory
  refused : ∀ path, outcome.1 = .error (.outsideRoot path) → IsText root.toList →
    ¬ IsOverlong outcome.2 path → outcome.2 = files
  written : ∀ path, outcome.1 = .ok path →
    components root.toList <+: components path.toList ∧
    components root.toList ≠ components path.toList ∧
    ∃ target content j, outcome.2.resolve true path.toList = .found target (.file content) ∧
      place <+: target ∧ Json.parse? content = some j ∧ Statistics.ofJson? j = some statistics

theorem confined_refused (files : FileTree) (root : String) (place : Place) (statistics : Statistics)
    (path : String) : Confined files root place statistics (.error (.outsideRoot path), files) :=
  ⟨fun _ _ => rfl, fun _ _ _ h => absurd rfl h, fun _ _ _ _ => rfl, by simp⟩

section

variable {files t' : FileTree} {root : String} {place : Place} {ns : List String} {b : Bool}

theorem Made.outside (h : Made files place ns (t', b)) {q : Place} (hq : ¬ place <+: q) :
    t'.get? q = files.get? q := by
  by_contra hne
  exact hq (h.fresh q hne).1

theorem Made.leftover (h : Made files place ns (t', b)) {q : Place}
    (hq : t'.get? q ≠ files.get? q) : files.get? q = none ∧ t'.get? q = some .directory := by
  refine ⟨?_, (h.fresh q hq).2⟩
  cases hold : files.get? q with
  | none => rfl
  | some e => exact absurd ((h.keeps q e hold).trans hold.symm) hq

theorem confined_error (h : Made files place ns (t', b)) (statistics : Statistics) :
    Confined files root place statistics (.error .io, t') :=
  ⟨fun _ hq => h.outside hq, by simp, by simp, by simp⟩

/-- A file that is written after the directories were made. -/
theorem confined_written (hmade : Made files place ns (t', b))
    (hroot : Canonical t' root.toList place .directory) {statistics : Statistics}
    (hfits : statistics.Fits) (order : Statistics.Order) {found : List String}
    (hpasses : Passes t' place found) {after : FileTree}
    (hwrite : t'.write (placeText found) (statistics.toJson order).pretty = some after) :
    Confined files root place statistics (.ok (String.ofList (placeText found)), after) := by
  have hproper := hroot.open_place.proper
  obtain ⟨before, name, rfl⟩ := hpasses.exists_concat
  obtain ⟨other, hother, hrest, hfound⟩ :=
    exists_write hmade.wellFormed hproper hpasses.proper hpasses.stays hwrite
  refine ⟨?_, by simp, by simp, ?_⟩
  · intro q hq
    have hqne : q ≠ other := by
      rintro rfl
      exact hq hother
    rw [hrest q hqne, hmade.outside hq]
  · intro path hpath
    obtain rfl : String.ofList (placeText (before ++ [name])) = path := Except.ok.inj hpath
    rw [String.toList_ofList, FileTree.components_placeText hpasses.proper, hroot.eq_placeText,
      FileTree.components_placeText hproper]
    refine ⟨Path.absolute_prefix_iff.2 hpasses.inside,
      fun h => hpasses.ne_root (Path.absolute_inj.1 h), ?_⟩
    exact ⟨other, _, _, hfound, hother, Statistics.parse?_toJson hfits order,
      Statistics.ofJson?_toJson statistics order⟩

/-- The second check repeats the first one just if no directories were made, or the innermost of them
has a canonical path. -/
theorem passes_made_iff {entry : FileEntry} (hroot : Canonical t' root.toList place entry)
    {name : String} (hpasses : Passes files place (ns ++ [name])) (hmade : Made files place ns (t', true)) :
    Passes t' place (ns ++ [name]) ↔
      t' = files ∨ ¬ IsOverlong t' (String.ofList (placeText (ns ++ [name]))) := by
  by_cases hne : t' = files
  · exact ⟨fun _ => .inl hne, fun _ => hne ▸ hpasses⟩
  · obtain ⟨other, hfound, hstays⟩ :=
      exists_stays_iff_of_made hroot.open_place.proper hpasses.proper hmade hne
    have hlong := isOverlong_iff hpasses.proper hfound
    constructor
    · intro hagain
      have hreachable := hstays.1 hagain.stays
      exact .inr fun h => Bool.false_ne_true ((hlong.1 h).symm.trans hreachable)
    · intro h
      have hreachable : FileTree.isReachable other = true := by
        have hnot := mt hlong.2 (h.resolve_left hne)
        simpa using hnot
      exact ⟨hpasses.proper, hpasses.inside, hpasses.ne_root, hstays.2 hreachable⟩

/-- An export to a path that passes the first check. -/
theorem confined_write (hfiles : files.WellFormed)
    (hroot : Canonical files root.toList place .directory) {statistics : Statistics}
    (hfits : statistics.Fits) (order : Statistics.Order) {target name : String}
    (hpasses : Passes files place (ns ++ [name]))
    (hok : resolvePath files root (Path.display target) =
      .ok (String.ofList (placeText (ns ++ [name]))))
    (htext : IsText root.toList → IsText (placeText (ns ++ [name]))) :
    Confined files root place statistics (write files root target statistics order) := by
  have hmade := made_of_stays hfiles hroot.open_place.proper hpasses.proper hpasses.stays
  unfold write
  simp only [hok, parents_placeText hpasses.proper]
  generalize files.makeDirectories (enclosing ns) = made at hmade ⊢
  obtain ⟨t', b⟩ := made
  cases b with
  | false => exact confined_error hmade statistics
  | true =>
      have hroot' := hroot.extend hmade.keeps
      dsimp only
      unfold resolvePath
      -- What is written is checked again, whatever became of the path as a text.
      rcases confine_cases hroot'
        (Path.ofString (Path.display (String.ofList (placeText (ns ++ [name]))))) with
        ⟨found, hfound, hagain, -⟩ | ⟨path, hagain⟩
      · rw [hagain]
        dsimp only
        rw [String.toList_ofList]
        cases hwrite : t'.write (placeText found) (statistics.toJson order).pretty with
        | none => exact confined_error hmade statistics
        | some after => exact confined_written hmade hroot' hfits order hfound hwrite
      · rw [hagain]
        refine ⟨fun q hq => hmade.outside hq, fun _ _ q hq => hmade.leftover hq, ?_, by simp⟩
        intro refused hrefused hbase hoverlong
        obtain rfl : path = refused := ExportError.outsideRoot.inj (Except.error.inj hrefused)
        -- As a text the path is unchanged, so the check says the same of it for the same reasons.
        rw [Path.ofString_display (by simpa using htext hbase)] at hagain
        rcases confine_placeText hroot' hpasses.proper with ⟨-, hsame⟩ | ⟨hnot, hsame⟩
        · cases hagain.symm.trans hsame
        · obtain rfl := ExportError.outsideRoot.inj (Except.error.inj (hagain.symm.trans hsame))
          exact absurd ((passes_made_iff hroot' hpasses hmade).2 (.inr hoverlong)) hnot

/-- An export that made directories is refused if the innermost of them has no canonical path. -/
theorem write_of_isOverlong (hfiles : files.WellFormed)
    (hroot : Canonical files root.toList place .directory) {name path : String}
    (hpasses : Passes files place (ns ++ [name])) (hpath : path.toList = placeText (ns ++ [name]))
    (htext : IsText path.toList) {target : String}
    (hok : resolvePath files root (Path.display target) = .ok path)
    (hmade : files.makeDirectories (enclosing ns) = (t', true)) (hne : t' ≠ files)
    (hlong : IsOverlong t' path) (statistics : Statistics) (order : Statistics.Order) :
    write files root target statistics order = (.error (.outsideRoot path), t') := by
  obtain rfl : path = String.ofList (placeText (ns ++ [name])) := by
    rw [← hpath, String.ofList_toList]
  have hall := made_of_stays hfiles hroot.open_place.proper hpasses.proper hpasses.stays
  rw [hmade] at hall
  have hroot' := hroot.extend hall.keeps
  have hnot : ¬ Passes t' place (ns ++ [name]) := fun h =>
    ((passes_made_iff hroot' hpasses hall).1 h).elim hne fun hshort => hshort hlong
  have hagain : resolvePath t' root (Path.display (String.ofList (placeText (ns ++ [name])))) =
      .error (.outsideRoot (String.ofList (placeText (ns ++ [name])))) := by
    rw [resolvePath, Path.ofString_display htext]
    exact ((confine_placeText hroot' hpasses.proper).resolve_left fun h => hnot h.1).2
  unfold write
  simp only [hok, parents_placeText hpasses.proper, hmade, hagain]

end

/-- An export is confined to its root, and a target with double dots is refused. -/
theorem write_confined {files : FileTree} (hfiles : files.WellFormed) {root : String} {place : Place}
    (hroot : IsRoot files root place) {statistics : Statistics} (hfits : statistics.Fits)
    (order : Statistics.Order) (target : String) :
    Confined files root place statistics (write files root target statistics order) ∧
      (Component.parent ∈ components target.toList →
        write files root target statistics order =
          (.error (.outsideRoot (Path.ofString (Path.display target))), files)) := by
  have hcanonical := hroot.isCanonical hfiles
  constructor
  · rcases confine_cases hcanonical (Path.ofString (Path.display target)) with
      ⟨ns, hpasses, hok, htext⟩ | ⟨path, herror⟩
    · obtain ⟨before, name, rfl⟩ := hpasses.exists_concat
      exact confined_write hfiles hcanonical hfits order hpasses hok fun hbase =>
        htext hbase (Path.isText_ofString _)
    · unfold write resolvePath
      rw [herror]
      exact confined_refused files root place statistics path
  · intro hparent
    have hdots : Component.parent ∈ components (Path.ofString (Path.display target)).toList := by
      simpa [Path.ofString, Path.display] using Path.parent_mem_components_toText hparent
    have hrefused : resolvePath files root (Path.display target) =
        .error (.outsideRoot (Path.ofString (Path.display target))) := by
      rw [resolvePath, confine, if_pos (by simpa using hdots)]
    unfold write
    rw [hrefused]

/-- A project with links to a directory in it and to one outside of it. -/
def linkedProject : FileTree :=
  ⟨[(["out"], .directory), (["project"], .directory), (["project", "reports"], .directory),
    (["project", "latest"], .link "reports"), (["project", "away"], .link "/out")]⟩

/-- The counters of a run over one file. -/
def oneFile : Statistics :=
  { totalFiles := 1, processedFiles := 1, totalElements := 2, byElementType := .ofList [("div", 2)] }

theorem write_confined_through_link :
    (write linkedProject "/project" "latest/new/stats.json" oneFile).1 =
        .ok "/project/latest/new/stats.json" ∧
      Confined linkedProject "/project" ["project"] oneFile
        (write linkedProject "/project" "latest/new/stats.json" oneFile) := by
  have hfiles : linkedProject.WellFormed := FileTree.wellFormed_of_entries (by decide)
  have hroot : IsRoot linkedProject "/project" ["project"] := ⟨by decide +kernel, by decide⟩
  have hfits : oneFile.Fits := by constructor <;> decide
  exact ⟨by decide +kernel, (write_confined hfiles hroot hfits .sorted "latest/new/stats.json").1⟩

/-! ### Refusals that leave directories -/

/-- The name of a directory whose last byte is not part of a text. -/
def strayName : String := String.ofList ['p', Path.stray 0xe9]

/-- A project whose directory has a name that is no text. -/
def strayProject : FileTree := ⟨[([strayName], .directory)]⟩

def strayRoot : String := "/" ++ strayName

/-- A name of many letters. -/
def plainName (length : Nat) : String := String.ofList (List.replicate length 'd')

/-- The longest name of a directory. -/
def longName : String := plainName 255

/-- Directories with long names in one another, in a project. -/
def deepPlace (depth : Nat) : Place := "project" :: List.replicate depth longName

/-- A project with a link to the innermost of its directories. -/
def deepProject : FileTree :=
  ⟨(["project"], .directory) ::
    (["project", "deep"],
      .link (String.ofList (['/'].intercalate (List.replicate 15 longName.toList)))) ::
    (List.range 15).map fun depth => (deepPlace (depth + 1), .directory)⟩

theorem proper_plainName {length : Nat} (h : 0 < length) : Proper (plainName length) := by
  have hletters : ∀ c ∈ (plainName length).toList, c = 'd' := by
    rw [plainName, String.toList_ofList]
    exact fun c hc => (List.mem_replicate.1 hc).2
  have hne : ∀ text : String, (∃ c ∈ text.toList, c ≠ 'd') → plainName length ≠ text := by
    rintro text ⟨c, hc, hcd⟩ rfl
    exact hcd (hletters c hc)
  refine ⟨fun h' => ?_, hne "." ⟨'.', by decide, by decide⟩, hne ".." ⟨'.', by decide, by decide⟩,
    fun h' => ?_⟩
  · have hlength := congrArg (fun text : String => text.toList.length) h'
    simp only [plainName, String.toList_ofList, List.length_replicate] at hlength
    exact Nat.ne_of_gt h hlength
  · exact absurd (hletters '/' h') (by decide)

theorem byteSize_plainName (length : Nat) : Path.byteSize (plainName length).toList = length := by
  have hletter : (Path.charBytes 'd').length = 1 := by decide
  simp [plainName, Path.byteSize, Path.bytes, List.length_flatMap, hletter]

theorem proper_longName : Proper longName := proper_plainName (by decide)

theorem isShort_longName : FileTree.isShort longName = true :=
  decide_eq_true (Nat.le_of_eq (byteSize_plainName 255))

theorem enters_project {allowed : Place → Bool} (h : allowed ["project"] = true) :
    FileTree.Enters allowed [] "project" :=
  ⟨by decide, by decide, by decide, by decide, h⟩

theorem mem_deepProject {place : Place} {entry : FileEntry}
    (h : (place, entry) ∈ deepProject.entries) :
    (place = ["project", "deep"] ∨ ∃ depth ≤ 15, place = deepPlace depth ∧ entry = .directory) := by
  simp only [deepProject, List.mem_cons, List.mem_map, List.mem_range, Prod.mk.injEq] at h
  rcases h with ⟨rfl, rfl⟩ | ⟨rfl, -⟩ | ⟨depth, hdepth, rfl, rfl⟩
  · exact .inr ⟨0, by omega, rfl, rfl⟩
  · exact .inl rfl
  · exact .inr ⟨depth + 1, by omega, rfl, rfl⟩

theorem deepPlace_ne (depth : Nat) : deepPlace depth ≠ ["project", "deep"] := by
  intro h
  have hmem : "deep" ∈ List.replicate depth longName := by
    rw [(List.cons.inj h).2]
    exact List.mem_singleton_self _
  have hsize : Path.byteSize "deep".toList = 255 :=
    (List.mem_replicate.1 hmem).2 ▸ byteSize_plainName 255
  exact absurd hsize (by decide)

theorem get?_deepPlace {depth : Nat} (h : depth ≤ 15) :
    deepProject.get? (deepPlace depth) = some .directory := by
  have hmem : (deepPlace depth, FileEntry.directory) ∈ deepProject.entries := by
    cases depth with
    | zero => exact List.mem_cons_self
    | succ depth =>
        refine List.mem_cons_of_mem _ (List.mem_cons_of_mem _ (List.mem_map.2 ⟨depth, ?_, rfl⟩))
        exact List.mem_range.2 h
  have hsome : (deepProject.entries.lookup (deepPlace depth)).isSome = true :=
    List.lookup_isSome_iff.2 ⟨_, hmem, beq_self_eq_true _⟩
  obtain ⟨entry, hentry⟩ := Option.isSome_iff_exists.1 hsome
  rw [FileTree.get?, if_neg (by simp [deepPlace]), hentry]
  rcases mem_deepProject (FileTree.mem_of_lookup_eq_some hentry) with hlink | ⟨-, -, -, rfl⟩
  · exact absurd hlink (deepPlace_ne depth)
  · rfl

theorem deepPlace_succ (depth : Nat) : deepPlace (depth + 1) = deepPlace depth ++ [longName] := by
  simp [deepPlace, List.replicate_succ']

theorem deepProject_wellFormed : deepProject.WellFormed := by
  refine FileTree.wellFormed_of_entries fun e he => ?_
  obtain ⟨place, entry⟩ := e
  rcases mem_deepProject he with rfl | ⟨depth, hdepth, rfl, rfl⟩
  · exact get?_deepPlace (Nat.zero_le 15)
  · cases depth with
    | zero => rfl
    | succ depth =>
        rw [deepPlace_succ, List.dropLast_concat]
        exact get?_deepPlace (by omega)

theorem get?_deepPlace_concat (name : String) :
    deepProject.get? (deepPlace 15 ++ [name]) = none := by
  rw [FileTree.get?, if_neg (by simp [deepPlace]), List.lookup_eq_none_iff]
  rintro ⟨place, entry⟩ he
  have hlength : place.length < (deepPlace 15 ++ [name]).length := by
    rcases mem_deepProject he with rfl | ⟨depth, hdepth, rfl, -⟩
    · simp [deepPlace]
    · simp only [deepPlace, List.length_append, List.length_cons, List.length_replicate]
      omega
  simpa using fun heq : deepPlace 15 ++ [name] = place => by simp [heq] at hlength

theorem open_deepPlace {allowed : Place → Bool} (h : ∀ depth ≤ 15, allowed (deepPlace depth) = true) :
    FileTree.Open allowed (deepPlace 15) := by
  have hopen : ∀ depth ≤ 15, FileTree.Open allowed (deepPlace depth) := by
    intro depth hdepth
    induction depth with
    | zero => exact (FileTree.open_nil allowed).concat (enters_project (h 0 hdepth)) (by decide)
    | succ depth ih =>
        have hnext := h (depth + 1) hdepth
        rw [deepPlace_succ] at hnext ⊢
        have hname := proper_longName
        exact (ih (by omega)).concat
          ⟨hname.ne_empty, hname.ne_dot, hname.ne_dots, isShort_longName, hnext⟩ hname.no_slash
  exact hopen 15 (Nat.le_refl 15)

theorem byteSize_deepPlace (depth : Nat) :
    Path.byteSize (placeText (deepPlace depth)) = 8 + 256 * depth := by
  induction depth with
  | zero => decide
  | succ depth ih =>
      have hplace : deepPlace depth ≠ [] := List.cons_ne_nil _ _
      rw [deepPlace_succ, FileTree.byteSize_placeText_concat hplace, ih, longName, byteSize_plainName]
      omega

theorem proper_deep : ∀ n ∈ ["project", "deep"], Proper n := by
  have hproject : Proper "project" := by constructor <;> decide
  have hdeep : Proper "deep" := by constructor <;> decide
  simpa using ⟨hproject, hdeep⟩

/-- The link leads to the innermost directory. -/
theorem resolveWithin_deep (allowed : Place → Bool) (h : ∀ depth ≤ 15, allowed (deepPlace depth) = true)
    (hlink : allowed ["project", "deep"] = true) :
    deepProject.resolveWithin allowed true (placeText ["project", "deep"]) =
      .found (deepPlace 15) .directory := by
  have hproject := enters_project (h 0 (Nat.zero_le 15))
  have hdeep : FileTree.Enters allowed ["project"] "deep" :=
    ⟨by decide, by decide, by decide, by decide, hlink⟩
  have hnames : FileTree.names (['/'].intercalate (List.replicate 15 longName.toList)) =
      List.replicate 15 longName := by
    rw [FileTree.names, List.splitOn_intercalate '/' _ (by simp), List.map_replicate,
      String.ofList_toList]
    intro s hs
    rw [(List.mem_replicate.1 hs).2]
    exact proper_longName.no_slash
  have habsolute : Path.isAbsolute (['/'].intercalate (List.replicate 15 longName.toList)) = false := by
    have hfirst : longName.toList = 'd' :: List.replicate 254 'd' := by
      rw [longName, plainName, String.toList_ofList]
      exact List.replicate_succ
    rw [List.replicate_succ, List.intercalate_cons_of_ne_nil (by simp), hfirst]
    rfl
  have hopen := open_deepPlace h
  have hget := get?_deepPlace (Nat.le_refl 15)
  have hplace : deepPlace 15 = ["project"] ++ List.replicate 15 longName := rfl
  rw [hplace] at hopen hget ⊢
  have hrest := FileTree.walk_along deepProject_wellFormed 39 (by simp)
    (get?_deepPlace (Nat.zero_le 15)) hopen hget
  rw [FileTree.resolveWithin_placeText proper_deep (by decide)]
  refine (FileTree.Walk.enter hproject (get?_deepPlace (Nat.zero_le 15)) ?_).resolveFrom_eq
  refine FileTree.Walk.follow hdeep rfl (fun _ => rfl) ?_
  rw [String.toList_ofList, habsolute, hnames, List.append_nil]
  exact hrest

/-- A directory behind the link that is not there yet. -/
def deepNames : List String := ["project", "deep", longName]

def deepPath : String := String.ofList (placeText (deepNames ++ ["stats.json"]))

theorem deepNames_proper : ∀ n ∈ deepNames ++ ["stats.json"], Proper n := by
  have hfile : Proper "stats.json" := by constructor <;> decide
  have hlast : ∀ n ∈ [longName, "stats.json"], Proper n := by simpa using ⟨proper_longName, hfile⟩
  show ∀ n ∈ ["project", "deep"] ++ [longName, "stats.json"], Proper n
  exact List.forall_mem_append.2 ⟨proper_deep, hlast⟩

/-- The path has plain letters only. -/
theorem mem_deepPath {c : Char} (h : c ∈ placeText (deepNames ++ ["stats.json"])) :
    c ∈ "/projectdeepstats.json".toList := by
  have hplain : (["project", "deep", "stats.json"].all fun n =>
      n.toList.all fun c => "/projectdeepstats.json".toList.contains c) = true := by decide
  have hlong : ∀ c ∈ longName.toList, c ∈ "/projectdeepstats.json".toList := by
    intro c hc
    rw [longName, plainName, String.toList_ofList] at hc
    rw [(List.mem_replicate.1 hc).2]
    decide
  rcases List.mem_cons.1 h with rfl | h
  · decide
  · rcases Path.mem_intercalate h with rfl | ⟨s, hs, hc⟩
    · decide
    · obtain ⟨n, hn, rfl⟩ := List.mem_map.1 hs
      by_cases hname : n = longName
      · exact hlong c (hname ▸ hc)
      · have hn' : n ∈ ["project", "deep", "stats.json"] := by
          simpa [deepNames, hname] using hn
        exact List.contains_iff_mem.1 (List.all_eq_true.1 (List.all_eq_true.1 hplain n hn') c hc)

theorem isText_deepPath : IsText deepPath.toList := by
  have hstray : ("/projectdeepstats.json".toList.any Path.isStray) = false := by decide
  rw [List.any_eq_false] at hstray
  rw [deepPath, String.toList_ofList]
  refine ⟨_, (Path.ofText_of_not_stray fun c hc => ?_).symm⟩
  simpa using hstray c (mem_deepPath hc)

theorem null_not_mem_deepNames : '\x00' ∉ placeText deepNames := by
  intro hmem
  have hnull : '\x00' ∉ "/projectdeepstats.json".toList := by decide
  exact hnull (mem_deepPath ((FileTree.placeText_append deepNames ["stats.json"]).subset hmem))

/-- The new directory is the sixteenth one. -/
theorem missing_deepNames : deepProject.resolve false (placeText deepNames) = .missing (deepPlace 16) := by
  have hproper : ∀ n ∈ ["project", "deep"] ++ [longName], Proper n := fun n hn =>
    deepNames_proper n (List.mem_append_left _ hn)
  have hsize : Path.byteSize (placeText deepNames) ≤ FileTree.maxPathBytes := by
    have hlink : Path.byteSize (placeText ["project", "deep"]) = 13 := by decide
    have hsplit := FileTree.byteSize_placeText_concat (List.cons_ne_nil "project" ["deep"]) longName
    rw [hlink, longName, byteSize_plainName] at hsplit
    exact Nat.le_trans (Nat.le_of_eq hsplit) (by decide)
  rw [FileTree.resolve_of_byteSize_le hsize]
  have henter := FileTree.resolveWithin_concat deepProject (fun _ => true) hproper null_not_mem_deepNames
  rw [resolveWithin_deep (fun _ => true) (fun _ _ => rfl) rfl] at henter
  rw [show deepNames = ["project", "deep"] ++ [longName] from rfl, henter]
  simp [Resolution.enter, isShort_longName, get?_deepPlace_concat, deepPlace_succ 15]

theorem isRoot_deepProject : IsRoot deepProject "/project" ["project"] := by
  have hproper : ∀ n ∈ ["project"], Proper n := fun n hn =>
    proper_deep n (List.mem_append_left ["deep"] hn)
  have hproject : FileTree.Enters (fun _ => true) [] "project" := enters_project rfl
  refine ⟨?_, by decide⟩
  have htext : "/project".toList = placeText ["project"] := by decide
  rw [htext, FileTree.resolve_of_byteSize_le (by decide),
    FileTree.resolveWithin_placeText hproper (by decide)]
  exact (FileTree.Walk.enter hproject (get?_deepPlace (Nat.zero_le 15)) .arrive).resolveFrom_eq

theorem passes_deepNames : Passes deepProject ["project"] (deepNames ++ ["stats.json"]) := by
  refine ⟨deepNames_proper, ⟨["deep", longName, "stats.json"], rfl⟩, by simp [deepNames], ?_⟩
  have hfile : deepProject.isPresent (placeText (deepNames ++ ["stats.json"])) = false := by
    rcases deepProject.resolve_concat deepNames_proper with hblocked | henter
    · exact FileTree.isPresent_eq_false hblocked (by simp)
    · rw [FileTree.resolve_true_eq missing_deepNames (by simp)] at henter
      exact FileTree.isPresent_eq_false henter (by simp [Resolution.enter])
  have hdirectory : deepProject.isPresent (placeText (["project", "deep"] ++ [longName])) = false :=
    FileTree.isPresent_eq_false missing_deepNames (by simp)
  have hreachable : ∀ depth ≤ 15, FileTree.isReachable (deepPlace depth) = true := by
    intro depth hdepth
    refine decide_eq_true ?_
    rw [byteSize_deepPlace, FileTree.maxPathBytes]
    omega
  have hlands : Lands deepProject ["project"] ["project", "deep"] :=
    ⟨_, _, resolveWithin_deep _ hreachable (by decide), ⟨List.replicate 15 longName, rfl⟩⟩
  have hpresent : deepProject.isPresent (placeText ["project", "deep"]) = true := by
    have hfound := resolveWithin_deep (fun _ => true) (fun _ _ => rfl) rfl
    rw [← FileTree.resolve_of_byteSize_le (by decide)] at hfound
    exact FileTree.isPresent_of_resolve hfound
  have hroot := (isRoot_deepProject.isCanonical deepProject_wellFormed).open_place.proper
  refine (stays_concat hfile).2 ((stays_concat hdirectory).2 ?_)
  exact (stays_of_isPresent deepProject_wellFormed hroot hpresent).2 hlands

/-- The project once the directory is made. -/
def deeperProject : FileTree := deepProject.put (deepPlace 16) .directory

theorem makeDirectories_deepNames :
    deepProject.makeDirectories (enclosing deepNames) = (deeperProject, true) := by
  have hmissing := missing_deepNames
  unfold deepNames at hmissing ⊢
  rw [show ["project", "deep", longName] = ["project", "deep"] ++ [longName] from rfl,
    enclosing_concat, FileTree.makeDirectories]
  simp only [List.cons_append, List.nil_append, hmissing]
  rfl

theorem get?_deeperProject (place : Place) : deeperProject.get? place =
    if place = deepPlace 16 then some .directory else deepProject.get? place :=
  FileTree.get?_put deepProject (List.cons_ne_nil _ _) .directory place

theorem deeperProject_ne : deeperProject ≠ deepProject := by
  intro h
  have hnew := get?_deeperProject (deepPlace 16)
  rw [h, if_pos rfl, deepPlace_succ 15, get?_deepPlace_concat] at hnew
  cases hnew

theorem isOverlong_deepPath : IsOverlong deeperProject deepPath := by
  have hmissing := FileTree.resolve_true_eq missing_deepNames (by simp)
  have hentry : ∀ target, FileEntry.directory ≠ .link target := by simp
  have hfound := ((FileTree.lookup_resolve true (placeText deepNames)).put deepProject_wellFormed
    hentry (.inl hmissing)).2
  refine (isOverlong_iff deepNames_proper hfound).2 (decide_eq_false ?_)
  rw [byteSize_deepPlace, FileTree.maxPathBytes]
  omega

theorem resolvePath_deepPath :
    resolvePath deepProject "/project" (Path.display deepPath) = .ok deepPath := by
  have hcanonical := isRoot_deepProject.isCanonical deepProject_wellFormed
  rw [resolvePath, Path.ofString_display isText_deepPath]
  exact ((confine_placeText hcanonical deepNames_proper).resolve_right fun h => h.1 passes_deepNames).2

theorem write_deepPath (statistics : Statistics) (order : Statistics.Order) :
    write deepProject "/project" deepPath statistics order =
      (.error (.outsideRoot deepPath), deeperProject) :=
  write_of_isOverlong deepProject_wellFormed (isRoot_deepProject.isCanonical deepProject_wellFormed)
    passes_deepNames String.toList_ofList isText_deepPath resolvePath_deepPath makeDirectories_deepNames
    deeperProject_ne isOverlong_deepPath statistics order

/-- A refused export leaves a directory behind, in a root that is no text and in a root that is one. -/
theorem write_refused_leaves_directory :
    (strayProject.WellFormed ∧ IsRoot strayProject strayRoot [strayName] ∧
      (∃ path, (write strayProject strayRoot "new/stats.json" oneFile).1 =
        .error (.outsideRoot path)) ∧
      (write strayProject strayRoot "new/stats.json" oneFile).2 ≠ strayProject) ∧
    (deepProject.WellFormed ∧ IsRoot deepProject "/project" ["project"] ∧
      (∃ path, (write deepProject "/project" deepPath oneFile).1 = .error (.outsideRoot path)) ∧
      (write deepProject "/project" deepPath oneFile).2 ≠ deepProject) := by
  refine ⟨⟨FileTree.wellFormed_of_entries (by decide), ⟨by decide +kernel, by decide +kernel⟩, ?_, ?_⟩,
    deepProject_wellFormed, isRoot_deepProject, ?_, ?_⟩
  · exact ⟨String.ofList "/p�/new/stats.json".toList, by decide +kernel⟩
  · decide +kernel
  · exact ⟨deepPath, congrArg Prod.fst (write_deepPath oneFile .sorted)⟩
  · have hwrite := write_deepPath oneFile .sorted
    simpa only [hwrite] using deeperProject_ne

end OriginTags.Export
