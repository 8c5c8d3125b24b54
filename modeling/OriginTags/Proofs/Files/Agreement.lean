import Mathlib.Data.Option.Defs
import OriginTags.Proofs.Files.Resolve
/-!
# Trees with other contents

Two trees may hold the same but for the contents of files, which are only related in some way. No path
leads elsewhere for that, so directories and files are made in both trees alike.
-/

namespace OriginTags

/-- Two entries are the same, but for the content of a file. -/
inductive FileEntry.Agrees (R : String → String → Prop) : FileEntry → FileEntry → Prop
  | directory : Agrees R .directory .directory
  | file {content content' : String} (h : R content content') : Agrees R (.file content) (.file content')
  | link (target : String) : Agrees R (.link target) (.link target)

namespace FileTree

/-- Two trees hold the same everywhere, but for the contents of files. -/
def Agrees (R : String → String → Prop) (t t' : FileTree) : Prop :=
  ∀ place, Option.Rel (FileEntry.Agrees R) (t.get? place) (t'.get? place)

/-- Two paths lead to the same place, or to none for the same reason. -/
inductive Resolution.Agrees (R : String → String → Prop) : Resolution → Resolution → Prop
  | found (place : Place) {entry entry' : FileEntry} (h : entry.Agrees R entry') :
      Agrees R (.found place entry) (.found place entry')
  | missing (place : Place) : Agrees R (.missing place) (.missing place)
  | noDirectory : Agrees R .noDirectory .noDirectory
  | blocked : Agrees R .blocked .blocked

variable {R : String → String → Prop} {t t' : FileTree}

namespace Agrees

theorem refl (hR : ∀ content, R content content) (t : FileTree) : t.Agrees R t := by
  intro place
  cases t.get? place with
  | none => exact .none
  | some entry =>
      cases entry with
      | directory => exact .some .directory
      | file content => exact .some (.file (hR content))
      | link target => exact .some (.link target)

section

variable {place : Place} (h : t.Agrees R t')
include h

theorem get?_none (hget : t.get? place = none) : t'.get? place = none := by
  have hplace := h place
  rw [hget] at hplace
  cases hrest : t'.get? place with
  | none => rfl
  | some entry =>
      rw [hrest] at hplace
      cases hplace

theorem exists_get? {entry : FileEntry} (hget : t.get? place = some entry) :
    ∃ entry', t'.get? place = some entry' ∧ entry.Agrees R entry' := by
  have hplace := h place
  rw [hget] at hplace
  cases hrest : t'.get? place with
  | none =>
      rw [hrest] at hplace
      cases hplace
  | some entry' =>
      rw [hrest] at hplace
      cases hplace with
      | some hentry => exact ⟨entry', rfl, hentry⟩

theorem get?_directory (hget : t.get? place = some .directory) : t'.get? place = some .directory := by
  obtain ⟨entry', hget', hentry⟩ := h.exists_get? hget
  cases hentry with
  | directory => exact hget'

theorem get?_link {target : String} (hget : t.get? place = some (.link target)) :
    t'.get? place = some (.link target) := by
  obtain ⟨entry', hget', hentry⟩ := h.exists_get? hget
  cases hentry with
  | link _ => exact hget'

theorem exists_file {content : String} (hget : t.get? place = some (.file content)) :
    ∃ content', t'.get? place = some (.file content') ∧ R content content' := by
  obtain ⟨entry', hget', hentry⟩ := h.exists_get? hget
  cases hentry with
  | file hcontent => exact ⟨_, hget', hcontent⟩

/-- A walk goes the same way in both trees. -/
theorem exists_walk {allowed : Place → Bool} {followLast : Bool} {links : Nat} {names : List String}
    {r : Resolution} (hwalk : Walk t allowed followLast links place names r) :
    ∃ r', Walk t' allowed followLast links place names r' ∧ r.Agrees R r' := by
  induction hwalk with
  | exhausted => exact ⟨_, .exhausted, .blocked⟩
  | arrive => exact ⟨_, .arrive, .found _ .directory⟩
  | skip hname _ ih =>
      obtain ⟨r', hwalk, hr⟩ := ih
      exact ⟨r', .skip hname hwalk, hr⟩
  | up _ ih =>
      obtain ⟨r', hwalk, hr⟩ := ih
      exact ⟨r', .up hwalk, hr⟩
  | refused hname hrefused => exact ⟨_, .refused hname hrefused, .blocked⟩
  | missing hname hget => exact ⟨_, .missing hname (h.get?_none hget), .missing _⟩
  | lost hname hget hrest => exact ⟨_, .lost hname (h.get?_none hget) hrest, .noDirectory⟩
  | enter hname hget _ ih =>
      obtain ⟨r', hwalk, hr⟩ := ih
      exact ⟨r', .enter hname (h.get?_directory hget) hwalk, hr⟩
  | file hname hget =>
      obtain ⟨content', hget', hcontent⟩ := h.exists_file hget
      exact ⟨_, .file hname hget', .found _ (.file hcontent)⟩
  | throughFile hname hget hrest =>
      obtain ⟨content', hget', -⟩ := h.exists_file hget
      exact ⟨_, .throughFile hname hget' hrest, .blocked⟩
  | stop hname hget hlast => exact ⟨_, .stop hname (h.get?_link hget) hlast, .found _ (.link _)⟩
  | follow hname hget hlast _ ih =>
      obtain ⟨r', hwalk, hr⟩ := ih
      exact ⟨r', .follow hname (h.get?_link hget) hlast hwalk, hr⟩

theorem resolveWithin (allowed : Place → Bool) (followLast : Bool) (path : List Char) :
    (t.resolveWithin allowed followLast path).Agrees R (t'.resolveWithin allowed followLast path) := by
  unfold FileTree.resolveWithin
  split
  · exact .blocked
  · split
    · obtain ⟨r', hwalk, hr⟩ :=
        h.exists_walk (walk_resolveFrom t allowed followLast maxLinks [] (names path))
      rwa [hwalk.resolveFrom_eq]
    · exact .noDirectory

theorem resolve (followLast : Bool) (path : List Char) :
    (t.resolve followLast path).Agrees R (t'.resolve followLast path) := by
  unfold FileTree.resolve
  split
  · exact .blocked
  · exact h.resolveWithin _ followLast path

theorem canonicalize_eq (path : List Char) : t.canonicalize path = t'.canonicalize path := by
  have hresolve := h.resolveWithin isReachable true path
  unfold FileTree.canonicalize
  generalize t.resolveWithin isReachable true path = r at hresolve ⊢
  generalize t'.resolveWithin isReachable true path = r' at hresolve ⊢
  cases hresolve <;> rfl

theorem isPresent_eq (path : List Char) : t.isPresent path = t'.isPresent path := by
  have hresolve := h.resolve false path
  unfold FileTree.isPresent
  generalize t.resolve false path = r at hresolve ⊢
  generalize t'.resolve false path = r' at hresolve ⊢
  cases hresolve <;> rfl

theorem isDirectory_eq (path : List Char) : t.isDirectory path = t'.isDirectory path := by
  have hresolve := h.resolve true path
  unfold FileTree.isDirectory
  generalize t.resolve true path = r at hresolve ⊢
  generalize t'.resolve true path = r' at hresolve ⊢
  cases hresolve with
  | found place hentry => cases hentry <;> rfl
  | _ => rfl

end

theorem put (h : t.Agrees R t') (place : Place) {entry entry' : FileEntry}
    (hentry : entry.Agrees R entry') : (t.put place entry).Agrees R (t'.put place entry') := by
  intro other
  by_cases hother : other = []
  · subst hother
    rw [get?_nil, get?_nil]
    exact .some .directory
  · rw [get?_put_of_ne_nil t place entry hother, get?_put_of_ne_nil t' place entry' hother]
    split
    · exact .some hentry
    · exact h other

/-- Directories are made in both trees alike. -/
theorem makeDirectories (h : t.Agrees R t') (parents : List (List Char)) :
    (t.makeDirectories parents).1.Agrees R (t'.makeDirectories parents).1 ∧
      (t.makeDirectories parents).2 = (t'.makeDirectories parents).2 := by
  induction parents with
  | nil => exact ⟨h, rfl⟩
  | cons path parents ih =>
      have hresolve := h.resolve false path
      have hdirectory := h.isDirectory_eq path
      unfold FileTree.makeDirectories
      generalize t.resolve false path = r at hresolve ⊢
      generalize t'.resolve false path = r' at hresolve ⊢
      cases hresolve with
      | found place hentry => exact ⟨h, hdirectory⟩
      | missing place => exact ⟨h.put place .directory, rfl⟩
      | blocked => exact ⟨h, hdirectory⟩
      | noDirectory =>
          generalize t.makeDirectories parents = made at ih ⊢
          generalize t'.makeDirectories parents = made' at ih ⊢
          obtain ⟨s, b⟩ := made
          obtain ⟨s', b'⟩ := made'
          obtain ⟨hmade, rfl⟩ := ih
          cases b with
          | false => exact ⟨hmade, rfl⟩
          | true =>
              have hagain := hmade.resolve false path
              dsimp only at hagain ⊢
              generalize s.resolve false path = r at hagain ⊢
              generalize s'.resolve false path = r' at hagain ⊢
              cases hagain with
              | missing place => exact ⟨hmade.put place .directory, rfl⟩
              | found place hentry => exact ⟨hmade, hmade.isDirectory_eq path⟩
              | noDirectory => exact ⟨hmade, hmade.isDirectory_eq path⟩
              | blocked => exact ⟨hmade, hmade.isDirectory_eq path⟩

/-- Related contents are written in both trees, or neither is. -/
theorem write (h : t.Agrees R t') (path : List Char) {content content' : String}
    (hcontent : R content content') :
    Option.Rel (Agrees R) (t.write path content) (t'.write path content') := by
  have hresolve := h.resolve true path
  unfold FileTree.write
  generalize t.resolve true path = r at hresolve ⊢
  generalize t'.resolve true path = r' at hresolve ⊢
  cases hresolve with
  | found place hentry =>
      cases hentry with
      | directory => exact .none
      | file _ => exact .some (h.put place (.file hcontent))
      | link _ => exact .none
  | missing place => exact .some (h.put place (.file hcontent))
  | noDirectory => exact .none
  | blocked => exact .none

end Agrees

end FileTree

end OriginTags
