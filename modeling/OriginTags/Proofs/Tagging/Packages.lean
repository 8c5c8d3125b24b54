import OriginTags.Proofs.Files.Path
import OriginTags.Proofs.Tagging.Session
/-!
# Installed packages

A module is taken for a part of an installed package by the directories that its id names, with
slashes of both kinds and whatever the query behind it says. Such modules are left alone. A name that
only looks like that of a directory of packages stops no module, and neither does a file of that name.
-/

namespace OriginTags

/-! ## Parts of ids -/

/-- Whether a character separates the parts of an id. -/
def isSeparator (c : Char) : Bool := c == '/' || c == '\\'

/-- The parts of an id, without its query. -/
def idParts (id : String) : List (List Char) :=
  (id.toList.takeWhile (· != '?')).splitOnP isSeparator

/-- A module in a directory of installed packages. The last part of an id names no directory. -/
def InPackages (id : String) : Prop := "node_modules".toList ∈ (idParts id).dropLast

instance (id : String) : Decidable (InPackages id) := inferInstanceAs (Decidable (_ ∈ _))

theorem splitOn_replaceChar (cs : List Char) :
    (Text.replaceChar '\\' '/' cs).splitOn '/' = cs.splitOnP isSeparator := by
  induction cs with
  | nil => rfl
  | cons c cs ih =>
      have hcons : Text.replaceChar '\\' '/' (c :: cs) =
          (if c = '\\' then '/' else c) :: Text.replaceChar '\\' '/' cs := rfl
      rw [hcons, List.splitOnP_cons_eq_if_modifyHead, List.splitOn_cons_eq_if_modifyHead, ih]
      by_cases hseparator : isSeparator c = true
      · have hslash : (if c = '\\' then '/' else c) = '/' := by
          simp only [isSeparator, Bool.or_eq_true, beq_iff_eq] at hseparator
          rcases hseparator with rfl | rfl <;> rfl
        rw [if_pos hseparator, hslash, if_pos (beq_self_eq_true _)]
      · have hne : c ≠ '/' ∧ c ≠ '\\' := by simpa [isSeparator] using hseparator
        rw [if_neg hseparator, if_neg hne.2, if_neg (by simpa using hne.1)]

/-- The parts of an id are the segments of the path that it stands for. -/
theorem splitOn_modulePath (id : String) : (modulePath id).toList.splitOn '/' = idParts id := by
  rw [modulePath, String.toList_ofList, splitOn_replaceChar, idParts]

/-! ## Directories of packages -/

theorem isVendored_iff (path : String) :
    isVendored path = true ↔ "node_modules".toList ∈ (path.toList.splitOn '/').dropLast := by
  have hname : '/' ∉ "node_modules".toList := by decide
  rw [Path.mem_dropLast_splitOn_iff hname, isVendored, Bool.or_eq_true, Text.occursIn_iff_infix,
    Text.startsWith, List.isPrefixOf_iff_prefix]
  rfl

theorem isVendored_modulePath_iff (id : String) :
    isVendored (modulePath id) = true ↔ InPackages id := by
  rw [isVendored_iff, splitOn_modulePath, InPackages]

/-- A file may have the name of a directory of packages. -/
example : isVendored (modulePath "src\\node_modules") = false ∧
    isVendored (modulePath "node_modules\\") = true := by decide

/-! ## Queries -/

theorem takeWhile_append_query (cs query : List Char) :
    (cs ++ '?' :: query).takeWhile (· != '?') = cs.takeWhile (· != '?') := by
  induction cs with
  | nil => rfl
  | cons c cs ih => rw [List.cons_append, List.takeWhile_cons, List.takeWhile_cons, ih]

theorem modulePath_append_query (id query : String) :
    modulePath (id ++ "?" ++ query) = modulePath id := by
  have hsplit : (id ++ "?" ++ query).toList = id.toList ++ '?' :: query.toList := by simp
  rw [modulePath, hsplit, takeWhile_append_query, modulePath]

/-! ## Modules -/

namespace Tagger

/-- A tagger knows a module by its path. -/
theorem transform_congr {id id' : String} (h : modulePath id = modulePath id') (t : Tagger)
    (code : String) : t.transform code id = t.transform code id' := by
  rw [transform, h, transform]

theorem transform_of_inPackages {id : String} (h : InPackages id) (t : Tagger) (code : String) :
    t.transform code id = pure (t, none) := by
  have hgated : isGated t.config (modulePath id) = true := by
    rw [isGated, (isVendored_modulePath_iff id).2 h, Bool.or_true]
  rw [transform, if_pos hgated]

/-- A module that is in no directory of packages is stopped by another gate, or not at all. -/
theorem not_skips_of_not_inPackages {config : Config} {id : String} (h : ¬ InPackages id)
    (henabled : config.enabled = true)
    (hextension : hasSupportedExtension config (modulePath id) = true)
    (hfilter : Glob.shouldProcess [(moduleFile config id).relativePath, modulePath id]
      config.includePaths config.excludePaths = true) : ¬ Skips config id := by
  intro hskips
  cases hskips with
  | disabled hdisabled => exact absurd henabled (Bool.eq_false_iff.1 hdisabled)
  | otherExtension hother => exact absurd hextension (Bool.eq_false_iff.1 hother)
  | vendored hvendored => exact h ((isVendored_modulePath_iff id).1 hvendored)
  | filtered hfiltered => exact absurd hfilter (Bool.eq_false_iff.1 hfiltered)

/-- A module is taken for a part of an installed package exactly if a directory of its id has the name
of directories of packages. Then it is left alone: it gets no text, nothing is counted or logged, and no
hook is called. Any other module is processed if no other gate stops it. A query makes no difference to
a module. -/
theorem transform_inPackages (t : Tagger) (code id : String) :
    (isVendored (modulePath id) = true ↔ InPackages id) ∧
      (InPackages id → t.transform code id = pure (t, none)) ∧
      (¬ InPackages id → t.config.enabled = true →
        hasSupportedExtension t.config (modulePath id) = true →
        Glob.shouldProcess [(moduleFile t.config id).relativePath, modulePath id]
          t.config.includePaths t.config.excludePaths = true →
        t.transform code id = t.process code (modulePath id) (moduleFile t.config id)) ∧
      ∀ query, t.transform code (id ++ "?" ++ query) = t.transform code id := by
  refine ⟨isVendored_modulePath_iff id, ?_, ?_, ?_⟩
  · intro hinside
    exact transform_of_inPackages hinside t code
  · intro houtside henabled hextension hfilter
    exact transform_of_not_skips
      (not_skips_of_not_inPackages houtside henabled hextension hfilter) code
  · intro query
    exact transform_congr (modulePath_append_query id query) t code

/-- A module in a package, spelled with slashes of both kinds, and one with similar names of its own
whose query names a directory of packages. -/
theorem transform_inPackages_mixed :
    let t : Tagger := { config := {} }
    let package := "src\\node_modules/pkg\\a.tsx?b"
    let own := "node_modules_2/my.node_modules\\node_modules.tsx?/node_modules/a.tsx"
    InPackages package ∧ t.transform "<a/>" package = pure (t, none) ∧ ¬ InPackages own ∧
      t.transform "<a/>" own = t.process "<a/>" (modulePath own) (moduleFile t.config own) ∧
      (t.transform "<a/>" own).value.1.statistics.totalFiles = 1 := by
  intro t package own
  have hpackage : InPackages package := by decide
  have hown : ¬ InPackages own := by decide
  exact ⟨hpackage, (transform_inPackages t "<a/>" package).2.1 hpackage, hown,
    (transform_inPackages t "<a/>" own).2.2.1 hown rfl (by decide) (by decide), by decide +kernel⟩

end Tagger

end OriginTags
