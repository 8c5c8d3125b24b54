import OriginTags.Config
import OriginTags.Proofs.Tagging.Export
/-!
# Accepted targets

A path for the statistics that was accepted once is spelled plainly, and it is accepted again as it is: when
the options are resolved, before directories are made and after that. Two things can be lost on the way:
what a path has that is not text, and the canonical path of a new directory that is too deep for one.
-/

namespace OriginTags

namespace Export

open FileTree (Canonical placeText)
open OriginTags.Path (Component IsText Proper absolute components ofComponents)

/-! ## Canonical roots -/

theorem isAbsolute_of_canonicalize {t : FileTree} {path text : List Char}
    (h : t.canonicalize path = some text) : Path.isAbsolute path = true ∧ '\x00' ∉ path := by
  obtain ⟨place, entry, hfound, -⟩ := FileTree.canonicalize_eq_some_iff.1 h
  unfold FileTree.resolveWithin at hfound
  split at hfound
  · cases hfound
  · next hnull =>
    split at hfound
    · next habsolute => exact ⟨habsolute, by simpa using hnull⟩
    · cases hfound

/-- What leads nowhere from the working directory leads nowhere on its own. -/
theorem canonicalize_of_seenFrom {t : FileTree} {path : List Char} {workingDirectory : Option String}
    (h : t.canonicalize (Config.seenFrom workingDirectory path) = none) : t.canonicalize path = none := by
  cases workingDirectory with
  | none => exact h
  | some directory =>
      cases hpath : t.canonicalize path with
      | none => rfl
      | some text =>
          obtain ⟨habsolute, -⟩ := isAbsolute_of_canonicalize hpath
          have hne : path ≠ [] := by
            rintro rfl
            cases habsolute
          simp only [Config.seenFrom, if_neg hne, Path.join_of_isAbsolute _ habsolute] at h
          exact absurd (hpath.symm.trans h) (by simp)

/-- A root with all links followed is canonical, if it can be resolved at all. -/
theorem exists_canonical_canonicalRoot {t : FileTree} (ht : t.WellFormed) {root text : String}
    {workingDirectory : Option String} (hroot : Config.canonicalRoot t root workingDirectory = text)
    (h : t.canonicalize text.toList ≠ none) : ∃ place entry, Canonical t text.toList place entry := by
  unfold Config.canonicalRoot at hroot
  split at hroot
  · next path hpath =>
    obtain rfl : path = text.toList := by rw [← hroot, String.toList_ofList]
    obtain ⟨again, hagain⟩ := Option.ne_none_iff_exists'.1 h
    exact FileTree.exists_canonical ht
      (FileTree.canonicalize_canonicalize ht hpath (isAbsolute_of_canonicalize hagain).2)
  · next hnone =>
    rw [hroot] at hnone
    exact absurd (canonicalize_of_seenFrom hnone) h

/-! ## Accepted paths -/

/-- Nothing is accepted below a root that cannot be resolved. -/
theorem canonicalize_ne_none_of_confine {t : FileTree} {root requested path : String}
    (h : confine t root requested = .ok path) : t.canonicalize root.toList ≠ none := by
  intro hnone
  unfold confine at h
  simp only [hnone] at h
  split at h
  · cases h
  · split at h <;> cases h

theorem mem_splitOn_placeText {ns : List String} (h : ∀ n ∈ ns, Proper n) {s : List Char}
    (hs : s ∈ (placeText ns).splitOn '/') : s = [] ∨ ∃ n ∈ ns, s = n.toList := by
  cases ns with
  | nil => simpa [placeText, List.splitOn_cons_eq_if_modifyHead] using hs
  | cons first rest =>
      have hslash : ∀ part ∈ (first :: rest).map String.toList, '/' ∉ part := by
        intro part hpart
        obtain ⟨n, hn, rfl⟩ := List.mem_map.1 hpart
        exact (h n hn).no_slash
      rw [placeText, List.splitOn_cons_eq_if_modifyHead, if_pos (beq_self_eq_true _),
        List.splitOn_intercalate '/' hslash (by simp)] at hs
      rcases List.mem_cons.1 hs with rfl | hs
      · exact .inl rfl
      · obtain ⟨n, hn, rfl⟩ := List.mem_map.1 hs
        exact .inr ⟨n, hn, rfl⟩

/-- No name of a plain path is a dot or a double dot. -/
theorem dots_not_mem_splitOn {ns : List String} (h : ∀ n ∈ ns, Proper n) :
    ['.'] ∉ (placeText ns).splitOn '/' ∧ ['.', '.'] ∉ (placeText ns).splitOn '/' := by
  constructor
  · intro hmem
    rcases mem_splitOn_placeText h hmem with hnil | ⟨n, hn, hname⟩
    · cases hnil
    · exact Path.toList_ne (h n hn).ne_dot hname.symm
  · intro hmem
    rcases mem_splitOn_placeText h hmem with hnil | ⟨n, hn, hname⟩
    · cases hnil
    · exact Path.toList_ne (h n hn).ne_dots hname.symm

/-- No directory that an export makes for a path is too deep for a canonical path. -/
def InReach (files : FileTree) (path : String) : Prop :=
  ∀ made, files.makeDirectories (directoriesAround path) = (made, true) →
    made = files ∨ ¬ IsOverlong made path

/-- What holds of a path for the statistics that was accepted below a root. What an export does with it
depends on its text, so it is said for roots that are texts. -/
structure Settled (files : FileTree) (root path : String) : Prop where
  below : components root.toList <+: components path.toList
  ne_root : components root.toList ≠ components path.toList
  no_dot : ['.'] ∉ path.toList.splitOn '/'
  no_dots : ['.', '.'] ∉ path.toList.splitOn '/'
  confined : confine files root path = .ok path
  again : IsText root.toList → resolvePath files root (Path.display path) = .ok path
  afterwards : IsText root.toList → InReach files path →
    ∀ made, files.makeDirectories (directoriesAround path) = (made, true) →
      resolvePath made root (Path.display path) = .ok path
  written : IsText root.toList → InReach files path → ∀ statistics order,
    (write files root path statistics order).1 = .ok path ∨
      (write files root path statistics order).1 = .error .io

/-- An export to a path that both checks leave as it is writes there or fails for other reasons. -/
theorem write_cases {files : FileTree} {root path : String}
    (hfirst : resolvePath files root (Path.display path) = .ok path)
    (hsecond : ∀ made, files.makeDirectories (directoriesAround path) = (made, true) →
      resolvePath made root (Path.display path) = .ok path) (statistics : Statistics)
    (order : Statistics.Order) :
    (write files root path statistics order).1 = .ok path ∨
      (write files root path statistics order).1 = .error .io := by
  unfold write
  simp only [hfirst]
  cases hmade : files.makeDirectories (directoriesAround path) with
  | mk made b =>
      simp only [directoriesAround] at hmade
      simp only [hmade]
      cases b with
      | false => exact .inr rfl
      | true =>
          simp only [hsecond made hmade]
          cases made.write path.toList (statistics.toJson order).pretty with
          | none => exact .inr rfl
          | some after => exact .inl rfl

/-- A path is accepted again as it is, before directories are made and after that. -/
theorem settled_of_confine {files : FileTree} (hfiles : files.WellFormed) {root requested path : String}
    {place : Place} {entry : FileEntry} (hroot : Canonical files root.toList place entry)
    (hrequested : IsText requested.toList) (h : confine files root requested = .ok path) :
    Settled files root path := by
  obtain ⟨ns, hpasses, hok, htext⟩ := (confine_cases hroot requested).resolve_right fun ⟨_, herror⟩ => by
    cases h.symm.trans herror
  obtain rfl : path = String.ofList (placeText ns) := Except.ok.inj (h.symm.trans hok)
  obtain ⟨before, name, rfl⟩ := hpasses.exists_concat
  have hproper := hpasses.proper
  have hdots := dots_not_mem_splitOn hproper
  have hcomponents := FileTree.components_placeText hproper
  have hrootComponents := FileTree.components_placeText hroot.open_place.proper
  have hconfined :=
    ((confine_placeText hroot hproper).resolve_right fun hnot => hnot.1 hpasses).2
  have htext' : IsText root.toList → IsText (String.ofList (placeText (before ++ [name]))).toList := by
    intro hbase
    rw [String.toList_ofList]
    exact htext hbase hrequested
  have hfirst : IsText root.toList → resolvePath files root
      (Path.display (String.ofList (placeText (before ++ [name])))) =
        .ok (String.ofList (placeText (before ++ [name]))) := by
    intro hbase
    rw [resolvePath, Path.ofString_display (htext' hbase), hconfined]
  have hsecond : IsText root.toList → InReach files (String.ofList (placeText (before ++ [name]))) →
      ∀ made, files.makeDirectories
        (directoriesAround (String.ofList (placeText (before ++ [name])))) = (made, true) →
        resolvePath made root (Path.display (String.ofList (placeText (before ++ [name])))) =
          .ok (String.ofList (placeText (before ++ [name]))) := by
    intro hbase hreach made hmake
    have hmade := made_of_stays hfiles hroot.open_place.proper hproper hpasses.stays
    have hdirectories := directoriesAround_placeText hproper
    rw [← hdirectories, hmake] at hmade
    have hroot' := hroot.extend hmade.keeps
    have hagain := (passes_made_iff hroot' hpasses hmade).2 (hreach made hmake)
    rw [resolvePath, Path.ofString_display (htext' hbase)]
    exact ((confine_placeText hroot' hproper).resolve_right fun hnot => hnot.1 hagain).2
  exact
    { below := by
        rw [String.toList_ofList, hcomponents, hroot.eq_placeText, hrootComponents]
        exact Path.absolute_prefix_iff.2 hpasses.inside
      ne_root := by
        rw [String.toList_ofList, hcomponents, hroot.eq_placeText, hrootComponents]
        exact fun heq => hpasses.ne_root (Path.absolute_inj.1 heq)
      no_dot := by
        rw [String.toList_ofList]
        exact hdots.1
      no_dots := by
        rw [String.toList_ofList]
        exact hdots.2
      confined := hconfined
      again := hfirst
      afterwards := hsecond
      written := fun hbase hreach => write_cases (hfirst hbase) (hsecond hbase hreach) }

/-! ## Configurations -/

theorem resolvePath_of_checkExport {files : FileTree} {root : String} {target : Option String}
    {path : String} (h : (Config.checkExport files root target).value = some path) :
    ∃ raw, resolvePath files root raw = .ok path := by
  unfold Config.checkExport at h
  cases target with
  | none => cases h
  | some raw =>
      dsimp only at h
      split at h
      · next found hok => exact ⟨raw, by rw [hok, ← Option.some.inj h]⟩
      · cases h

/-- With or without a preset, some options are completed to the configuration. -/
theorem exists_complete (files : FileTree) (options : Options) (workingDirectory : Option String) :
    ∃ completed : Options, (Config.resolve files options workingDirectory).value =
      (Config.complete files completed workingDirectory).value := by
  simp only [Config.resolve, Traced.value_bind]
  split
  · exact ⟨_, rfl⟩
  · exact ⟨_, rfl⟩

/-- The path for the statistics in a configuration was accepted below its root, and the root is
canonical. -/
theorem exists_of_exportStats {files : FileTree} (hfiles : files.WellFormed) {options : Options}
    {workingDirectory : Option String} {path : String}
    (h : (Config.resolve files options workingDirectory).value.exportStats = some path) :
    ∃ place entry raw, Canonical files
        (Config.resolve files options workingDirectory).value.root.toList place entry ∧
      resolvePath files (Config.resolve files options workingDirectory).value.root raw = .ok path := by
  obtain ⟨completed, hcompleted⟩ := exists_complete files options workingDirectory
  rw [hcompleted] at h ⊢
  have hroot : Config.canonicalRoot files (Config.chooseRoot workingDirectory completed.root)
      workingDirectory = (Config.complete files completed workingDirectory).value.root := rfl
  have hcheck : (Config.checkExport files (Config.complete files completed workingDirectory).value.root
      completed.exportStats).value = some path := h
  obtain ⟨raw, hraw⟩ := resolvePath_of_checkExport hcheck
  obtain ⟨place, entry, hplace⟩ :=
    exists_canonical_canonicalRoot hfiles hroot (canonicalize_ne_none_of_confine hraw)
  exact ⟨place, entry, raw, hplace, hraw⟩

/-- A path for the statistics that is accepted below a canonical root lies strictly below it, has no dots
for names, and is accepted again as it is. If the root is a text, the checks of an export accept it too,
before directories are made and, while these have canonical paths, after that; so the export is not
refused. The path in a configuration is of this kind, wherever the program works. -/
theorem settled_of_accepted {files : FileTree} (hfiles : files.WellFormed) :
    (∀ root raw path : String, files.canonicalize root.toList = some root.toList →
        resolvePath files root raw = .ok path → Settled files root path) ∧
      ∀ (options : Options) (workingDirectory : Option String) (path : String),
        (Config.resolve files options workingDirectory).value.exportStats = some path →
        Settled files (Config.resolve files options workingDirectory).value.root path := by
  refine ⟨fun root raw path hroot h => ?_, fun options workingDirectory path h => ?_⟩
  · obtain ⟨place, entry, hplace⟩ := FileTree.exists_canonical hfiles hroot
    exact settled_of_confine hfiles hplace (Path.isText_ofString raw) h
  · obtain ⟨place, entry, raw, hplace, hraw⟩ := exists_of_exportStats hfiles h
    exact settled_of_confine hfiles hplace (Path.isText_ofString raw) hraw

/-- A target with repeated slashes and dots behind a link, and a configuration with a root that is reached
through a link from the directory that the program works in. -/
theorem settled_of_accepted_through_link :
    let files := linkedProject
    let raw := "./latest//new/./stats.json"
    let path := "/project/latest/new/stats.json"
    let options : Options := { root := some "away/../project", exportStats := some raw }
    files.WellFormed ∧ files.canonicalize "/project".toList = some "/project".toList ∧
      resolvePath files "/project" raw = .ok path ∧ Settled files "/project" path ∧
      (Config.resolve files options (some "/project")).value.exportStats = some path ∧
      Settled files (Config.resolve files options (some "/project")).value.root path := by
  intro files raw path options
  have hfiles : files.WellFormed := FileTree.wellFormed_of_entries (by decide)
  have hroot : files.canonicalize "/project".toList = some "/project".toList := by decide +kernel
  have hpath : resolvePath files "/project" raw = .ok path := by decide +kernel
  have hstats : (Config.resolve files options (some "/project")).value.exportStats = some path := by
    decide +kernel
  exact ⟨hfiles, hroot, hpath, (settled_of_accepted hfiles).1 "/project" raw path hroot hpath, hstats,
    (settled_of_accepted hfiles).2 options (some "/project") path hstats⟩

/-- A path that was accepted is refused when the statistics are exported, below a root that is no text and
below one that is. -/
theorem accepted_then_refused :
    (strayProject.WellFormed ∧ strayProject.canonicalize strayRoot.toList = some strayRoot.toList ∧
      ∃ path refused, resolvePath strayProject strayRoot "stats.json" = .ok path ∧
        (write strayProject strayRoot path oneFile).1 = .error (.outsideRoot refused)) ∧
    (deepProject.WellFormed ∧ deepProject.canonicalize "/project".toList = some "/project".toList ∧
      ∃ path, resolvePath deepProject "/project" (Path.display deepPath) = .ok path ∧
        (write deepProject "/project" path oneFile).1 = .error (.outsideRoot path)) := by
  refine ⟨⟨FileTree.wellFormed_of_entries (by decide), by decide +kernel, ?_⟩,
    deepProject_wellFormed, ?_, ?_⟩
  · exact ⟨strayRoot ++ "/stats.json", "/p\uFFFD/stats.json", by decide +kernel, by decide +kernel⟩
  · exact (isRoot_deepProject.isCanonical deepProject_wellFormed).canonicalize_eq
  · exact ⟨deepPath, resolvePath_deepPath, congrArg Prod.fst (write_deepPath oneFile .sorted)⟩

end Export

end OriginTags
