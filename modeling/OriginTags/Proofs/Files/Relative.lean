import Mathlib.Data.List.DropRight
import OriginTags.Proofs.Files.Spelling
import OriginTags.Tagging.Tagger
/-!
# Paths seen from a root

A path is below a root if its components begin with those of the root, whatever the two texts have in
common. What is left of it then has just the components that follow, and it is relative unless the root is
the empty path.
-/

namespace OriginTags

namespace Path

/-! ## Joined segments -/

theorem filterMap_splitOn_intercalate {parts : List (List Char)} (h : ∀ s ∈ parts, '/' ∉ s) :
    ((['/'].intercalate parts).splitOn '/').filterMap segmentComponent =
      parts.filterMap segmentComponent := by
  by_cases hne : parts = []
  · subst hne
    rfl
  · rw [List.splitOn_intercalate '/' h hne]

/-- A text that begins with a name or a double dot is a relative path. -/
theorem components_of_segments {path s : List Char} {rest : List (List Char)}
    (h : path.splitOn '/' = s :: rest) (hs : (segmentComponent s).isSome = true) :
    isAbsolute path = false ∧ components path = (s :: rest).filterMap segmentComponent := by
  cases path with
  | nil =>
      obtain rfl : [] = s := (List.cons.inj h).1
      cases hs
  | cons c cs =>
      have hc : c ≠ '/' := by
        rintro rfl
        obtain rfl : [] = s := (List.cons.inj h).1
        cases hs
      have hdot : s ≠ ['.'] := by
        rintro rfl
        cases hs
      refine ⟨?_, ?_⟩
      · simp [isAbsolute, hc]
      · simp [components, hc, h, hdot]

/-- Only the empty path has no component. -/
theorem components_eq_nil_iff {path : List Char} : components path = [] ↔ path = [] := by
  refine ⟨fun h => ?_, fun h => by rw [h]; rfl⟩
  cases path with
  | nil => rfl
  | cons c cs =>
      by_cases hc : c = '/'
      · subst hc
        cases h
      · obtain ⟨first, rest, hfirst⟩ := List.exists_cons_of_ne_nil (List.splitOn_ne_nil '/' cs)
        have hsegments : (c :: cs).splitOn '/' = (c :: first) :: rest := by
          simp [List.splitOn_cons_eq_if_modifyHead, hc, hfirst]
        by_cases hdot : c :: first = ['.']
        · simp [components, hc, hsegments, hdot] at h
        · have hs : (segmentComponent (c :: first)).isSome = true := by
            unfold segmentComponent
            rw [if_neg (by simp [hdot])]
            split <;> rfl
          rw [(components_of_segments hsegments hs).2, List.filterMap_eq_nil_iff] at h
          rw [h _ List.mem_cons_self] at hs
          cases hs

/-! ## Trimmed segments -/

theorem filterMap_trimLeft (parts : List (List Char)) :
    (trimLeft parts).filterMap segmentComponent = parts.filterMap segmentComponent := by
  induction parts with
  | nil => rfl
  | cons s rest ih =>
      cases hs : segmentComponent s with
      | none => simpa [trimLeft, hs] using ih
      | some c => simp [trimLeft, hs]

theorem filterMap_trimRight (parts : List (List Char)) :
    (trimRight parts).filterMap segmentComponent = parts.filterMap segmentComponent := by
  have hreverse : trimRight parts = (trimLeft parts.reverse).reverse := rfl
  rw [hreverse, List.filterMap_reverse, filterMap_trimLeft, List.filterMap_reverse,
    List.reverse_reverse]

theorem trimRight_begins (parts : List (List Char)) : trimRight parts <+: parts :=
  List.rdropWhile_prefix _ _

/-- A segment with a meaning stays in front. -/
theorem exists_trimRight_cons {s : List Char} (hs : (segmentComponent s).isSome = true)
    (rest : List (List Char)) : ∃ more, trimRight (s :: rest) = s :: more := by
  have hkeep : (segmentComponent s).isNone = false := by simpa using hs
  simp only [trimRight, List.reverse_cons, List.dropWhile_append]
  split
  · exact ⟨[], by simp [hkeep]⟩
  · exact ⟨_, by rw [List.reverse_append]; rfl⟩

theorem trimLeft_cases (parts : List (List Char)) :
    trimLeft parts = [] ∨
      ∃ s rest, (segmentComponent s).isSome = true ∧ trimLeft parts = s :: rest := by
  induction parts with
  | nil => exact .inl rfl
  | cons s rest ih =>
      cases hs : segmentComponent s with
      | none => simpa [trimLeft, hs] using ih
      | some c => exact .inr ⟨s, rest, by rw [hs]; rfl, by simp [trimLeft, hs]⟩

/-! ## Below a base -/

theorem stripSegments_spec (cs : List Component) (parts : List (List Char)) :
    (∃ rest, stripSegments cs parts = some rest ∧ rest <:+ parts ∧
        cs ++ rest.filterMap segmentComponent = parts.filterMap segmentComponent) ∨
      (stripSegments cs parts = none ∧ ¬ cs <+: parts.filterMap segmentComponent) := by
  fun_induction stripSegments cs parts with
  | case1 parts => exact .inl ⟨parts, rfl, List.suffix_rfl, rfl⟩
  | case2 c cs => exact .inr ⟨rfl, by simp⟩
  | case3 c cs s parts hs ih =>
      rw [List.filterMap_cons_none hs]
      exact ih.imp_left fun ⟨rest, hstrip, hsuffix, hrest⟩ =>
        ⟨rest, hstrip, hsuffix.trans (List.suffix_cons s parts), hrest⟩
  | case4 cs s parts found hs ih =>
      rw [List.filterMap_cons_some hs, List.cons_prefix_cons]
      refine ih.imp (fun ⟨rest, hstrip, hsuffix, hrest⟩ => ?_) (fun ⟨hstrip, hnot⟩ => ?_)
      · exact ⟨rest, hstrip, hsuffix.trans (List.suffix_cons s parts), by rw [← hrest]; rfl⟩
      · exact ⟨hstrip, fun h => hnot h.2⟩
  | case5 c cs s parts found hs hne =>
      rw [List.filterMap_cons_some hs, List.cons_prefix_cons]
      exact .inr ⟨rfl, fun h => hne h.1.symm⟩

/-- What is left of a path below a base: its components follow those of the base. -/
structure Below (base path rest : List Char) : Prop where
  components_eq : components base ++ components rest = components path
  relative_iff : isAbsolute rest = false ↔ base ≠ []
  subset : rest ⊆ path
  isText : IsText path → IsText rest

theorem intercalate_subset {body : List Char} {parts : List (List Char)}
    (h : parts ⊆ body.splitOn '/') : ['/'].intercalate parts ⊆ '/' :: body := by
  intro c hc
  rcases mem_intercalate hc with rfl | ⟨s, hs, hcs⟩
  · exact List.mem_cons_self
  · exact List.mem_cons_of_mem _ (mem_of_mem_splitOn (h hs) hcs)

theorem isText_intercalate_of_subset {body : List Char} {parts : List (List Char)}
    (h : parts ⊆ body.splitOn '/') (hbody : IsText ('/' :: body)) :
    IsText (['/'].intercalate parts) := by
  refine isText_intercalate fun s hs => hbody.of_mem_splitOn ?_
  simp [List.splitOn_cons_eq_if_modifyHead, h hs]

/-- A path of which nothing is taken away only loses what has no meaning. -/
theorem below_nil (body : List Char) :
    Below [] ('/' :: body) ('/' :: ['/'].intercalate (trimRight (body.splitOn '/'))) where
  components_eq := by
    have hslash : ∀ s ∈ trimRight (body.splitOn '/'), '/' ∉ s := fun s hs =>
      slash_not_mem_of_mem_splitOn ((trimRight_begins _).subset hs)
    have hbase : components [] = [] := rfl
    rw [hbase, List.nil_append, components, components, filterMap_splitOn_intercalate hslash,
      filterMap_trimRight]
  relative_iff := by simp [isAbsolute]
  subset := List.cons_subset.2
    ⟨List.mem_cons_self, intercalate_subset (trimRight_begins _).subset⟩
  isText := fun hbody =>
    (isText_intercalate_of_subset (trimRight_begins _).subset hbody).slash_cons

/-- What is left behind the components of an absolute base is relative. -/
theorem below_of_suffix {base body : List Char} {parts : List (List Char)}
    (hbase : base ≠ []) (hsuffix : parts <:+ body.splitOn '/')
    (hcomponents : components base ++ parts.filterMap segmentComponent =
      components ('/' :: body)) :
    Below base ('/' :: body) (['/'].intercalate (trimRight (trimLeft parts))) := by
  have hsubset : trimRight (trimLeft parts) ⊆ body.splitOn '/' := fun s hs =>
    hsuffix.subset ((List.dropWhile_suffix _).subset ((trimRight_begins _).subset hs))
  have hfilter : (trimRight (trimLeft parts)).filterMap segmentComponent =
      parts.filterMap segmentComponent := by
    rw [filterMap_trimRight, filterMap_trimLeft]
  have htrimmed : isAbsolute (['/'].intercalate (trimRight (trimLeft parts))) = false ∧
      components (['/'].intercalate (trimRight (trimLeft parts))) =
        parts.filterMap segmentComponent := by
    rcases trimLeft_cases parts with hnil | ⟨s, rest, hs, hcons⟩
    · rw [← hfilter, hnil]
      exact ⟨rfl, rfl⟩
    · obtain ⟨more, hmore⟩ := exists_trimRight_cons hs rest
      rw [← hcons] at hmore
      have hsegments : (['/'].intercalate (trimRight (trimLeft parts))).splitOn '/' = s :: more := by
        rw [List.splitOn_intercalate '/' (fun s hs => slash_not_mem_of_mem_splitOn (hsubset hs))
          (by simp [hmore]), hmore]
      rw [← hfilter, hmore] at *
      exact components_of_segments hsegments hs
  exact ⟨by rw [htrimmed.2, hcomponents], iff_of_true htrimmed.1 hbase, intercalate_subset hsubset,
    isText_intercalate_of_subset hsubset⟩

/-- A path is stripped of a base exactly if it begins with the components of the base. -/
theorem stripBase?_cases (base : List Char) {path : List Char} (h : isAbsolute path = true) :
    (∃ rest, stripBase? base path = some rest ∧ Below base path rest) ∨
      (stripBase? base path = none ∧ ¬ components base <+: components path) := by
  obtain ⟨body, rfl⟩ := exists_cons_of_isAbsolute h
  have hpath : components ('/' :: body) = .root :: (body.splitOn '/').filterMap segmentComponent := rfl
  simp only [stripBase?]
  split
  · next hbase =>
    obtain rfl := components_eq_nil_iff.1 hbase
    exact .inl ⟨_, rfl, below_nil body⟩
  · next rest hbase =>
    have hne : base ≠ [] := by
      rintro rfl
      cases hbase
    rcases stripSegments_spec rest (body.splitOn '/') with
      ⟨parts, hstrip, hsuffix, hparts⟩ | ⟨hstrip, hnot⟩
    · refine .inl ⟨_, by rw [hstrip]; rfl, below_of_suffix hne hsuffix ?_⟩
      rw [hbase, hpath, ← hparts]
      rfl
    · refine .inr ⟨by rw [hstrip]; rfl, fun hbegins => ?_⟩
      rw [hbase, hpath, List.cons_prefix_cons] at hbegins
      exact hnot hbegins.2
  · next hnil hroot =>
    -- A base that is relative and not empty is no beginning of an absolute path.
    refine .inr ⟨rfl, fun hbegins => ?_⟩
    rw [hpath] at hbegins
    cases hbase : components base with
    | nil => exact hnil hbase
    | cons c rest =>
        rw [hbase, List.cons_prefix_cons] at hbegins
        exact hroot rest (by rw [hbase, hbegins.1])

end Path

/-! ## Files -/

/-- The path of a module has slashes only. -/
theorem backslash_not_mem_modulePath (id : String) : '\\' ∉ (modulePath id).toList := by
  rw [modulePath, String.toList_ofList, Text.replaceChar, List.mem_map]
  rintro ⟨c, -, hc⟩
  split at hc
  · cases hc
  · next hne => exact hne hc

namespace FileInfo

section Absolute

variable (root : String) {path : String}

theorem relativePath_of_isAbsolute (h : Path.isAbsolute path.toList = true) :
    (ofPath root path).relativePath.toList =
      ((Path.stripBase? root.toList (Path.ofText path.toList)).map fun rest =>
        Text.replaceChar '\\' '/' (Path.toText rest)).getD path.toList := by
  simp only [ofPath, h, if_true, String.toList_ofList]
  cases Path.stripBase? root.toList (Path.ofText path.toList) <;> rfl

/-- What is left of a path is a text without backslashes, as the path is. -/
theorem below_relativePath (hpath : '\\' ∉ path.toList) (h : Path.isAbsolute path.toList = true)
    (hbegins : Path.components root.toList <+: Path.components (Path.ofText path.toList)) :
    Path.Below root.toList (Path.ofText path.toList)
      (Path.ofText (ofPath root path).relativePath.toList) := by
  have habsolute : Path.isAbsolute (Path.ofText path.toList) = true := by
    rw [Path.isAbsolute_ofText, h]
  rcases Path.stripBase?_cases root.toList habsolute with ⟨rest, hstrip, hbelow⟩ | ⟨-, hnot⟩
  · have htext : Path.ofText (Path.toText rest) = rest := (hbelow.isText ⟨_, rfl⟩).ofText_toText
    have hplain : Path.isStray '\\' = false := by decide
    have hrest : '\\' ∉ Path.toText rest := by
      intro hmem
      have hmem' : '\\' ∈ rest := htext ▸ (Path.mem_ofText_iff hplain).2 hmem
      exact hpath ((Path.mem_ofText_iff hplain).1 (hbelow.subset hmem'))
    rw [relativePath_of_isAbsolute root h, hstrip, Option.map_some, Option.getD_some,
      Text.replaceChar_of_not_mem hrest, htext]
    exact hbelow
  · exact absurd hbegins hnot

theorem relativePath_of_not_below (h : Path.isAbsolute path.toList = true)
    (hnot : ¬ Path.components root.toList <+: Path.components (Path.ofText path.toList)) :
    (ofPath root path).relativePath = path := by
  have habsolute : Path.isAbsolute (Path.ofText path.toList) = true := by
    rw [Path.isAbsolute_ofText, h]
  rcases Path.stripBase?_cases root.toList habsolute with ⟨rest, -, hbelow⟩ | ⟨hstrip, -⟩
  · exact absurd ⟨_, hbelow.components_eq⟩ hnot
  · rw [← String.toList_inj, relativePath_of_isAbsolute root h, hstrip]
    rfl

end Absolute

section Relative

variable (root : String) {path : String}

theorem relativePath_of_not_isAbsolute (h : Path.isAbsolute path.toList = false) :
    (ofPath root path).relativePath.toList =
      (Text.stripLead? ['.', '/'] path.toList).getD path.toList := by
  simp only [ofPath, h, Bool.false_eq_true, if_false, String.toList_ofList]

theorem relativePath_of_dot {rest : List Char} (h : path.toList = '.' :: '/' :: rest) :
    (ofPath root path).relativePath.toList = rest := by
  have hrelative : Path.isAbsolute path.toList = false := by
    rw [h]
    rfl
  have hstrip : Text.stripLead? ['.', '/'] path.toList = some rest := Text.stripLead?_eq_some.2 h
  rw [relativePath_of_not_isAbsolute root hrelative, hstrip, Option.getD_some]

theorem relativePath_of_no_dot (h : Path.isAbsolute path.toList = false)
    (hnot : ¬ ['.', '/'] <+: path.toList) : (ofPath root path).relativePath = path := by
  have hstrip : Text.stripLead? ['.', '/'] path.toList = none := by
    rw [Option.eq_none_iff_forall_ne_some]
    intro rest hrest
    exact hnot ⟨rest, (Text.stripLead?_eq_some.1 hrest).symm⟩
  rw [← String.toList_inj, relativePath_of_not_isAbsolute root h, hstrip, Option.getD_none]

end Relative

theorem fileName_of_normal (root : String) {path : String} {name : List Char}
    (h : (Path.components path.toList).getLast? = some (.normal name)) :
    (ofPath root path).fileName.toList = name := by
  simp only [ofPath, Path.fileName?, h, Option.getD_some, String.toList_ofList]

theorem fileName_of_not_normal (root : String) {path : String}
    (h : ∀ name, (Path.components path.toList).getLast? ≠ some (.normal name)) :
    (ofPath root path).fileName = (ofPath root path).relativePath := by
  have hname : Path.fileName? path.toList = none := by
    unfold Path.fileName?
    split
    · next name hlast => exact absurd hlast (h name)
    · rfl
  simp only [ofPath, hname, Option.getD_none]

/-- What is known of a file by its path, as it is seen from a root. The path is a text; the root need not
be one. -/
structure Seen (root path : String) (file : FileInfo) : Prop where
  /-- Below the root, the path is cut behind the components of the root. -/
  below : Path.isAbsolute path.toList = true →
    Path.components root.toList <+: Path.components (Path.ofText path.toList) →
    Path.components root.toList ++ Path.components (Path.ofText file.relativePath.toList) =
        Path.components (Path.ofText path.toList) ∧
      (Path.isAbsolute file.relativePath.toList = false ↔ root ≠ "")
  outside : Path.isAbsolute path.toList = true →
    ¬ Path.components root.toList <+: Path.components (Path.ofText path.toList) →
    file.relativePath = path
  dotted : ∀ rest, path.toList = '.' :: '/' :: rest → file.relativePath.toList = rest
  relative : Path.isAbsolute path.toList = false → ¬ ['.', '/'] <+: path.toList →
    file.relativePath = path
  named : ∀ name, (Path.components path.toList).getLast? = some (.normal name) →
    file.fileName.toList = name
  unnamed : (∀ name, (Path.components path.toList).getLast? ≠ some (.normal name)) →
    file.fileName = file.relativePath

/-- A path without backslashes, as that of every module is, is placed by its components. Below a root it is
what follows the components of the root, and outside of it the path as it is. It is relative below every
root but the empty path, which has no components to take away. -/
theorem placed_by_components (root : String) :
    (∀ path : String, '\\' ∉ path.toList → Seen root path (ofPath root path)) ∧
      ∀ id : String, '\\' ∉ (modulePath id).toList := by
  refine ⟨fun path hpath => ⟨fun habsolute hbegins => ?_, relativePath_of_not_below root,
    fun _ => relativePath_of_dot root, relativePath_of_no_dot root, fun _ => fileName_of_normal root,
    fileName_of_not_normal root⟩, backslash_not_mem_modulePath⟩
  have hbelow := below_relativePath root hpath habsolute hbegins
  refine ⟨hbelow.components_eq, ?_⟩
  rw [← Path.isAbsolute_ofText, hbelow.relative_iff, Ne, Ne, ← String.toList_inj]
  rfl

/-- A path with repeated slashes and dots below a root with a slash at its end, and a path beside that root
that begins with the same letters. -/
theorem placed_by_components_sibling :
    let root := "/project/"
    let inside := "//project/./src//../a.tsx/."
    let beside := "/project2/b.tsx"
    '\\' ∉ inside.toList ∧ Seen root inside (ofPath root inside) ∧
      (ofPath root inside).relativePath = "src//../a.tsx" ∧
      (ofPath root inside).fileName = "a.tsx" ∧
      '\\' ∉ beside.toList ∧ Seen root beside (ofPath root beside) ∧
      (ofPath root beside).relativePath = beside := by
  intro root inside beside
  have hinside : '\\' ∉ inside.toList := by decide
  have hbeside : '\\' ∉ beside.toList := by decide
  exact ⟨hinside, (placed_by_components root).1 inside hinside, by decide, by decide, hbeside,
    (placed_by_components root).1 beside hbeside, by decide⟩

/-- The empty path is the beginning of every path, but what is left behind it of an absolute path is
absolute. -/
theorem placed_by_components_empty :
    '\\' ∉ "/a.tsx".toList ∧ Path.isAbsolute "/a.tsx".toList = true ∧
      Path.components "".toList <+: Path.components "/a.tsx".toList ∧
      Path.isAbsolute (ofPath "" "/a.tsx").relativePath.toList = true := by
  decide

end FileInfo

end OriginTags
