import OriginTags.Files.Path
import OriginTags.Proofs.Text.Bytes
/-!
# Paths and their names

An absolute path without double dots is a list of names, and its plain spelling has just these
names. Joining paths brings no double dots in.
-/

namespace OriginTags.Path

/-! ## Segments -/

theorem slash_not_mem_of_mem_splitOn {cs s : List Char} (hs : s ∈ cs.splitOn '/') : '/' ∉ s := by
  induction cs generalizing s with
  | nil => simp_all
  | cons c cs ih =>
      rw [List.splitOn_cons_eq_if_modifyHead] at hs
      split at hs
      · rcases List.mem_cons.1 hs with rfl | hmem
        · exact List.not_mem_nil
        · exact ih hmem
      · next hc =>
        -- Any other character goes to the front of the first segment.
        obtain ⟨first, rest, hfirst⟩ := List.exists_cons_of_ne_nil (List.splitOn_ne_nil '/' cs)
        rw [hfirst, List.modifyHead_cons] at hs
        rw [hfirst] at ih
        rcases List.mem_cons.1 hs with rfl | hmem
        · intro hslash
          rcases List.mem_cons.1 hslash with heq | hmem
          · exact hc (beq_iff_eq.2 heq.symm)
          · exact ih List.mem_cons_self hmem
        · exact ih (List.mem_cons_of_mem _ hmem)

theorem mem_of_mem_splitOn {c : Char} {cs s : List Char} (hs : s ∈ cs.splitOn '/') (hc : c ∈ s) :
    c ∈ cs := by
  induction cs generalizing s with
  | nil => simp_all
  | cons d cs ih =>
      rw [List.splitOn_cons_eq_if_modifyHead] at hs
      split at hs
      · rcases List.mem_cons.1 hs with rfl | hmem
        · exact absurd hc List.not_mem_nil
        · exact List.mem_cons_of_mem _ (ih hmem hc)
      · obtain ⟨first, rest, hfirst⟩ := List.exists_cons_of_ne_nil (List.splitOn_ne_nil '/' cs)
        rw [hfirst, List.modifyHead_cons] at hs
        rw [hfirst] at ih
        rcases List.mem_cons.1 hs with rfl | hmem
        · rcases List.mem_cons.1 hc with rfl | hc
          · exact List.mem_cons_self
          · exact List.mem_cons_of_mem _ (ih List.mem_cons_self hc)
        · exact List.mem_cons_of_mem _ (ih (List.mem_cons_of_mem _ hmem) hc)

theorem mem_intercalate {c : Char} {parts : List (List Char)} (h : c ∈ ['/'].intercalate parts) :
    c = '/' ∨ ∃ s ∈ parts, c ∈ s := by
  induction parts with
  | nil => exact absurd h (by simp)
  | cons s rest ih =>
      by_cases hrest : rest = []
      · rw [hrest, List.intercalate_singleton] at h
        exact .inr ⟨s, List.mem_cons_self, h⟩
      · rw [List.intercalate_cons_of_ne_nil hrest, List.append_assoc] at h
        rcases List.mem_append.1 h with hs | h
        · exact .inr ⟨s, List.mem_cons_self, hs⟩
        · rcases List.mem_cons.1 h with rfl | h
          · exact .inl rfl
          · exact (ih h).imp_right fun ⟨t, ht, hc⟩ => ⟨t, List.mem_cons_of_mem _ ht, hc⟩

theorem dropLast_splitOn_append_slash (first second : List Char) :
    ((first ++ '/' :: second).splitOn '/').dropLast =
      first.splitOn '/' ++ (second.splitOn '/').dropLast := by
  rw [List.splitOn_append_cons_self, List.dropLast_append_of_ne_nil (List.splitOn_ne_nil '/' second)]

/-- A segment has a slash behind it unless it is the last one, and a slash before it unless it is the
first one. -/
theorem mem_dropLast_splitOn_iff {name cs : List Char} (h : '/' ∉ name) :
    name ∈ (cs.splitOn '/').dropLast ↔
      name ++ ['/'] <+: cs ∨ '/' :: (name ++ ['/']) <:+: cs := by
  constructor
  · intro hmem
    obtain ⟨before, after, hsplit⟩ := List.append_of_mem hmem
    obtain ⟨rest, hrest, hsegments⟩ :
        ∃ rest, rest ≠ [] ∧ cs.splitOn '/' = before ++ name :: rest := by
      refine ⟨after ++ [(cs.splitOn '/').getLast (List.splitOn_ne_nil '/' cs)], by simp, ?_⟩
      rw [← List.cons_append, ← List.append_assoc, ← hsplit, List.dropLast_concat_getLast]
    have hjoined : ['/'].intercalate (cs.splitOn '/') = cs := List.intercalate_splitOn '/'
    rw [← hjoined, hsegments]
    by_cases hbefore : before = []
    · refine .inl ⟨['/'].intercalate rest, ?_⟩
      rw [hbefore, List.nil_append, List.intercalate_cons_of_ne_nil hrest]
    · refine .inr ⟨['/'].intercalate before, ['/'].intercalate rest, ?_⟩
      rw [Text.intercalate_append _ hbefore (List.cons_ne_nil name rest),
        List.intercalate_cons_of_ne_nil hrest]
      simp
  · rintro (⟨rest, rfl⟩ | ⟨before, rest, rfl⟩)
    · rw [List.append_assoc, List.singleton_append, dropLast_splitOn_append_slash,
        List.splitOn_eq_singleton h]
      exact List.mem_cons_self
    · have hshape : before ++ '/' :: (name ++ ['/']) ++ rest =
          before ++ '/' :: (name ++ '/' :: rest) := by simp
      rw [hshape, dropLast_splitOn_append_slash, dropLast_splitOn_append_slash,
        List.splitOn_eq_singleton h]
      exact List.mem_append_right _ List.mem_cons_self

/-! ## Names -/

/-- A name that an entry of a directory can have and that leads to it. -/
structure Proper (name : String) : Prop where
  ne_empty : name ≠ ""
  ne_dot : name ≠ "."
  ne_dots : name ≠ ".."
  no_slash : '/' ∉ name.toList

/-- The components of the absolute path with some names. -/
def absolute (names : List String) : List Component := .root :: names.map fun n => .normal n.toList

theorem toList_ne {name : String} {text : String} (h : name ≠ text) : name.toList ≠ text.toList :=
  fun heq => h (String.toList_inj.1 heq)

theorem segmentComponent_of_proper {name : String} (h : Proper name) :
    segmentComponent name.toList = some (.normal name.toList) := by
  have hempty : name.toList ≠ [] := toList_ne h.ne_empty
  have hdot : name.toList ≠ ['.'] := toList_ne h.ne_dot
  have hdots : name.toList ≠ ['.', '.'] := toList_ne h.ne_dots
  simp [segmentComponent, hempty, hdot, hdots]

/-- A segment is left out, goes up, or is a name. -/
theorem segmentComponent_cases {s : List Char} (hs : '/' ∉ s) :
    segmentComponent s = none ∨ (s = ['.', '.'] ∧ segmentComponent s = some .parent) ∨
      (Proper (String.ofList s) ∧ segmentComponent s = some (.normal s)) := by
  by_cases hskip : s = [] ∨ s = ['.']
  · left
    rcases hskip with rfl | rfl <;> rfl
  · right
    obtain ⟨hempty, hdot⟩ := not_or.1 hskip
    by_cases hdots : s = ['.', '.']
    · exact Or.inl ⟨hdots, by simp [segmentComponent, hdots]⟩
    · have hne : ∀ text : String, s ≠ text.toList → String.ofList s ≠ text := by
        intro text hne heq
        exact hne (by simpa using congrArg String.toList heq)
      refine Or.inr ⟨⟨hne _ hempty, hne _ hdot, hne _ hdots, by simpa using hs⟩, ?_⟩
      simp [segmentComponent, hempty, hdot, hdots]

theorem ofComponents_absolute (names : List String) :
    ofComponents (absolute names) = '/' :: ['/'].intercalate (names.map String.toList) := by
  simp [ofComponents, absolute, List.map_map, Function.comp_def, Component.text]

theorem normal_injective : Function.Injective fun n : String => Component.normal n.toList := by
  intro a b hab
  exact String.toList_inj.1 (Component.normal.inj hab)

theorem absolute_prefix_iff {first second : List String} :
    absolute first <+: absolute second ↔ first <+: second := by
  rw [absolute, absolute, List.cons_prefix_cons,
    List.prefix_map_iff_of_injective normal_injective]
  simp

theorem absolute_inj {first second : List String} :
    absolute first = absolute second ↔ first = second := by
  rw [absolute, absolute, List.cons_inj_right, List.map_inj_right fun _ _ hab => normal_injective hab]

theorem filterMap_segmentComponent {names : List String} (h : ∀ n ∈ names, Proper n) :
    (names.map String.toList).filterMap segmentComponent =
      names.map fun n => .normal n.toList := by
  induction names with
  | nil => rfl
  | cons n names ih =>
      have hn := segmentComponent_of_proper (h n List.mem_cons_self)
      have hrest := ih fun m hm => h m (List.mem_cons_of_mem _ hm)
      simp only [List.map_cons, List.filterMap_cons, hn, hrest]

/-- The spelling of proper names has these names. -/
theorem components_absolute {names : List String} (h : ∀ n ∈ names, Proper n) :
    components (ofComponents (absolute names)) = absolute names := by
  rw [ofComponents_absolute, components, absolute]
  congr 1
  cases names with
  | nil => rfl
  | cons first rest =>
      rw [List.splitOn_intercalate '/' _ (by simp), filterMap_segmentComponent h]
      intro s hs
      obtain ⟨n, hn, rfl⟩ := List.mem_map.1 hs
      exact (h n hn).no_slash

/-! ## Double dots -/

theorem parent_mem_filterMap {parts : List (List Char)} (h : ∀ s ∈ parts, '/' ∉ s) :
    Component.parent ∈ parts.filterMap segmentComponent ↔ ['.', '.'] ∈ parts := by
  rw [List.mem_filterMap]
  constructor
  · rintro ⟨s, hs, hparent⟩
    rcases segmentComponent_cases (h s hs) with hnone | ⟨rfl, -⟩ | ⟨-, hname⟩
    · simp [hnone] at hparent
    · exact hs
    · simp [hname] at hparent
  · intro hmem
    exact ⟨_, hmem, rfl⟩

/-- A path has a double dot as a component if it is one of its segments. -/
theorem parent_mem_components {path : List Char} :
    Component.parent ∈ components path ↔ ['.', '.'] ∈ path.splitOn '/' := by
  have hslash : ∀ s ∈ path.splitOn '/', '/' ∉ s := fun s hs => slash_not_mem_of_mem_splitOn hs
  unfold components
  split
  · rename_i body
    have hbody := parent_mem_filterMap fun s (hs : s ∈ body.splitOn '/') => slash_not_mem_of_mem_splitOn hs
    rw [List.mem_cons, hbody]
    simp [List.splitOn_cons_eq_if_modifyHead]
  · split
    · rename_i rest hsegments
      rw [hsegments] at hslash ⊢
      rw [List.mem_cons, parent_mem_filterMap fun s hs => hslash s (List.mem_cons_of_mem _ hs)]
      simp
    · exact parent_mem_filterMap hslash

/-! ## Names of a path -/

theorem eq_of_segmentComponent_eq_normal {s name : List Char}
    (h : segmentComponent s = some (.normal name)) : s = name := by
  unfold segmentComponent at h
  split at h
  · cases h
  · split at h
    · cases h
    · exact Component.normal.inj (Option.some.inj h)

theorem mem_of_normal_mem_filterMap {parts : List (List Char)} {name : List Char}
    (h : Component.normal name ∈ parts.filterMap segmentComponent) : name ∈ parts := by
  obtain ⟨s, hs, hname⟩ := List.mem_filterMap.1 h
  exact eq_of_segmentComponent_eq_normal hname ▸ hs

/-- The names in a path are among its segments. -/
theorem mem_splitOn_of_normal_mem {path name : List Char} (h : Component.normal name ∈ components path) :
    name ∈ path.splitOn '/' := by
  unfold components at h
  split at h
  · have hbody := mem_of_normal_mem_filterMap (List.mem_of_ne_of_mem Component.noConfusion h)
    simp [List.splitOn_cons_eq_if_modifyHead, hbody]
  · split at h
    · next rest hsegments =>
      rw [hsegments]
      exact List.mem_cons_of_mem _
        (mem_of_normal_mem_filterMap (List.mem_of_ne_of_mem Component.noConfusion h))
    · exact mem_of_normal_mem_filterMap h

theorem exists_names {parts : List (List Char)} (hdots : ['.', '.'] ∉ parts)
    (hslash : ∀ s ∈ parts, '/' ∉ s) :
    ∃ names : List String, (∀ n ∈ names, Proper n) ∧
      parts.filterMap segmentComponent = names.map fun n => .normal n.toList := by
  induction parts with
  | nil => exact ⟨[], by simp, rfl⟩
  | cons s parts ih =>
      obtain ⟨names, hproper, hparts⟩ := ih (fun hmem => hdots (List.mem_cons_of_mem _ hmem))
        (fun s hs => hslash s (List.mem_cons_of_mem _ hs))
      rcases segmentComponent_cases (hslash s List.mem_cons_self) with hs | ⟨rfl, -⟩ | ⟨hname, hs⟩
      · exact ⟨names, hproper, by simp [hs, hparts]⟩
      · exact absurd List.mem_cons_self hdots
      · refine ⟨String.ofList s :: names, ?_, by simp [hs, hparts]⟩
        intro n hn
        rcases List.mem_cons.1 hn with rfl | hn
        · exact hname
        · exact hproper n hn

theorem exists_cons_of_isAbsolute {path : List Char} (h : isAbsolute path = true) :
    ∃ body, path = '/' :: body := by
  unfold isAbsolute at h
  split at h
  · exact ⟨_, rfl⟩
  · simp at h

/-- An absolute path without double dots has proper names only. -/
theorem exists_absolute {path : List Char} (habsolute : isAbsolute path = true)
    (hparent : Component.parent ∉ components path) :
    ∃ names, (∀ n ∈ names, Proper n) ∧ components path = absolute names := by
  obtain ⟨body, rfl⟩ := exists_cons_of_isAbsolute habsolute
  have hdots : ['.', '.'] ∉ body.splitOn '/' := by
    intro hmem
    exact hparent (parent_mem_components.2 (by simp [List.splitOn_cons_eq_if_modifyHead, hmem]))
  obtain ⟨names, hproper, hparts⟩ := exists_names hdots fun s hs => slash_not_mem_of_mem_splitOn hs
  exact ⟨names, hproper, by simp [components, absolute, hparts]⟩

/-! ## Joined paths -/

theorem isAbsolute_join {base : List Char} (h : isAbsolute base = true) (path : List Char) :
    isAbsolute (join base path) = true := by
  obtain ⟨body, rfl⟩ := exists_cons_of_isAbsolute h
  unfold join
  split
  · rename_i hpath
    simpa using hpath
  · split <;> rfl

theorem mem_splitOn_join {base path s : List Char} (hs : s ∈ (join base path).splitOn '/') :
    s ∈ base.splitOn '/' ∨ s ∈ path.splitOn '/' := by
  unfold join at hs
  split at hs
  · exact Or.inr hs
  · split at hs
    · -- A base with a slash at its end is joined by that slash.
      rename_i hlast
      obtain ⟨lead, rfl⟩ := List.getLast?_eq_some_iff.1 hlast
      rw [List.append_assoc, List.singleton_append, List.splitOn_append_cons_self] at hs
      rw [List.splitOn_append_cons_self]
      rcases List.mem_append.1 hs with hlead | hpath
      · exact Or.inl (List.mem_append_left _ hlead)
      · exact Or.inr hpath
    · rw [List.splitOn_append_cons_self] at hs
      exact List.mem_append.1 hs

theorem join_of_isAbsolute (base : List Char) {path : List Char} (h : isAbsolute path = true) :
    join base path = path := by
  simp [join, h]

end OriginTags.Path
