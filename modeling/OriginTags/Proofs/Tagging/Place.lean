import OriginTags.Proofs.Tagging.Delimiter
import OriginTags.Proofs.Text.Position
/-!
# Places as names

The `id` of an element is the path of its file with the line and the column of its opening tag. It can
be taken apart again, whatever the path holds, so elements of different files have different ids, and so
have elements of one file whose tags open at different offsets.
-/

namespace OriginTags

open Markup (Node OpeningTag Site Tree)

/-! ## Taking a place apart -/

/-- The last colon parts a text in one way. -/
theorem append_lastColon_inj {first second before behind : List Char} (hsecond : ':' ∉ second)
    (hbehind : ':' ∉ behind) (h : first ++ ':' :: second = before ++ ':' :: behind) :
    first = before ∧ second = behind := by
  rcases List.append_eq_append_iff.1 h with ⟨mid, rfl, hmid⟩ | ⟨mid, rfl, hmid⟩
  · cases mid with
    | nil => simpa using hmid
    | cons c mid =>
        obtain ⟨rfl, rfl⟩ := List.cons.inj hmid
        exact absurd (List.mem_append_right mid List.mem_cons_self) hsecond
  · cases mid with
    | nil => simpa [eq_comm] using hmid
    | cons c mid =>
        obtain ⟨rfl, rfl⟩ := List.cons.inj hmid
        exact absurd (List.mem_append_right mid List.mem_cons_self) hbehind

theorem colon_not_mem_toString (n : Nat) : ':' ∉ (toString n).toList := by
  rw [Nat.toString_eq_repr, Nat.toList_repr]
  intro hmem
  exact absurd (Nat.isDigit_of_mem_toDigits (by decide) (by decide) hmem) (by decide)

/-- A text and a number with a colon between them can be told apart. -/
theorem append_colon_toString_inj {lead lead' : String} {n n' : Nat}
    (h : lead ++ ":" ++ toString n = lead' ++ ":" ++ toString n') : lead = lead' ∧ n = n' := by
  have hlist : lead.toList ++ ':' :: (toString n).toList =
      lead'.toList ++ ':' :: (toString n').toList := by
    simpa using congrArg String.toList h
  obtain ⟨hlead, hnumber⟩ :=
    append_lastColon_inj (colon_not_mem_toString n) (colon_not_mem_toString n') hlist
  have hvalue := congrArg (fun digits => Nat.ofDigitChars 10 digits 0) hnumber
  exact ⟨String.toList_inj.1 hlead, by simpa [Nat.toString_eq_repr, Nat.toList_repr] using hvalue⟩

/-- The text of a place tells the path, the line and the column. -/
theorem Attributes.place_inj {context context' : ElementContext}
    (h : Attributes.place context = Attributes.place context') :
    context.filePath = context'.filePath ∧ context.line = context'.line ∧
      context.column = context'.column := by
  obtain ⟨hlead, hcolumn⟩ := append_colon_toString_inj h
  obtain ⟨hpath, hline⟩ := append_colon_toString_inj hlead
  exact ⟨hpath, hline, hcolumn⟩

/-! ## Elements -/

/-- What names an element: it stands where its opening tag does. -/
theorem place_ofElement_inj {source source' : List Char} {tag tag' : OpeningTag}
    {children children' : List Node} {file file' : FileInfo} {depth depth' : Nat}
    {props props' content content' : Bool}
    (hstart : Text.isBoundary source tag.span.start = true)
    (hstart' : Text.isBoundary source' tag'.span.start = true)
    (h : Attributes.place (ElementContext.ofElement tag
        (some (Position.ofOffset source tag.span.start)) children file depth props content) =
      Attributes.place (ElementContext.ofElement tag'
        (some (Position.ofOffset source' tag'.span.start)) children' file' depth' props' content')) :
    file.relativePath = file'.relativePath ∧ (source = source' → tag.span.start = tag'.span.start) := by
  obtain ⟨hpath, hline, hcolumn⟩ := Attributes.place_inj h
  refine ⟨hpath, ?_⟩
  rintro rfl
  refine Position.ofOffset_injective hstart hstart' ?_ hcolumn
  -- Lines are counted from one anyway.
  have hpos := Position.one_le_line hstart
  have hpos' := Position.one_le_line hstart'
  simp only [ElementContext.ofElement, Option.getD_some] at hline
  omega

/-- The elements of a source are located at the starts of their tags. -/
theorem location_of_mem_sites_forest {source : List Char} {trees : List Tree} {site : Site}
    (h : site ∈ Markup.sitesOf [] (Markup.forest source trees)) :
    site.location = some (Position.ofOffset source site.tag.span.start) := by
  rw [Markup.sitesOf_forest] at h
  obtain ⟨o, -, rfl⟩ := List.mem_map.1 h
  rfl

theorem isBoundary_start_of_mem_sites {source : List Char} {program : Tsx.Program} {site : Site}
    (h : Tsx.parse? source = some program)
    (hsite : site ∈ Markup.sitesOf [] (Markup.forest source program.markup)) :
    Text.isBoundary source site.tag.span.start = true := by
  obtain ⟨before, lead, delimiter, after, hsplit⟩ := exists_tagSplit_of_mem_sites h hsite
  rw [hsplit.start, hsplit.source_eq]
  exact Text.isBoundary_append before _

/-! ## Identifiers -/

namespace Attributes

/-- The `id` among the attributes of an element, if it has one. -/
def idOf (config : Config) (context : ElementContext) : Option String :=
  (values config context).value.lookup "id"

/-- An element whose `id` nobody hides or changes has its place as `id`, in front of everything else. -/
theorem idOf_eq {config : Config} (henabled : config.attributeEnabled "id" = true)
    (hplain : config.transformers.get? "id" = none) (context : ElementContext) :
    idOf config context = some (place context) := by
  have htransform : ∀ value, (transform config context "id" value).value = value := by
    intro value
    rw [transform, hplain]
    rfl
  obtain ⟨others, hfirst⟩ : ∃ others, (plainValues context).filter (fun v =>
      config.attributeEnabled v.1) = ("id", place context) :: others :=
    ⟨_, List.filter_cons_of_pos henabled⟩
  simp only [idOf, values, builtinValues, hfirst, transformAll, Traced.value_bind, Traced.value_pure,
    htransform, List.cons_append, List.lookup_cons, beq_self_eq_true]

end Attributes

/-- Two elements have identifiers, and these are the same only if their files have the same path and, in
one source, their tags open at the same offset. -/
def ToldApart (config : Config) (source source' : List Char) (tag tag' : OpeningTag)
    (context context' : ElementContext) : Prop :=
  ∃ id id', Attributes.idOf config context = some id ∧ Attributes.idOf config context' = some id' ∧
    (id = id' → context.filePath = context'.filePath ∧
      (source = source' → tag.span.start = tag'.span.start))

theorem toldApart_ofElement {config : Config} (henabled : config.attributeEnabled "id" = true)
    (hplain : config.transformers.get? "id" = none) {source source' : List Char}
    {tag tag' : OpeningTag} (hstart : Text.isBoundary source tag.span.start = true)
    (hstart' : Text.isBoundary source' tag'.span.start = true) (file file' : FileInfo)
    (children children' : List Node) (depth depth' : Nat) (props props' content content' : Bool) :
    ToldApart config source source' tag tag'
      (.ofElement tag (some (Position.ofOffset source tag.span.start)) children file depth
        props content)
      (.ofElement tag' (some (Position.ofOffset source' tag'.span.start)) children' file' depth'
        props' content') :=
  ⟨_, _, Attributes.idOf_eq henabled hplain _, Attributes.idOf_eq henabled hplain _,
    place_ofElement_inj hstart hstart'⟩

theorem SourceModule.exists_program {source path : String} {m : SourceModule}
    (h : parse source path = .ok m) :
    ∃ program, Tsx.parse? source.toList = some program ∧
      m = ⟨program.imports, Markup.forest source.toList program.markup⟩ := by
  unfold parse at h
  cases hprogram : Tsx.parse? source.toList with
  | none =>
      rw [hprogram] at h
      cases h
  | some program =>
      rw [hprogram] at h
      exact ⟨program, rfl, (Except.ok.inj h).symm⟩

/-- The elements of a program have different contexts. So an answer that depends on the context of an
element may be another one for each of them. -/
theorem nodup_contexts {source path : String} {m : SourceModule}
    (h : SourceModule.parse source path = .ok m) (config : Config) (file : FileInfo) :
    ((Markup.sitesOf [] m.elements).map (siteContext config file)).Nodup := by
  obtain ⟨program, hprogram, rfl⟩ := SourceModule.exists_program h
  rw [List.nodup_iff_pairwise_ne, List.pairwise_map]
  refine (pairwise_tags_of_parse? hprogram).imp_of_mem fun {site site'} hsite hsite' hne heq => ?_
  have hplace := congrArg Attributes.place heq
  rw [siteContext, siteContext, location_of_mem_sites_forest hsite,
    location_of_mem_sites_forest hsite'] at hplace
  exact hne.1 ((place_ofElement_inj (isBoundary_start_of_mem_sites hprogram hsite)
    (isBoundary_start_of_mem_sites hprogram hsite') hplace).2 rfl)

/-- Where the `id` is neither hidden nor changed, no two elements share one, unless their files have one
path and their tags open at one offset. That holds of all elements of programs, and of any two tags
that open at boundaries of their sources. -/
theorem ids_tell_elements_apart {config : Config} (henabled : config.attributeEnabled "id" = true)
    (hplain : config.transformers.get? "id" = none) (file file' : FileInfo) :
    (∀ (source source' path path' : String) (m m' : SourceModule),
      SourceModule.parse source path = .ok m → SourceModule.parse source' path' = .ok m' →
      ∀ site ∈ Markup.sitesOf [] m.elements, ∀ site' ∈ Markup.sitesOf [] m'.elements,
        ToldApart config source.toList source'.toList site.tag site'.tag
          (siteContext config file site) (siteContext config file' site')) ∧
    (∀ (source source' : List Char) (tag tag' : OpeningTag) (children children' : List Node)
      (depth depth' : Nat) (props props' content content' : Bool),
      Text.isBoundary source tag.span.start = true → Text.isBoundary source' tag'.span.start = true →
      ToldApart config source source' tag tag'
        (.ofElement tag (some (Position.ofOffset source tag.span.start)) children file depth
          props content)
        (.ofElement tag' (some (Position.ofOffset source' tag'.span.start)) children' file' depth'
          props' content')) := by
  refine ⟨fun source source' path path' m m' hm hm' site hsite site' hsite' => ?_,
    fun source source' tag tag' children children' depth depth' props props' content content' h h' =>
      toldApart_ofElement henabled hplain h h' file file' children children' depth depth' props props'
        content content'⟩
  obtain ⟨program, hprogram, rfl⟩ := SourceModule.exists_program hm
  obtain ⟨program', hprogram', rfl⟩ := SourceModule.exists_program hm'
  have h := toldApart_ofElement henabled hplain (isBoundary_start_of_mem_sites hprogram hsite)
    (isBoundary_start_of_mem_sites hprogram' hsite') file file' site.children site'.children
    site.depth site'.depth config.includeProps config.includeProps config.includeContent
    config.includeContent
  rwa [← location_of_mem_sites_forest hsite, ← location_of_mem_sites_forest hsite'] at h

/-- A path with a colon and numbers in it, and elements on two lines of which the second begins with
characters of more than one byte. -/
theorem ids_tell_elements_apart_colon :
    let config : Config := { excludeAttributes := some ["path"] }
    let file : FileInfo := ⟨"a:1:0", "0"⟩
    config.attributeEnabled "id" = true ∧ config.transformers.get? "id" = none ∧
      ∃ m, SourceModule.parse "x=<a>\nä😀<b/></a>" "a:1:0" = .ok m ∧
        (Markup.sitesOf [] m.elements).map (fun site =>
          (site.tag.span.start, Attributes.idOf config (siteContext config file site))) =
            [(2, some "a:1:0:1:2"), (12, some "a:1:0:2:2")] ∧
        ∀ site ∈ Markup.sitesOf [] m.elements, ∀ site' ∈ Markup.sitesOf [] m.elements,
          ToldApart config "x=<a>\nä😀<b/></a>".toList "x=<a>\nä😀<b/></a>".toList site.tag site'.tag
            (siteContext config file site) (siteContext config file site') := by
  intro config file
  have hids : (SourceModule.parse "x=<a>\nä😀<b/></a>" "a:1:0").toOption.map (fun m =>
      (Markup.sitesOf [] m.elements).map fun site =>
        (site.tag.span.start, Attributes.idOf config (siteContext config file site))) =
          some [(2, some "a:1:0:1:2"), (12, some "a:1:0:2:2")] := by decide +kernel
  obtain ⟨m, hoption, hmap⟩ := Option.map_eq_some_iff.1 hids
  have hparse : SourceModule.parse "x=<a>\nä😀<b/></a>" "a:1:0" = .ok m := by
    revert hoption
    cases SourceModule.parse "x=<a>\nä😀<b/></a>" "a:1:0" with
    | error e => simp [Except.toOption]
    | ok found => simp [Except.toOption]
  exact ⟨by decide, by decide, m, hparse, hmap,
    (ids_tell_elements_apart (by decide) (by decide) file file).1 _ _ _ _ m m hparse hparse⟩

end OriginTags
