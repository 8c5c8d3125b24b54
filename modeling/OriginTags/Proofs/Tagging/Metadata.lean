import OriginTags.Proofs.Json.Ending
import OriginTags.Proofs.Tagging.Values
import OriginTags.Proofs.Text.Payload
/-!
# The size of captured data

The captured data of an element has a text of bounded size. It reads as the data itself exactly if that
was small enough; otherwise it says that something is missing, in one of two ways.
-/

namespace OriginTags

open Json (Document Members)

/-! ## Sizes of objects -/

namespace Json

theorem writeMoreMembers_eq {members : Members} (h : members ≠ []) :
    writeMoreMembers members = ',' :: writeMembers members := by
  obtain ⟨⟨key, value⟩, rest, rfl⟩ := List.exists_cons_of_ne_nil h
  rw [writeMoreMembers, writeMembers]

theorem byteSize_writeMoreMembers_insert {members : Members} {key : String}
    (h : key ∉ members.map Prod.fst) (value : Json) :
    Text.byteSize (writeMoreMembers members) ≤
      Text.byteSize (writeMoreMembers (members.insert key value)) := by
  induction members with
  | nil => exact Nat.zero_le _
  | cons entry rest ih =>
      have hne : key ≠ entry.1 := fun heq => h (heq ▸ List.mem_cons_self)
      have hrest := ih fun hmem => h (List.mem_cons_of_mem _ hmem)
      simp only [Members.insert, Dictionary.insertEntry, if_neg hne] at hrest ⊢
      split
      · simp only [writeMoreMembers, Text.byteSize_cons, Text.byteSize_append]
        omega
      · simp only [writeMoreMembers, Text.byteSize_cons, Text.byteSize_append]
        omega

/-- A new member makes an object larger. -/
theorem byteSize_write_insert {members : Members} {key : String} {value : Json}
    (h : key ∉ members.map Prod.fst) :
    Text.byteSize (write (.object members)) ≤
      Text.byteSize (write (.object (members.insert key value))) := by
  have hmembers : Text.byteSize (writeMembers members) ≤
      Text.byteSize (writeMembers (members.insert key value)) := by
    by_cases hnil : members = []
    · subst hnil
      exact Nat.zero_le _
    · have hmore := byteSize_writeMoreMembers_insert h value
      have hne : members.insert key value ≠ [] := Dictionary.insertEntry_ne_nil key value members
      rw [writeMoreMembers_eq hnil, writeMoreMembers_eq hne, Text.byteSize_cons,
        Text.byteSize_cons] at hmore
      omega
  simp only [write, Text.byteSize_cons, Text.byteSize_append]
  omega

end Json

namespace Metadata

/-! ## Marks -/

theorem lookup_mark (members : Members) (size : Nat) (key : String) :
    (mark members size).lookup key =
      if key = "_originalSize" then some (.ofNat size)
      else if key = "_truncated" then some (.bool true) else members.lookup key := by
  rw [mark, Members.insert, Dictionary.lookup_insertEntry, Members.insert,
    Dictionary.lookup_insertEntry]

/-- The mark makes an object larger that has no member of its keys. -/
theorem byteSize_write_mark {members : Members} (htruncated : "_truncated" ∉ members.map Prod.fst)
    (hsize : "_originalSize" ∉ members.map Prod.fst) (size : Nat) :
    Text.byteSize (Json.object members).write ≤
      Text.byteSize (Json.object (mark members size)).write := by
  refine (Json.byteSize_write_insert htruncated).trans (Json.byteSize_write_insert ?_)
  intro hmem
  obtain ⟨entry, hentry, hkey⟩ := List.mem_map.1 hmem
  rcases Dictionary.mem_insertEntry hentry with rfl | hentry
  · exact absurd hkey (by decide)
  · exact hsize (hkey ▸ List.mem_map_of_mem hentry)

/-! ## Bounded texts -/

/-- A text reads as an object that is marked as too large and says how large it was. -/
def IsMarked (size : Nat) (text : String) : Prop :=
  ∃ read, Document.parse? text = some (.object read) ∧
    read.lookup "_truncated" = some (.bool true) ∧
    read.lookup "_originalSize" = some (.number (toString size))

/-- A text is another one up to its last boundary within the limit, and the sentinel. -/
def IsCut (whole : List Char) (text : String) : Prop :=
  ∃ cut kept, maxBytes - 3 ≤ cut ∧ cut ≤ maxBytes ∧
    (∀ n ≤ maxBytes, Text.isBoundary whole n = true → n ≤ cut) ∧
    Text.slice? whole 0 cut = some kept ∧ text = String.ofList (kept ++ sentinel.toList)

/-- A text stands for an object within the limit of bytes. -/
structure StandsFor (members : Members) (text : String) : Prop where
  size_le : Text.byteSize text.toList ≤ maxBytes + Text.byteSize sentinel.toList
  /-- The object itself is read exactly if its compact text is within the limit. -/
  reads_iff : Document.parse? text = some (.ofJson (.object members)) ↔
    Text.byteSize (Json.object members).write ≤ maxBytes
  /-- Otherwise the text is marked or cut. -/
  marked_or_cut : maxBytes < Text.byteSize (Json.object members).write →
    IsMarked (Text.byteSize (Json.object members).write) text ∨
      IsCut (Json.object (mark members (Text.byteSize (Json.object members).write))).write text
  /-- It is cut if the mark overwrites nothing. -/
  cut_of_fresh : maxBytes < Text.byteSize (Json.object members).write →
    "_truncated" ∉ members.map Prod.fst → "_originalSize" ∉ members.map Prod.fst →
      IsCut (Json.object (mark members (Text.byteSize (Json.object members).write))).write text

theorem isMarked_mark (members : Members) (size : Nat) :
    IsMarked size (Json.object (mark members size)).compact := by
  refine ⟨_, Document.parse?_compact _, ?_, ?_⟩
  · rw [Document.lookup_ofMembers, lookup_mark]
    rfl
  · rw [Document.lookup_ofMembers, lookup_mark]
    rfl

theorem isCut_takeBytes {whole : List Char} (h : maxBytes < Text.byteSize whole) :
    IsCut whole (String.ofList (Text.takeBytes whole maxBytes ++ sentinel.toList)) :=
  ⟨Text.floorBoundary whole maxBytes, Text.takeBytes whole maxBytes,
    Text.sub_three_le_floorBoundary h.le, Text.floorBoundary_le whole maxBytes,
    fun _ hn hboundary => Text.le_floorBoundary_of_isBoundary hboundary hn,
    Text.slice?_floorBoundary whole maxBytes, rfl⟩

/-- A text that was cut reads as no object, since it ends with a bracket. -/
theorem parse?_ne_of_isCut {whole : List Char} {text : String} (h : IsCut whole text)
    (read : List (String × Document)) : Document.parse? text ≠ some (.object read) := by
  obtain ⟨cut, kept, -, -, -, -, rfl⟩ := h
  intro hread
  have hlast : (String.ofList (kept ++ sentinel.toList)).toList.getLast? = some ']' := by
    rw [String.toList_ofList, List.getLast?_append]
    rfl
  exact absurd (Document.last_of_parse?_object hread hlast) (by decide)

/-- What the text of an object is depends on its size, and on that of the marked object. -/
theorem bound_cases (members : Members) :
    (Text.byteSize (Json.object members).write ≤ maxBytes ∧
      bound members = (Json.object members).compact) ∨
    (maxBytes < Text.byteSize (Json.object members).write ∧
      ∃ marked : Members, marked = mark members (Text.byteSize (Json.object members).write) ∧
        (Text.byteSize (Json.object marked).write ≤ maxBytes ∧
          bound members = (Json.object marked).compact ∨
        maxBytes < Text.byteSize (Json.object marked).write ∧
          bound members =
            String.ofList (Text.takeBytes (Json.object marked).write maxBytes ++ sentinel.toList))) := by
  unfold bound
  dsimp only
  split
  · next hsize => exact .inl ⟨hsize, rfl⟩
  · next hsize =>
    refine .inr ⟨Nat.lt_of_not_le hsize, _, rfl, ?_⟩
    split
    · next hmarked => exact .inl ⟨hmarked, rfl⟩
    · next hmarked => exact .inr ⟨Nat.lt_of_not_le hmarked, rfl⟩

theorem standsFor_bound (members : Members) : StandsFor members (bound members) := by
  obtain ⟨hsize, hbound⟩ | ⟨hsize, marked, hmarked, ⟨hfits, hbound⟩ | ⟨hcut, hbound⟩⟩ :=
    bound_cases members
  · rw [hbound]
    exact ⟨by rw [Json.compact, String.toList_ofList]; omega,
      ⟨fun _ => hsize, fun _ => Document.parse?_compact _⟩,
      fun hlt => absurd hlt (by omega), fun hlt => absurd hlt (by omega)⟩
  · rw [hbound]
    refine ⟨by rw [Json.compact, String.toList_ofList]; omega,
      ⟨fun hread => ?_, fun hle => absurd hle (by omega)⟩,
      fun _ => .inl (hmarked ▸ isMarked_mark members _), fun _ htruncated horiginal => ?_⟩
    · -- An object that reads like the marked one is as small as that.
      rw [Document.parse?_compact, Option.some.injEq] at hread
      rwa [← Document.write_eq_of_ofJson_eq hread]
    · have hle := byteSize_write_mark htruncated horiginal (Text.byteSize (Json.object members).write)
      rw [← hmarked] at hle
      omega
  · have hisCut := isCut_takeBytes hcut
    rw [← hbound, hmarked] at hisCut
    refine ⟨?_, ⟨fun hread => absurd hread (parse?_ne_of_isCut hisCut _),
      fun hle => absurd hle (by omega)⟩, fun _ => .inr hisCut, fun _ _ _ => hisCut⟩
    have hfloor := Text.floorBoundary_le (Json.object marked).write maxBytes
    rw [hbound, String.toList_ofList, Text.byteSize_append, Text.byteSize_takeBytes]
    omega

end Metadata

/-! ## Captured data of an element -/

namespace Attributes

theorem lookup_plainValues_metadata (config : Config) (context : ElementContext) :
    (transformAll config context ((plainValues context).filter fun v =>
      config.attributeEnabled v.1)).value.lookup "metadata" = none := by
  rw [List.lookup_eq_none_iff]
  intro v hv
  have hkey := List.mem_map_of_mem (f := Prod.fst) hv
  rw [keys_transformAll, keys_plainValues, List.mem_filter] at hkey
  have hne : v.1 ≠ "metadata" := by
    rintro heq
    exact absurd (heq ▸ hkey.1) (by decide)
  simpa using hne.symm

/-- The captured data of an element is written in the encoding that is asked for, and only after its
size was bounded. -/
theorem lookup_metadata_values {config : Config} {context : ElementContext}
    (hshown : config.attributeEnabled "metadata" = true) (hdata : Metadata.members context ≠ []) :
    (values config context).value.lookup "metadata" =
      some (config.metadataEncoding.encode (Metadata.bound (Metadata.members context))) := by
  have hmetadata : metadataValues config context =
      [("metadata", config.metadataEncoding.encode (Metadata.bound (Metadata.members context)))] := by
    rw [metadataValues, if_pos hshown, Metadata.ofContext]
    cases hmembers : Metadata.members context with
    | nil => exact absurd hmembers hdata
    | cons member members => rfl
  simp only [values, builtinValues, Traced.value_bind, Traced.value_pure, List.lookup_append,
    lookup_plainValues_metadata, hmetadata]
  rfl

end Attributes

/-- The text of captured data is bounded and stands for the data as far as its size allows, and it is
what the attribute of an element decodes to in each of the encodings. -/
theorem Metadata.bounded_in_every_encoding (members : Members) (config : Config)
    (context : ElementContext) :
    StandsFor members (bound members) ∧
      (config.Shows "metadata" → context.Captured →
        ∃ value, (Attributes.values config context).value.lookup "metadata" = some value ∧
          config.metadataEncoding.decode? value = some (bound (Metadata.members context))) :=
  ⟨standsFor_bound members, fun hshown hcaptured =>
    ⟨_, Attributes.lookup_metadata_values (Config.attributeEnabled_iff.2 hshown)
      (members_ne_nil_iff.2 hcaptured), MetadataEncoding.decode?_encode _ _⟩⟩

end OriginTags
