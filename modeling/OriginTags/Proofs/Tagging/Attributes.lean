import OriginTags.Proofs.Dictionary
import OriginTags.Proofs.Text.Entity
import OriginTags.Proofs.Text.Payload
import OriginTags.Tagging.Attributes
import Mathlib.Data.List.Nodup
/-!
# Reading attributes back

The attributes of an element have distinct keys, and their text can be read by anyone who knows how
attributes are written: as names, equal signs and quoted values with a space between two of them.
What is read are the attributes that were computed, whatever a path, a name, a transformer or the
user supplied.
-/

namespace OriginTags

/-! ## Prefixes -/

/-- Whether a character may stand in the name of an attribute. -/
def isNameChar (c : Char) : Bool := c.isAlphanum || ['_', ':', '.', '-'].contains c

namespace Config

theorem isAttributePrefix_checkPrefix (chosen : Option String) :
    isAttributePrefix (checkPrefix chosen).value.toList = true := by
  have hdefault : isAttributePrefix defaultAttributePrefix.toList = true := by decide
  cases chosen with
  | none => exact hdefault
  | some text =>
      simp only [checkPrefix]
      split
      · assumption
      · exact hdefault

/-- A configuration that was resolved from options has a prefix that names may begin with. -/
theorem isAttributePrefix_resolve (files : FileTree) (options : Options)
    (workingDirectory : Option String) :
    isAttributePrefix (resolve files options workingDirectory).value.attributePrefix.toList = true := by
  simp only [resolve, Traced.value_bind]
  split
  all_goals exact isAttributePrefix_checkPrefix _

theorem isNameChar_of_isAttributePrefix {cs : List Char} (h : isAttributePrefix cs = true) :
    ∀ c ∈ cs, isNameChar c = true := by
  cases cs with
  | nil => cases h
  | cons c cs =>
      simp only [isAttributePrefix, Bool.and_eq_true, List.all_eq_true] at h
      intro d hd
      rcases List.mem_cons.1 hd with rfl | hd
      · simp [isNameChar, Char.isAlphanum, h.1]
      · exact h.2 d hd

end Config

namespace Attributes

open Text.Entity (Harmless harmless_encode)

/-! ## Keys -/

theorem isNameChar_of_isKey {cs : List Char} (h : isKey cs = true) :
    ∀ c ∈ cs, isNameChar c = true := by
  cases cs with
  | nil => cases h
  | cons c cs =>
      simp only [isKey, Bool.and_eq_true, Bool.or_eq_true, beq_iff_eq, List.all_eq_true,
        List.contains_iff_mem] at h
      intro d hd
      rcases List.mem_cons.1 hd with rfl | hd
      · rcases h.1 with hd | rfl
        · simp [isNameChar, hd]
        · decide
      · rcases h.2 d hd with hd | hd
        · simp [isNameChar, hd]
        · simp only [List.mem_cons, List.not_mem_nil, or_false] at hd
          rcases hd with rfl | rfl | rfl | rfl <;> decide

theorem keys_transformAll (config : Config) (context : ElementContext) (vs : Values) :
    (transformAll config context vs).value.map Prod.fst = vs.map Prod.fst := by
  induction vs with
  | nil => rfl
  | cons v vs ih =>
      simp only [transformAll, Traced.value_bind, Traced.value_pure, List.map_cons, ih]

/-- The keys of the computed attributes are some of the known ones, in their order. -/
theorem keys_builtinValues (config : Config) (context : ElementContext) :
    ((builtinValues config context).value.map Prod.fst).Sublist builtinAttributes := by
  have hplain : (((plainValues context).filter fun v => config.attributeEnabled v.1).map
      Prod.fst).Sublist ["id", "name", "path", "line", "file", "component"] :=
    List.filter_sublist.map Prod.fst
  have hmetadata : ((metadataValues config context).map Prod.fst).Sublist ["metadata"] := by
    unfold metadataValues
    split
    · split
      · exact List.Sublist.refl _
      · exact List.nil_sublist _
    · exact List.nil_sublist _
  have hsourceMap : ((sourceMapValues config context).map Prod.fst).Sublist ["sourcemap"] := by
    unfold sourceMapValues
    split
    · exact List.Sublist.refl _
    · exact List.nil_sublist _
  simp only [builtinValues, Traced.value_bind, Traced.value_pure, List.map_append,
    keys_transformAll]
  exact (hplain.append hmetadata).append hsourceMap

/-- The keys of the supplied attributes that are written can stand in names, and none of them is
taken or there twice. -/
theorem keys_acceptCustom (config : Config) (context : ElementContext)
    (entries : List (String × Json)) (accepted : Nat) (taken : List String) :
    ((acceptCustom config context entries accepted taken).value.map Prod.fst).Nodup ∧
      ∀ v ∈ (acceptCustom config context entries accepted taken).value,
        v.1 ∉ taken ∧ isKey v.1.toList = true := by
  induction entries generalizing accepted taken with
  | nil => exact ⟨List.nodup_nil, by simp [acceptCustom]⟩
  | cons entry rest ih =>
      obtain ⟨raw, value⟩ := entry
      simp only [acceptCustom]
      split
      · exact ih accepted taken
      split
      · exact ⟨List.nodup_nil, by simp⟩
      split
      · exact ih accepted taken
      split
      · exact ih accepted taken
      -- The key passed every check.
      case isFalse hkey htaken =>
        split
        · exact ih accepted taken
        case h_2 text _ =>
          obtain ⟨hnodup, hothers⟩ := ih (accepted + 1) (stripOwn config raw :: taken)
          simp only [Traced.value_bind, Traced.value_pure, List.map_cons]
          refine ⟨List.nodup_cons.2 ⟨?_, hnodup⟩, ?_⟩
          · intro hmem
            obtain ⟨v, hv, hfst⟩ := List.mem_map.1 hmem
            exact (hothers v hv).1 (hfst ▸ List.mem_cons_self)
          · intro v hv
            rcases List.mem_cons.1 hv with rfl | hv
            · exact ⟨by simpa using htaken, by simpa using hkey⟩
            · exact ⟨fun h => (hothers v hv).1 (List.mem_cons_of_mem _ h), (hothers v hv).2⟩

theorem keys_customValues (config : Config) (context : ElementContext) (builtin : Values) :
    ((customValues config context builtin).value.map Prod.fst).Nodup ∧
      ∀ v ∈ (customValues config context builtin).value,
        v.1 ∉ builtin.map Prod.fst ∧ isKey v.1.toList = true := by
  have hnone : (([] : Values).map Prod.fst).Nodup ∧
      ∀ v ∈ ([] : Values), v.1 ∉ builtin.map Prod.fst ∧ isKey v.1.toList = true := by simp
  simp only [customValues]
  split
  · exact hnone
  · simp only [Traced.value_bind, value_invoke]
    split
    · exact keys_acceptCustom config context _ 0 _
    · exact hnone

theorem nodup_keys_values (config : Config) (context : ElementContext) :
    ((values config context).value.map Prod.fst).Nodup := by
  have hbuiltin := (keys_builtinValues config context).nodup (by decide)
  obtain ⟨hcustom, hfresh⟩ :=
    keys_customValues config context (builtinValues config context).value
  simp only [values, Traced.value_bind, Traced.value_pure, List.map_append]
  refine List.nodup_append'.2 ⟨hbuiltin, hcustom, ?_⟩
  intro key hkey hmem
  obtain ⟨v, hv, rfl⟩ := List.mem_map.1 hmem
  exact (hfresh v hv).1 hkey

theorem isKey_of_mem_values {config : Config} {context : ElementContext} {v : String × String}
    (h : v ∈ (values config context).value) : isKey v.1.toList = true := by
  simp only [values, Traced.value_bind, Traced.value_pure, List.mem_append] at h
  rcases h with h | h
  · have hknown : ∀ key ∈ builtinAttributes, isKey key.toList = true := by decide
    exact hknown _ ((keys_builtinValues config context).subset (List.mem_map_of_mem h))
  · exact ((keys_customValues config context _).2 v h).2

/-! ## Tokens -/

/-- What a reader of attributes is in the middle of. -/
inductive Reading
  | name (read : List Char)
  | value (name read : List Char)

/-- The names and values of a text, in the middle of one of them. A name ends at the first equal
sign and a value at the next quote, and one space stands before the next name. -/
def tokensFrom : Reading → List Char → Option (List (String × String))
  | .name read, '=' :: '"' :: cs => tokensFrom (.value read []) cs
  | .name read, c :: cs => if c = '=' then none else tokensFrom (.name (read ++ [c])) cs
  | .value name read, ['"'] => some [(String.ofList name, String.ofList read)]
  | .value name read, '"' :: ' ' :: cs =>
    (tokensFrom (.name []) cs).map ((String.ofList name, String.ofList read) :: ·)
  | .value name read, c :: cs => if c = '"' then none else tokensFrom (.value name (read ++ [c])) cs
  | _, [] => none

/-- The names and quoted values of a text of attributes. -/
def tokens? (cs : List Char) : Option (List (String × String)) :=
  if cs.isEmpty then some [] else tokensFrom (.name []) cs

/-- The attributes of a text, with the entities in their values replaced. -/
def read? (cs : List Char) : Option (List (String × String)) :=
  (tokens? cs).bind fun tokens =>
    tokens.mapM fun token => (Text.Entity.unescape? token.2).map (token.1, ·)

/-- Names and quoted values with spaces between them. -/
def written (tokens : List (String × String)) : String :=
  String.intercalate " " (tokens.map fun token => token.1 ++ "=\"" ++ token.2 ++ "\"")

theorem toList_written_cons (first next : String × String) (rest : List (String × String)) :
    (written (first :: next :: rest)).toList =
      (first.1 ++ "=\"" ++ first.2 ++ "\"").toList ++ ' ' :: (written (next :: rest)).toList := by
  simp [written, String.intercalate_cons_cons]

/-- A name and a quoted value that keep to their bounds. -/
structure Token.Bounded (token : String × String) : Prop where
  equalSign : '=' ∉ token.1.toList
  quoteInName : '"' ∉ token.1.toList
  quoteInValue : '"' ∉ token.2.toList

theorem tokensFrom_name {name : List Char} (h : '=' ∉ name) (read cs : List Char) :
    tokensFrom (.name read) (name ++ '=' :: '"' :: cs) = tokensFrom (.value (read ++ name) []) cs := by
  induction name generalizing read with
  | nil => simp [tokensFrom]
  | cons c name ih =>
      have hc : c ≠ '=' := fun hc => h (hc ▸ List.mem_cons_self)
      have hname := ih (fun hmem => h (List.mem_cons_of_mem _ hmem)) (read ++ [c])
      rw [List.cons_append, tokensFrom.eq_def]
      split <;> simp_all

theorem tokensFrom_value {value : List Char} (h : '"' ∉ value) (name read cs : List Char) :
    tokensFrom (.value name read) (value ++ '"' :: cs) =
      tokensFrom (.value name (read ++ value)) ('"' :: cs) := by
  induction value generalizing read with
  | nil => simp
  | cons c value ih =>
      have hc : c ≠ '"' := fun hc => h (hc ▸ List.mem_cons_self)
      have hvalue := ih (fun hmem => h (List.mem_cons_of_mem _ hmem)) (read ++ [c])
      rw [List.cons_append, tokensFrom.eq_def]
      split <;> simp_all

theorem tokensFrom_token {token : String × String} (h : Token.Bounded token) (cs : List Char) :
    tokensFrom (.name []) ((token.1 ++ "=\"" ++ token.2 ++ "\"").toList ++ cs) =
      tokensFrom (.value token.1.toList token.2.toList) ('"' :: cs) := by
  have hsplit : (token.1 ++ "=\"" ++ token.2 ++ "\"").toList ++ cs =
      token.1.toList ++ '=' :: '"' :: (token.2.toList ++ '"' :: cs) := by simp
  rw [hsplit, tokensFrom_name h.equalSign, tokensFrom_value h.quoteInValue]
  rfl

/-- What is written by the rules is read by the rules. -/
theorem tokens?_written {tokens : List (String × String)}
    (h : ∀ token ∈ tokens, Token.Bounded token) :
    tokens? (written tokens).toList = some tokens := by
  cases tokens with
  | nil => rfl
  | cons first rest =>
      have hfrom : tokensFrom (.name []) (written (first :: rest)).toList = some (first :: rest) := by
        induction rest generalizing first with
        | nil =>
            have htoken := tokensFrom_token (h first List.mem_cons_self) []
            rw [List.append_nil] at htoken
            simp only [written, List.map_cons, List.map_nil, String.intercalate_singleton, htoken]
            simp [tokensFrom]
        | cons next rest ih =>
            have hnext := ih next fun token hmem => h token (List.mem_cons_of_mem _ hmem)
            rw [toList_written_cons, tokensFrom_token (h first List.mem_cons_self)]
            simp [tokensFrom, hnext]
      have hne : (written (first :: rest)).toList ≠ [] := by
        intro hnil
        rw [hnil] at hfrom
        cases hfrom
      rw [tokens?, if_neg (by simpa using hne), hfrom]

/-! ## Attributes one by one -/

theorem render_eq_written {config : Config} (hgroup : config.groupAttributes = false) (vs : Values) :
    render config vs = written (vs.map fun v =>
      (config.attributePrefix ++ "-" ++ v.1, Text.Entity.escape v.2)) := by
  cases vs with
  | nil => rfl
  | cons v vs =>
      simp only [render, List.isEmpty_cons, hgroup, Bool.false_eq_true, if_false, written,
        List.map_map]
      rfl

theorem exists_lead_of_written (token : String × String) (tokens : List (String × String)) :
    ∃ rest, (written (token :: tokens)).toList = token.1.toList ++ rest := by
  cases tokens with
  | nil => exact ⟨("=\"" ++ token.2 ++ "\"").toList, by simp [written]⟩
  | cons next tokens =>
      exact ⟨("=\"" ++ token.2 ++ "\"").toList ++ ' ' :: (written (next :: tokens)).toList,
        by simp [toList_written_cons]⟩

/-- Attributes, if there are any, begin with what all their names begin with. -/
theorem exists_lead_of_render {config : Config} {vs : Values} (h : render config vs ≠ "") :
    ∃ rest, (render config vs).toList = config.attributePrefix.toList ++ rest := by
  cases vs with
  | nil => exact absurd rfl h
  | cons v vs =>
      cases hgroup : config.groupAttributes with
      | true =>
          simp only [render, List.isEmpty_cons, hgroup, Bool.false_eq_true, if_false, if_true,
            assignment, String.toList_append, List.append_assoc]
          exact ⟨_, rfl⟩
      | false =>
          rw [render_eq_written hgroup, List.map_cons]
          obtain ⟨rest, hrest⟩ := exists_lead_of_written
            (config.attributePrefix ++ "-" ++ v.1, Text.Entity.escape v.2)
            (vs.map fun v => (config.attributePrefix ++ "-" ++ v.1, Text.Entity.escape v.2))
          rw [hrest, String.toList_append, String.toList_append, List.append_assoc, List.append_assoc]
          exact ⟨_, rfl⟩

theorem isNameChar_name {config : Config} {key : String}
    (hlead : Config.isAttributePrefix config.attributePrefix.toList = true)
    (hkey : isKey key.toList = true) :
    ∀ c ∈ (config.attributePrefix ++ "-" ++ key).toList, isNameChar c = true := by
  intro c hc
  simp only [String.toList_append, List.mem_append] at hc
  rcases hc with (hc | hc) | hc
  · exact Config.isNameChar_of_isAttributePrefix hlead c hc
  · obtain rfl : c = '-' := by simpa using hc
    decide
  · exact isNameChar_of_isKey hkey c hc

theorem Token.bounded_escape {name : String} (h : ∀ c ∈ name.toList, isNameChar c = true)
    (value : String) : Token.Bounded (name, Text.Entity.escape value) where
  equalSign hmem := absurd (h _ hmem) (by decide)
  quoteInName hmem := absurd (h _ hmem) (by decide)
  quoteInValue hmem := by
    simp only [Text.Entity.escape, String.toList_ofList] at hmem
    exact Text.Entity.quote_not_mem_encode _ hmem

theorem harmless_name {name : String} (h : ∀ c ∈ name.toList, isNameChar c = true) :
    Harmless name.toList := by
  refine .of_forall fun c hc => ?_
  have hname := h c hc
  refine ⟨?_, ?_, ?_, ?_⟩ <;> (rintro rfl; exact absurd hname (by decide))

theorem mapM_unescape?_escape (vs : Values) (name : String → String) :
    (vs.map fun v => (name v.1, Text.Entity.escape v.2)).mapM (fun token =>
        (Text.Entity.unescape? token.2).map (token.1, ·)) =
      some (vs.map fun v => (name v.1, v.2)) := by
  induction vs with
  | nil => rfl
  | cons v vs ih => simp [Text.Entity.unescape?_escape, ih]

theorem harmless_written {tokens : List (String × String)}
    (h : ∀ token ∈ tokens, Harmless token.1.toList ∧ Harmless token.2.toList) :
    Harmless (written tokens).toList := by
  have hdelimiter : ∀ cs ∈ [[], ['=', '"'], ['"'], [' ']], Harmless cs := by
    intro cs hcs
    refine .of_forall fun c hc => ?_
    revert hcs hc c cs
    simp
  have htoken : ∀ token ∈ tokens, Harmless (token.1 ++ "=\"" ++ token.2 ++ "\"").toList := by
    intro token hmem
    obtain ⟨hname, hvalue⟩ := h token hmem
    simp only [String.toList_append]
    exact ((hname.append (hdelimiter ['=', '"'] (by simp))).append hvalue).append
      (hdelimiter ['"'] (by simp))
  induction tokens with
  | nil => exact hdelimiter [] (by simp)
  | cons first rest ih =>
      have hfirst := htoken first List.mem_cons_self
      cases rest with
      | nil => simpa [written] using hfirst
      | cons next rest =>
          rw [toList_written_cons]
          have hrest := ih (fun token hmem => h token (List.mem_cons_of_mem _ hmem))
            fun token hmem => htoken token (List.mem_cons_of_mem _ hmem)
          exact hfirst.append ((hdelimiter [' '] (by simp)).append hrest)

/-- The text of the attributes of an element can be read back, and in no other way than it was
meant: the scan of names and values, with the entities replaced, gives what was computed. Every quote
in it is a delimiter, since names and values have none. -/
structure ReadsBack (config : Config) (context : ElementContext) (text : String) : Prop where
  read : read? text.toList = some ((values config context).value.map fun v =>
    (config.attributePrefix ++ "-" ++ v.1, v.2))
  delimited : ∃ tokens, tokens? text.toList = some tokens ∧ text = written tokens ∧
    ∀ token ∈ tokens, '"' ∉ token.1.toList ∧ '"' ∉ token.2.toList
  harmless : Harmless text.toList

/-- Whatever paths, names, properties, transformers and supplied attributes hold, the text of the
attributes of an element reads back as these attributes. -/
theorem generate_reads_back (files : FileTree) (options : Options)
    (workingDirectory : Option String) (context : ElementContext)
    (hgroup : (Config.resolve files options workingDirectory).value.groupAttributes = false) :
    ReadsBack (Config.resolve files options workingDirectory).value context
      (generate (Config.resolve files options workingDirectory).value context).value := by
  generalize hconfig : (Config.resolve files options workingDirectory).value = config at hgroup
  have hlead : Config.isAttributePrefix config.attributePrefix.toList = true :=
    hconfig ▸ Config.isAttributePrefix_resolve files options workingDirectory
  have hname : ∀ v ∈ (values config context).value,
      ∀ c ∈ (config.attributePrefix ++ "-" ++ v.1).toList, isNameChar c = true :=
    fun v hv => isNameChar_name hlead (isKey_of_mem_values hv)
  have hbounded : ∀ token ∈ (values config context).value.map (fun v =>
      (config.attributePrefix ++ "-" ++ v.1, Text.Entity.escape v.2)), Token.Bounded token := by
    intro token htoken
    obtain ⟨v, hv, rfl⟩ := List.mem_map.1 htoken
    exact Token.bounded_escape (hname v hv) v.2
  have htokens := tokens?_written hbounded
  simp only [generate, Traced.value_bind, Traced.value_pure, render_eq_written hgroup]
  refine ⟨?_, ⟨_, htokens, rfl, fun token htoken => ?_⟩, harmless_written fun token htoken => ?_⟩
  · rw [read?, htokens, Option.bind_some]
    exact mapM_unescape?_escape _ (config.attributePrefix ++ "-" ++ ·)
  · exact ⟨(hbounded token htoken).quoteInName, (hbounded token htoken).quoteInValue⟩
  · obtain ⟨v, hv, rfl⟩ := List.mem_map.1 htoken
    exact ⟨harmless_name (hname v hv), by simpa [Text.Entity.escape] using harmless_encode v.2.toList⟩

/-- A supplied value that tries to leave its quotes, and that holds an entity already, reads back as
it was supplied. -/
theorem generate_reads_back_hostile :
    let options : Options :=
      { includeAttributes := some ["name"]
        customAttributes := some fun _ => .ok [("note", .string "\"><b x='&lt;'>"), ("a=", .null)] }
    let context : ElementContext := ⟨"p", "a.tsx", 1, 0, "a.tsx", 1, none, none⟩
    let config := (Config.resolve ⟨[]⟩ options).value
    config.groupAttributes = false ∧
      (values config context).value = [("name", "p"), ("note", "\"><b x='&lt;'>")] ∧
      ReadsBack config context (generate config context).value :=
  ⟨by decide, by decide +kernel, generate_reads_back _ _ none _ (by decide)⟩

/-! ## Attributes in one -/

theorem foldl_insert_perm {entries : List (String × Json)} {members : Json.Members}
    (h : ((members ++ entries).map Prod.fst).Nodup) :
    (entries.foldl (fun members entry => Json.Members.insert entry.1 entry.2 members) members).Perm
      (members ++ entries) := by
  induction entries generalizing members with
  | nil => simp
  | cons entry rest ih =>
      have hfresh : entry.1 ∉ members.map Prod.fst := by
        simp only [List.map_append, List.map_cons] at h
        exact fun hmem => (List.nodup_append'.1 h).2.2 hmem List.mem_cons_self
      have hinsert : (Json.Members.insert entry.1 entry.2 members).Perm (entry :: members) :=
        Dictionary.insertEntry_perm hfresh
      have hmove : (Json.Members.insert entry.1 entry.2 members ++ rest).Perm
          (members ++ entry :: rest) :=
        (hinsert.append_right rest).trans List.perm_middle.symm
      exact (ih ((hmove.map Prod.fst).nodup_iff.2 h)).trans hmove

/-- An object of entries with distinct keys has these entries. -/
theorem ofList_perm {entries : List (String × Json)} (h : (entries.map Prod.fst).Nodup) :
    (Json.Members.ofList entries).Perm entries :=
  foldl_insert_perm (by simpa using h)

theorem readableMembers_strings {members : Json.Members}
    (h : ∀ member ∈ members, ∃ s, member.2 = .string s) (depth : Nat) :
    Json.ReadableMembers members depth := by
  induction members with
  | nil => trivial
  | cons member members ih =>
      obtain ⟨s, hs⟩ := h member List.mem_cons_self
      have hrest := ih fun m hm => h m (List.mem_cons_of_mem _ hm)
      obtain ⟨key, value⟩ := member
      obtain rfl : value = .string s := hs
      exact ⟨trivial, hrest⟩

/-- A text is a single attribute, named by the prefix alone, that leads back to some attributes: with
the entities of its value replaced and its encoding undone, it is a JSON object of just their keys
and values. A reader finds this attribute and no other, if the prefix may begin a name at all. -/
def CarriesGroup (config : Config) (vs : Values) (text : String) : Prop :=
  ∃ (value payload json : String) (members : Json.Members),
    text = config.attributePrefix ++ "=\"" ++ value ++ "\"" ∧ '"' ∉ value.toList ∧
    (Config.isAttributePrefix config.attributePrefix.toList = true →
      tokens? text.toList = some [(config.attributePrefix, value)]) ∧
    Text.Entity.unescape? value = some payload ∧
    config.metadataEncoding.decode? payload = some json ∧
    Json.parse? json = some (.object members) ∧
    members.Perm (vs.map fun v => (v.1, .string v.2))

theorem carriesGroup_render {config : Config} (hgroup : config.groupAttributes = true) {vs : Values}
    (hne : vs ≠ []) (hnodup : (vs.map Prod.fst).Nodup) :
    CarriesGroup config vs (render config vs) := by
  obtain ⟨entries, hentries⟩ : ∃ entries : Json.Members,
      entries = vs.map fun v => (v.1, .string v.2) := ⟨_, rfl⟩
  have hkeys : (entries.map Prod.fst).Nodup := by
    rw [hentries, List.map_map]
    exact hnodup
  have hperm := ofList_perm hkeys
  have hjson : Json.parse? (grouped vs) = some (.object (Json.Members.ofList entries)) := by
    rw [hentries]
    refine Json.parse?_compact ⟨by decide, readableMembers_strings (fun member hmember => ?_) _⟩
    have hmem := (hentries ▸ hperm).subset hmember
    obtain ⟨v, -, rfl⟩ := List.mem_map.1 hmem
    exact ⟨v.2, rfl⟩
  have hrender : render config vs = written
      [(config.attributePrefix, Text.Entity.escape (config.metadataEncoding.encode (grouped vs)))] := by
    rw [render, if_neg (by simpa using hne), if_pos hgroup]
    rfl
  refine ⟨Text.Entity.escape (config.metadataEncoding.encode (grouped vs)),
    config.metadataEncoding.encode (grouped vs), grouped vs, Json.Members.ofList entries,
    ?_, ?_, ?_, Text.Entity.unescape?_escape _, config.metadataEncoding.decode?_encode _, hjson,
    hentries ▸ hperm⟩
  · rw [hrender]
    simp [written]
  · simpa [Text.Entity.escape] using Text.Entity.quote_not_mem_encode _
  · intro hlead
    rw [hrender]
    refine tokens?_written fun token htoken => ?_
    obtain rfl := List.mem_singleton.1 htoken
    exact Token.bounded_escape (Config.isNameChar_of_isAttributePrefix hlead) _

/-- Attributes with distinct keys that are written as one lead back to themselves. The attributes of
an element always have distinct keys, so nothing of them is lost. -/
theorem grouped_carries_all :
    (∀ (config : Config) (vs : Values), config.groupAttributes = true → vs ≠ [] →
      (vs.map Prod.fst).Nodup → CarriesGroup config vs (render config vs)) ∧
    (∀ (config : Config) (context : ElementContext),
      ((values config context).value.map Prod.fst).Nodup) ∧
    (∀ (config : Config) (context : ElementContext), config.groupAttributes = true →
      (values config context).value ≠ [] →
      CarriesGroup config (values config context).value (generate config context).value) :=
  ⟨fun _ _ hgroup hne hnodup => carriesGroup_render hgroup hne hnodup,
    fun config context => nodup_keys_values config context,
    fun config context hgroup hne =>
      carriesGroup_render hgroup hne (nodup_keys_values config context)⟩

/-- Two attributes in an order that is not that of their keys, with characters that each layer
writes in its own way. -/
theorem grouped_carries_all_unsorted :
    let config : Config := { groupAttributes := true, metadataEncoding := .base64 }
    let vs : Values := [("name", "é\"<'"), ("id", "a\\b:1:0")]
    vs ≠ [] ∧ (vs.map Prod.fst).Nodup ∧ CarriesGroup config vs (render config vs) :=
  ⟨by decide, by decide, grouped_carries_all.1 _ _ rfl (by decide) (by decide)⟩

end Attributes

end OriginTags
