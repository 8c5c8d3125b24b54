import OriginTags.Files.Spelling
import OriginTags.Proofs.Files.Path
import OriginTags.Proofs.Text.Decoding
/-!
# Paths that are texts

A text is read back from the path that it is. The parts of such a path between slashes are texts again,
and so is what is joined of them. A double dot stays one, even in a path that is no text.
-/

namespace OriginTags.Path

/-! ## Texts as paths -/

/-- A path is the spelling of a text. -/
def IsText (path : List Char) : Prop := ∃ text, path = ofText text

@[simp] theorem ofText_nil : ofText [] = [] := rfl

theorem ofText_cons (c : Char) (cs : List Char) : ofText (c :: cs) = spell c ++ ofText cs :=
  List.flatMap_cons

theorem ofText_append (a b : List Char) : ofText (a ++ b) = ofText a ++ ofText b :=
  List.flatMap_append

/-- A text is spelled as it is, but for the characters that stand for bytes. -/
theorem ofText_of_not_stray {text : List Char} (h : ∀ c ∈ text, isStray c = false) :
    ofText text = text := by
  induction text with
  | nil => rfl
  | cons c cs ih =>
      rw [ofText_cons, spell, h c List.mem_cons_self, ih fun d hd => h d (List.mem_cons_of_mem _ hd)]
      rfl

theorem stray_toNat {b : UInt8} : (stray b).toNat = 0x10ff00 + b.toNat := by
  have hb := b.toNat_lt
  have hvalid : (0x10ff00 + b.toNat).isValidChar := .inr ⟨by omega, by omega⟩
  rw [stray, Char.ofNat, dif_pos hvalid]
  rfl

theorem isStray_stray {b : UInt8} (h : 0x80 ≤ b.toNat) : isStray (stray b) = true := by
  rw [isStray, stray_toNat, decide_eq_true_eq]
  omega

theorem charBytes_stray {b : UInt8} (h : 0x80 ≤ b.toNat) : charBytes (stray b) = [b] := by
  have hb := b.toNat_lt
  rw [charBytes, if_pos (isStray_stray h), stray_toNat, List.singleton_inj, ← UInt8.toNat_inj,
    UInt8.toNat_ofNat']
  omega

/-- A character that stands for a byte is itself made of bytes that are not in ASCII. -/
theorem toNat_of_mem_utf8EncodeChar {c : Char} (hc : isStray c = true) {b : UInt8}
    (hb : b ∈ String.utf8EncodeChar c) : 0x80 ≤ b.toNat := by
  have hlarge : 0x10ff80 ≤ c.toNat := of_decide_eq_true hc
  have hbound := Text.toNat_lt c
  have hlead : Text.leadByte c.toNat = c.toNat / 64 ^ 3 + 240 := by
    unfold Text.leadByte
    rw [if_neg (by omega), if_neg (by omega), if_neg (by omega)]
  rw [Text.utf8EncodeChar_eq, hlead] at hb
  rcases List.mem_cons.1 hb with rfl | hb
  · rw [Text.toNat_ofNat_of_lt (by omega)]
    omega
  · exact Text.toNat_of_mem_trailBytes hb

theorem flatMap_charBytes_spell (c : Char) : (spell c).flatMap charBytes = String.utf8EncodeChar c := by
  unfold spell
  split
  · next hc =>
    rw [List.flatMap_map]
    have hbytes : ∀ b ∈ String.utf8EncodeChar c, charBytes (stray b) = [b] := fun b hb =>
      charBytes_stray (toNat_of_mem_utf8EncodeChar hc hb)
    rw [List.flatMap_congr hbytes, List.flatMap_singleton']
  · next hc => simp [charBytes, hc]

theorem bytes_ofText (text : List Char) : bytes (ofText text) = Text.bytes text := by
  rw [bytes, ofText, List.flatMap_assoc, Text.bytes]
  exact List.flatMap_congr fun c _ => flatMap_charBytes_spell c

/-- A text is read back from the path that it is. -/
@[simp] theorem toText_ofText (text : List Char) : toText (ofText text) = text := by
  rw [toText, bytes_ofText, Text.decode_bytes]

theorem IsText.ofText_toText {path : List Char} (h : IsText path) : ofText (toText path) = path := by
  obtain ⟨text, rfl⟩ := h
  rw [toText_ofText]

theorem isText_ofString (text : String) : IsText (ofString text).toList :=
  ⟨text.toList, String.toList_ofList⟩

theorem ofString_display {path : String} (h : IsText path.toList) : ofString (display path) = path := by
  rw [ofString, display, String.toList_ofList, h.ofText_toText, String.ofList_toList]

/-! ## Slashes -/

theorem mem_spell_iff {c d : Char} (hc : isStray c = false) : c ∈ spell d ↔ c = d := by
  unfold spell
  split
  · next hd =>
    refine iff_of_false (fun hmem => ?_) fun heq => ?_
    · obtain ⟨b, hb, rfl⟩ := List.mem_map.1 hmem
      simp [isStray_stray (toNat_of_mem_utf8EncodeChar hd hb)] at hc
    · simp [heq, hd] at hc
  · exact List.mem_singleton

/-- A character that stands for itself is in a path just if it is in the text. -/
theorem mem_ofText_iff {c : Char} (hc : isStray c = false) {text : List Char} :
    c ∈ ofText text ↔ c ∈ text := by
  simp [ofText, List.mem_flatMap, mem_spell_iff hc]

theorem slash_not_mem_ofText {text : List Char} (h : '/' ∉ text) : '/' ∉ ofText text := fun hmem =>
  h ((mem_ofText_iff (by decide)).1 hmem)

theorem spell_ne_nil (c : Char) : spell c ≠ [] := by
  unfold spell
  split
  · exact fun h => String.utf8EncodeChar_ne_nil (List.map_eq_nil_iff.1 h)
  · exact List.cons_ne_nil _ _

theorem isAbsolute_ofText (text : List Char) : isAbsolute (ofText text) = isAbsolute text := by
  cases text with
  | nil => rfl
  | cons c cs =>
      by_cases hc : c = '/'
      · subst hc
        rfl
      · obtain ⟨first, rest, hfirst⟩ := List.exists_cons_of_ne_nil (spell_ne_nil c)
        have hne : first ≠ '/' := by
          rintro rfl
          have hmem : '/' ∈ spell c := hfirst ▸ List.mem_cons_self
          exact hc ((mem_spell_iff (by decide)).1 hmem).symm
        rw [ofText_cons, hfirst]
        simp [isAbsolute, hc, hne]

theorem ofText_intercalate (parts : List (List Char)) :
    ofText (['/'].intercalate parts) = ['/'].intercalate (parts.map ofText) := by
  induction parts with
  | nil => rfl
  | cons s rest ih =>
      by_cases hrest : rest = []
      · simp [hrest]
      · rw [List.map_cons, List.intercalate_cons_of_ne_nil hrest,
          List.intercalate_cons_of_ne_nil (by simpa using hrest), ofText_append, ofText_append, ih]
        rfl

theorem splitOn_ofText (text : List Char) :
    (ofText text).splitOn '/' = (text.splitOn '/').map ofText := by
  have htext : ['/'].intercalate (text.splitOn '/') = text := List.intercalate_splitOn '/'
  have hslash : ∀ s ∈ (text.splitOn '/').map ofText, '/' ∉ s := by
    intro s hs
    obtain ⟨part, hpart, rfl⟩ := List.mem_map.1 hs
    exact slash_not_mem_ofText (slash_not_mem_of_mem_splitOn hpart)
  conv_lhs => rw [← htext, ofText_intercalate]
  exact List.splitOn_intercalate '/' hslash (by simp)

theorem IsText.of_mem_splitOn {path s : List Char} (h : IsText path) (hs : s ∈ path.splitOn '/') :
    IsText s := by
  obtain ⟨text, rfl⟩ := h
  rw [splitOn_ofText] at hs
  obtain ⟨part, -, rfl⟩ := List.mem_map.1 hs
  exact ⟨part, rfl⟩

theorem isText_intercalate {parts : List (List Char)} (h : ∀ s ∈ parts, IsText s) :
    IsText (['/'].intercalate parts) := by
  have htexts : parts.map (fun s => ofText (toText s)) = parts := by
    conv_rhs => rw [← List.map_id parts]
    exact List.map_congr_left fun s hs => (h s hs).ofText_toText
  refine ⟨['/'].intercalate (parts.map toText), ?_⟩
  rw [ofText_intercalate, List.map_map]
  exact congrArg _ htexts.symm

theorem IsText.slash_cons {path : List Char} (h : IsText path) : IsText ('/' :: path) := by
  obtain ⟨text, rfl⟩ := h
  exact ⟨'/' :: text, rfl⟩

theorem IsText.append {a b : List Char} (ha : IsText a) (hb : IsText b) : IsText (a ++ b) := by
  obtain ⟨text, rfl⟩ := ha
  obtain ⟨more, rfl⟩ := hb
  exact ⟨text ++ more, (ofText_append text more).symm⟩

theorem IsText.join {base path : List Char} (hbase : IsText base) (hpath : IsText path) :
    IsText (join base path) := by
  unfold Path.join
  split
  · exact hpath
  · split
    · exact hbase.append hpath
    · exact hbase.append hpath.slash_cons

/-! ## Double dots -/

theorem toText_append_slash (before path : List Char) :
    toText (before ++ '/' :: path) = toText before ++ '/' :: toText path := by
  have hbytes : bytes (before ++ '/' :: path) = bytes before ++ 0x2f :: bytes path := by
    rw [bytes, List.flatMap_append]
    rfl
  rw [toText, Text.decode, hbytes, Text.decodeAfter_append_ascii none _ (by decide)]
  rfl

theorem toText_intercalate (parts : List (List Char)) :
    toText (['/'].intercalate parts) = ['/'].intercalate (parts.map toText) := by
  induction parts with
  | nil => rfl
  | cons s rest ih =>
      by_cases hrest : rest = []
      · simp [hrest]
      · rw [List.map_cons, List.intercalate_cons_of_ne_nil hrest,
          List.intercalate_cons_of_ne_nil (by simpa using hrest), List.append_assoc,
          List.singleton_append, toText_append_slash, ih, List.append_assoc]
        rfl

theorem mem_splitOn_intercalate {s : List Char} (hs : '/' ∉ s) {parts : List (List Char)}
    (h : s ∈ parts) : s ∈ (['/'].intercalate parts).splitOn '/' := by
  induction parts with
  | nil => cases h
  | cons first rest ih =>
      by_cases hrest : rest = []
      · subst hrest
        obtain rfl := List.mem_singleton.1 h
        rw [List.intercalate_singleton, List.splitOn_eq_singleton hs]
        exact List.mem_singleton_self s
      · rw [List.intercalate_cons_of_ne_nil hrest, List.append_assoc, List.singleton_append,
          List.splitOn_append_cons_self]
        rcases List.mem_cons.1 h with rfl | h
        · rw [List.splitOn_eq_singleton hs]
          exact List.mem_append_left _ List.mem_cons_self
        · exact List.mem_append_right _ (ih h)

/-- A double dot in a path is one in its text. -/
theorem parent_mem_components_toText {path : List Char}
    (h : Component.parent ∈ components path) :
    Component.parent ∈ components (ofText (toText path)) := by
  have hpath : ['/'].intercalate (path.splitOn '/') = path := List.intercalate_splitOn '/'
  rw [parent_mem_components] at h ⊢
  rw [← hpath, toText_intercalate, ofText_intercalate]
  refine mem_splitOn_intercalate (by decide) ?_
  rw [List.map_map, List.mem_map]
  exact ⟨_, h, by decide⟩

end OriginTags.Path
