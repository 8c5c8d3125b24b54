import OriginTags.Proofs.Text.Entity
import OriginTags.Proofs.Text.Payload
/-!
# Alphabets

Captured data is encoded and then escaped. Both are undone in the opposite order, and the encoded text
has few kinds of characters, whatever the data says.
-/

namespace OriginTags.Text

/-! ## Percent encoding -/

namespace Percent

/-- The marks that stand for themselves. -/
def marks : List Char := "-_.!~*'()".toList

/-- The hexadecimal digits of an encoded byte. -/
def hexDigits : List Char := "0123456789ABCDEF".toList

/-- A text of ASCII letters, ASCII digits, marks and encoded bytes. -/
inductive IsEncoded : List Char → Prop
  | nil : IsEncoded []
  | plain {c : Char} {cs : List Char} (hplain : c.isAlphanum = true ∨ c ∈ marks)
      (hrest : IsEncoded cs) : IsEncoded (c :: cs)
  | byte {high low : Char} {cs : List Char} (hhigh : high ∈ hexDigits) (hlow : low ∈ hexDigits)
      (hrest : IsEncoded cs) : IsEncoded ('%' :: high :: low :: cs)

theorem IsEncoded.append {a b : List Char} (ha : IsEncoded a) (hb : IsEncoded b) :
    IsEncoded (a ++ b) := by
  induction ha with
  | nil => exact hb
  | plain hplain _ ih => exact .plain hplain ih
  | byte hhigh hlow _ ih => exact .byte hhigh hlow ih

theorem IsEncoded.flatMap {α : Type} {f : α → List Char} (h : ∀ x, IsEncoded (f x)) (xs : List α) :
    IsEncoded (xs.flatMap f) := by
  induction xs with
  | nil => exact .nil
  | cons x xs ih => exact (h x).append ih

theorem isPlain_iff {c : Char} : isPlain c = true ↔ c.isAlphanum = true ∨ c ∈ marks := by
  rw [isPlain, Bool.or_eq_true, List.contains_iff_mem]
  rfl

theorem hexDigit_mem : ∀ n < 16, hexDigit n ∈ hexDigits := by decide

theorem isEncoded_encodeByte (b : UInt8) : IsEncoded (encodeByte b) := by
  have hb := b.toNat_lt
  exact .byte (hexDigit_mem _ (by omega)) (hexDigit_mem _ (by omega)) .nil

theorem isEncoded_encodeChar (c : Char) : IsEncoded (encodeChar c) := by
  unfold encodeChar
  split
  case isTrue hplain => exact .plain (isPlain_iff.1 hplain) .nil
  case isFalse => exact .flatMap isEncoded_encodeByte (bytes [c])

theorem isEncoded_encode (cs : List Char) : IsEncoded (encode cs) := .flatMap isEncoded_encodeChar cs

end Percent

/-! ## Base64 -/

namespace Base64

/-- The standard alphabet. -/
def alphabet : List Char := "ABCDEFGHIJKLMNOPQRSTUVWXYZabcdefghijklmnopqrstuvwxyz0123456789+/".toList

/-- Digits of the standard alphabet, behind which up to two characters of padding stand. -/
def IsPadded (cs : List Char) : Prop :=
  ∃ digits padding, cs = digits ++ List.replicate padding '=' ∧ digits ⊆ alphabet ∧ padding ≤ 2

/-- A padded text in groups of four characters. -/
structure IsEncoded (cs : List Char) : Prop where
  padded : IsPadded cs
  four_dvd_length : 4 ∣ cs.length

theorem isPadded_replicate {padding : Nat} (h : padding ≤ 2) :
    IsPadded (List.replicate padding '=') :=
  ⟨[], padding, rfl, List.nil_subset _, h⟩

theorem IsPadded.append {ds cs : List Char} (hds : ds ⊆ alphabet) (hcs : IsPadded cs) :
    IsPadded (ds ++ cs) := by
  obtain ⟨digits, padding, rfl, hdigits, hpadding⟩ := hcs
  exact ⟨ds ++ digits, padding, (List.append_assoc ..).symm, List.append_subset.2 ⟨hds, hdigits⟩,
    hpadding⟩

theorem getElem?_alphabet : ∀ n < 64, alphabet[n]? = some (digit n) := by decide

theorem digit_mem {n : Nat} (h : n < 64) : digit n ∈ alphabet :=
  List.mem_of_getElem? (getElem?_alphabet n h)

theorem digits_subset {n : Nat} (h : n < 2 ^ 24) : digits n ⊆ alphabet := by
  have hfirst := digit_mem (n := n / 262144) (by omega)
  have hsecond := digit_mem (n := n / 4096 % 64) (by omega)
  have hthird := digit_mem (n := n / 64 % 64) (by omega)
  have hfourth := digit_mem (n := n % 64) (by omega)
  simp [digits, hfirst, hsecond, hthird, hfourth]

theorem length_digits (n : Nat) : (digits n).length = 4 := rfl

theorem length_encode (bs : List UInt8) : (encode bs).length = 4 * ((bs.length + 2) / 3) := by
  fun_induction encode bs with
  | case1 => rfl
  | case2 => simp [length_digits]
  | case3 => simp [length_digits]
  | case4 a b c rest ih =>
      rw [List.length_append, length_digits, ih]
      simp only [List.length_cons]
      omega

theorem isPadded_encode (bs : List UInt8) : IsPadded (encode bs) := by
  fun_induction encode bs with
  | case1 => exact isPadded_replicate (Nat.zero_le 2)
  | case2 a =>
      have ha := a.toNat_lt
      have hdigits := digits_subset (n := a.toNat * 65536) (by omega)
      exact (isPadded_replicate le_rfl).append (List.Subset.trans (List.take_subset 2 _) hdigits)
  | case3 a b =>
      have ha := a.toNat_lt
      have hb := b.toNat_lt
      have hdigits := digits_subset (n := a.toNat * 65536 + b.toNat * 256) (by omega)
      exact (isPadded_replicate (Nat.le_succ 1)).append
        (List.Subset.trans (List.take_subset 3 _) hdigits)
  | case4 a b c rest ih =>
      have ha := a.toNat_lt
      have hb := b.toNat_lt
      have hc := c.toNat_lt
      exact ih.append (digits_subset (by omega))

theorem isEncoded_encode (bs : List UInt8) : IsEncoded (encode bs) where
  padded := isPadded_encode bs
  four_dvd_length := ⟨_, length_encode bs⟩

end Base64

end OriginTags.Text

/-! ## Captured data -/

namespace OriginTags.MetadataEncoding

/-- A text that was encoded and then escaped reads back as itself. Encoded for a web address it has only
letters, digits, marks and encoded bytes, and in base64 only digits and padding, in groups of four. -/
theorem encoded_escaped_reads_back (text : String) :
    (∀ encoding : MetadataEncoding,
        (Text.Entity.unescape? (Text.Entity.escape (encoding.encode text))).bind encoding.decode? =
          some text) ∧
      Text.Percent.IsEncoded (MetadataEncoding.json.encode text).toList ∧
      Text.Base64.IsEncoded (MetadataEncoding.base64.encode text).toList := by
  refine ⟨fun encoding => ?_, ?_, ?_⟩
  · rw [Text.Entity.unescape?_escape, Option.bind_some, decode?_encode]
  · rw [encode, String.toList_ofList]
    exact Text.Percent.isEncoded_encode text.toList
  · rw [encode, String.toList_ofList]
    exact Text.Base64.isEncoded_encode (Text.bytes text.toList)

/-- An apostrophe stands for itself in a web address, so that it is left to be escaped. -/
example : Text.Entity.escape (MetadataEncoding.json.encode "it's é") = "it&#39;s%20%C3%A9" := by
  decide

end OriginTags.MetadataEncoding
