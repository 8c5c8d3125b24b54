import OriginTags.Proofs.Splice.SourceMap
import OriginTags.Tagging.Metadata
/-!
# Reading encoded texts

Readers of percent encoding, of base64 and of UTF-8. A text in any of the encodings of captured data
reads back as itself.
-/

namespace OriginTags.Text

/-! ## Bytes -/

/-- The text of some UTF-8 bytes. -/
def ofBytes? (bs : List UInt8) : Option (List Char) :=
  (ByteArray.utf8Decode? bs.toByteArray).map Array.toList

theorem bytes_append (a b : List Char) : bytes (a ++ b) = bytes a ++ bytes b := by
  simp [bytes]

theorem ofBytes?_bytes (cs : List Char) : ofBytes? (bytes cs) = some cs := by
  have hencode : (bytes cs).toByteArray = cs.utf8Encode := rfl
  rw [ofBytes?, hencode, List.utf8Decode?_utf8Encode]
  rfl

/-! ## Percent encoding -/

namespace Percent

/-- The bytes of a text where a percent sign and two digits stand for a byte, and every other
character for itself. -/
def decode? : List Char → Option (List UInt8)
  | [] => some []
  | '%' :: high :: low :: cs => do
    let high ← hexValue? high
    let low ← hexValue? low
    let rest ← decode? cs
    return UInt8.ofNat (high * 16 + low) :: rest
  | c :: cs => if c = '%' then none else (decode? cs).map (bytes [c] ++ ·)

theorem hexValue?_hexDigit : ∀ n < 16, hexValue? (hexDigit n) = some n := by decide

theorem decode?_encodeByte_append (b : UInt8) (cs : List Char) :
    decode? (encodeByte b ++ cs) = (decode? cs).map (b :: ·) := by
  have hb := b.toNat_lt
  have hhigh := hexValue?_hexDigit (b.toNat / 16) (by omega)
  have hlow := hexValue?_hexDigit (b.toNat % 16) (by omega)
  have hbyte : b.toNat / 16 * 16 + b.toNat % 16 = b.toNat := by omega
  simp only [encodeByte, List.cons_append, List.nil_append, decode?, hhigh, hlow,
    Option.bind_eq_bind, Option.bind_some, hbyte, UInt8.ofNat_toNat]
  cases decode? cs <;> rfl

theorem decode?_encodeBytes_append (bs : List UInt8) (cs : List Char) :
    decode? (bs.flatMap encodeByte ++ cs) = (decode? cs).map (bs ++ ·) := by
  induction bs with
  | nil => simp
  | cons b bs ih =>
      rw [List.flatMap_cons, List.append_assoc, decode?_encodeByte_append, ih, Option.map_map]
      rfl

theorem decode?_encodeChar_append (c : Char) (cs : List Char) :
    decode? (encodeChar c ++ cs) = (decode? cs).map (bytes [c] ++ ·) := by
  unfold encodeChar
  split
  case isTrue hplain =>
    have hne : c ≠ '%' := by
      rintro rfl
      exact absurd hplain (by decide)
    rw [List.singleton_append, decode?.eq_def]
    split <;> simp_all
  case isFalse => exact decode?_encodeBytes_append (bytes [c]) cs

theorem decode?_encode (cs : List Char) : decode? (encode cs) = some (bytes cs) := by
  induction cs with
  | nil => rfl
  | cons c cs ih =>
      have hcons : encode (c :: cs) = encodeChar c ++ encode cs := rfl
      rw [hcons, decode?_encodeChar_append, ih, Option.map_some, ← bytes_append]
      rfl

end Percent

/-! ## Base64 -/

namespace Base64

open SourceMap (digitValue? digitValue?_digit)

/-- The bytes of a text of base64 digits, four at a time. Only the last four may end with padding. -/
def decode? : List Char → Option (List UInt8)
  | [] => some []
  | a :: b :: c :: d :: cs => do
    let a ← digitValue? a
    let b ← digitValue? b
    match digitValue? c, digitValue? d with
    | some c, some d =>
      let n := a * 262144 + b * 4096 + c * 64 + d
      let rest ← decode? cs
      return UInt8.ofNat (n / 65536) :: UInt8.ofNat (n / 256) :: UInt8.ofNat n :: rest
    | some c, none =>
      let n := a * 1024 + b * 16 + c / 4
      if d = '=' ∧ cs = [] then return [UInt8.ofNat (n / 256), UInt8.ofNat n] else none
    | none, _ =>
      if c = '=' ∧ d = '=' ∧ cs = [] then return [UInt8.ofNat (a * 4 + b / 16)] else none
  | _ => none

theorem ofNat_eq {n : Nat} {b : UInt8} (h : n % 256 = b.toNat) : UInt8.ofNat n = b := by
  apply UInt8.toNat_inj.1
  rw [UInt8.toNat_ofNat']
  exact h

theorem digits_value (n : Nat) :
    n / 262144 * 262144 + n / 4096 % 64 * 4096 + n / 64 % 64 * 64 + n % 64 = n := by
  have hlow := Nat.div_add_mod n 64
  have hmiddle := Nat.div_add_mod (n / 64) 64
  have hhigh := Nat.div_add_mod (n / 4096) 64
  rw [Nat.div_div_eq_div_mul] at hmiddle hhigh
  omega

theorem decode?_encode (bs : List UInt8) : decode? (encode bs) = some bs := by
  have hpad : digitValue? '=' = none := by decide
  fun_induction encode bs with
  | case1 => rfl
  | case2 a =>
      have ha := a.toNat_lt
      simp only [digits, List.take, List.cons_append, List.nil_append, decode?, hpad,
        digitValue?_digit (a.toNat * 65536 / 262144) (by omega),
        digitValue?_digit (a.toNat * 65536 / 4096 % 64) (by omega),
        Option.bind_eq_bind, Option.bind_some, and_self, if_true]
      have hbyte := ofNat_eq (n := a.toNat * 65536 / 262144 * 4 + a.toNat * 65536 / 4096 % 64 / 16)
        (b := a) (by omega)
      rw [hbyte]
      rfl
  | case3 a b =>
      have ha := a.toNat_lt
      have hb := b.toNat_lt
      generalize hn : a.toNat * 65536 + b.toNat * 256 = n
      simp only [digits, List.take, List.cons_append, List.nil_append, decode?, hpad,
        digitValue?_digit (n / 262144) (by omega), digitValue?_digit (n / 4096 % 64) (by omega),
        digitValue?_digit (n / 64 % 64) (by omega),
        Option.bind_eq_bind, Option.bind_some, and_self, if_true]
      have hfirst := ofNat_eq
        (n := (n / 262144 * 1024 + n / 4096 % 64 * 16 + n / 64 % 64 / 4) / 256) (b := a) (by omega)
      have hsecond := ofNat_eq
        (n := n / 262144 * 1024 + n / 4096 % 64 * 16 + n / 64 % 64 / 4) (b := b) (by omega)
      rw [hfirst, hsecond]
      rfl
  | case4 a b c rest ih =>
      have ha := a.toNat_lt
      have hb := b.toNat_lt
      have hc := c.toNat_lt
      generalize hn : a.toNat * 65536 + b.toNat * 256 + c.toNat = n
      have hdigits := digits_value n
      simp only [digits, List.cons_append, List.nil_append, decode?, ih,
        digitValue?_digit (n / 262144) (by omega), digitValue?_digit (n / 4096 % 64) (by omega),
        digitValue?_digit (n / 64 % 64) (by omega), digitValue?_digit (n % 64) (by omega),
        Option.bind_eq_bind, Option.bind_some, hdigits]
      rw [ofNat_eq (n := n / 65536) (b := a) (by omega), ofNat_eq (n := n / 256) (b := b) (by omega),
        ofNat_eq (n := n) (b := c) (by omega)]
      rfl

end Base64

end OriginTags.Text

namespace OriginTags.MetadataEncoding

/-- The text that an encoding was made of. -/
def decode? (encoding : MetadataEncoding) (text : String) : Option String :=
  match encoding with
  | .json => ((Text.Percent.decode? text.toList).bind Text.ofBytes?).map String.ofList
  | .base64 => ((Text.Base64.decode? text.toList).bind Text.ofBytes?).map String.ofList
  | .none => some text

theorem decode?_encode (encoding : MetadataEncoding) (text : String) :
    encoding.decode? (encoding.encode text) = some text := by
  cases encoding with
  | json => simp [decode?, encode, Text.Percent.decode?_encode, Text.ofBytes?_bytes]
  | base64 => simp [decode?, encode, Text.Base64.decode?_encode, Text.ofBytes?_bytes]
  | none => rfl

end OriginTags.MetadataEncoding
