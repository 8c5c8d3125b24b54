import OriginTags.Text.Bytes
import Mathlib.Data.String.Basic
import Mathlib.Tactic.SplitIfs
/-!
# The order of bytes

Texts are ordered by their characters. The bytes of their UTF-8 forms are in the same order: the first
byte of a character tells how many more follow, it grows with that number, and all of them together are
the digits of the character.
-/

namespace OriginTags.Text

/-! ## Bytes of a character -/

theorem toNat_lt (c : Char) : c.toNat < 0x110000 := by
  have hvalid : c.val.toNat < 0xd800 ∨ 0xdfff < c.val.toNat ∧ c.val.toNat < 0x110000 := c.valid
  rw [Char.toNat_val] at hvalid
  omega

/-- The number of bytes behind the first one of a character. -/
def trailing (n : Nat) : Nat :=
  if n ≤ 0x7f then 0 else if n ≤ 0x7ff then 1 else if n ≤ 0xffff then 2 else 3

/-- The first byte of a character, which also tells how many follow. -/
def leadByte (n : Nat) : Nat :=
  if n ≤ 0x7f then n
  else if n ≤ 0x7ff then n / 64 + 192
  else if n ≤ 0xffff then n / 64 ^ 2 + 224
  else n / 64 ^ 3 + 240

/-- The bytes for the last digits of a number in base 64. -/
def trailBytes (n : Nat) : (digits : Nat) → List UInt8
  | 0 => []
  | k + 1 => UInt8.ofNat (n / 64 ^ k % 64 + 128) :: trailBytes n k

theorem utf8EncodeChar_eq (c : Char) :
    String.utf8EncodeChar c =
      UInt8.ofNat (leadByte c.toNat) :: trailBytes c.toNat (trailing c.toNat) := by
  have hvalid := toNat_lt c
  unfold String.utf8EncodeChar leadByte trailing
  simp only [Char.toNat_val]
  split_ifs
  · rfl
  · have hlead : c.toNat / 64 % 32 = c.toNat / 64 := by omega
    simp [trailBytes, hlead]
  · have hlead : c.toNat / 4096 % 16 = c.toNat / 4096 := by omega
    simp [trailBytes, hlead]
  · have hlead : c.toNat / 262144 % 8 = c.toNat / 262144 := by omega
    simp [trailBytes, hlead]

theorem leadByte_lt {n : Nat} (h : n < 0x110000) : leadByte n < 256 := by
  unfold leadByte
  split_ifs <;> omega

/-- The first byte is larger for a larger character, unless only the digits behind it are. -/
theorem leadByte_cases {m n : Nat} (h : m < n) :
    leadByte m < leadByte n ∨
      leadByte m = leadByte n ∧ trailing m = trailing n ∧
        m % 64 ^ trailing m < n % 64 ^ trailing n := by
  unfold leadByte trailing
  split_ifs <;> omega

/-! ## Order -/

theorem ofNat_cons_lt {m n : Nat} (hm : m < 256) (hn : n < 256) {as bs : List UInt8}
    (h : m < n ∨ m = n ∧ as < bs) : UInt8.ofNat m :: as < UInt8.ofNat n :: bs := by
  rw [List.cons_lt_cons_iff, UInt8.lt_iff_toNat_lt, ← UInt8.toNat_inj, UInt8.toNat_ofNat',
    UInt8.toNat_ofNat', Nat.mod_eq_of_lt hm, Nat.mod_eq_of_lt hn]
  exact h

theorem trailBytes_append_lt {m n k : Nat} (h : m % 64 ^ k < n % 64 ^ k) (as bs : List UInt8) :
    trailBytes m k ++ as < trailBytes n k ++ bs := by
  induction k with
  | zero => simp [Nat.mod_one] at h
  | succ k ih =>
      have hm := Nat.mod_lt (m / 64 ^ k) (show 0 < 64 by decide)
      have hn := Nat.mod_lt (n / 64 ^ k) (show 0 < 64 by decide)
      have hrest := Nat.mod_lt n (show 0 < 64 ^ k from Nat.pow_pos (by decide))
      rw [Nat.mod_pow_succ, Nat.mod_pow_succ] at h
      refine ofNat_cons_lt (by omega) (by omega) ?_
      rcases Nat.lt_trichotomy (m / 64 ^ k % 64) (n / 64 ^ k % 64) with hlt | heq | hgt
      · exact .inl (by omega)
      · rw [heq] at h
        exact .inr ⟨by omega, ih (by omega)⟩
      · -- A larger digit outweighs all digits behind it.
        have hle := Nat.mul_le_mul_left (64 ^ k) (Nat.succ_le_of_lt hgt)
        rw [Nat.mul_succ] at hle
        omega

/-- The bytes of a character are smaller than those of a larger one, whatever follows. -/
theorem utf8EncodeChar_append_lt {c d : Char} (h : c < d) (as bs : List UInt8) :
    String.utf8EncodeChar c ++ as < String.utf8EncodeChar d ++ bs := by
  rw [utf8EncodeChar_eq, utf8EncodeChar_eq, List.cons_append, List.cons_append]
  refine ofNat_cons_lt (leadByte_lt (toNat_lt c)) (leadByte_lt (toNat_lt d)) ?_
  rcases leadByte_cases (show c.toNat < d.toNat from h) with hlead | ⟨hlead, htrailing, hdigits⟩
  · exact .inl hlead
  · rw [htrailing] at hdigits ⊢
    exact .inr ⟨hlead, trailBytes_append_lt hdigits as bs⟩

theorem bytes_lt_of_lt {a b : List Char} (h : a < b) : bytes a < bytes b := by
  induction a generalizing b with
  | nil =>
      cases b with
      | nil => exact absurd h (List.not_lt_nil [])
      | cons d b =>
          have hcons : bytes (d :: b) = String.utf8EncodeChar d ++ bytes b := rfl
          rw [hcons, utf8EncodeChar_eq]
          exact List.nil_lt_cons _ _
  | cons c a ih =>
      cases b with
      | nil => exact absurd h (List.not_lt_nil _)
      | cons d b =>
          rcases List.cons_lt_cons_iff.1 h with hlt | ⟨rfl, hrest⟩
          · exact utf8EncodeChar_append_lt hlt (bytes a) (bytes b)
          · exact List.append_left_lt (ih hrest)

/-- Texts are in the order of their bytes. -/
theorem bytes_lt_iff {a b : List Char} : bytes a < bytes b ↔ a < b := by
  refine ⟨fun h => ?_, bytes_lt_of_lt⟩
  rcases lt_trichotomy a b with hlt | rfl | hgt
  · exact hlt
  · exact absurd h (List.lt_irrefl _)
  · exact absurd (bytes_lt_of_lt hgt) (List.lt_asymm h)

end OriginTags.Text
