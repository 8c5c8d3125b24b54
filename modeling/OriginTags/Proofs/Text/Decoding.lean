import OriginTags.Proofs.Text.ByteOrder
import OriginTags.Text.Decoding
/-!
# Decoded bytes

The bytes of a text are read as that text, and what stands before a slash or behind it is read as if
it stood alone.
-/

namespace OriginTags.Text

theorem toNat_ofNat_of_lt {n : Nat} (h : n < 256) : (UInt8.ofNat n).toNat = n := by
  rw [UInt8.toNat_ofNat', Nat.mod_eq_of_lt h]

theorem toNat_of_mem_trailBytes {n k : Nat} {b : UInt8} (h : b ∈ trailBytes n k) :
    0x80 ≤ b.toNat := by
  induction k with
  | zero => cases h
  | succ k ih =>
      rcases List.mem_cons.1 h with rfl | h
      · have hmod := Nat.mod_lt (n / 64 ^ k) (show 0 < 64 by decide)
        rw [toNat_ofNat_of_lt (by omega)]
        exact Nat.le_add_left _ _
      · exact ih h

/-! ## Texts -/

theorem feed_next {p : Partial} {b k : Nat} (hlow : p.low ≤ b) (hhigh : b ≤ p.high)
    (hfollowing : p.following = k + 1) :
    feed (some p) b = ([], some ⟨k, 0x80, 0xbf, p.digits * 64 + b % 64, by decide⟩) := by
  simp only [feed, hlow, hhigh, and_self, if_true, hfollowing]

theorem feed_last {p : Partial} {b : Nat} (hlow : p.low ≤ b) (hhigh : b ≤ p.high)
    (hfollowing : p.following = 0) :
    feed (some p) b = ([Char.ofNat (p.digits * 64 + b % 64)], none) := by
  simp only [feed, hlow, hhigh, and_self, if_true, hfollowing]

/-- The bytes behind the first one complete a character. -/
theorem decodeAfter_trailBytes {c : Char} {p : Partial} {k : Nat} (hfollowing : p.following = k)
    (hdigits : p.digits = c.toNat / 64 ^ (k + 1))
    (hlow : p.low ≤ c.toNat / 64 ^ k % 64 + 128) (hhigh : c.toNat / 64 ^ k % 64 + 128 ≤ p.high)
    (bs : List UInt8) :
    decodeAfter (some p) (trailBytes c.toNat (k + 1) ++ bs) = c :: decodeAfter none bs := by
  induction k generalizing p with
  | zero =>
      have hbyte : (UInt8.ofNat (c.toNat % 64 + 128)).toNat = c.toNat % 64 + 128 :=
        toNat_ofNat_of_lt (by omega)
      simp only [Nat.pow_zero, Nat.div_one, Nat.zero_add, Nat.pow_one] at hdigits hlow hhigh
      have hvalue : p.digits * 64 + (c.toNat % 64 + 128) % 64 = c.toNat := by omega
      simp only [trailBytes, Nat.pow_zero, Nat.div_one, List.cons_append, List.nil_append, decodeAfter,
        hbyte, feed_last hlow hhigh hfollowing, hvalue, Char.ofNat_toNat]
  | succ k ih =>
      have hmod := Nat.mod_lt (c.toNat / 64 ^ (k + 1)) (show 0 < 64 by decide)
      have hbyte : (UInt8.ofNat (c.toNat / 64 ^ (k + 1) % 64 + 128)).toNat =
          c.toNat / 64 ^ (k + 1) % 64 + 128 := toNat_ofNat_of_lt (by omega)
      rw [trailBytes, List.cons_append, decodeAfter, hbyte, feed_next hlow hhigh hfollowing,
        List.nil_append]
      have hnext := Nat.mod_lt (c.toNat / 64 ^ k) (show 0 < 64 by decide)
      refine ih rfl ?_ (Nat.le_add_left _ _) (show _ ≤ 0xbf by omega)
      -- One more digit in base 64.
      have hsplit := Nat.div_add_mod (c.toNat / 64 ^ (k + 1)) 64
      have hdiv : c.toNat / 64 ^ (k + 1 + 1) = c.toNat / 64 ^ (k + 1) / 64 := by
        rw [Nat.div_div_eq_div_mul, ← Nat.pow_succ]
      dsimp only
      omega

/-- The bytes of a character are read as that character. -/
theorem decodeAfter_utf8EncodeChar (c : Char) (bs : List UInt8) :
    decodeAfter none (String.utf8EncodeChar c ++ bs) = c :: decodeAfter none bs := by
  have hvalid : c.toNat < 0xd800 ∨ 0xdfff < c.toNat ∧ c.toNat < 0x110000 := c.valid
  have hbyte := toNat_ofNat_of_lt (leadByte_lt (toNat_lt c))
  rw [utf8EncodeChar_eq, List.cons_append, decodeAfter, hbyte, feed, begin]
  by_cases hone : c.toNat ≤ 0x7f
  · have hlead : leadByte c.toNat = c.toNat := if_pos hone
    have htrailing : trailing c.toNat = 0 := if_pos hone
    rw [hlead, htrailing, if_pos (by omega), Char.ofNat_toNat]
    rfl
  by_cases htwo : c.toNat ≤ 0x7ff
  · have hlead : leadByte c.toNat = c.toNat / 64 + 192 := by simp [leadByte, hone, htwo]
    have htrailing : trailing c.toNat = 1 := by simp [trailing, hone, htwo]
    rw [hlead, htrailing, if_neg (by omega), Partial.start?, if_neg (by omega), if_pos (by omega)]
    exact decodeAfter_trailBytes rfl (by simp) (by simp) (by simp; omega) bs
  by_cases hthree : c.toNat ≤ 0xffff
  · have hlead : leadByte c.toNat = c.toNat / 64 ^ 2 + 224 := by
      simp [leadByte, hone, htwo, hthree]
    have htrailing : trailing c.toNat = 2 := by simp [trailing, hone, htwo, hthree]
    rw [hlead, htrailing, if_neg (by omega), Partial.start?, if_neg (by omega), if_neg (by omega),
      if_pos (by omega)]
    refine decodeAfter_trailBytes rfl (by simp) ?_ ?_ bs
    · dsimp only
      split <;> omega
    · dsimp only
      split <;> omega
  · have hlead : leadByte c.toNat = c.toNat / 64 ^ 3 + 240 := by
      simp [leadByte, hone, htwo, hthree]
    have htrailing : trailing c.toNat = 3 := by simp [trailing, hone, htwo, hthree]
    rw [hlead, htrailing, if_neg (by omega), Partial.start?, if_neg (by omega), if_neg (by omega),
      if_neg (by omega), if_pos (by omega)]
    refine decodeAfter_trailBytes rfl (by simp) ?_ ?_ bs
    · dsimp only
      split <;> omega
    · dsimp only
      split <;> omega

/-- The bytes of a text are read as that text. -/
theorem decode_bytes (cs : List Char) : decode (bytes cs) = cs := by
  induction cs with
  | nil => rfl
  | cons c cs ih =>
      rw [decode, bytes, List.flatMap_cons, decodeAfter_utf8EncodeChar]
      exact congrArg (c :: ·) ih

/-! ## Slashes -/

/-- A byte in ASCII completes nothing, and nothing is begun behind it. -/
theorem decodeAfter_ascii (begun : Option Partial) {b : UInt8} (h : b.toNat < 0x80)
    (bs : List UInt8) :
    decodeAfter begun (b :: bs) =
      decodeAfter begun [] ++ Char.ofNat b.toNat :: decodeAfter none bs := by
  cases begun with
  | none => simp [decodeAfter, feed, begin, h]
  | some p =>
      have hlow : ¬ p.low ≤ b.toNat := by
        have hge := p.low_ge
        omega
      simp [decodeAfter, feed, begin, h, hlow]

theorem decodeAfter_append_ascii (begun : Option Partial) (before : List UInt8) {b : UInt8}
    (h : b.toNat < 0x80) (bs : List UInt8) :
    decodeAfter begun (before ++ b :: bs) =
      decodeAfter begun before ++ Char.ofNat b.toNat :: decodeAfter none bs := by
  induction before generalizing begun with
  | nil => exact decodeAfter_ascii begun h bs
  | cons first before ih => rw [List.cons_append, decodeAfter, ih, decodeAfter, List.append_assoc]

end OriginTags.Text
