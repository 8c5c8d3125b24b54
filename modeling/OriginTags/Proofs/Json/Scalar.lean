import Mathlib.Algebra.Order.Ring.Int
import Mathlib.Data.List.TakeDrop
import Mathlib.Tactic.SplitIfs
import OriginTags.Json.Reader
import OriginTags.Json.Writer
/-!
# Written numbers and strings

The reader gives back the integers of 64 bits and all strings, whatever follows them, as long as it
does not go on with a number.
-/

namespace OriginTags.Json

open Text (digitValue hexDigit hexValue? readUnit)

/-! ## Blanks -/

/-- A character that may stand between the parts of a JSON text. -/
def isBlank (c : Char) : Bool := c == ' ' || c == '\n' || c == '\t' || c == '\r'

theorem skipBlanks_append {blanks : List Char} (h : ∀ c ∈ blanks, isBlank c = true)
    (rest : List Char) : skipBlanks (blanks ++ rest) = skipBlanks rest := by
  exact List.dropWhile_append_of_pos h

theorem skipBlanks_cons {c : Char} (h : isBlank c = false) (rest : List Char) :
    skipBlanks (c :: rest) = c :: rest := by
  exact List.dropWhile_cons_of_neg (by simpa [isBlank] using h)

theorem skipBlanks_skipBlanks (cs : List Char) : skipBlanks (skipBlanks cs) = skipBlanks cs := by
  induction cs with
  | nil => rfl
  | cons c cs ih =>
      cases hc : isBlank c with
      | true => rwa [← List.singleton_append, skipBlanks_append (by simpa using hc)]
      | false => rw [skipBlanks_cons hc, skipBlanks_cons hc]

/-! ## Numbers -/

/-- What may follow a number: nothing that could belong to it. -/
def Closed (rest : List Char) : Prop :=
  ∀ c, rest.head? = some c → c.isDigit = false ∧ c ≠ '.' ∧ c ≠ 'e' ∧ c ≠ 'E'

theorem closed_cons {c : Char} {rest : List Char}
    (h : c.isDigit = false ∧ c ≠ '.' ∧ c ≠ 'e' ∧ c ≠ 'E') : Closed (c :: rest) := by
  intro d hd
  cases hd
  exact h

/-- A number is closed by blanks in front of something that closes it. -/
theorem closed_append {blanks rest : List Char} (hblanks : ∀ c ∈ blanks, isBlank c = true)
    (hrest : Closed rest) : Closed (blanks ++ rest) := by
  cases blanks with
  | nil => exact hrest
  | cons c cs =>
      refine closed_cons ?_
      have hc := hblanks c List.mem_cons_self
      simp only [isBlank, Bool.or_eq_true, beq_iff_eq] at hc
      rcases hc with ((rfl | rfl) | rfl) | rfl <;> decide

theorem spanDigits_append {digits rest : List Char} (hdigits : ∀ c ∈ digits, c.isDigit = true)
    (hrest : ∀ c, rest.head? = some c → c.isDigit = false) :
    spanDigits (digits ++ rest) = (digits, rest) := by
  have htail : rest.takeWhile Char.isDigit = [] ∧ rest.dropWhile Char.isDigit = rest := by
    cases rest with
    | nil => simp
    | cons c cs => simp [hrest c rfl]
  rw [spanDigits, List.span_eq_takeWhile_dropWhile, List.takeWhile_append_of_pos hdigits,
    List.dropWhile_append_of_pos hdigits, htail.1, htail.2, List.append_nil]

theorem absorbDigits_eq {digits : List Char} {n : Nat}
    (h : Nat.ofDigitChars 10 digits n < Nat.pow 2 64) :
    absorbDigits digits n = (Nat.ofDigitChars 10 digits n, 0) := by
  induction digits generalizing n with
  | nil => simp [absorbDigits, Nat.ofDigitChars_nil]
  | cons c cs ih =>
      have hstep : n * 10 + digitValue c = 10 * n + (c.toNat - '0'.toNat) := by
        rw [Nat.mul_comm]
        rfl
      rw [Nat.ofDigitChars_cons, ← hstep] at h ⊢
      -- What follows only makes the number larger, so it has not left its range yet.
      have hle : n * 10 + digitValue c ≤ Nat.ofDigitChars 10 cs (n * 10 + digitValue c) := by
        rw [Nat.ofDigitChars_eq_ofDigitChars_zero]
        have := Nat.le_mul_of_pos_left (n * 10 + digitValue c) (Nat.pow_pos (n := cs.length)
          (show 0 < 10 by decide))
        omega
      rw [absorbDigits, if_pos (by omega), ih h]

theorem eq_zero_of_head?_natText {n : Nat} (h : (natText n).head? = some '0') : n = 0 := by
  induction n using Nat.strongRecOn with
  | ind n ih =>
      unfold natText at h ih
      by_cases hn : n < 10
      · have hzero : ∀ d < 10, d.digitChar = '0' → d = 0 := by decide
        rw [Nat.toDigits_of_lt_base hn, List.head?_cons, Option.some.injEq] at h
        exact hzero n hn h
      · obtain ⟨c, cs, hcs⟩ := List.exists_cons_of_ne_nil (Nat.toDigits_ne_nil (n := n / 10) (b := 10))
        rw [Nat.toDigits_of_base_le (by decide) (by omega), hcs, List.cons_append,
          List.head?_cons] at h
        have := ih (n / 10) (by omega) (by rw [hcs, List.head?_cons, h])
        omega

theorem natText_ne_zero_cons (n : Nat) (c : Char) (cs : List Char) : natText n ≠ '0' :: c :: cs := by
  intro h
  have hn := eq_zero_of_head?_natText (n := n) (by rw [h]; rfl)
  rw [hn, natText, Nat.toDigits_zero] at h
  cases h

theorem readUnsigned_natText {n : Nat} {rest : List Char} (negative : Bool) (hn : n < 2 ^ 64)
    (hrest : Closed rest) :
    readUnsigned negative (natText n ++ rest) = some (integerNumber negative n, rest) := by
  have hdigits : ∀ c ∈ natText n, c.isDigit = true := fun c hc =>
    Nat.isDigit_of_mem_toDigits (by decide) (by decide) hc
  have habsorb : absorbDigits (natText n) 0 = (n, 0) := by
    have hvalue : Nat.ofDigitChars 10 (natText n) 0 = n := Nat.ofDigitChars_ten_toDigits
    rw [absorbDigits_eq (by rw [hvalue]; exact hn), hvalue]
  rw [readUnsigned, spanDigits_append hdigits fun c hc => (hrest c hc).1]
  split
  case h_1 heq => exact absurd (Prod.mk.inj heq).1 Nat.toDigits_ne_nil
  case h_2 heq => exact absurd (Prod.mk.inj heq).1 (natText_ne_zero_cons n _ _)
  case h_3 digits after heq =>
    obtain ⟨rfl, rfl⟩ := Prod.mk.inj heq
    simp only [habsorb]
    cases rest with
    | nil => simp
    | cons c cs =>
        obtain ⟨-, hpoint, he, hE⟩ := hrest c rfl
        simp [hpoint, he, hE]

/-- An integer that fits 64 bits, with a sign or without. -/
def FitsWord (n : Int) : Prop := -(2 ^ 63) ≤ n ∧ n < 2 ^ 64

theorem exists_cons_natText (n : Nat) : ∃ c cs, natText n = c :: cs ∧ c.isDigit = true := by
  obtain ⟨c, cs, hcs⟩ := List.exists_cons_of_ne_nil (Nat.toDigits_ne_nil (n := n) (b := 10))
  refine ⟨c, cs, hcs, ?_⟩
  apply Nat.isDigit_of_mem_toDigits (b := 10) (n := n) (by decide) (by decide)
  rw [hcs]
  exact List.mem_cons_self

theorem exists_cons_intText (n : Int) :
    ∃ c cs, intText n = c :: cs ∧ (c.isDigit = true ∨ c = '-') := by
  cases n with
  | ofNat n =>
      obtain ⟨c, cs, hcs, hc⟩ := exists_cons_natText n
      exact ⟨c, cs, hcs, Or.inl hc⟩
  | negSucc n => exact ⟨'-', natText (n + 1), rfl, Or.inr rfl⟩

theorem isBlank_of_begins_number {c : Char} (h : c.isDigit = true ∨ c = '-') : isBlank c = false := by
  rw [Bool.eq_false_iff]
  intro hblank
  simp only [isBlank, Bool.or_eq_true, beq_iff_eq] at hblank
  rcases hblank with ((rfl | rfl) | rfl) | rfl <;> exact absurd h (by decide)

theorem readNumber_intText {n : Int} {rest : List Char} (hn : FitsWord n) (hrest : Closed rest) :
    readNumber (intText n ++ rest) = some (.int n, rest) := by
  obtain ⟨hlow, hhigh⟩ := hn
  cases n with
  | ofNat n =>
      have hread := readUnsigned_natText (n := n) false (by simp at hhigh; omega) hrest
      simp only [intText, readNumber]
      split
      case h_1 heq =>
        -- A number without a sign does not begin with one.
        obtain ⟨c, cs, hcs, hc⟩ := exists_cons_natText n
        rw [hcs, List.cons_append] at heq
        rw [(List.cons.inj heq).1] at hc
        exact absurd hc (by decide)
      case h_2 => simpa [integerNumber] using hread
  | negSucc n =>
      have hread := readUnsigned_natText (n := n + 1) true (by simp at hlow; omega) hrest
      have hnumber : integerNumber true (n + 1) = .int (Int.negSucc n) := by
        have hbound : ¬ Nat.pow 2 63 < n + 1 := by
          show ¬ 2 ^ 63 < n + 1
          omega
        simp [integerNumber, hbound, Int.negSucc_eq]
      simp only [intText, List.cons_append, readNumber, hread, hnumber]

/-! ## Strings -/

theorem hexValue?_hexDigit : ∀ d < 16, hexValue? (hexDigit d) = some d := by decide

/-- The escape by number of a control character reads as that character. -/
theorem readUnicodeEscape_control {c : Char} (hc : c.toNat < 0x20) (rest : List Char) :
    readUnicodeEscape ('0' :: '0' :: hexDigit (c.toNat / 16) :: hexDigit (c.toNat % 16) :: rest) =
      some (c, rest) := by
  have hunit : readUnit ('0' :: '0' :: hexDigit (c.toNat / 16) :: hexDigit (c.toNat % 16) :: rest) =
      some (c.toNat, rest) := by
    have hzero : hexValue? '0' = some 0 := rfl
    have hsum : c.toNat / 16 * 16 + c.toNat % 16 = c.toNat := Nat.div_add_mod' _ _
    simp [readUnit, hzero, hexValue?_hexDigit (c.toNat / 16) (by omega),
      hexValue?_hexDigit (c.toNat % 16) (by omega), hsum]
  have hlow : ¬ 0xDC00 ≤ c.toNat := by omega
  have hhigh : ¬ 0xD800 ≤ c.toNat := by omega
  simp [readUnicodeEscape, hunit, hlow, hhigh, Char.ofNat_toNat]

/-- A character is read from its escaped form in one step. -/
theorem readString_escapeChar (steps : Nat) (c : Char) (rest : List Char) :
    readString (steps + 1) (escapeChar c ++ rest) =
      (readString steps rest).map fun read => (c :: read.1, read.2) := by
  have hescape : ∀ tail, readEscape tail = some (c, rest) →
      readString (steps + 1) ('\\' :: tail) =
        (readString steps rest).map fun read => (c :: read.1, read.2) := by
    intro tail htail
    rw [readString, if_neg (by decide), if_pos rfl, htail]
    simp only [Option.bind_eq_bind, Option.bind_some]
    cases readString steps rest <;> rfl
  unfold escapeChar
  split
  next hc => exact hescape _ (by subst hc; rfl)
  next hquote =>
    split
    next hc => exact hescape _ (by subst hc; rfl)
    next hslash =>
      split
      next hplain =>
        simp only [List.singleton_append, readString, if_neg hquote, if_neg hslash,
          if_neg (show ¬ c.toNat < 0x20 by omega)]
        cases readString steps rest <;> rfl
      next hcontrol =>
        split
        next hc => exact hescape _ (by subst hc; rfl)
        split
        next hc => exact hescape _ (by subst hc; rfl)
        split
        next hc => exact hescape _ (by subst hc; rfl)
        split
        next hc =>
          have : c = '\x08' := by rw [← Char.ofNat_toNat c, hc]
          exact hescape _ (by subst this; rfl)
        split
        next hc =>
          have : c = '\x0c' := by rw [← Char.ofNat_toNat c, hc]
          exact hescape _ (by subst this; rfl)
        exact hescape _ (readUnicodeEscape_control (by omega) rest)

theorem readString_quote {cs rest : List Char} {steps : Nat} (hsteps : cs.length < steps) :
    readString steps (cs.flatMap escapeChar ++ '"' :: rest) = some (cs, rest) := by
  induction cs generalizing steps with
  | nil =>
      obtain ⟨steps, rfl⟩ : ∃ k, steps = k + 1 := ⟨steps - 1, by simp at hsteps; omega⟩
      simp [readString]
  | cons c cs ih =>
      obtain ⟨steps, rfl⟩ : ∃ k, steps = k + 1 := ⟨steps - 1, by simp at hsteps; omega⟩
      rw [List.flatMap_cons, List.append_assoc, readString_escapeChar,
        ih (by simp at hsteps; omega)]
      rfl

theorem length_le_flatMap_escapeChar (cs : List Char) :
    cs.length ≤ (cs.flatMap escapeChar).length := by
  induction cs with
  | nil => simp
  | cons c cs ih =>
      have hc : 1 ≤ (escapeChar c).length := by
        unfold escapeChar
        split_ifs <;> simp
      simp only [List.flatMap_cons, List.length_append, List.length_cons]
      omega

theorem readString_quoted (s : String) (rest : List Char) :
    readString ((s.toList.flatMap escapeChar ++ '"' :: rest).length + 1)
      (s.toList.flatMap escapeChar ++ '"' :: rest) = some (s.toList, rest) := by
  apply readString_quote
  have := length_le_flatMap_escapeChar s.toList
  simp only [List.length_append]
  omega

end OriginTags.Json
