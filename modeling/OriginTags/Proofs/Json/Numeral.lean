import OriginTags.Json.Skip
import OriginTags.Proofs.Json.Scalar
/-!
# Texts of numbers

Every finite number is written as a whole part, which begins with a zero only if it is zero, perhaps
with a sign before it and with a fraction and an exponent behind it. A reader that skips a number skips
such a text to its end.
-/

namespace OriginTags

/-! ## Shortest decimals -/

theorem Binary64.exists_scaleRatio_zero {den : Nat} (h : 0 < den) (shift : Int) :
    ∃ d, 0 < d ∧ scaleRatio 0 den shift = (0, d) := by
  unfold scaleRatio
  split
  · exact ⟨_, Nat.mul_pos h (Nat.pow_pos (by decide)), rfl⟩
  · exact ⟨den, h, by rw [Nat.zero_mul]⟩

namespace Decimal

theorem exists_scaleRatio_zero {den : Nat} (h : 0 < den) (shift : Int) :
    ∃ d, 0 < d ∧ scaleRatio 0 den shift = (0, d) := by
  unfold scaleRatio
  split
  · exact ⟨_, Nat.mul_pos h (Nat.pow_pos (by decide)), rfl⟩
  · exact ⟨den, h, by rw [Nat.zero_mul]⟩

/-- The interval of a positive number holds no zero. -/
theorem contains_zero {i : Interval} (h : 0 < i.low) (power : Int) : i.contains 0 power = false := by
  obtain ⟨d, hd, hscale⟩ := exists_scaleRatio_zero Nat.one_pos (-power)
  obtain ⟨d', hd', hscale'⟩ := Binary64.exists_scaleRatio_zero hd i.exponent
  have hlow : 0 < i.low * d' := Nat.mul_pos h hd'
  simp only [Interval.contains, hscale, hscale']
  split
  · simp; omega
  · simp

theorem contains_of_decimal? {i : Interval} {lead : Int} {count : Nat} {d : Decimal}
    (h : i.decimal? lead count = some d) : i.contains d.digits d.exponent = true := by
  simp only [Interval.decimal?] at h
  split at h
  · next hbelow habove =>
    cases h
    dsimp only
    split
    · exact hbelow
    · exact habove
  · next hbelow _ =>
    cases h
    exact hbelow
  · next _ habove =>
    cases h
    exact habove
  · cases h

theorem digits_search_ne_zero {i : Interval} (hlow : 0 < i.low) (hvalue : i.value ≠ 0) (lead : Int)
    (left count : Nat) : (i.search lead left count).digits ≠ 0 := by
  induction left generalizing count with
  | zero => exact hvalue
  | succ left ih =>
      rw [Interval.search]
      split
      · next d hd =>
        intro hzero
        have hcontains := contains_of_decimal? hd
        rw [hzero, contains_zero hlow] at hcontains
        cases hcontains
      · exact ih (count + 1)

theorem digits_dropZeros_ne_zero {d : Decimal} (h : d.digits ≠ 0) (fuel : Nat) :
    (dropZeros fuel d).digits ≠ 0 := by
  induction fuel generalizing d with
  | zero => exact h
  | succ fuel ih =>
      rw [dropZeros]
      split
      · exact ih (d := ⟨d.digits / 10, d.exponent + 1⟩) (by dsimp only; omega)
      · exact h

theorem digits_shortest_ne_zero {significand : Nat} (h : significand ≠ 0) (exponent : Int) :
    (shortest significand exponent).digits ≠ 0 := by
  have hlow : 0 < (Interval.of significand exponent).low := by
    simp only [Interval.of]
    split <;> omega
  have hvalue : (Interval.of significand exponent).value ≠ 0 := by
    simp only [Interval.of]
    omega
  exact digits_dropZeros_ne_zero (digits_search_ne_zero hlow hvalue _ _ _) _

end Decimal

namespace Json

/-! ## Parts of a number -/

/-- One or more digits. -/
structure IsDigits (cs : List Char) : Prop where
  ne_nil : cs ≠ []
  digit : ∀ c ∈ cs, c.isDigit = true

/-- The whole part of a number: digits, of which the first one is a zero only if it is the only one. -/
structure IsWhole (cs : List Char) : Prop extends IsDigits cs where
  lead : ∀ c rest, cs ≠ '0' :: c :: rest

/-- The fraction of a number, if it has one. -/
inductive IsFraction : List Char → Prop
  | none : IsFraction []
  | digits {cs : List Char} (h : IsDigits cs) : IsFraction ('.' :: cs)

/-- The exponent of a number, if it has one. -/
inductive IsExponent : List Char → Prop
  | none : IsExponent []
  | plus {cs : List Char} (h : IsDigits cs) : IsExponent ('e' :: '+' :: cs)
  | minus {cs : List Char} (h : IsDigits cs) : IsExponent ('e' :: '-' :: cs)

/-- The text of a number without a sign. -/
inductive IsMagnitude : List Char → Prop
  | parts {whole fraction exponent : List Char} (hwhole : IsWhole whole)
    (hfraction : IsFraction fraction) (hexponent : IsExponent exponent) :
    IsMagnitude (whole ++ (fraction ++ exponent))

/-- The text of a number. -/
inductive IsNumeral : List Char → Prop
  | plain {cs : List Char} (h : IsMagnitude cs) : IsNumeral cs
  | negative {cs : List Char} (h : IsMagnitude cs) : IsNumeral ('-' :: cs)

/-! ## Skipping -/

theorem IsDigits.span {digits rest : List Char} (h : IsDigits digits)
    (hrest : ∀ c, rest.head? = some c → c.isDigit = false) :
    spanDigits (digits ++ rest) = (digits, rest) :=
  spanDigits_append h.digit hrest

theorem IsDigits.exists_cons {digits : List Char} (h : IsDigits digits) :
    ∃ c rest, digits = c :: rest ∧ c.isDigit = true := by
  obtain ⟨c, rest, rfl⟩ := List.exists_cons_of_ne_nil h.ne_nil
  exact ⟨c, rest, rfl, h.digit c List.mem_cons_self⟩

theorem readExponent_sign {c : Char} (hc : c = '+' ∨ c = '-') {digits rest : List Char}
    (h : IsDigits digits) (hrest : Closed rest) :
    (readExponent (c :: (digits ++ rest))).map Prod.snd = some rest := by
  have hspan := h.span fun c hc => (hrest c hc).1
  obtain ⟨d, ds, rfl, -⟩ := h.exists_cons
  rw [List.cons_append] at hspan ⊢
  rcases hc with rfl | rfl <;> simp [readExponent, hspan]

theorem skipExponent_append {exponent rest : List Char} (h : IsExponent exponent)
    (hrest : Closed rest) : skipExponent (exponent ++ rest) = some rest := by
  cases h with
  | none =>
      cases rest with
      | nil => rfl
      | cons c cs =>
          obtain ⟨-, -, he, hE⟩ := hrest c rfl
          simp [skipExponent, he, hE]
  | plus h => exact readExponent_sign (.inl rfl) h hrest
  | minus h => exact readExponent_sign (.inr rfl) h hrest

/-- Behind the whole part of a number and its fraction there is no further digit and no point. -/
theorem head?_exponent_append {exponent rest : List Char} (h : IsExponent exponent)
    (hrest : Closed rest) : ∀ c, (exponent ++ rest).head? = some c → c.isDigit = false ∧ c ≠ '.' := by
  intro c hc
  cases h with
  | none => exact ⟨(hrest c hc).1, (hrest c hc).2.1⟩
  | plus h =>
      cases hc
      decide
  | minus h =>
      cases hc
      decide

theorem skipFraction_append {fraction rest : List Char} (h : IsFraction fraction)
    (hrest : ∀ c, rest.head? = some c → c.isDigit = false ∧ c ≠ '.') :
    skipFraction (fraction ++ rest) = some rest := by
  cases h with
  | none =>
      cases rest with
      | nil => rfl
      | cons c cs => simp [skipFraction, (hrest c rfl).2]
  | digits h =>
      have hspan := h.span fun c hc => (hrest c hc).1
      obtain ⟨d, ds, rfl, -⟩ := h.exists_cons
      simp only [List.cons_append, skipFraction] at hspan ⊢
      rw [hspan]

theorem head?_fraction_append {fraction rest : List Char} (h : IsFraction fraction)
    (hrest : ∀ c, rest.head? = some c → c.isDigit = false ∧ c ≠ '.') :
    ∀ c, (fraction ++ rest).head? = some c → c.isDigit = false := by
  intro c hc
  cases h with
  | none => exact (hrest c hc).1
  | digits h =>
      cases hc
      rfl

theorem IsMagnitude.exists_cons {text : List Char} (h : IsMagnitude text) :
    ∃ c rest, text = c :: rest ∧ c.isDigit = true := by
  obtain ⟨hwhole, _, _⟩ := h
  obtain ⟨c, rest, rfl, hc⟩ := hwhole.exists_cons
  exact ⟨c, _, rfl, hc⟩

theorem IsNumeral.exists_cons {text : List Char} (h : IsNumeral text) :
    ∃ c rest, text = c :: rest ∧ (c.isDigit = true ∨ c = '-') := by
  cases h with
  | plain h =>
      obtain ⟨c, rest, rfl, hc⟩ := h.exists_cons
      exact ⟨c, rest, rfl, .inl hc⟩
  | negative h => exact ⟨'-', _, rfl, .inr rfl⟩

/-- A number behind its sign, if it has one, is skipped to its end. -/
theorem skipNumber_magnitude {cs text rest : List Char} (h : IsMagnitude text) (hrest : Closed rest)
    (hsign : (Text.stripLead? ['-'] cs |>.getD cs) = text ++ rest) : skipNumber cs = some rest := by
  obtain ⟨hwhole, hfraction, hexponent⟩ := h
  have hhead := head?_exponent_append hexponent hrest
  have hspan := hwhole.span (head?_fraction_append hfraction hhead)
  rw [skipNumber, hsign, List.append_assoc, List.append_assoc, hspan]
  split
  · next heq => exact absurd (Prod.mk.inj heq).1 hwhole.ne_nil
  · next heq => exact absurd (Prod.mk.inj heq).1 (hwhole.lead _ _)
  · next heq =>
    rw [← (Prod.mk.inj heq).2, skipFraction_append hfraction hhead, Option.bind_some,
      skipExponent_append hexponent hrest]

theorem skipNumber_append {text rest : List Char} (h : IsNumeral text) (hrest : Closed rest) :
    skipNumber (text ++ rest) = some rest := by
  cases h with
  | plain h =>
      refine skipNumber_magnitude h hrest ?_
      obtain ⟨c, cs, rfl, hc⟩ := h.exists_cons
      have hne : '-' ≠ c := by
        rintro rfl
        cases hc
      simp [Text.stripLead?, hne]
  | negative h => exact skipNumber_magnitude h hrest rfl

/-! ## Written numbers -/

theorem isDigits_natText (n : Nat) : IsDigits (natText n) where
  ne_nil := Nat.toDigits_ne_nil
  digit _ hc := Nat.isDigit_of_mem_toDigits (by decide) (by decide) hc

theorem isWhole_natText (n : Nat) : IsWhole (natText n) where
  toIsDigits := isDigits_natText n
  lead := natText_ne_zero_cons n

theorem isMagnitude_of_isWhole {whole : List Char} (h : IsWhole whole) : IsMagnitude whole := by
  simpa using IsMagnitude.parts h .none .none

theorem isNumeral_intText (n : Int) : IsNumeral (intText n) := by
  cases n with
  | ofNat n => exact .plain (isMagnitude_of_isWhole (isWhole_natText n))
  | negSucc n => exact .negative (isMagnitude_of_isWhole (isWhole_natText (n + 1)))

theorem isDigit_of_mem_zeros {c : Char} {count : Nat} (h : c ∈ List.replicate count '0') :
    c.isDigit = true := by
  rw [List.eq_of_mem_replicate h]
  rfl

theorem isDigits_zero : IsDigits ['0'] where
  ne_nil := List.cons_ne_nil _ _
  digit c hc := by
    rw [List.mem_singleton.1 hc]
    rfl

theorem isWhole_zero : IsWhole ['0'] := ⟨isDigits_zero, by simp⟩

theorem isFraction_zero : IsFraction ['.', '0'] := .digits isDigits_zero

theorem isMagnitude_positionalText {c : Char} {cs : List Char} (hc : c ≠ '0')
    (h : IsDigits (c :: cs)) (exponent : Int) : IsMagnitude (positionalText (c :: cs) exponent) := by
  have hlead : ∀ tail d rest, c :: tail ≠ '0' :: d :: rest := fun _ _ _ heq =>
    hc (List.cons.inj heq).1
  simp only [positionalText]
  split
  · next hinteger =>
    have hwhole : IsWhole (c :: cs ++ List.replicate exponent.toNat '0') :=
      ⟨⟨List.cons_ne_nil _ _, fun d hd =>
        (List.mem_append.1 hd).elim (h.digit d) isDigit_of_mem_zeros⟩, hlead _⟩
    simpa using IsMagnitude.parts hwhole isFraction_zero .none
  split
  · next hinteger hpoint =>
    obtain ⟨k, hk⟩ : ∃ k : Nat, ((c :: cs).length + exponent).toNat = k + 1 :=
      ⟨((c :: cs).length + exponent).toNat - 1, by omega⟩
    have hlength : k < cs.length := by
      simp only [List.length_cons] at hk
      omega
    rw [hk, List.take_succ_cons, List.drop_succ_cons]
    have hwhole : IsWhole (c :: cs.take k) :=
      ⟨⟨List.cons_ne_nil _ _, fun d hd => h.digit d (List.mem_of_mem_take (i := k + 1) hd)⟩, hlead _⟩
    have hfraction : IsFraction ('.' :: cs.drop k) :=
      .digits ⟨by simpa using hlength, fun d hd =>
        h.digit d (List.mem_cons_of_mem _ (List.mem_of_mem_drop hd))⟩
    simpa using IsMagnitude.parts hwhole hfraction .none
  · have hfraction : IsFraction ('.' :: (List.replicate (-((c :: cs).length + exponent)).toNat '0' ++
        c :: cs)) :=
      .digits ⟨by simp, fun d hd => (List.mem_append.1 hd).elim isDigit_of_mem_zeros (h.digit d)⟩
    simpa using IsMagnitude.parts isWhole_zero hfraction .none

theorem isExponent_power (lead : Int) :
    IsExponent ('e' :: if 0 ≤ lead then '+' :: natText lead.toNat else '-' :: natText (-lead).toNat) := by
  split
  · exact .plus (isDigits_natText _)
  · exact .minus (isDigits_natText _)

theorem isMagnitude_scientificText {c : Char} {cs : List Char} (h : IsDigits (c :: cs)) (lead : Int) :
    IsMagnitude (scientificText (c :: cs) lead) := by
  have hwhole : IsWhole [c] :=
    ⟨⟨by simp, fun d hd => h.digit d (by simpa using .inl (List.mem_singleton.1 hd))⟩, by simp⟩
  have hfraction : IsFraction (if (c :: cs).length ≤ 1 then [] else '.' :: (c :: cs).drop 1) := by
    split
    · exact .none
    · next hlength =>
      refine .digits ⟨?_, fun d hd => h.digit d (List.mem_of_mem_drop hd)⟩
      rintro hnil
      simp_all
  simpa [scientificText] using IsMagnitude.parts hwhole hfraction (isExponent_power lead)

theorem isMagnitude_decimalText {d : Decimal} (h : d.digits ≠ 0) : IsMagnitude (decimalText d) := by
  have hdigits := isDigits_natText d.digits
  obtain ⟨c, cs, hcs, -⟩ := exists_cons_natText d.digits
  have hc : c ≠ '0' := fun heq => h (eq_zero_of_head?_natText (by rw [hcs, heq]; rfl))
  simp only [decimalText]
  rw [hcs] at hdigits ⊢
  split
  · exact isMagnitude_positionalText hc hdigits d.exponent
  · exact isMagnitude_scientificText hdigits _

theorem isNumeral_doubleText (negative : Bool) (significand : Nat) (exponent : Int) :
    IsNumeral (doubleText (.finite negative significand exponent)) := by
  have hmagnitude : IsMagnitude (if significand = 0 then ['0', '.', '0'] else
      decimalText (Decimal.shortest significand exponent)) := by
    split
    · exact .parts isWhole_zero isFraction_zero .none
    · next h => exact isMagnitude_decimalText (Decimal.digits_shortest_ne_zero h exponent)
  cases negative with
  | false => exact .plain hmagnitude
  | true => exact .negative hmagnitude

end Json

end OriginTags
