import OriginTags.Proofs.Text.Bytes
import OriginTags.Proofs.Text.Suffix
import OriginTags.Tsx.Scanner
/-!
# What a scanner leaves

Whatever is read at the front of a text, what is left is an end of this text, and a symbol is read as
it is spelled. Before a token there are only blanks and comments.
-/

namespace OriginTags.Tsx

open Text (hexValue? readUnit suffix_span suffix_of_cons suffix_cons_of_suffix suffix_cons_cons
  suffix_of_readUnit)

/-! ## Numbers -/

variable {cs : List Char}

theorem suffix_of_readWrittenDigits {isDigit : Char → Bool} {digits rest : List Char}
    (h : readWrittenDigits isDigit cs = some (digits, rest)) : rest <:+ cs := by
  simp only [readWrittenDigits, Option.ite_none_left_eq_some, Option.some.injEq,
    Prod.mk.injEq] at h
  exact h.2.2 ▸ suffix_span _ cs

theorem suffix_of_readDigits {isDigit : Char → Bool} {digits rest : List Char}
    (h : readDigits isDigit cs = some (digits, rest)) : rest <:+ cs := by
  simp only [readDigits, Option.map_eq_some_iff, Prod.mk.injEq] at h
  obtain ⟨⟨written, rest⟩, hwritten, -, rfl⟩ := h
  exact suffix_of_readWrittenDigits hwritten

theorem suffix_of_readPower {power : Option Int} {rest : List Char}
    (h : readPower cs = some (power, rest)) : rest <:+ cs := by
  unfold readPower at h
  split at h
  case h_3 =>
    cases h
    exact List.suffix_rfl
  all_goals
    split at h
    next more _ _ after hsign =>
    have hafter : after <:+ more := by split at hsign <;> cases hsign <;> simp
    split at h
    · cases h
    · next hdigits =>
      cases h
      exact suffix_cons_of_suffix _ ((suffix_of_readDigits hdigits).trans hafter)

/-- A token that is no symbol, and what is left behind it. -/
structure IsLiteral (cs : List Char) (token : Token) (rest : List Char) : Prop where
  suffix : rest <:+ cs
  notSymbol : ∀ text, token ≠ .symbol text

theorem IsLiteral.of_suffix {a rest : List Char} {token : Token} (h : IsLiteral a token rest)
    (ha : a <:+ cs) : IsLiteral cs token rest :=
  ⟨h.suffix.trans ha, h.notSymbol⟩

theorem isLiteral_of_power {middle rest : List Char} {token : Token} {power : Option Int × List Char}
    {b : Bool} {x y : Binary64} (hmiddle : middle <:+ cs) (hpower : readPower middle = some power)
    (h : (if b then some (Token.number x, power.2) else some (Token.number y, power.2)) =
      some (token, rest)) : IsLiteral cs token rest := by
  have hrest := (suffix_of_readPower hpower).trans hmiddle
  split at h <;> cases h <;> exact ⟨hrest, by simp⟩

theorem isLiteral_of_readFraction {digits rest : List Char} {token : Token}
    (h : readFraction digits cs = some (token, rest)) : IsLiteral cs token rest := by
  simp only [readFraction, Option.bind_eq_bind, Option.pure_def] at h
  repeat' split at h
  all_goals
    simp only [Option.bind_some, Option.bind_none, Option.bind_eq_some_iff, reduceCtorEq] at h
  case h_1.isTrue =>
    obtain ⟨fraction, hfraction, power, hpower, htoken⟩ := h
    exact isLiteral_of_power (suffix_cons_of_suffix _ (suffix_of_readDigits hfraction)) hpower htoken
  case h_1.isFalse.isFalse =>
    obtain ⟨power, hpower, htoken⟩ := h
    exact isLiteral_of_power (List.suffix_cons _ _) hpower htoken
  case h_2 =>
    obtain ⟨power, hpower, htoken⟩ := h
    exact isLiteral_of_power (List.suffix_cons _ _) hpower htoken
  case h_2 =>
    obtain ⟨power, hpower, htoken⟩ := h
    exact isLiteral_of_power List.suffix_rfl hpower htoken

theorem isLiteral_of_readRadix {radix limit : Nat} {rest : List Char} {token : Token}
    (h : readRadix radix limit cs = some (token, rest)) : IsLiteral cs token rest := by
  simp only [readRadix, Option.bind_eq_bind, Option.bind_eq_some_iff, Option.pure_def] at h
  obtain ⟨⟨written, after⟩, hwritten, htoken⟩ := h
  have hafter := suffix_of_readWrittenDigits hwritten
  simp only at htoken
  split at htoken <;> cases htoken
  · exact ⟨suffix_of_cons hafter, by simp⟩
  · exact ⟨hafter, by simp⟩

theorem isLiteral_of_readNumeral {rest : List Char} {token : Token}
    (h : readNumeral cs = some (token, rest)) : IsLiteral cs token rest := by
  unfold readNumeral at h
  split at h
  case h_7 d more _ _ _ _ _ _ =>
    split at h
    · -- Octal digits, or decimal ones if one of them is no octal digit.
      have hmore := (suffix_span Char.isDigit more).trans (suffix_cons_cons '0' d more)
      simp only at h
      split at h
      · cases h
        exact ⟨hmore, by simp⟩
      · exact (isLiteral_of_readFraction h).of_suffix hmore
    split at h
    · cases h
    split at h
    · cases h
      exact ⟨suffix_cons_cons _ _ _, by simp⟩
    · exact (isLiteral_of_readFraction h).of_suffix (List.suffix_cons _ _)
  case h_8 => exact isLiteral_of_readFraction h
  case h_9 =>
    simp only [Option.bind_eq_bind, Option.bind_eq_some_iff] at h
    obtain ⟨⟨digits, after⟩, hdigits, htoken⟩ := h
    have hafter := suffix_of_readDigits hdigits
    simp only at htoken
    split at htoken
    · cases htoken
      exact ⟨suffix_of_cons hafter, by simp⟩
    · exact (isLiteral_of_readFraction htoken).of_suffix hafter
  all_goals exact (isLiteral_of_readRadix h).of_suffix (suffix_cons_cons _ _ _)

theorem isLiteral_of_readNumber {rest : List Char} {token : Token}
    (h : readNumber cs = some (token, rest)) : IsLiteral cs token rest := by
  simp only [readNumber, Option.bind_eq_bind, Option.bind_eq_some_iff, Option.pure_def] at h
  obtain ⟨⟨found, after⟩, hnumeral, hrest⟩ := h
  have hliteral := isLiteral_of_readNumeral hnumeral
  simp only at hrest
  split at hrest
  · simp only [Option.ite_none_left_eq_some] at hrest
    cases hrest.2
    exact hliteral
  · cases hrest
    exact hliteral

/-! ## Names and strings -/

theorem suffix_of_readCodePoint {rest : List Char} {n : Nat} {braced : Bool}
    (h : readCodePoint cs = some (n, braced, rest)) : rest <:+ cs := by
  unfold readCodePoint at h
  split at h
  case h_1 more =>
    simp only at h
    split at h
    · next heq =>
      simp only [Option.ite_none_left_eq_some, Option.some.injEq, Prod.mk.injEq] at h
      obtain ⟨-, -, -, rfl⟩ := h
      exact suffix_cons_of_suffix _ (suffix_of_cons (heq ▸ suffix_span _ more))
    · cases h
  case h_2 =>
    simp only [Option.map_eq_some_iff, Prod.mk.injEq] at h
    obtain ⟨⟨n, rest⟩, hunit, -, -, rfl⟩ := h
    exact suffix_of_readUnit hunit

theorem suffix_of_readEscapedName {steps : Nat} {name rest : List Char}
    (h : readEscapedName steps cs = some (name, rest)) : rest <:+ cs := by
  fun_induction readEscapedName steps cs generalizing name rest with
  | case1 => cases h
  | case2 =>
      cases h
      exact List.suffix_rfl
  | case3 steps more ih =>
      simp only [Option.bind_eq_bind, Option.bind_eq_some_iff, Option.pure_def] at h
      obtain ⟨⟨n, braced, after⟩, hpoint, ⟨last, end'⟩, hname, hrest⟩ := h
      cases hrest
      have hafter := suffix_cons_of_suffix 'u' (suffix_of_readCodePoint hpoint)
      exact suffix_cons_of_suffix _ ((ih after hname).trans hafter)
  | case4 => cases h
  | case5 steps c cs _ _ ih =>
      simp only [Option.bind_eq_bind, Option.bind_eq_some_iff, Option.pure_def] at h
      obtain ⟨⟨last, end'⟩, hname, hrest⟩ := h
      cases hrest
      exact suffix_cons_of_suffix _ (ih hname)
  | case6 =>
      cases h
      exact List.suffix_rfl

theorem suffix_of_readName {steps : Nat} {rest : List Char} {name : String} {escaped : Bool}
    (h : readName steps cs = some (name, escaped, rest)) : rest <:+ cs := by
  simp only [readName] at h
  split at h
  · simp only [Option.bind_eq_bind, Option.bind_eq_some_iff, Option.pure_def,
      Option.ite_none_right_eq_some] at h
    obtain ⟨⟨found, after⟩, hname, -, hrest⟩ := h
    cases hrest
    exact suffix_of_readEscapedName hname
  · simp only [Option.ite_none_right_eq_some] at h
    cases h.2
    exact suffix_span _ cs

theorem suffix_takeOctal (count : Nat) (cs : List Char) (n : Nat) :
    (takeOctal count cs n).2 <:+ cs := by
  fun_induction takeOctal count cs n with
  | case1 => exact List.suffix_rfl
  | case2 => exact List.suffix_rfl
  | case3 n count c cs _ ih => exact suffix_cons_of_suffix _ ih
  | case4 => exact List.suffix_rfl

theorem suffix_of_readEscape {rest : List Char} {points : List Nat}
    (h : readEscape cs = some (points, rest)) : rest <:+ cs := by
  unfold readEscape at h
  split at h
  case h_9 more =>
    simp only [Option.bind_eq_bind, Option.bind_eq_some_iff, Option.pure_def] at h
    obtain ⟨_, _, _, _, hrest⟩ := h
    cases hrest
    exact suffix_cons_of_suffix _ (suffix_cons_cons _ _ _)
  case h_11 more =>
    -- A high surrogate takes the escape of a low one with it.
    split at h
    · cases h
    next after hpoint =>
    have hafter := suffix_cons_of_suffix 'u' (suffix_of_readCodePoint hpoint)
    split at h
    · split at h
      · split at h
        · next hlow =>
          split at h
          · cases h
            exact ((suffix_of_readCodePoint hlow).trans (suffix_cons_cons _ _ _)).trans hafter
          · cases h
            exact hafter
        · cases h
          exact hafter
      · cases h
        exact hafter
    · cases h
      exact hafter
  case h_12 =>
    split at h
    · cases h
      exact List.suffix_cons _ _
    split at h
    · cases h
      exact suffix_cons_of_suffix _ (suffix_takeOctal 2 _ _)
    split at h
    · cases h
      exact suffix_cons_of_suffix _ (suffix_takeOctal 1 _ _)
    · cases h
      exact List.suffix_cons _ _
  all_goals cases h
  case h_2 => exact suffix_cons_cons _ _ _
  all_goals exact List.suffix_cons _ _

theorem suffix_of_readStringPoints {quote : Char} {steps : Nat} {rest : List Char}
    {points : List Nat} (h : readStringPoints quote steps cs = some (points, rest)) : rest <:+ cs := by
  fun_induction readStringPoints quote steps cs generalizing points rest with
  | case1 => cases h
  | case2 => cases h
  | case3 =>
      cases h
      exact List.suffix_cons _ _
  | case4 steps cs _ ih =>
      simp only [Option.bind_eq_bind, Option.bind_eq_some_iff, Option.pure_def] at h
      obtain ⟨⟨escape, after⟩, hescape, ⟨more, last⟩, hmore, hrest⟩ := h
      cases hrest
      exact suffix_cons_of_suffix _ ((ih after hmore).trans (suffix_of_readEscape hescape))
  | case5 => cases h
  | case6 steps c cs _ _ _ ih =>
      simp only [Option.bind_eq_bind, Option.bind_eq_some_iff, Option.pure_def] at h
      obtain ⟨⟨more, last⟩, hmore, hrest⟩ := h
      cases hrest
      exact suffix_cons_of_suffix _ (ih hmore)

theorem isLiteral_of_readStringLiteral {quote : Char} {steps : Nat} {rest : List Char} {token : Token}
    (h : readStringLiteral quote steps cs = some (token, rest)) : IsLiteral cs token rest := by
  simp only [readStringLiteral, Option.bind_eq_bind, Option.bind_eq_some_iff, Option.pure_def] at h
  obtain ⟨⟨points, after⟩, hpoints, hrest⟩ := h
  cases hrest
  exact ⟨suffix_of_readStringPoints hpoints, by simp⟩

/-! ## Templates and regular expressions -/

theorem isLiteral_of_readTemplate {rest : List Char} {valid : Bool} {token : Token}
    (h : readTemplate cs valid = some (token, rest)) : IsLiteral cs token rest := by
  fun_induction readTemplate cs valid with
  | case1 => cases h
  | case2 valid c cs ih => exact (ih h).of_suffix (suffix_cons_cons _ _ _)
  | case3 =>
      cases h
      exact ⟨suffix_cons_cons _ _ _, by simp⟩
  | case4 =>
      cases h
      exact ⟨List.suffix_cons _ _, by simp⟩
  | case5 valid c cs _ _ _ ih => exact (ih h).of_suffix (List.suffix_cons _ _)

theorem suffix_of_readPattern {rest : List Char} {inClass : Bool}
    (h : readPattern cs inClass = some rest) : rest <:+ cs := by
  fun_induction readPattern cs inClass with
  | case1 => cases h
  | case2 => cases h
  | case3 inClass c cs _ ih => exact suffix_cons_of_suffix _ (suffix_cons_of_suffix _ (ih h))
  | case4 => cases h
  | case5 =>
      cases h
      exact List.suffix_cons _ _
  | case6 inClass c cs _ _ _ ih => exact suffix_cons_of_suffix _ (ih h)

theorem suffix_of_readRegularExpression {rest : List Char}
    (h : readRegularExpression cs = some rest) : rest <:+ cs := by
  simp only [readRegularExpression, Option.bind_eq_bind, Option.bind_eq_some_iff, Option.pure_def,
    Option.ite_none_right_eq_some] at h
  obtain ⟨after, hafter, -, hrest⟩ := h
  cases hrest
  exact (suffix_span _ after).trans (suffix_of_readPattern hafter)

/-! ## Tokens -/

/-- What a token leaves is behind it, and a symbol stands as it is spelled. -/
structure Follows (here : List Char) (token : Token) (rest : List Char) : Prop where
  suffix : rest <:+ here
  symbol : ∀ text, token = .symbol text → here = text.toList ++ rest

theorem IsLiteral.follows {here rest : List Char} {token : Token} (h : IsLiteral here token rest) :
    Follows here token rest :=
  ⟨h.suffix, fun text htext => absurd htext (h.notSymbol text)⟩

theorem follows_of_readSymbol {rest : List Char} {token : Token}
    (h : readSymbol cs = some (token, rest)) : Follows cs token rest := by
  have hspelled : ∀ text rest, cs = String.toList text ++ rest → Follows cs (.symbol text) rest :=
    fun text rest heq => ⟨⟨text.toList, heq.symm⟩, fun _ htext => by cases htext; exact heq⟩
  unfold readSymbol at h
  split at h
  case h_1 =>
    split at h <;> cases h <;> exact hspelled _ _ rfl
  case h_2 =>
    obtain ⟨⟨spelling, symbol⟩, hmem, hfound⟩ := List.exists_of_findSome?_eq_some h
    obtain ⟨text, -, hspelling⟩ := List.mem_map.1 hmem
    obtain ⟨after, hafter, hrest⟩ := Option.map_eq_some_iff.1 hfound
    cases hspelling
    cases hrest
    exact hspelled text rest (Text.stripLead?_eq_some.1 hafter)

theorem follows_of_readToken {steps : Nat} {rest : List Char} {token : Token}
    (h : readToken steps cs = some (token, rest)) : Follows cs token rest := by
  unfold readToken at h
  split at h
  case h_1 =>
    cases h
    exact ⟨List.suffix_rfl, by simp⟩
  case h_2 c more =>
    split at h
    · obtain ⟨⟨name, escaped, after⟩, hname, hrest⟩ := Option.map_eq_some_iff.1 h
      cases hrest
      exact ⟨suffix_of_readName hname, by simp⟩
    split at h
    · exact (isLiteral_of_readNumber h).follows
    split at h
    · exact ((isLiteral_of_readStringLiteral h).of_suffix (List.suffix_cons _ _)).follows
    split at h
    · exact ((isLiteral_of_readTemplate h).of_suffix (List.suffix_cons _ _)).follows
    split at h
    · obtain ⟨⟨name, escaped, after⟩, hname, hrest⟩ := Option.map_eq_some_iff.1 h
      cases hrest
      exact ⟨suffix_cons_of_suffix _ (suffix_of_readName hname), by simp⟩
    split at h
    · exact (isLiteral_of_readNumber h).follows
    · exact follows_of_readSymbol h

theorem suffix_of_skipTrivia {trivia : Trivia} {newline newline' : Bool} {rest : List Char}
    (h : skipTrivia trivia newline cs = some (newline', rest)) : rest <:+ cs := by
  fun_induction skipTrivia trivia newline cs <;> grind [suffix_cons_of_suffix]

theorem suffix_skipHashbang (cs : List Char) : skipHashbang cs <:+ cs := by
  unfold skipHashbang
  split
  · exact suffix_cons_of_suffix _ (suffix_cons_of_suffix _ (List.dropWhile_suffix _))
  · exact List.suffix_rfl

/-! ## Lexemes -/

/-- A lexeme as a scanner gives it. -/
def Lexeme.Valid (l : Lexeme) : Prop := Follows l.here l.token l.rest

theorem valid_scan (steps : Nat) (cs : List Char) : (scan steps cs).Valid := by
  unfold scan
  split
  · exact ⟨List.suffix_rfl, by simp⟩
  · split
    · exact ⟨List.suffix_rfl, by simp⟩
    · next h => exact follows_of_readToken h

theorem here_scan (steps : Nat) (cs : List Char) : (scan steps cs).here <:+ cs := by
  unfold scan
  split
  · exact List.suffix_rfl
  · next h => split <;> exact suffix_of_skipTrivia h

/-- What stands before a readable token. -/
theorem skipTrivia_scan {steps : Nat} {cs : List Char} (h : (scan steps cs).token ≠ .unreadable) :
    ∃ newline, skipTrivia .between false cs = some (newline, (scan steps cs).here) := by
  unfold scan at h ⊢
  split
  · next hskip => simp [hskip] at h
  · next newline here hskip =>
    refine ⟨newline, ?_⟩
    rw [hskip]
    split <;> rfl

end OriginTags.Tsx
