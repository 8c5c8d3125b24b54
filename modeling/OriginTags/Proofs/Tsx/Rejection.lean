import OriginTags.Proofs.Tsx.Reads.Element
/-!
# A word behind the slash of a tag

A tag that consists of a name and a `/` must go on with `>`. A text that begins with such a tag and goes on
with a word instead is no program, whatever follows: nothing else than an element begins with a `<` and a
name before a `/`, so every rule on the way to the element fails with it.
-/

namespace OriginTags.Tsx

open Tsx.Parser

/-! ## Failures -/

namespace Parser

variable {α β : Type} {c : Cursor}

/-- A parser fails at a cursor, whatever is known. -/
def FailsAt (p : Parser α) (c : Cursor) : Prop :=
  ∀ known a c' known', p c known ≠ (some (a, c'), known')

theorem failsAt_failure : (failure : Parser α).FailsAt c := by
  intro known a c' known' h
  cases h

theorem bind_apply_of_eq {p : Parser α} {f : α → Parser β} {a : α} {mid : Cursor}
    {known known' : Known} (h : p c known = (some (a, mid), known')) :
    (p >>= f) c known = f a mid known' := by
  simp only [Bind.bind, StateT.bind, OptionT.bind, OptionT.mk, h]

theorem FailsAt.bind {p : Parser α} (h : p.FailsAt c) (f : α → Parser β) : (p >>= f).FailsAt c := by
  intro known b c' known' hbind
  obtain ⟨a, mid, known'', hp, -⟩ := bind_eq_some hbind
  exact h known a mid known'' hp

/-- A parser that does as another one does at a cursor fails with it. -/
theorem FailsAt.congr {p q : Parser α} (h : q.FailsAt c) (heq : ∀ known, p c known = q c known) :
    p.FailsAt c :=
  fun known a c' known' hp => h known a c' known' ((heq known).symm.trans hp)

end Parser

/-! ## Bare tags -/

/-- At a cursor stands a `<`, a word without a hyphen and a `/`, and no `>` follows. -/
structure Cursor.AtBareTag (c : Cursor) : Prop where
  opens : c.lexeme.token = .symbol "<"
  word : ∃ w escaped, c.next.lexeme.token = .word w escaped
  ends : ∀ rest, c.next.lexeme.rest ≠ '-' :: rest
  slash : c.next.next.lexeme.token = .symbol "/"
  goesOn : c.next.next.next.lexeme.token ≠ .symbol ">"

section

variable {c c' : Cursor} {known known' : Known} {α : Type} {a : α} {text : String}

theorem lexeme_of_advance (h : advance c known = (some ((), c'), known')) :
    c'.lexeme = c.next.lexeme ∧ c'.limit = c.limit := by
  rw [advance, token_bind_apply] at h
  generalize c.lexeme.token = t at h
  split at h
  · obtain ⟨_, mid, _, hflaw, hpass⟩ := bind_eq_some h
    unfold flawIf at hflaw
    split at hflaw <;> cases hflaw <;> cases hpass <;> exact ⟨rfl, rfl⟩
  · cases h
    exact ⟨rfl, rfl⟩

theorem eatWord_of_symbol {w : String} (h : c.lexeme.token = .symbol text) :
    eatWord w c known = (some (false, c), known) := by
  obtain ⟨⟨token, newline, here, rest⟩⟩ := c
  cases h
  rfl

theorem atSuspending_of_symbol {w : String} {isOperator : Bool} (h : c.lexeme.token = .symbol text) :
    atSuspending w isOperator c known = (some (false, c), known) := by
  obtain ⟨⟨token, newline, here, rest⟩⟩ := c
  cases h
  rfl

theorem asyncLoneArrow_of_symbol {g : Grammar} {branch : Bool} (h : c.lexeme.token = .symbol text) :
    asyncLoneArrow g branch c known = (some (false, c), known) := by
  obtain ⟨⟨token, newline, here, rest⟩⟩ := c
  cases h
  rfl

theorem eatSymbol_of_eq (h : c.lexeme.token = .symbol text) :
    eatSymbol text c known = (some (true, c.next), known) := by
  rw [eatSymbol, atSymbol_bind_apply, h, beq_self_eq_true, if_pos rfl,
    bind_apply_of_eq (advance_of_symbol h)]
  rfl

theorem eatSymbol_of_ne (h : c.lexeme.token ≠ .symbol text) :
    eatSymbol text c known = (some (false, c), known) := by
  rw [eatSymbol, atSymbol_bind_apply, beq_eq_false_iff_ne.2 h]
  rfl

/-- A word that no hyphen follows is all of a word in a tag. -/
theorem lexeme_of_tagWord {w written : String} {escaped : Bool}
    (hword : c.lexeme.token = .word w escaped) (hends : ∀ rest, c.lexeme.rest ≠ '-' :: rest)
    (h : tagWord c known = (some (written, c'), known')) :
    c'.lexeme = c.next.lexeme ∧ c'.limit = c.limit := by
  rw [tagWord, token_bind_apply, hword] at h
  dsimp only at h
  rw [get_bind_apply] at h
  generalize c.lexeme.rest = rest at h hends
  split at h
  · next hyphen => exact absurd rfl (hends _)
  · obtain ⟨_, mid, _, hadvance, hpure⟩ := bind_eq_some h
    cases hpure
    exact lexeme_of_advance hadvance

/-- A word before a `/` is all of the name of a tag. -/
theorem lexeme_of_tagName {w : String} {escaped : Bool} {name : Markup.TagName}
    (hword : c.lexeme.token = .word w escaped) (hends : ∀ rest, c.lexeme.rest ≠ '-' :: rest)
    (hslash : c.next.lexeme.token = .symbol "/") (h : tagName c known = (some (name, c'), known')) :
    c'.lexeme = c.next.lexeme ∧ c'.limit = c.limit := by
  obtain ⟨first, mid, _, hfirst, h⟩ := bind_eq_some h
  obtain ⟨hmid, hlimit⟩ := lexeme_of_tagWord hword hends hfirst
  have htoken : mid.lexeme.token = .symbol "/" := by rw [hmid, hslash]
  obtain ⟨hcolon, -⟩ | h := eatSymbol_bind_eq_some h
  · simp [htoken] at hcolon
  · rw [if_neg Bool.false_ne_true, atSymbol_bind_apply, htoken] at h
    cases h
    exact ⟨hmid, hlimit⟩

/-- At a `/` there are no more attributes. -/
theorem eq_of_tagAttributes {g : Grammar} {found : List Markup.Attribute}
    (hslash : c.lexeme.token = .symbol "/")
    (h : tagAttributes g c known = (some (found, c'), known')) : c' = c := by
  obtain ⟨attributes, mid, _, hgrowing, hpure⟩ := bind_eq_some h
  cases hpure
  rw [growing, get_bind_apply] at hgrowing
  cases hlimit : c.limit with
  | zero =>
      rw [hlimit] at hgrowing
      cases hgrowing
  | succ fuel =>
      rw [hlimit, iterate] at hgrowing
      obtain ⟨next, _, _, hstep, hrest⟩ := bind_eq_some hgrowing
      rw [token_bind_apply, hslash] at hstep
      cases hstep
      cases hrest
      rfl

end

namespace Cursor.AtBareTag

variable {c : Cursor} {g : Grammar}

theorem failsAt_openingTag (h : c.AtBareTag) (start : Nat) (trees : List Markup.Tree) :
    (openingTag g start).FailsAt { c.next with markup := trees } := by
  intro known tag c' known' htag
  obtain ⟨name, named, _, hname, hrest⟩ := bind_eq_some htag
  obtain ⟨w, escaped, hword⟩ := h.word
  obtain ⟨hnamed, hlimit⟩ :=
    lexeme_of_tagName (c := { c.next with markup := trees }) hword h.ends h.slash hname
  have htoken : named.lexeme.token = .symbol "/" := by rw [hnamed]; exact h.slash
  obtain ⟨_, applied, _, harguments, hrest'⟩ := bind_eq_some hrest
  rw [plainTypeArguments, atSymbol_bind_apply, htoken] at harguments
  cases harguments
  obtain ⟨attributes, attributed, _, hattributes, hend⟩ := bind_eq_some hrest'
  obtain rfl := eq_of_tagAttributes htoken hattributes
  obtain ⟨-, hclose⟩ | hclose := eatSymbol_bind_eq_some hend
  · rw [atSymbol_bind_apply] at hclose
    have hclosed := (require_bind_eq_some hclose).1
    have hnext : attributed.next.lexeme = c.next.next.next.lexeme := by
      show scan attributed.limit attributed.lexeme.rest = _
      rw [hnamed, hlimit]
      rfl
    rw [hnext] at hclosed
    exact h.goesOn (eq_of_beq hclosed)
  · rw [atSymbol_bind_apply, htoken] at hclose
    cases (require_bind_eq_some hclose).1

theorem failsAt_markup (h : c.AtBareTag) (child : Bool) : (Tsx.markup g child).FailsAt c := by
  refine Parser.FailsAt.bind ?_ _
  intro known a c' known' hnode
  rw [markupNode, get_bind_apply, offsetOf_bind_apply] at hnode
  obtain ⟨-, hnode⟩ := symbol_bind_eq_some hnode
  obtain ⟨w, escaped, hword⟩ := h.word
  rw [atSymbol_bind_apply, hword] at hnode
  obtain ⟨⟨tag, inAttributes⟩, _, _, hcollect, -⟩ := bind_eq_some hnode
  obtain ⟨mid, htag, -⟩ := collect_eq_some hcollect
  exact h.failsAt_openingTag _ _ _ _ _ _ htag

/-! ## Expressions and statements -/

theorem failsAt_unary (h : c.AtBareTag) (hg : (g (.markup false)).FailsAt c) : (unary g).FailsAt c := by
  refine (hg.bind fun _ => pure .other).congr fun known => ?_
  have hopens := h.opens
  obtain ⟨⟨token, newline, here, rest⟩⟩ := c
  cases hopens
  rfl

theorem failsAt_binary (h : c.AtBareTag) (hg : (g .unary).FailsAt c) (level : Nat) :
    (binary g level).FailsAt c := by
  refine (hg.bind fun left => growing (binaryStep g level false) left).congr fun known => ?_
  have hopens := h.opens
  obtain ⟨⟨token, newline, here, rest⟩⟩ := c
  cases hopens
  rfl

/-- No arrow function begins with a name in brackets and a `/`. -/
theorem eq_never_of_verdictInBrackets (h : c.AtBareTag) {known known' : Known} {v : Verdict}
    {c' : Cursor} (hverdict : verdictInBrackets c.next known = (some (v, c'), known')) : v = .never := by
  have hslash := h.slash
  obtain ⟨_, mid, _, hconst, hrest⟩ := bind_eq_some hverdict
  rw [token_bind_apply] at hrest
  obtain ⟨hfree, hrest⟩ := require_bind_eq_some hrest
  unfold eatWord at hconst
  obtain ⟨isConst, _, _, hat, hconst⟩ := bind_eq_some hconst
  cases hat
  split at hconst
  · -- Behind `const` there would have to be another name.
    obtain ⟨_, _, _, hadvance, hpure⟩ := bind_eq_some hconst
    cases hpure
    rw [(lexeme_of_advance hadvance).1, hslash] at hfree
    cases hfree
  · cases hconst
    obtain ⟨_, passed, _, hpass, hrest⟩ := bind_eq_some hrest
    have hpassed : passed.lexeme.token = .symbol "/" := by
      cases hpass
      exact hslash
    obtain ⟨⟨token, newline, here, rest⟩⟩ := passed
    cases hpassed
    cases hrest
    rfl

theorem never_of_arrowVerdict (h : c.AtBareTag) {known known' : Known} {v : Verdict} {c' : Cursor}
    (hverdict : arrowVerdict c known = (some (v, c'), known')) : v = .never ∧ c' = c := by
  unfold arrowVerdict answerOf at hverdict
  split at hverdict
  · next hinner =>
    cases hverdict
    have hparenthesis : c.lexeme.token ≠ .symbol "(" := by simp [h.opens]
    rw [bind_apply_of_eq (eatWord_of_symbol h.opens), if_neg Bool.false_ne_true] at hinner
    dsimp only at hinner
    rw [bind_apply_of_eq (eatSymbol_of_ne hparenthesis), if_neg Bool.false_ne_true,
      bind_apply_of_eq (eatSymbol_of_eq h.opens), if_pos rfl] at hinner
    exact ⟨h.eq_never_of_verdictInBrackets hinner, rfl⟩
  · cases hverdict
    exact ⟨rfl, rfl⟩

/-- Nor does one without parentheses. -/
theorem eq_of_parenthesizedArrow (h : c.AtBareTag) {known known' : Known} {branch isArrow : Bool}
    {c' : Cursor} (harrow : parenthesizedArrow g branch c known = (some (isArrow, c'), known')) :
    isArrow = false ∧ c' = c := by
  obtain ⟨v, mid, _, hverdict, hrest⟩ := bind_eq_some harrow
  obtain ⟨rfl, rfl⟩ := h.never_of_arrowVerdict hverdict
  cases hrest
  exact ⟨rfl, rfl⟩

theorem failsAt_assignment (h : c.AtBareTag) (hg : (g (.binary 0)).FailsAt c) (branch : Bool) :
    (assignment g branch).FailsAt c := by
  intro known a c' known' hassignment
  have hcontext : Parser.context c known = (some (c.context, c), known) := rfl
  rw [assignment, bind_apply_of_eq hcontext, bind_apply_of_eq (atSuspending_of_symbol h.opens),
    if_neg Bool.false_ne_true] at hassignment
  obtain ⟨isArrow, mid, _, hor, hrest⟩ := bind_eq_some hassignment
  obtain ⟨first, _, _, hfirst, hsecond⟩ := bind_eq_some hor
  obtain ⟨rfl, rfl⟩ := h.eq_of_parenthesizedArrow hfirst
  replace hsecond : asyncLoneArrow g branch _ _ = (some (isArrow, mid), _) := hsecond
  rw [asyncLoneArrow_of_symbol h.opens] at hsecond
  cases hsecond
  exact hg.bind _ _ _ _ _ hrest

theorem failsAt_expression (hg : (g (.assignment false)).FailsAt c) : (expression g).FailsAt c :=
  hg.bind _

theorem failsAt_statement (h : c.AtBareTag) (hg : (g .expression).FailsAt c) (position : Position) :
    (statement g position).FailsAt c := by
  have hplain : (plainStatement g).FailsAt c := hg.bind _
  refine hplain.congr fun known => ?_
  have hopens := h.opens
  obtain ⟨⟨token, newline, here, rest⟩⟩ := c
  cases hopens
  rfl

theorem failsAt_grammar (h : c.AtBareTag) (depth : Nat) (position : Position) :
    (grammar depth (.statement position)).FailsAt c := by
  -- A rule fails as deep as the grammar reaches if it fails whenever the rule below it does.
  have step : ∀ {rule below : Rule}, (∀ depth, (grammar depth below).FailsAt c) →
      (∀ g : Grammar, (g below).FailsAt c → (construct g rule).FailsAt c) →
      ∀ depth, (grammar depth rule).FailsAt c := by
    intro rule below hbelow hrule depth
    cases depth with
    | zero => exact failsAt_failure
    | succ depth => exact hrule _ (hbelow depth)
  have hmarkup : ∀ depth, (grammar depth (.markup false)).FailsAt c := by
    intro depth
    cases depth with
    | zero => exact failsAt_failure
    | succ depth => exact h.failsAt_markup false
  have hunary : ∀ depth, (grammar depth .unary).FailsAt c := step hmarkup fun g => h.failsAt_unary
  have hbinary : ∀ depth, (grammar depth (.binary 0)).FailsAt c :=
    step hunary fun g hg => h.failsAt_binary hg 0
  have hassignment : ∀ depth, (grammar depth (.assignment false)).FailsAt c :=
    step hbinary fun g hg => h.failsAt_assignment hg false
  have hexpression : ∀ depth, (grammar depth .expression).FailsAt c :=
    step hassignment fun g => failsAt_expression
  have hstatement : ∀ depth, (grammar depth (.statement position)).FailsAt c :=
    step hexpression fun g hg => h.failsAt_statement hg position
  exact hstatement depth

theorem failsAt_program (h : c.AtBareTag) (depth : Nat) : (program (grammar depth)).FailsAt c := by
  refine Parser.FailsAt.bind ?_ _
  intro known a c' known' hgrowing
  rw [growing, get_bind_apply] at hgrowing
  cases hlimit : c.limit with
  | zero =>
      rw [hlimit] at hgrowing
      cases hgrowing
  | succ fuel =>
      rw [hlimit, iterate] at hgrowing
      obtain ⟨next, mid, known'', hstep, -⟩ := bind_eq_some hgrowing
      have hstatement : (grammar depth (.statement .listed) >>= fun _ => pure (some [])) c known =
          (some (next, mid), known'') := by
        have hopens := h.opens
        obtain ⟨⟨token, newline, here, rest⟩⟩ := c
        cases hopens
        exact hstep
      exact (h.failsAt_grammar depth .listed).bind _ _ _ _ _ hstatement

end Cursor.AtBareTag

/-! ## Texts -/

/-- Whether a character stands for itself between two tokens. -/
def isGapChar (c : Char) : Bool := isLineEnd c || isSpace c

/-- The ranges of such characters above ASCII. -/
def gapRanges : List (Nat × Nat) :=
  [(0x85, 0x85), (0xA0, 0xA0), (0x1680, 0x1680), (0x2000, 0x200B), (0x2028, 0x2029), (0x202F, 0x202F),
   (0x205F, 0x205F), (0x3000, 0x3000), (0xFEFF, 0xFEFF)]

theorem toNat_of_isGapChar {c : Char} (h : isGapChar c = true) :
    c.toNat ∈ [9, 10, 11, 12, 13, 0x20] ∨ Text.inRanges gapRanges c.toNat = true := by
  simp only [isGapChar, isLineEnd, isSpace, Bool.or_eq_true, beq_iff_eq, Bool.and_eq_true,
    decide_eq_true_eq, ← Char.toNat_inj] at h
  simp only [Text.inRanges, gapRanges, List.any_cons, List.any_nil, Bool.or_eq_true, Bool.and_eq_true,
    decide_eq_true_eq, List.mem_cons, List.not_mem_nil]
  have hfeed : '\n'.toNat = 10 := rfl
  have hreturn : '\r'.toNat = 13 := rfl
  omega

/-- Ranges that lie apart from others hold none of their numbers. -/
theorem inRanges_eq_false_of_apart {ranges others : List (Nat × Nat)}
    (h : ranges.all (fun r => others.all fun g => Nat.blt r.2 g.1 || Nat.blt g.2 r.1) = true) {n : Nat}
    (hn : Text.inRanges others n = true) : Text.inRanges ranges n = false := by
  simp only [Text.inRanges, List.any_eq_true, List.any_eq_false, Bool.and_eq_true,
    decide_eq_true_eq] at hn ⊢
  obtain ⟨g, hg, hlow, hhigh⟩ := hn
  intro r hr hin
  have hapart := List.all_eq_true.1 (List.all_eq_true.1 h r hr) g hg
  simp only [Bool.or_eq_true, Nat.blt_eq] at hapart
  omega

theorem isIdentifierPart_of_isIdentifierStart {c : Char} (h : Text.isIdentifierStart c = true) :
    Text.isIdentifierPart c = true := by
  simp only [Text.isIdentifierStart, Text.isIdentifierPart, Char.isAlphanum] at h ⊢
  split at h
  · rename_i hascii
    simp only [hascii, if_true, Bool.or_eq_true] at h ⊢
    tauto
  · rename_i hascii
    simp [hascii, h]

/-- No part of a name stands between two tokens. -/
theorem isIdentifierPart_of_isGapChar {c : Char} (h : isGapChar c = true) :
    Text.isIdentifierPart c = false := by
  rcases toNat_of_isGapChar h with hascii | habove
  · have hpoints : ([9, 10, 11, 12, 13, 0x20].any fun n => Text.isIdentifierPart (Char.ofNat n)) =
        false := by decide
    have hc := List.any_eq_false.1 hpoints c.toNat hascii
    rw [Char.ofNat_toNat] at hc
    exact Bool.eq_false_iff.2 hc
  · have hapart : (Text.identifierStartRanges ++ Text.identifierPartRanges).all (fun r =>
        gapRanges.all fun g => Nat.blt r.2 g.1 || Nat.blt g.2 r.1) = true := by decide +kernel
    have hoff := inRanges_eq_false_of_apart hapart habove
    rw [Text.inRanges, List.any_append, Bool.or_eq_false_iff] at hoff
    have hlarge : ¬ c.toNat < 0x80 := by
      simp only [Text.inRanges, gapRanges, List.any_cons, List.any_nil, Bool.or_eq_true,
        Bool.and_eq_true, decide_eq_true_eq, Bool.false_eq_true, or_false] at habove
      omega
    rw [Text.isIdentifierPart, if_neg hlarge, Text.inRanges, Text.inRanges, hoff.1, hoff.2]
    rfl

theorem ne_of_isGapChar {c d : Char} (h : isGapChar c = true) (hd : isGapChar d = false) : c ≠ d := by
  rintro rfl
  rw [h] at hd
  cases hd

theorem isIdentifierPart_of_isName {name : List Char} (h : isName name = true) :
    ∀ c ∈ name, Text.isIdentifierPart c = true := by
  cases name with
  | nil => nofun
  | cons c name =>
      simp only [isName, Bool.and_eq_true, List.all_eq_true] at h
      simp only [List.mem_cons, forall_eq_or_imp]
      exact ⟨isIdentifierPart_of_isIdentifierStart h.1, h.2⟩

theorem skipTrivia_gap {gap : List Char} (h : ∀ c ∈ gap, isGapChar c = true) (newline : Bool)
    (cs : List Char) :
    ∃ newline', skipTrivia .between newline (gap ++ cs) = skipTrivia .between newline' cs := by
  induction gap generalizing newline with
  | nil => exact ⟨newline, rfl⟩
  | cons c gap ih =>
      have hc := h c List.mem_cons_self
      have hslash : c ≠ '/' := ne_of_isGapChar hc (by decide)
      have hrest := ih fun d hd => h d (List.mem_cons_of_mem _ hd)
      rw [List.cons_append]
      cases hline : isLineEnd c with
      | true =>
          obtain ⟨newline', heq⟩ := hrest true
          exact ⟨newline', by simp [skipTrivia, hslash, hline, heq]⟩
      | false =>
          obtain ⟨newline', heq⟩ := hrest newline
          have hspace : isSpace c = true := by simpa [isGapChar, hline] using hc
          exact ⟨newline', by simp [skipTrivia, hslash, hline, hspace, heq]⟩

theorem skipTrivia_of_token {c : Char} (hc : isGapChar c = false) (hslash : c ≠ '/') (newline : Bool)
    (cs : List Char) : skipTrivia .between newline (c :: cs) = some (newline, c :: cs) := by
  simp only [isGapChar, Bool.or_eq_false_iff] at hc
  simp [skipTrivia, hslash, hc]

theorem skipTrivia_slash {c : Char} (hslash : c ≠ '/') (hstar : c ≠ '*') (newline : Bool)
    (cs : List Char) : skipTrivia .between newline ('/' :: c :: cs) = some (newline, '/' :: c :: cs) := by
  simp [skipTrivia, hslash, hstar, isLineEnd, isSpace]

theorem isGapChar_of_isIdentifierStart {c : Char} (h : Text.isIdentifierStart c = true) :
    isGapChar c = false := by
  by_contra hc
  have hpart := isIdentifierPart_of_isIdentifierStart h
  rw [isIdentifierPart_of_isGapChar (Bool.not_eq_false _ ▸ hc)] at hpart
  cases hpart

theorem ne_of_isIdentifierStart {c d : Char} (h : Text.isIdentifierStart c = true)
    (hd : Text.isIdentifierStart d = false) : c ≠ d := by
  rintro rfl
  rw [h] at hd
  cases hd

theorem scan_eq {steps : Nat} {cs here rest : List Char} {newline : Bool} {token : Token}
    (hskip : skipTrivia .between false cs = some (newline, here))
    (hread : readToken steps here = some (token, rest)) :
    scan steps cs = ⟨token, newline, here, rest⟩ := by
  simp only [scan, hskip, hread]

theorem readToken_open {steps : Nat} {c : Char} (hc : Text.isIdentifierStart c = true)
    (cs : List Char) : readToken steps ('<' :: c :: cs) = some (.symbol "<", c :: cs) := by
  have hopen : c ≠ '<' := ne_of_isIdentifierStart hc (by decide)
  have hequals : c ≠ '=' := ne_of_isIdentifierStart hc (by decide)
  have hstart : Text.isIdentifierStart '<' = false := by decide
  simp [readToken, hstart, readSymbol, spellings, symbols, List.findSome?, Text.stripLead?, hopen.symm,
    hequals.symm]

theorem readToken_slash {steps : Nat} {c : Char} (hc : c ≠ '=') (cs : List Char) :
    readToken steps ('/' :: c :: cs) = some (.symbol "/", c :: cs) := by
  have hstart : Text.isIdentifierStart '/' = false := by decide
  simp [readToken, hstart, readSymbol, spellings, symbols, List.findSome?, Text.stripLead?, hc.symm]

theorem readToken_name {steps : Nat} {name : List Char} {d : Char} (hname : isName name = true)
    (hd : Text.isIdentifierPart d = false) (hescape : d ≠ '\\') (cs : List Char) :
    readToken steps (name ++ d :: cs) = some (.word (String.ofList name) false, d :: cs) := by
  cases name with
  | nil => cases hname
  | cons c name =>
      have hparts := isIdentifierPart_of_isName hname
      have hspan : (c :: name ++ d :: cs).span Text.isIdentifierPart = (c :: name, d :: cs) := by
        rw [List.span_eq_takeWhile_dropWhile, List.takeWhile_append_of_pos hparts,
          List.dropWhile_append_of_pos hparts]
        simp [hd]
      have hread : readName steps (c :: name ++ d :: cs) =
          some (String.ofList (c :: name), false, d :: cs) := by
        simp only [readName, hspan]
        split
        · next heq => exact absurd (List.cons.inj heq).1 hescape
        · rw [if_pos hname]
      have hstart : Text.isIdentifierStart c = true := by
        simp only [isName, Bool.and_eq_true] at hname
        exact hname.1
      rw [List.cons_append] at hread ⊢
      simp [readToken, hstart, hread]

/-- Whatever the word is, it is no symbol. -/
theorem token_scan_ne_symbol {steps : Nat} {gap : List Char} {c : Char}
    (hgap : ∀ d ∈ gap, isGapChar d = true) (hc : Text.isIdentifierStart c = true) (cs : List Char)
    (text : String) : (scan steps (gap ++ c :: cs)).token ≠ .symbol text := by
  obtain ⟨newline, hskip⟩ := skipTrivia_gap hgap false (c :: cs)
  rw [skipTrivia_of_token (isGapChar_of_isIdentifierStart hc)
    (ne_of_isIdentifierStart hc (by decide))] at hskip
  have hread : readToken steps (c :: cs) =
      (readName steps (c :: cs)).map fun n => (.word n.1 n.2.1, n.2.2) := by
    simp [readToken, hc]
  simp only [scan, hskip, hread]
  cases readName steps (c :: cs) <;> simp

/-- A text with a bare tag whose `/` is followed by blanks and a word. -/
theorem atBareTag_of_text {c : Cursor} {front name blanks gap : List Char} {d : Char}
    {rest : List Char} (hlexeme : c.lexeme =
      scan c.limit (front ++ '<' :: (name ++ (blanks ++ '/' :: (gap ++ d :: rest)))))
    (hfront : ∀ b ∈ front, isGapChar b = true) (hname : isName name = true)
    (hblanks : ∀ b ∈ blanks, isGapChar b = true)
    (hgap : ∀ b ∈ gap, isGapChar b = true) (hne : gap ≠ []) (hd : Text.isIdentifierStart d = true) :
    c.AtBareTag := by
  obtain ⟨space, gap', rfl⟩ := List.exists_cons_of_ne_nil hne
  obtain ⟨first, others, rfl, hfirst⟩ : ∃ first others, name = first :: others ∧
      Text.isIdentifierStart first = true := by
    cases name with
    | nil => cases hname
    | cons first others =>
        simp only [isName, Bool.and_eq_true] at hname
        exact ⟨first, others, rfl, hname.1⟩
  -- Behind the name comes a blank or the `/`, and neither belongs to a name.
  obtain ⟨e, behind, hbehind, he, hescape, hhyphen⟩ : ∃ e behind,
      blanks ++ '/' :: (space :: gap' ++ d :: rest) = e :: behind ∧
        Text.isIdentifierPart e = false ∧ e ≠ '\\' ∧ e ≠ '-' := by
    cases blanks with
    | nil => exact ⟨'/', _, rfl, by decide, by decide, by decide⟩
    | cons b blanks =>
        have hb := hblanks b List.mem_cons_self
        exact ⟨b, _, rfl, isIdentifierPart_of_isGapChar hb, ne_of_isGapChar hb (by decide),
          ne_of_isGapChar hb (by decide)⟩
  have hspace := hgap space List.mem_cons_self
  obtain ⟨start, hstart⟩ := skipTrivia_gap hfront false
    ('<' :: (first :: others ++ (blanks ++ '/' :: (space :: gap' ++ d :: rest))))
  rw [skipTrivia_of_token (by decide) (by decide)] at hstart
  have hopen : c.lexeme = ⟨.symbol "<", start, _, _⟩ :=
    hlexeme.trans (scan_eq hstart (readToken_open hfirst _))
  have hword : c.next.lexeme =
      ⟨.word (String.ofList (first :: others)) false, false, first :: others ++ e :: behind,
        e :: behind⟩ := by
    show scan c.limit c.lexeme.rest = _
    rw [hopen, ← hbehind]
    refine scan_eq (skipTrivia_of_token (isGapChar_of_isIdentifierStart hfirst)
      (ne_of_isIdentifierStart hfirst (by decide)) false _) ?_
    rw [hbehind]
    exact readToken_name hname he hescape behind
  obtain ⟨newline, hskip⟩ := skipTrivia_gap hblanks false ('/' :: (space :: gap' ++ d :: rest))
  rw [List.cons_append, skipTrivia_slash (ne_of_isGapChar hspace (by decide))
    (ne_of_isGapChar hspace (by decide))] at hskip
  have hslash : c.next.next.lexeme =
      ⟨.symbol "/", newline, '/' :: space :: (gap' ++ d :: rest), space :: (gap' ++ d :: rest)⟩ := by
    show scan c.limit c.next.lexeme.rest = _
    rw [hword, ← hbehind]
    exact scan_eq hskip (readToken_slash (ne_of_isGapChar hspace (by decide)) _)
  refine ⟨by rw [hopen], ⟨_, _, by rw [hword]⟩, fun more hmore => ?_, by rw [hslash], ?_⟩
  · rw [hword] at hmore
    exact hhyphen (List.cons.inj hmore).1
  · show (scan c.limit c.next.next.lexeme.rest).token ≠ _
    rw [hslash]
    exact token_scan_ne_symbol hgap hd rest ">"

theorem skipHashbang_gap {front : List Char} (hfront : ∀ b ∈ front, isGapChar b = true)
    (cs : List Char) : skipHashbang (front ++ '<' :: cs) = front ++ '<' :: cs := by
  unfold skipHashbang
  split
  · next hhash =>
    cases front with
    | nil => simp at hhash
    | cons b front =>
        have hb := ne_of_isGapChar (hfront b List.mem_cons_self) (d := '#') (by decide)
        exact absurd (List.cons.inj hhash).1 hb
  · rfl

/-- Such a text is no program, whatever follows the word. -/
theorem parse?_bare_tag_word {front name blanks gap : List Char} {d : Char}
    (hfront : ∀ b ∈ front, isGapChar b = true) (hname : isName name = true)
    (hblanks : ∀ b ∈ blanks, isGapChar b = true) (hgap : ∀ b ∈ gap, isGapChar b = true)
    (hne : gap ≠ []) (hd : Text.isIdentifierStart d = true) (rest : List Char) :
    parse? (front ++ '<' :: (name ++ (blanks ++ '/' :: (gap ++ d :: rest)))) = none := by
  have hfails (start : Cursor) (hstart : start.lexeme =
      scan start.limit (front ++ '<' :: (name ++ (blanks ++ '/' :: (gap ++ d :: rest))))) (depth : Nat) :
      (program (grammar depth)).FailsAt start :=
    (atBareTag_of_text hstart hfront hname hblanks hgap hne hd).failsAt_program depth
  dsimp only [parse?]
  rw [skipHashbang_gap hfront]
  split
  · next imports stop hrun => exact (hfails _ rfl _ _ _ _ _ (Prod.ext hrun rfl)).elim
  · rfl

end OriginTags.Tsx
