import OriginTags.Proofs.Glob.Language
/-!
# Compiled globs

A compiled glob matches the paths of its language, and the text of its regular expression denotes the
same language. Both go through its tokens: the expression is made from them one by one, and a text
with closed braces, wherever it stands, adds its own language to what was read before it.
-/

namespace OriginTags.Glob

/-! ## Tokens -/

/-- The language of some tokens from the middle of some open braces on. Nothing if a brace stays
open. -/
def meaning : List Token → (outer : List Frame) → Frame → Option (Language Char)
  | [], [], f => some f.language
  | [], _ :: _, _ => none
  | .openBrace :: rest, outer, f => meaning rest (f :: outer) .start
  | .closeBrace :: rest, parent :: outer, f => meaning rest outer (parent.push f.language)
  | .closeBrace :: rest, [], f => meaning rest [] f
  | .comma :: rest, outer, f => meaning rest outer f.next
  | token :: rest, outer, f => meaning rest outer (f.push token.regex.language)

namespace Branches

/-- The languages of what has been read. -/
def frame (b : Branches) : Frame := ⟨(b.complete.map Regex.language).getD 0, b.current.language⟩

theorem language_regex (b : Branches) : b.regex.language = b.frame.language := by
  obtain ⟨complete, current⟩ := b
  cases complete with
  | none => exact (zero_add _).symm
  | some r => rfl

theorem frame_next (b : Branches) : b.next.frame = b.frame.next := by
  unfold Frame.next
  rw [← language_regex]
  rfl

theorem frame_push (b : Branches) (r : Regex) : (b.push r).frame = b.frame.push r.language := rfl

end Branches

/-- The expression of some tokens has their language. -/
theorem map_assemble (toks : List Token) (outer : List Branches) (b : Branches) :
    (assemble toks outer b).map Regex.language = meaning toks (outer.map Branches.frame) b.frame := by
  induction toks generalizing outer b with
  | nil =>
      cases outer with
      | nil => exact congrArg some b.language_regex
      | cons parent outer => rfl
  | cons token rest ih =>
      cases token with
      | openBrace => exact ih (b :: outer) .start
      | closeBrace =>
          cases outer with
          | nil => exact ih [] b
          | cons parent outer =>
              have hgroup := ih outer (parent.push (.group b.regex))
              rw [Branches.frame_push, Regex.language, b.language_regex] at hgroup
              exact hgroup
      | comma =>
          have hnext := ih outer b.next
          rw [b.frame_next] at hnext
          exact hnext
      | _ => exact ih outer (b.push _)

/-! ## Runs of stars -/

theorem chars_notSlash : CharClass.notSlash.chars = anyChar := by
  refine Set.ext fun w => ?_
  show (∃ c, (c != '/') = true ∧ w = [c]) ↔ ∃ c, c ≠ '/' ∧ w = [c]
  simp only [bne_iff_ne]

theorem texts_notSlash : CharClass.notSlash.texts = anyName := by
  refine Set.ext fun w => ?_
  show (∀ c ∈ w, (c != '/') = true) ↔ '/' ∉ w
  simp only [bne_iff_ne, List.forall_mem_ne']

theorem texts_notNewline : CharClass.notNewline.texts = anyText := by
  refine Set.ext fun w => ?_
  show (∀ c ∈ w, (c != '\n') = true) ↔ '\n' ∉ w
  simp only [bne_iff_ne, List.forall_mem_ne']

theorem language_anyDirectories : Token.anyDirectories.regex.language = anyDirectories := by
  simp [Token.regex, Regex.language, anyDirectories, texts_notNewline]

/-- The tokens of a run of stars stand for its language. -/
theorem meaning_starTokens (n : Nat) (toks : List Token) (outer : List Frame) (f : Frame) :
    meaning (starTokens n ++ toks) outer f = meaning toks outer (f.push (starLanguage n)) := by
  match n with
  | 0 => exact congrArg (meaning toks outer) f.push_one.symm
  | 1 =>
      rw [starLanguage, ← texts_notSlash]
      rfl
  | n + 2 =>
      rw [starLanguage, ← texts_notNewline]
      rfl

/-- Neither more stars nor a slash stand first. -/
def EndsStars (cs : List Char) : Prop := cs.head? ≠ some '*' ∧ cs.head? ≠ some '/'

theorem EndsStars.tokens {cs : List Char} (h : EndsStars cs) (stars depth : Nat) :
    tokens cs stars depth = starTokens stars ++ tokens cs 0 depth := by
  cases cs with
  | nil => simp [Glob.tokens, starTokens]
  | cons c cs =>
      have hstar : c ≠ '*' := by simpa using h.1
      have hslash : c ≠ '/' := by simpa using h.2
      simp [Glob.tokens, starTokens, hstar, hslash]

theorem EndsStars.language {cs : List Char} (h : EndsStars cs) (stars : Nat) :
    language (List.replicate stars '*' ++ cs) = starLanguage stars * language cs :=
  language_stars h.1 (.inr h.2)

/-- What follows an alternative ends its stars. -/
theorem endsStars_others (others : List (List Char)) (rest : List Char) :
    EndsStars (others.flatMap (',' :: ·) ++ '\x7d' :: rest) := by
  cases others <;> simp [EndsStars]

/-! ## Texts with closed braces -/

/-- Inside `depth` braces, a text adds its language to what was read before it. What follows must not
change what stars at its end mean. -/
def Reads (depth : Nat) (text : List Char) : Prop :=
  ∀ stars rest outer f, EndsStars rest →
    meaning (tokens (text ++ rest) stars depth) outer f =
      meaning (tokens rest 0 depth) outer (f.push (language (List.replicate stars '*' ++ text)))

theorem reads_nil (depth : Nat) : Reads depth [] := by
  intro stars rest outer f hrest
  have hnil : EndsStars [] := ⟨by simp, by simp⟩
  rw [List.nil_append, hrest.tokens, meaning_starTokens, hnil.language, language, mul_one]

/-- What a character stands for that is no star, no brace and, in braces, no comma. -/
theorem charToken_spec {depth : Nat} {c : Char} (hstar : c ≠ '*') (hopen : c ≠ '\x7b')
    (hinside : 0 < depth → c ≠ ',' ∧ c ≠ '\x7d') :
    ∃ l : Language Char, (∀ toks outer f,
        meaning (charToken depth c :: toks) outer f = meaning toks outer (f.push l)) ∧
      (charToken depth c).depthAfter depth = depth ∧
      ∀ cs, language (c :: cs) = l * language cs := by
  by_cases hmark : c = '?'
  · subst hmark
    refine ⟨CharClass.notSlash.chars, fun _ _ _ => rfl, rfl, fun cs => ?_⟩
    rw [chars_notSlash, language]
  · have htoken : charToken depth c = .literal c := by
      rcases Nat.eq_zero_or_pos depth with rfl | hdepth
      · simp [charToken, hmark, hopen]
      · simp [charToken, hmark, hopen, hinside hdepth]
    rw [htoken]
    exact ⟨{[c]}, fun _ _ _ => rfl, rfl, language_char hstar hmark hopen⟩

theorem reads_char {depth : Nat} {c : Char} {cs : List Char} (h : Reads depth cs)
    (hopen : c ≠ '\x7b') (hinside : 0 < depth → c ≠ ',' ∧ c ≠ '\x7d') : Reads depth (c :: cs) := by
  intro stars rest outer f hrest
  by_cases hstar : c = '*'
  · -- The star belongs to the run before it.
    have hrun : List.replicate stars '*' ++ c :: cs = List.replicate (stars + 1) '*' ++ cs := by
      rw [hstar, List.replicate_succ', List.append_assoc, List.singleton_append]
    rw [hrun, ← h (stars + 1) rest outer f hrest, List.cons_append, tokens, if_pos hstar]
  have hcs := fun f => h 0 rest outer f hrest
  by_cases hdirectories : c = '/' ∧ 2 ≤ stars
  · obtain ⟨rfl, hstars⟩ := hdirectories
    obtain ⟨n, rfl⟩ := Nat.exists_eq_add_of_le' hstars
    rw [language_directories, ← Frame.push_push, ← language_anyDirectories]
    exact hcs _
  · have hfirst : ¬(c = '/' && 2 ≤ stars) = true := by simpa using hdirectories
    have hslash : stars < 2 ∨ (c :: cs).head? ≠ some '/' := by
      by_cases hc : c = '/'
      · exact .inl (Nat.lt_of_not_le fun hstars => hdirectories ⟨hc, hstars⟩)
      · exact .inr (by simpa using hc)
    obtain ⟨l, hmeaning, hdepth, hlanguage⟩ := charToken_spec hstar hopen hinside
    rw [language_stars (by simpa using hstar) hslash, hlanguage, ← Frame.push_push, ← Frame.push_push,
      List.cons_append, tokens, if_neg hstar, if_neg hfirst, meaning_starTokens, hmeaning, hdepth]
    exact hcs _

/-- Commas and what stands behind them up to the closing brace: the braces are one more part of what
is around them. -/
theorem meaning_others {depth : Nat} {others : List (List Char)}
    (h : ∀ text ∈ others, Reads (depth + 1) text) (rest : List Char) (parent : Frame)
    (outer : List Frame) (f : Frame) :
    meaning (tokens (others.flatMap (',' :: ·) ++ '\x7d' :: rest) 0 (depth + 1)) (parent :: outer) f =
      meaning (tokens rest 0 depth) outer
        (parent.push (f.language + (others.map language).sum)) := by
  induction others generalizing f with
  | nil =>
      rw [List.map_nil, List.sum_nil, add_zero]
      rfl
  | cons text others ih =>
      obtain ⟨htext, hothers⟩ := List.forall_mem_cons.1 h
      have hnext : (f.next.push (language text)).language = f.language + language text := by
        simp [Frame.next, Frame.push, Frame.language]
      calc meaning (tokens ((text :: others).flatMap (',' :: ·) ++ '\x7d' :: rest) 0 (depth + 1))
            (parent :: outer) f
          = meaning (tokens (text ++ (others.flatMap (',' :: ·) ++ '\x7d' :: rest)) 0 (depth + 1))
              (parent :: outer) f.next := by
            rw [List.flatMap_cons, List.cons_append, List.cons_append, List.append_assoc]
            rfl
        _ = meaning (tokens (others.flatMap (',' :: ·) ++ '\x7d' :: rest) 0 (depth + 1))
              (parent :: outer) (f.next.push (language text)) :=
            htext 0 _ (parent :: outer) f.next (endsStars_others others rest)
        _ = meaning (tokens rest 0 depth) outer
              (parent.push (f.language + ((text :: others).map language).sum)) := by
            rw [ih hothers, hnext, List.map_cons, List.sum_cons, add_assoc]

theorem reads_braces {depth : Nat} {b : Braces}
    (hclosed : ∀ text ∈ b.first :: b.others, Closed true text)
    (htexts : ∀ text ∈ b.first :: b.others, Reads (depth + 1) text) (hafter : Reads depth b.after) :
    Reads depth ('\x7b' :: b.text) := by
  intro stars rest outer f hrest
  obtain ⟨hfirst, hothers⟩ := List.forall_mem_cons.1 htexts
  have hbrace : EndsStars ('\x7b' :: b.text) := ⟨by simp, by simp⟩
  have halone : (Frame.start.push (language b.first)).language = language b.first := by
    simp [Frame.start, Frame.push, Frame.language]
  have htext : '\x7b' :: b.text ++ rest =
      '\x7b' :: (b.first ++ (b.others.flatMap (',' :: ·) ++ '\x7d' :: (b.after ++ rest))) := by
    simp [Braces.text]
  have hopen : tokens ('\x7b' :: b.text ++ rest) stars depth =
      starTokens stars ++ .openBrace :: tokens
        (b.first ++ (b.others.flatMap (',' :: ·) ++ '\x7d' :: (b.after ++ rest))) 0 (depth + 1) := by
    rw [htext]
    rfl
  rw [hopen, meaning_starTokens, meaning, hfirst 0 _ _ _ (endsStars_others _ _),
    meaning_others hothers, hafter 0 _ _ _ hrest, hbrace.language,
    language_braces (inBraces?_text hclosed), ← Frame.push_push, ← Frame.push_push]
  simp [halone]

/-- A text with closed braces adds its language to what was read before it. -/
theorem Closed.reads {inside : Bool} {text : List Char} (h : Closed inside text) (depth : Nat)
    (hinside : 0 < depth → inside = true) : Reads depth text := by
  induction h generalizing depth with
  | nil => exact reads_nil depth
  | char hopen hplain _ ih =>
      exact reads_char (ih depth hinside) hopen fun hdepth => hplain (hinside hdepth)
  | braces htexts _ ihTexts ihAfter =>
      exact reads_braces htexts (fun text htext => ihTexts text htext (depth + 1) fun _ => rfl)
        (ihAfter depth hinside)

/-! ## Braces that stay open -/

theorem depthAfter_charToken (c : Char) (depth : Nat) :
    (charToken depth c).depthAfter depth = depthAfter c depth := by
  by_cases hmark : c = '?'
  · subst hmark
    rfl
  by_cases hopen : c = '\x7b'
  · subst hopen
    rfl
  by_cases hclose : c = '\x7d'
  · subst hclose
    cases depth <;> rfl
  by_cases hcomma : c = ','
  · subst hcomma
    cases depth <;> rfl
  · simp [charToken, depthAfter, hmark, hopen, hclose, hcomma, Token.depthAfter]

/-- One token leads from some open braces to those that are open behind it. -/
theorem meaning_step (token : Token) (outer : List Frame) (f : Frame) :
    ∃ outer' f', outer'.length = token.depthAfter outer.length ∧
      ∀ rest, meaning (token :: rest) outer f = meaning rest outer' f' := by
  cases token with
  | openBrace => exact ⟨f :: outer, .start, rfl, fun _ => rfl⟩
  | closeBrace =>
      cases outer with
      | nil => exact ⟨[], f, rfl, fun _ => rfl⟩
      | cons parent outer => exact ⟨outer, parent.push f.language, rfl, fun _ => rfl⟩
  | comma => exact ⟨outer, f.next, rfl, fun _ => rfl⟩
  | _ => exact ⟨outer, f.push _, rfl, fun _ => rfl⟩

/-- A glob whose tokens have a meaning has closed braces. -/
theorem openAfter_of_meaning {cs : List Char} {stars : Nat} (outer : List Frame) {f : Frame}
    (h : (meaning (tokens cs stars outer.length) outer f).isSome) :
    openAfter cs outer.length = 0 := by
  induction cs generalizing stars outer f with
  | nil =>
      rw [tokens, ← List.append_nil (starTokens stars), meaning_starTokens] at h
      cases outer with
      | nil => rfl
      | cons parent outer => cases h
  | cons c cs ih =>
      unfold tokens at h
      split at h
      · next hstar =>
        subst hstar
        exact ih outer h
      · split at h
        · next hdirectories =>
          obtain rfl : c = '/' := by simpa using (Bool.and_eq_true_iff.1 hdirectories).1
          exact ih outer h
        · obtain ⟨outer', f', hlength, hstep⟩ :=
            meaning_step (charToken outer.length c) outer (f.push (starLanguage stars))
          rw [meaning_starTokens, hstep, ← hlength] at h
          have hrest := ih outer' h
          rwa [hlength, depthAfter_charToken] at hrest

/-! ## Notation -/

/-- What a token adds to the notation. -/
def Token.text : Token → List Char
  | .openBrace => ['(', '?', ':']
  | .closeBrace => [')']
  | .comma => ['|']
  | token => token.regex.text

/-- Commas and closing braces stand in braces only. -/
def Nested : (depth : Nat) → List Token → Prop
  | _, [] => True
  | depth, token :: rest =>
    (token = .closeBrace ∨ token = .comma → 0 < depth) ∧ Nested (token.depthAfter depth) rest

theorem nested_starTokens {depth : Nat} {toks : List Token} (stars : Nat) (h : Nested depth toks) :
    Nested depth (starTokens stars ++ toks) := by
  match stars with
  | 0 => exact h
  | 1 => exact ⟨by simp, h⟩
  | _ + 2 => exact ⟨by simp, h⟩

theorem pos_of_charToken {depth : Nat} {c : Char}
    (h : charToken depth c = .closeBrace ∨ charToken depth c = .comma) : 0 < depth := by
  by_contra hdepth
  obtain rfl : depth = 0 := Nat.eq_zero_of_not_pos hdepth
  unfold charToken at h
  split at h
  · simp at h
  · split at h <;> simp at h

theorem nested_tokens (cs : List Char) (stars depth : Nat) :
    Nested depth (tokens cs stars depth) := by
  induction cs generalizing stars depth with
  | nil =>
      rw [tokens, ← List.append_nil (starTokens stars)]
      exact nested_starTokens stars trivial
  | cons c cs ih =>
      unfold tokens
      split
      · exact ih (stars + 1) depth
      · split
        · exact ⟨by simp, ih 0 depth⟩
        · exact nested_starTokens stars ⟨pos_of_charToken, ih 0 _⟩

/-- What is written before the alternatives of the innermost of some open braces. -/
def openText : List Branches → List Char
  | [] => []
  | parent :: outer => openText outer ++ (parent.regex.text ++ Token.openBrace.text)

theorem Branches.text_push (b : Branches) (r : Regex) :
    (b.push r).regex.text = b.regex.text ++ r.text := by
  obtain ⟨complete, current⟩ := b
  cases complete with
  | none => rfl
  | some first => simp [push, regex, Regex.text]

/-- The expression of some tokens is written as they are, one after another. -/
theorem text_assemble {toks : List Token} (outer : List Branches) {b : Branches} {r : Regex}
    (hnested : Nested outer.length toks) (h : assemble toks outer b = some r) :
    r.text = openText outer ++ (b.regex.text ++ toks.flatMap Token.text) := by
  induction toks generalizing outer b with
  | nil =>
      cases outer with
      | nil =>
          obtain rfl := Option.some.inj h
          simp [openText]
      | cons parent outer => cases h
  | cons token rest ih =>
      obtain ⟨hinside, hrest⟩ := hnested
      cases token with
      | openBrace =>
          rw [ih (b :: outer) hrest h]
          simp [openText, Branches.start, Branches.regex, Regex.text]
      | closeBrace =>
          cases outer with
          | nil => exact absurd (hinside (.inl rfl)) (Nat.lt_irrefl 0)
          | cons parent outer =>
              rw [ih outer hrest h]
              simp [openText, Branches.text_push, Regex.text, Token.text]
      | comma =>
          rw [ih outer hrest h]
          simp [Branches.next, Branches.regex, Regex.text, Token.text]
      | _ =>
          rw [ih outer hrest h, Branches.text_push]
          simp [Token.text]

/-- No token is written with a repetition first, so none can be taken for one of what is before it. -/
theorem head?_text (toks : List Token) :
    (toks.flatMap Token.text ++ ['$']).head? ≠ some '*' ∧
      (toks.flatMap Token.text ++ ['$']).head? ≠ some '?' := by
  cases toks with
  | nil => simp
  | cons token rest =>
      cases token with
      | literal c =>
          by_cases hmeta : c ∈ Regex.metaChars
          · simp [Token.text, Token.regex, Regex.text, Regex.literalText, hmeta]
          · have hstar : c ≠ '*' := by
              rintro rfl
              exact hmeta (by decide)
            have hmark : c ≠ '?' := by
              rintro rfl
              exact hmeta (by decide)
            simp [Token.text, Token.regex, Regex.text, Regex.literalText, hmeta, hstar, hmark]
      | _ => simp [Token.text, Token.regex, Regex.text, Regex.classText]

/-- A character is written so that it stands for itself. -/
theorem denoteFrom_literalText (c : Char) (cs : List Char) (outer : List Frame) (f : Frame) :
    denoteFrom (Regex.literalText c ++ cs) outer f = denoteFrom cs outer (f.push {[c]}) := by
  unfold Regex.literalText
  split
  · next hmeta =>
    simp only [List.cons_append, List.nil_append]
    rw [denoteFrom, if_pos hmeta]
  · next hmeta =>
    -- All that the notation does not read as a character starts with one that has a meaning.
    have hplain : c ∉ Regex.metaChars := by simpa using hmeta
    simp only [Regex.metaChars, List.mem_cons, not_or] at hplain
    simp only [List.cons_append, List.nil_append]
    rw [denoteFrom, if_neg hmeta]
    all_goals simp [hplain]

theorem denoteFrom_anyDirectories (cs : List Char) (outer : List Frame) (f : Frame) :
    denoteFrom (Token.anyDirectories.text ++ cs) outer f =
      denoteFrom cs outer (f.push Token.anyDirectories.regex.language) := by
  have hgroup : ((Frame.start.push CharClass.notNewline.texts).push {['/']}).language =
      CharClass.notNewline.texts * {['/']} := by
    simp [Frame.start, Frame.push, Frame.language]
  calc denoteFrom (Token.anyDirectories.text ++ cs) outer f
      = denoteFrom (Regex.literalText '/' ++ ')' :: '?' :: cs) (f :: outer)
          (Frame.start.push CharClass.notNewline.texts) := rfl
    _ = denoteFrom cs outer (f.push Token.anyDirectories.regex.language) := by
        rw [denoteFrom_literalText, denoteFrom, hgroup]
        rfl

/-- The notation of some tokens has their meaning. -/
theorem denoteFrom_text {toks : List Token} (outer : List Frame) {f : Frame}
    (hnested : Nested outer.length toks) :
    denoteFrom (toks.flatMap Token.text ++ ['$']) outer f = meaning toks outer f := by
  induction toks generalizing outer f with
  | nil =>
      cases outer with
      | nil => rfl
      | cons parent outer => rfl
  | cons token rest ih =>
      obtain ⟨hinside, hrest⟩ := hnested
      obtain ⟨hstar, hmark⟩ := head?_text rest
      rw [List.flatMap_cons, List.append_assoc]
      generalize hcs : rest.flatMap Token.text ++ ['$'] = cs at ih hstar hmark ⊢
      cases token with
      | openBrace =>
          exact ih (f :: outer) hrest
      | closeBrace =>
          cases outer with
          | nil => exact absurd (hinside (.inl rfl)) (Nat.lt_irrefl 0)
          | cons parent outer =>
              rw [Token.text, List.singleton_append, denoteFrom]
              · exact ih outer hrest
              · rintro _ rfl
                exact hmark rfl
      | comma =>
          cases outer with
          | nil => exact absurd (hinside (.inr rfl)) (Nat.lt_irrefl 0)
          | cons parent outer => exact ih (parent :: outer) hrest
      | literal c =>
          show denoteFrom (Regex.literalText c ++ cs) outer f = _
          rw [denoteFrom_literalText]
          exact ih outer hrest
      | anyDirectories =>
          rw [denoteFrom_anyDirectories]
          exact ih outer hrest
      | anything =>
          show denoteFrom ('.' :: '*' :: cs) outer f = _
          rw [denoteFrom]
          exact ih outer hrest
      | anyName =>
          show denoteFrom ('[' :: '^' :: '/' :: ']' :: '*' :: cs) outer f = _
          rw [denoteFrom]
          exact ih outer hrest
      | anyChar =>
          show denoteFrom ('[' :: '^' :: '/' :: ']' :: cs) outer f = _
          rw [denoteFrom]
          · exact ih outer hrest
          · rintro _ rfl
            exact hstar rfl

/-! ## Globs -/

theorem toRegex?_of_matcher {glob : String} {r : Regex}
    (h : (Pattern.ofText glob).value.matcher = some r) : toRegex? glob.toList = some r := by
  unfold Pattern.ofText at h
  split at h
  · next r' hcompile =>
    obtain rfl : r' = r := Option.some.inj h
    simp only [compile] at hcompile
    split at hcompile
    · cases hcompile
    · split at hcompile
      · cases hcompile
      · split at hcompile
        · next hregex =>
          cases hcompile
          exact hregex
        · cases hcompile
  · simp at h

/-- The tokens of a glob whose braces are closed stand for its language. -/
theorem meaning_of_closed {cs : List Char} (h : Closed false cs) :
    meaning (tokens cs 0 0) [] .start = some (language cs) := by
  have hreads := h.reads 0 (by simp) 0 [] [] .start ⟨by simp, by simp⟩
  rw [List.append_nil] at hreads
  rw [hreads]
  simp [tokens, starTokens, meaning, Frame.start, Frame.push, Frame.language]

/-- The tokens of a glob, if they have a meaning, stand for its language. -/
theorem meaning_tokens {cs : List Char} (h : (meaning (tokens cs 0 0) [] .start).isSome) :
    meaning (tokens cs 0 0) [] .start = some (language cs) :=
  meaning_of_closed (closed_of_openAfter (openAfter_of_meaning [] h))

theorem language_toRegex? {cs : List Char} {r : Regex} (h : toRegex? cs = some r) :
    r.language = language (withoutDot cs) ∧
      denote r.anchoredText = some (language (withoutDot cs)) := by
  have hmeaning := map_assemble (tokens (withoutDot cs) 0 0) [] .start
  have hnested := nested_tokens (withoutDot cs) 0 0
  have hassemble : assemble (tokens (withoutDot cs) 0 0) [] .start = some r := h
  rw [hassemble] at hmeaning
  have hlanguage : some r.language = some (language (withoutDot cs)) := by
    rw [← meaning_tokens]
    · exact hmeaning
    · exact hmeaning ▸ rfl
  have htext : r.text = (tokens (withoutDot cs) 0 0).flatMap Token.text :=
    text_assemble [] hnested hassemble
  refine ⟨Option.some.inj hlanguage, ?_⟩
  rw [← hlanguage, Regex.anchoredText, htext, denote, denoteFrom_text [] hnested]
  exact hmeaning.symm

/-- A glob that is not rejected matches the paths of its language, from the first character to the
last, and its expression denotes that language as it is written. -/
theorem isMatch_iff_language {glob : String} {r : Regex}
    (h : (Pattern.ofText glob).value.matcher = some r) :
    (∀ path : String, (Pattern.ofText glob).value.isMatch path = true ↔
        path.toList ∈ language (withoutDot glob.toList)) ∧
      denote r.anchoredText = some (language (withoutDot glob.toList)) := by
  obtain ⟨hlanguage, hdenote⟩ := language_toRegex? (toRegex?_of_matcher h)
  refine ⟨fun path => ?_, hdenote⟩
  rw [Pattern.isMatch, h, ← hlanguage]
  exact Regex.isMatch_iff

theorem isMatch_iff_language_nested :
    "src/lib/bc1.tsx".toList ∈ language "src/**/\x7ba,\x7bb,\x7dc\x7d?.ts*".toList ∧
      "src/lib/b1.tsx".toList ∉ language "src/**/\x7ba,\x7bb,\x7dc\x7d?.ts*".toList ∧
      denote "^src/(?:.*/)?(?:a|(?:b|)c)[^/]\\.ts[^/]*$".toList =
        some (language "src/**/\x7ba,\x7bb,\x7dc\x7d?.ts*".toList) := by
  have hmatcher : (Pattern.ofText "./src/**/\x7ba,\x7bb,\x7dc\x7d?.ts*").value.matcher.map
      Regex.anchoredText = some "^src/(?:.*/)?(?:a|(?:b|)c)[^/]\\.ts[^/]*$".toList := by
    decide +kernel
  obtain ⟨r, hr, htext⟩ := Option.map_eq_some_iff.1 hmatcher
  have hdot : withoutDot "./src/**/\x7ba,\x7bb,\x7dc\x7d?.ts*".toList =
      "src/**/\x7ba,\x7bb,\x7dc\x7d?.ts*".toList := by
    decide +kernel
  obtain ⟨hmatch, hdenote⟩ := isMatch_iff_language hr
  rw [hdot] at hmatch hdenote
  refine ⟨(hmatch "src/lib/bc1.tsx").1 (by decide +kernel), ?_, htext ▸ hdenote⟩
  intro hmem
  exact absurd ((hmatch "src/lib/b1.tsx").2 hmem) (by decide +kernel)

end OriginTags.Glob
