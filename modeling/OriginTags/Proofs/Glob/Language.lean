import OriginTags.Proofs.Glob.Regex
/-!
# What globs mean

The language of a glob, said by recursion on its text: what a run of stars, a question mark, a pair of
braces and any other character stands for. A text whose braces are all closed is made of characters
and of braces with such texts in them, and what stands in its braces is found as it is written.
-/

namespace OriginTags.Glob

/-! ## Braces -/

/-- What stands in braces: the texts between its commas, the first one apart, and what follows. -/
structure Braces where
  first : List Char
  others : List (List Char)
  after : List Char

/-- One more character before the first text. -/
def Braces.grow (c : Char) (b : Braces) : Braces := { b with first := c :: b.first }

/-- The number of open braces after a character. -/
def depthAfter (c : Char) (depth : Nat) : Nat :=
  if c = '\x7b' then depth + 1 else if c = '\x7d' then depth - 1 else depth

/-- What stands in braces that were opened just before, and are inside of no others; `depth` counts
the braces inside of them that are open. Nothing if the braces are not closed. -/
def inBraces? : List Char → (depth : Nat) → Option Braces
  | [], _ => none
  | c :: cs, depth =>
    if c = '\x7d' ∧ depth = 0 then some ⟨[], [], cs⟩
    else if c = ',' ∧ depth = 0 then
      (inBraces? cs 0).map fun b => ⟨[], b.first :: b.others, b.after⟩
    else (inBraces? cs (depthAfter c depth)).map (Braces.grow c)

theorem length_inBraces? {cs : List Char} {depth : Nat} {b : Braces}
    (h : inBraces? cs depth = some b) :
    (∀ text ∈ b.first :: b.others, text.length ≤ cs.length) ∧ b.after.length ≤ cs.length := by
  induction cs generalizing depth b with
  | nil => cases h
  | cons c cs ih =>
      unfold inBraces? at h
      split at h
      · cases h
        simp
      · split at h
        · obtain ⟨b, hb, rfl⟩ := Option.map_eq_some_iff.1 h
          obtain ⟨htexts, hafter⟩ := ih hb
          refine ⟨fun text htext => ?_, Nat.le_succ_of_le hafter⟩
          rcases List.mem_cons.1 htext with rfl | htext
          · exact Nat.zero_le _
          · exact Nat.le_succ_of_le (htexts text htext)
        · obtain ⟨b, hb, rfl⟩ := Option.map_eq_some_iff.1 h
          obtain ⟨htexts, hafter⟩ := ih hb
          refine ⟨fun text htext => ?_, Nat.le_succ_of_le hafter⟩
          rcases List.mem_cons.1 htext with rfl | htext
          · exact Nat.succ_le_succ (htexts b.first List.mem_cons_self)
          · exact Nat.le_succ_of_le (htexts text (List.mem_cons_of_mem _ htext))

/-! ## Languages -/

/-- All texts without a line feed. -/
def anyText : Language Char := {w | '\n' ∉ w}

/-- All texts without a slash. -/
def anyName : Language Char := {w | '/' ∉ w}

/-- All characters but the slash. -/
def anyChar : Language Char := {w | ∃ c, c ≠ '/' ∧ w = [c]}

/-- Directories: nothing, or a text without a line feed and a slash behind it. -/
def anyDirectories : Language Char := 1 + anyText * {['/']}

/-- The paths that a glob names, once a leading `./` is gone. -/
def language : List Char → Language Char
  | [] => 1
  -- A longer run of stars says no more than two of them.
  | '*' :: '*' :: '*' :: cs => language ('*' :: '*' :: cs)
  | '*' :: '*' :: '/' :: cs => anyDirectories * language cs
  | '*' :: '*' :: cs => anyText * language cs
  | '*' :: cs => anyName * language cs
  | '?' :: cs => anyChar * language cs
  | '\x7b' :: cs =>
    match _h : inBraces? cs 0 with
    | some b =>
      ((b.first :: b.others).attach.map fun text => language text.1).sum * language b.after
    | none => 0
  | c :: cs => {[c]} * language cs
termination_by cs => cs.length
decreasing_by
  all_goals simp only [List.length_cons]
  any_goals omega
  · exact Nat.lt_succ_of_le ((length_inBraces? _h).1 text.1 text.2)
  · exact Nat.lt_succ_of_le (length_inBraces? _h).2

theorem language_braces {cs : List Char} {b : Braces} (h : inBraces? cs 0 = some b) :
    language ('\x7b' :: cs) = ((b.first :: b.others).map language).sum * language b.after := by
  rw [language]
  split
  · next b' hb' =>
    obtain rfl := Option.some.inj (hb'.symm.trans h)
    rw [List.attach_map_val]
  · next hnone => exact absurd (hnone.symm.trans h) (by simp)

/-- A character that means nothing else stands for itself. -/
theorem language_char {c : Char} (hstar : c ≠ '*') (hmark : c ≠ '?') (hbrace : c ≠ '\x7b')
    (cs : List Char) : language (c :: cs) = {[c]} * language cs := by
  rw [language] <;> simp [hstar, hmark, hbrace]

/-! ## Runs of stars -/

/-- What a run of stars stands for that no slash follows. -/
def starLanguage : Nat → Language Char
  | 0 => 1
  | 1 => anyName
  | _ + 2 => anyText

theorem language_directories (n : Nat) (cs : List Char) :
    language (List.replicate (n + 2) '*' ++ '/' :: cs) = anyDirectories * language cs := by
  induction n with
  | zero => simp [List.replicate, language]
  | succ n ih =>
      rw [← ih]
      simp only [List.replicate, List.cons_append]
      rw [language]

theorem language_stars {n : Nat} {cs : List Char} (hstar : cs.head? ≠ some '*')
    (hslash : n < 2 ∨ cs.head? ≠ some '/') :
    language (List.replicate n '*' ++ cs) = starLanguage n * language cs := by
  match n with
  | 0 => simp [starLanguage]
  | 1 =>
      simp only [List.replicate, List.cons_append, List.nil_append, starLanguage]
      rw [language]
      all_goals
        rintro _ rfl
        simp at hstar
  | n + 2 =>
      induction n with
      | zero =>
          simp only [List.replicate, List.cons_append, List.nil_append, starLanguage]
          rw [language]
          · rintro _ rfl
            simp at hstar
          · rintro _ rfl
            simp at hslash
      | succ n ih =>
          have hshorter := ih (.inr (hslash.resolve_left (by omega)))
          rw [show starLanguage (n + 1 + 2) = starLanguage (n + 2) from rfl, ← hshorter]
          simp only [List.replicate, List.cons_append]
          rw [language]

/-! ## Texts with closed braces -/

/-- What stands in braces as it is written, behind the opening brace. -/
def Braces.text (b : Braces) : List Char :=
  b.first ++ (b.others.flatMap (',' :: ·) ++ '\x7d' :: b.after)

theorem Braces.length_after_lt (b : Braces) : b.after.length < b.text.length := by
  simp only [text, List.length_append, List.length_cons]
  omega

/-- A text whose braces are closed. Inside of other braces it is one of their alternatives, and has
no comma and no closing brace of its own. -/
inductive Closed : (inside : Bool) → List Char → Prop
  | nil {inside : Bool} : Closed inside []
  | char {inside : Bool} {c : Char} {cs : List Char} (hopen : c ≠ '\x7b')
      (hinside : inside = true → c ≠ ',' ∧ c ≠ '\x7d') (hrest : Closed inside cs) :
      Closed inside (c :: cs)
  | braces {inside : Bool} {b : Braces} (htexts : ∀ text ∈ b.first :: b.others, Closed true text)
      (hafter : Closed inside b.after) : Closed inside ('\x7b' :: b.text)

/-- The number of braces that are open after a text. -/
def openAfter : List Char → (depth : Nat) → Nat
  | [], depth => depth
  | c :: cs, depth => openAfter cs (depthAfter c depth)

/-- Behind a brace that is closed stand alternatives. -/
theorem exists_braces_of_openAfter : ∀ (cs : List Char) (depth : Nat),
    openAfter cs (depth + 1) = 0 →
    ∃ b : Braces, cs = b.text ∧ (∀ text ∈ b.first :: b.others, Closed true text) ∧
      openAfter b.after depth = 0
  | [], depth, h => absurd h (by simp [openAfter])
  | c :: cs, depth, h => by
      by_cases hclose : c = '\x7d'
      · subst hclose
        exact ⟨⟨[], [], cs⟩, rfl, by simp [Closed.nil], h⟩
      by_cases hcomma : c = ','
      · subst hcomma
        obtain ⟨b, rfl, htexts, hafter⟩ := exists_braces_of_openAfter cs depth h
        refine ⟨⟨[], b.first :: b.others, b.after⟩, by simp [Braces.text], ?_, hafter⟩
        exact List.forall_mem_cons.2 ⟨.nil, htexts⟩
      by_cases hopen : c = '\x7b'
      · -- The braces that open here are closed first, and then those around them.
        subst hopen
        obtain ⟨inner, rfl, hinner, hmiddle⟩ := exists_braces_of_openAfter cs (depth + 1) h
        have hshorter := inner.length_after_lt
        obtain ⟨b, hb, htexts, hafter⟩ := exists_braces_of_openAfter inner.after depth hmiddle
        obtain ⟨hfirst, hothers⟩ := List.forall_mem_cons.1 htexts
        refine ⟨⟨'\x7b' :: Braces.text { inner with after := b.first }, b.others, b.after⟩, ?_, ?_,
          hafter⟩
        · simp [Braces.text, hb]
        · exact List.forall_mem_cons.2 ⟨.braces hinner hfirst, hothers⟩
      · have hdepth : openAfter cs (depth + 1) = 0 := by
          simpa [openAfter, depthAfter, hopen, hclose] using h
        obtain ⟨b, rfl, htexts, hafter⟩ := exists_braces_of_openAfter cs depth hdepth
        obtain ⟨hfirst, hothers⟩ := List.forall_mem_cons.1 htexts
        refine ⟨b.grow c, by simp [Braces.text, Braces.grow], ?_, hafter⟩
        exact List.forall_mem_cons.2 ⟨.char hopen (fun _ => ⟨hcomma, hclose⟩) hfirst, hothers⟩
termination_by cs => cs.length

theorem closed_of_openAfter : ∀ {cs : List Char}, openAfter cs 0 = 0 → Closed false cs
  | [], _ => .nil
  | c :: cs, h => by
      by_cases hopen : c = '\x7b'
      · subst hopen
        obtain ⟨b, rfl, htexts, hafter⟩ := exists_braces_of_openAfter cs 0 h
        have hshorter := b.length_after_lt
        exact .braces htexts (closed_of_openAfter hafter)
      · have hdepth : openAfter cs 0 = 0 := by
          simpa [openAfter, depthAfter, hopen] using h
        exact .char hopen (by simp) (closed_of_openAfter hdepth)
termination_by cs => cs.length

/-- More text before the first one. -/
def Braces.prepend (text : List Char) (b : Braces) : Braces := { b with first := text ++ b.first }

/-- A search for the end of braces passes over a text. -/
def Passes (text : List Char) (depth : Nat) : Prop :=
  ∀ rest, inBraces? (text ++ rest) depth = (inBraces? rest depth).map (Braces.prepend text)

theorem passes_nil (depth : Nat) : Passes [] depth := by
  intro rest
  exact Option.map_id'.symm

theorem Passes.append {first second : List Char} {depth : Nat} (hfirst : Passes first depth)
    (hsecond : Passes second depth) : Passes (first ++ second) depth := by
  intro rest
  rw [List.append_assoc, hfirst, hsecond, Option.map_map]
  congr 1
  funext b
  simp [Braces.prepend]

theorem passes_char {c : Char} (depth : Nat) (hopen : c ≠ '\x7b') (hclose : c ≠ '\x7d')
    (hcomma : c ≠ ',' ∨ 0 < depth) : Passes [c] depth := by
  intro rest
  have hdepth : depthAfter c depth = depth := by simp [depthAfter, hopen, hclose]
  have hseparator : ¬ (c = ',' ∧ depth = 0) := by
    rintro ⟨rfl, rfl⟩
    exact hcomma.elim (absurd rfl) (Nat.lt_irrefl 0)
  rw [List.singleton_append, inBraces?, if_neg (fun h => hclose h.1), if_neg hseparator, hdepth]
  rfl

theorem passes_braces {text : List Char} {depth : Nat} (h : Passes text (depth + 1)) :
    Passes ('\x7b' :: (text ++ ['\x7d'])) depth := by
  intro rest
  have hopen : inBraces? ('\x7b' :: (text ++ '\x7d' :: rest)) depth =
      (inBraces? (text ++ '\x7d' :: rest) (depth + 1)).map (Braces.grow '\x7b') := by
    simp [inBraces?, depthAfter]
  have hclose : inBraces? ('\x7d' :: rest) (depth + 1) =
      (inBraces? rest depth).map (Braces.grow '\x7d') := by
    simp [inBraces?, depthAfter]
  rw [List.cons_append, List.append_assoc, List.singleton_append, hopen, h, hclose, Option.map_map,
    Option.map_map]
  congr 1
  funext b
  simp [Braces.prepend, Braces.grow]

theorem passes_others {others : List (List Char)} {depth : Nat}
    (h : ∀ text ∈ others, Passes text (depth + 1)) :
    Passes (others.flatMap (',' :: ·)) (depth + 1) := by
  induction others with
  | nil => exact passes_nil _
  | cons text others ih =>
      obtain ⟨htext, hothers⟩ := List.forall_mem_cons.1 h
      have hcomma : Passes [','] (depth + 1) :=
        passes_char (depth + 1) (by decide) (by decide) (.inr (Nat.succ_pos depth))
      exact (hcomma.append htext).append (ih hothers)

/-- An alternative is passed over, at whatever depth. -/
theorem Closed.passes {inside : Bool} {text : List Char} (h : Closed inside text)
    (hinside : inside = true) (depth : Nat) : Passes text depth := by
  induction h generalizing depth with
  | nil => exact passes_nil depth
  | char hopen hplain _ ih =>
      have hchar := passes_char depth hopen (hplain hinside).2 (.inl (hplain hinside).1)
      exact hchar.append (ih hinside depth)
  | @braces _ b _ _ ihTexts ihAfter =>
      obtain ⟨hfirst, hothers⟩ := List.forall_mem_cons.1 ihTexts
      have hpasses := passes_braces ((hfirst rfl (depth + 1)).append
        (passes_others fun text htext => hothers text htext rfl (depth + 1)))
      have htext : '\x7b' :: b.text =
          '\x7b' :: ((b.first ++ b.others.flatMap (',' :: ·)) ++ ['\x7d']) ++ b.after := by
        simp [Braces.text]
      rw [htext]
      exact hpasses.append (ihAfter hinside depth)

theorem inBraces?_others {others : List (List Char)} (h : ∀ text ∈ others, Closed true text)
    (after : List Char) :
    inBraces? (others.flatMap (',' :: ·) ++ '\x7d' :: after) 0 = some ⟨[], others, after⟩ := by
  induction others with
  | nil => rfl
  | cons text others ih =>
      obtain ⟨htext, hothers⟩ := List.forall_mem_cons.1 h
      have hpasses := htext.passes rfl 0 (others.flatMap (',' :: ·) ++ '\x7d' :: after)
      rw [ih hothers] at hpasses
      simp [inBraces?, hpasses, Braces.prepend]

/-- Braces with closed alternatives are read as they are written. -/
theorem inBraces?_text {b : Braces} (h : ∀ text ∈ b.first :: b.others, Closed true text) :
    inBraces? b.text 0 = some b := by
  obtain ⟨hfirst, hothers⟩ := List.forall_mem_cons.1 h
  rw [Braces.text, hfirst.passes rfl 0, inBraces?_others hothers]
  simp [Braces.prepend]

end OriginTags.Glob
