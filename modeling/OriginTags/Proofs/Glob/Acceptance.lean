import OriginTags.Proofs.Glob.Compile
import OriginTags.Proofs.Text.Bytes
import Mathlib.Data.List.Destutter
/-!
# Accepted globs

The limits of a glob, each said about its text as a whole: how long it is, how many wildcards are left
once every run of stars is a single star, and where each of its braces is closed. A glob is accepted
if it keeps to them and its bytes are as few as its characters may be. A file passes the filters by
the accepted globs alone.
-/

namespace OriginTags.Glob

/-! ## Wildcards -/

/-- The number of wildcards of a text in which every run of stars is shortened to one star. -/
def wildcards (cs : List Char) : Nat :=
  (cs.destutter fun a b => ¬(a = '*' ∧ b = '*')).countP fun c => c = '*' ∨ c = '?'

/-- The counter goes on behind a character as the shortened text does. -/
theorem countP_destutter' (c : Char) (cs : List Char) :
    (cs.destutter' (fun a b => ¬(a = '*' ∧ b = '*')) c).countP (fun c => c = '*' ∨ c = '?') =
      (if c = '*' ∨ c = '?' then 1 else 0) + countWildcards cs (c = '*') := by
  induction cs generalizing c with
  | nil => by_cases hc : c = '*' ∨ c = '?' <;> simp [countWildcards, hc]
  | cons next cs ih =>
      by_cases hrun : c = '*' ∧ next = '*'
      · -- The run goes on, so its star is not kept.
        obtain ⟨rfl, rfl⟩ := hrun
        rw [List.destutter'_cons_neg _ (by simp), ih]
        simp [countWildcards]
      · rw [List.destutter'_cons_pos _ hrun, List.countP_cons, ih]
        by_cases hstar : next = '*'
        · have hc : c ≠ '*' := fun hc => hrun ⟨hc, hstar⟩
          simp [countWildcards, hstar, hc]
          omega
        · by_cases hmark : next = '?' <;> simp [countWildcards, hstar, hmark] <;> omega

theorem countWildcards_eq (cs : List Char) : countWildcards cs false = wildcards cs := by
  cases cs with
  | nil => rfl
  | cons c cs =>
      rw [wildcards, List.destutter_cons', countP_destutter']
      by_cases hstar : c = '*'
      · simp [countWildcards, hstar]
      · by_cases hmark : c = '?' <;> simp [countWildcards, hstar, hmark]

/-! ## Closed braces -/

/-- Behind every opening brace stands a closing one, and as many braces are opened as closed between
them. -/
def BracesClosed (cs : List Char) : Prop :=
  ∀ before after, cs = before ++ '\x7b' :: after →
    ∃ inner rest, after = inner ++ '\x7d' :: rest ∧ inner.count '\x7b' = inner.count '\x7d'

theorem BracesClosed.suffix {a cs : List Char} (h : BracesClosed cs) (hsuffix : a <:+ cs) :
    BracesClosed a := by
  obtain ⟨lead, rfl⟩ := hsuffix
  rintro before after rfl
  exact h (lead ++ before) after (List.append_assoc lead before _).symm

theorem openAfter_append (a b : List Char) (depth : Nat) :
    openAfter (a ++ b) depth = openAfter b (openAfter a depth) := by
  induction a generalizing depth with
  | nil => rfl
  | cons c a ih => exact ih (depthAfter c depth)

theorem count_others {others : List (List Char)}
    (h : ∀ text ∈ others, text.count '\x7b' = text.count '\x7d') :
    (others.flatMap (',' :: ·)).count '\x7b' = (others.flatMap (',' :: ·)).count '\x7d' := by
  rw [List.count_flatMap, List.count_flatMap]
  refine congrArg List.sum (List.map_congr_left fun text htext => ?_)
  simpa using h text htext

/-- An alternative opens as many braces as it closes. -/
theorem Closed.count_eq {inside : Bool} {text : List Char} (h : Closed inside text)
    (hinside : inside = true) : text.count '\x7b' = text.count '\x7d' := by
  induction h with
  | nil => rfl
  | char hopen hplain _ ih =>
      simpa [List.count_cons, hopen, (hplain hinside).2] using ih hinside
  | @braces _ b _ _ ihTexts ihAfter =>
      obtain ⟨hfirst, hothers⟩ := List.forall_mem_cons.1 ihTexts
      have hothers := count_others fun text htext => hothers text htext rfl
      simp [Braces.text, hfirst rfl, hothers, ihAfter hinside]
      omega

/-- A text that closes `k` braces more than it opens and then one more has come below them somewhere
on its way. -/
theorem exists_below {inner : List Char} {k : Nat} (rest : List Char) (depth : Nat)
    (h : inner.count '\x7d' = inner.count '\x7b' + k) :
    ∃ a b, inner ++ '\x7d' :: rest = a ++ b ∧ openAfter a (depth + k + 1) = depth := by
  induction inner generalizing k with
  | nil =>
      obtain rfl : k = 0 := by simpa using h.symm
      exact ⟨['\x7d'], rest, rfl, rfl⟩
  | cons c inner ih =>
      by_cases hopen : c = '\x7b'
      · subst hopen
        have hcount : inner.count '\x7d' = inner.count '\x7b' + (k + 1) := by
          simp at h
          omega
        obtain ⟨a, b, hsplit, hbelow⟩ := ih hcount
        exact ⟨'\x7b' :: a, b, congrArg ('\x7b' :: ·) hsplit, hbelow⟩
      by_cases hclose : c = '\x7d'
      · subst hclose
        cases k with
        | zero => exact ⟨['\x7d'], inner ++ '\x7d' :: rest, rfl, rfl⟩
        | succ k =>
            have hcount : inner.count '\x7d' = inner.count '\x7b' + k := by
              simp at h
              omega
            obtain ⟨a, b, hsplit, hbelow⟩ := ih hcount
            exact ⟨'\x7d' :: a, b, congrArg ('\x7d' :: ·) hsplit, hbelow⟩
      · have hcount : inner.count '\x7d' = inner.count '\x7b' + k := by
          simpa [List.count_cons, hopen, hclose] using h
        obtain ⟨a, b, hsplit, hbelow⟩ := ih hcount
        refine ⟨c :: a, b, congrArg (c :: ·) hsplit, ?_⟩
        simpa [openAfter, depthAfter, hopen, hclose] using hbelow

/-- Where every brace is closed, none is open behind the text that was not open before it. -/
theorem BracesClosed.openAfter_le : ∀ {cs : List Char} (_ : BracesClosed cs) (depth : Nat),
    openAfter cs depth ≤ depth
  | [], _, depth => Nat.le_refl depth
  | c :: cs, h, depth => by
      by_cases hopen : c = '\x7b'
      · -- Past its closing brace, the rest of the text stands where this brace stood.
        subst hopen
        obtain ⟨inner, rest, hafter, hcount⟩ := h [] cs rfl
        obtain ⟨a, b, hsplit, hbelow⟩ := exists_below (k := 0) rest depth hcount.symm
        have hcs : cs = a ++ b := hafter.trans hsplit
        have hshorter : b.length ≤ cs.length := by simp [hcs]
        have hclosed : BracesClosed b := h.suffix ⟨'\x7b' :: a, congrArg ('\x7b' :: ·) hcs.symm⟩
        show openAfter cs (depth + 1) ≤ depth
        rw [hcs, openAfter_append, hbelow]
        exact hclosed.openAfter_le depth
      · have hdepth : depthAfter c depth ≤ depth := by
          unfold depthAfter
          split <;> [contradiction; split] <;> omega
        have hclosed : BracesClosed cs := h.suffix (List.suffix_cons c cs)
        exact Nat.le_trans (hclosed.openAfter_le (depthAfter c depth)) hdepth
termination_by cs => cs.length

theorem bracesClosed_iff {cs : List Char} : BracesClosed cs ↔ openAfter cs 0 = 0 := by
  constructor
  · intro h
    exact Nat.le_zero.1 (h.openAfter_le 0)
  · rintro h before after rfl
    rw [openAfter_append] at h
    obtain ⟨b, rfl, htexts, -⟩ := exists_braces_of_openAfter after (openAfter before 0) h
    obtain ⟨hfirst, hothers⟩ := List.forall_mem_cons.1 htexts
    refine ⟨b.first ++ b.others.flatMap (',' :: ·), b.after, by simp [Braces.text], ?_⟩
    rw [List.count_append, List.count_append, hfirst.count_eq rfl,
      count_others fun text htext => (hothers text htext).count_eq rfl]

/-! ## Accepted globs -/

theorem openAfter_withoutDot (cs : List Char) : openAfter (withoutDot cs) 0 = openAfter cs 0 := by
  unfold withoutDot
  split <;> rfl

/-- A glob has an expression exactly if its braces are closed. -/
theorem isSome_toRegex? {cs : List Char} : (toRegex? cs).isSome ↔ BracesClosed cs := by
  have hmeaning := map_assemble (tokens (withoutDot cs) 0 0) [] .start
  have hsome := congrArg Option.isSome hmeaning
  rw [Option.isSome_map] at hsome
  rw [bracesClosed_iff, ← openAfter_withoutDot]
  constructor
  · intro h
    exact openAfter_of_meaning [] (hsome ▸ h)
  · intro h
    show (assemble _ [] .start).isSome
    rw [hsome]
    exact (congrArg Option.isSome (meaning_of_closed (closed_of_openAfter h))).trans rfl

/-- A glob is compiled. -/
def Accepted (glob : String) : Prop := (Pattern.ofText glob).value.matcher.isSome

/-- The limits of a glob. -/
structure KeepsLimits (cs : List Char) : Prop where
  length_le : cs.length ≤ 200
  wildcards_le : wildcards cs ≤ 10
  closed : BracesClosed cs

theorem matcher_ofText (glob : String) :
    (Pattern.ofText glob).value.matcher = (compile glob).toOption := by
  unfold Pattern.ofText
  cases compile glob <;> rfl

theorem accepted_iff {glob : String} :
    Accepted glob ↔ KeepsLimits glob.toList ∧ Text.byteSize glob.toList ≤ 200 := by
  have hlength := Text.length_le_byteSize glob.toList
  rw [Accepted, matcher_ofText]
  simp only [compile, countWildcards_eq]
  by_cases hbytes : maxBytes < Text.byteSize glob.toList
  · have hlong : ¬Text.byteSize glob.toList ≤ 200 := Nat.not_le_of_lt hbytes
    simp [hbytes, hlong, Except.toOption]
  have hshort : Text.byteSize glob.toList ≤ 200 := Nat.le_of_not_lt hbytes
  by_cases hwildcards : maxWildcards < wildcards glob.toList
  · have hmany : ¬KeepsLimits glob.toList := fun h => Nat.not_le_of_lt hwildcards h.wildcards_le
    simp [hbytes, hwildcards, hmany, Except.toOption]
  have hfew : wildcards glob.toList ≤ 10 := Nat.le_of_not_lt hwildcards
  have hlimits : KeepsLimits glob.toList ↔ BracesClosed glob.toList :=
    ⟨KeepsLimits.closed, fun h => ⟨hlength.trans hshort, hfew, h⟩⟩
  rw [if_neg hbytes, if_neg hwildcards, hlimits, ← isSome_toRegex?]
  cases toRegex? glob.toList <;> simp [Except.toOption, hshort]

theorem isMatch_iff_accepted {glob path : String} :
    (Pattern.ofText glob).value.isMatch path = true ↔
      Accepted glob ∧ path.toList ∈ language (withoutDot glob.toList) := by
  unfold Pattern.isMatch Accepted
  split
  · next r hmatcher =>
    rw [hmatcher, ← (language_toRegex? (toRegex?_of_matcher hmatcher)).1, Regex.isMatch_iff]
    simp
  · next hnone => simp [hnone]

/-! ## Filters -/

/-- Each glob is compiled on its own. -/
theorem value_compileAll (globs : List String) :
    (compileAll globs).value = globs.map fun glob => (Pattern.ofText glob).value := by
  induction globs with
  | nil => rfl
  | cons glob globs ih => exact congrArg ((Pattern.ofText glob).value :: ·) ih

/-- Some spelling of a path is named by one of some globs that is accepted. -/
def SomeNamed (candidates globs : List String) : Prop :=
  ∃ path ∈ candidates, ∃ glob ∈ globs,
    Accepted glob ∧ path.toList ∈ language (withoutDot glob.toList)

theorem any_anyMatch_iff {candidates globs : List String} :
    candidates.any (anyMatch (compileAll globs).value) = true ↔ SomeNamed candidates globs := by
  simp only [List.any_eq_true, anyMatch, value_compileAll, List.any_map, Function.comp_apply,
    isMatch_iff_accepted, SomeNamed]

/-- A glob is accepted if it keeps to its limits and has no more bytes than it may have characters.
One that is rejected names no path and leaves the others as they are: a file passes the filters if
there are no included globs or one that is accepted names it, and none that is accepted excludes
it. -/
theorem shouldProcess_iff_accepted (glob path : String) (candidates includes excludes : List String) :
    (Accepted glob ↔ KeepsLimits glob.toList ∧ Text.byteSize glob.toList ≤ 200) ∧
    ((Pattern.ofText glob).value.isMatch path = true ↔
      Accepted glob ∧ path.toList ∈ language (withoutDot glob.toList)) ∧
    (shouldProcess candidates (compileAll includes).value (compileAll excludes).value = true ↔
      (includes = [] ∨ SomeNamed candidates includes) ∧ ¬SomeNamed candidates excludes) := by
  have hempty : (compileAll includes).value.isEmpty = true ↔ includes = [] := by
    rw [value_compileAll, List.isEmpty_iff, List.map_eq_nil_iff]
  refine ⟨accepted_iff, isMatch_iff_accepted, ?_⟩
  rw [shouldProcess, Bool.and_eq_true, Bool.or_eq_true, hempty, any_anyMatch_iff,
    Bool.not_eq_true', ← Bool.not_eq_true, any_anyMatch_iff]

/-- A hundred and one characters are few enough, but not if each of them has two bytes. -/
theorem rejects_two_byte_characters :
    KeepsLimits (List.replicate 101 'é') ∧ ¬Accepted (String.ofList (List.replicate 101 'é')) := by
  have hbytes : ¬Text.byteSize (List.replicate 101 'é') ≤ 200 := by decide +kernel
  refine ⟨⟨by simp, ?_, ?_⟩, ?_⟩
  · rw [← countWildcards_eq]
    decide +kernel
  · intro before after hsplit
    have hbrace : '\x7b' ∈ List.replicate 101 'é' := hsplit ▸ by simp
    exact absurd (List.eq_of_mem_replicate hbrace) (by decide)
  · rw [accepted_iff, String.toList_ofList]
    exact fun h => hbytes h.2

end OriginTags.Glob
