import OriginTags.Proofs.Markup.Standing
import OriginTags.Tsx.Parser
/-!
# Parsers that read forward

A parser that succeeds has moved the cursor forward, and the markup that it met stands, in order,
between the place where it began and the place where it stopped. The property is a class, so that it
is found for a parser that is put together from others in the ways of this library.
-/

namespace OriginTags.Tsx

open Markup (Tree StandIn)

/-! ## Cursors -/

/-- A cursor comes after another one, and the markup that was met in between stands between two
places. -/
structure Cursor.Met (before after : Cursor) (front rest : List Char) : Prop where
  valid : after.lexeme.Valid
  size : after.size = before.size
  markup : ∃ trees, after.markup = trees.reverse ++ before.markup ∧
    StandIn before.size trees front rest

namespace Cursor.Met

variable {a b c : Cursor} {front mid rest : List Char}

theorem refl (h : a.lexeme.Valid) : a.Met a a.lexeme.here a.lexeme.here :=
  ⟨h, rfl, [], rfl, List.suffix_rfl⟩

theorem trans (hab : a.Met b front mid) (hbc : b.Met c mid rest) : a.Met c front rest := by
  obtain ⟨first, hfirst, hstand⟩ := hab.markup
  obtain ⟨second, hsecond, hstand'⟩ := hbc.markup
  refine ⟨hbc.valid, hbc.size.trans hab.size, first ++ second, ?_, ?_⟩
  · rw [hsecond, hfirst, List.reverse_append, List.append_assoc]
  · rw [hab.size] at hstand'
    exact hstand.append hstand'

theorem suffix (h : a.Met b front rest) : rest <:+ front := by
  obtain ⟨trees, -, hstand⟩ := h.markup
  exact hstand.suffix

theorem of_suffix_rest {further : List Char} (hfurther : further <:+ rest) (h : a.Met b front rest) :
    a.Met b front further := by
  obtain ⟨trees, htrees, hstand⟩ := h.markup
  exact ⟨h.valid, h.size, trees, htrees, hstand.of_suffix_rest hfurther⟩

/-- Nothing was met on the way to a lexeme further on. -/
theorem of_lexeme (hlexeme : b.lexeme.Valid) (hsize : b.size = a.size) (hmarkup : b.markup = a.markup)
    (hrest : rest <:+ front) : a.Met b front rest :=
  ⟨hlexeme, hsize, [], by simpa using hmarkup, hrest⟩

end Cursor.Met

/-! ## Parsers -/

namespace Parser

variable {α β : Type}

/-- Whatever comes of a parser from a cursor on. -/
def ReadsAt (p : Parser α) (c : Cursor) : Prop :=
  ∀ known a c' known', c.lexeme.Valid → p c known = (some (a, c'), known') →
    c.Met c' c.lexeme.here c'.lexeme.here

/-- A parser only moves forward, and what it meets stands on its way. -/
class Reads (p : Parser α) : Prop where
  readsAt : ∀ c, p.ReadsAt c

theorem met_of_reads {p : Parser α} [hp : p.Reads] {c c' : Cursor} {known known' : Known} {a : α}
    (hc : c.lexeme.Valid) (h : p c known = (some (a, c'), known')) :
    c.Met c' c.lexeme.here c'.lexeme.here :=
  hp.readsAt c known a c' known' hc h

theorem ReadsAt.of_valid {p : Parser α} {c : Cursor} (h : c.lexeme.Valid → p.ReadsAt c) :
    p.ReadsAt c :=
  fun known a c' known' hc => h hc known a c' known' hc

theorem bind_eq_some {p : Parser α} {f : α → Parser β} {c c' : Cursor} {known known' : Known} {b : β}
    (h : (p >>= f) c known = (some (b, c'), known')) :
    ∃ a mid known'', p c known = (some (a, mid), known'') ∧
      f a mid known'' = (some (b, c'), known') := by
  rcases hp : p c known with ⟨_ | ⟨a, mid⟩, known''⟩
  · simp only [bind, StateT.bind, OptionT.bind, OptionT.mk, hp] at h
    cases h
  · simp only [bind, StateT.bind, OptionT.bind, OptionT.mk, hp] at h
    exact ⟨a, mid, known'', rfl, h⟩

theorem readsAt_bind {p : Parser α} {f : α → Parser β} {c : Cursor} (hp : p.ReadsAt c)
    (hf : ∀ a, (f a).Reads) : (p >>= f).ReadsAt c := by
  intro known b c' known' hc h
  obtain ⟨a, mid, known'', hfirst, hsecond⟩ := bind_eq_some h
  have hmid := hp known a mid known'' hc hfirst
  exact hmid.trans (met_of_reads hmid.valid hsecond)

instance reads_bind (p : Parser α) (f : α → Parser β) [hp : p.Reads] [hf : ∀ a, (f a).Reads] :
    (p >>= f).Reads :=
  ⟨fun c => readsAt_bind (hp.readsAt c) hf⟩

/-- The rule for a parser that goes on by cases, each of which is then a goal. -/
theorem reads_bind_of {p : Parser α} {f : α → Parser β} [p.Reads] (hf : ∀ a, (f a).Reads) :
    (p >>= f).Reads :=
  reads_bind p f

instance reads_pure (a : α) : (pure a : Parser α).Reads := by
  constructor
  intro c known a' c' known' hc h
  cases h
  exact .refl hc

instance reads_failure : (failure : Parser α).Reads := by
  constructor
  intro c known a c' known' hc h
  cases h

instance reads_ite (p q : Parser α) (condition : Prop) [Decidable condition] [hp : p.Reads]
    [hq : q.Reads] : (if condition then p else q).Reads := by
  split
  · exact hp
  · exact hq

instance reads_orM (p q : Parser Bool) [p.Reads] [q.Reads] : (p <||> q).Reads := by
  unfold orM
  refine reads_bind_of fun answer => ?_
  split <;> infer_instance

/-! ## Looking -/

theorem readsAt_get_bind {f : Cursor → Parser α} {c : Cursor} (h : (f c).ReadsAt c) :
    (get >>= f).ReadsAt c :=
  h

instance reads_get : (get : Parser Cursor).Reads := by
  constructor
  intro c known a c' known' hc h
  cases h
  exact .refl hc

instance reads_modifyKnown (f : Known → Known) : (modifyThe Known f : Parser Unit).Reads := by
  constructor
  intro c known a c' known' hc h
  cases h
  exact .refl hc

theorem reads_modify {f : Cursor → Cursor} (hlexeme : ∀ c, (f c).lexeme = c.lexeme)
    (hsize : ∀ c, (f c).size = c.size) (hmarkup : ∀ c, (f c).markup = c.markup) :
    (modify f : Parser Unit).Reads := by
  constructor
  intro c known a c' known' hc h
  cases h
  exact .of_lexeme (hlexeme c ▸ hc) (hsize c) (hmarkup c) (hlexeme c ▸ List.suffix_rfl)

instance : token.Reads := by unfold token; infer_instance

instance : newlineBefore.Reads := by unfold newlineBefore; infer_instance

instance : context.Reads := by unfold context; infer_instance

instance (condition : Bool) : (require condition).Reads := by unfold require; infer_instance

theorem readsAt_require_bind {condition : Bool} {f : Unit → Parser α} {c : Cursor}
    (h : (f ()).ReadsAt c) : (require condition >>= f).ReadsAt c := by
  cases condition with
  | true => exact h
  | false =>
      intro known a c' known' hc hfail
      cases hfail

instance (broken : Bool) : (flawIf broken).Reads := by
  have hflaw : (modify fun c => { c with flawed := true } : Parser Unit).Reads :=
    reads_modify (fun _ => rfl) (fun _ => rfl) fun _ => rfl
  unfold flawIf
  infer_instance

instance (here : Nat) : (notePlace here).Reads := by unfold notePlace; infer_instance

/-! ## Moving -/

theorem readsAt_moveTo {cs : List Char} {c : Cursor} (h : cs <:+ c.lexeme.here) :
    (moveTo cs).ReadsAt c := by
  intro known a c' known' hc hmove
  cases hmove
  exact .of_lexeme (valid_scan ..) rfl rfl (List.IsSuffix.trans (here_scan ..) h)

/-- A parser may move to any text behind the first character of the current token. -/
theorem reads_get_moveTo {f : Cursor → List Char} (h : ∀ c, c.lexeme.Valid → f c <:+ c.lexeme.here) :
    (get >>= fun c => moveTo (f c)).Reads :=
  ⟨fun c => .of_valid fun hc => readsAt_get_bind (readsAt_moveTo (h c hc))⟩

instance : passName.Reads := reads_get_moveTo fun _ hc => hc.suffix

instance : advance.Reads := by
  unfold advance
  refine reads_bind_of fun t => ?_
  split <;> infer_instance

instance (first : String) : (splitSymbol first).Reads := by
  refine ⟨fun c => readsAt_get_bind ?_⟩
  dsimp only
  split
  · next rest hstrip =>
    intro known a c' known' hc h
    cases h
    have hhere := Text.stripLead?_eq_some.1 hstrip
    refine .of_lexeme ⟨⟨_, hhere.symm⟩, fun text htext => ?_⟩ rfl rfl List.suffix_rfl
    cases htext
    exact hhere
  · exact reads_failure.readsAt c

/-! ## Trying -/

instance reads_attempt (p : Parser α) [p.Reads] : (attempt p).Reads := by
  constructor
  intro c known a c' known' hc h
  unfold attempt at h
  split at h
  · next hsome =>
    cases h
    exact met_of_reads hc hsome
  · cases h
    exact .refl hc

/-- Whatever a parser does, its answer alone does not move the cursor. -/
instance reads_answerOf (p : Parser α) (otherwise : α) : (answerOf p otherwise).Reads := by
  constructor
  intro c known a c' known' hc h
  unfold answerOf at h
  split at h <;> cases h <;> exact .refl hc

instance reads_lookahead (p : Parser Bool) : (lookahead p).Reads := reads_answerOf p false

instance (property : Token → Bool → Bool) : (nextIs property).Reads := reads_lookahead _

instance reads_inContext (change : Context → Context) (p : Parser α) [p.Reads] :
    (inContext change p).Reads := by
  have hset : ∀ inner : Context, (modify fun c => { c with context := inner } : Parser Unit).Reads :=
    fun inner => reads_modify (fun _ => rfl) (fun _ => rfl) fun _ => rfl
  unfold inContext
  infer_instance

/-! ## Tokens -/

instance (text : String) : (atSymbol text).Reads := by unfold atSymbol; infer_instance

instance (name : String) : (atWord name).Reads := by unfold atWord; infer_instance

instance (text : String) : (eatSymbol text).Reads := by unfold eatSymbol; infer_instance

instance (name : String) : (eatWord name).Reads := by unfold eatWord; infer_instance

instance (text : String) : (symbol text).Reads := by unfold symbol; infer_instance

instance (name : String) : (word name).Reads := by unfold word; infer_instance

instance (text : String) : (nextSymbol text).Reads := by unfold nextSymbol; infer_instance

instance (name : String) : (nextWord name).Reads := by unfold nextWord; infer_instance

instance (name : String) : (nextWordHere name).Reads := by unfold nextWordHere; infer_instance

/-! ## Repetition -/

instance reads_loop (fuel : Nat) (p : Parser Bool) [p.Reads] : (loop fuel p).Reads := by
  induction fuel with
  | zero => exact reads_failure
  | succ fuel ih => unfold loop; infer_instance

instance reads_repeatWhile (p : Parser Bool) [p.Reads] : (repeatWhile p).Reads := by
  unfold repeatWhile; infer_instance

instance reads_iterate (fuel : Nat) (step : α → Parser (Option α)) (a : α) [∀ a, (step a).Reads] :
    (iterate fuel step a).Reads := by
  induction fuel generalizing a with
  | zero => exact reads_failure
  | succ fuel ih =>
    unfold iterate
    refine reads_bind_of fun next => ?_
    split <;> infer_instance

instance reads_growing (step : α → Parser (Option α)) (a : α) [∀ a, (step a).Reads] :
    (growing step a).Reads := by
  unfold growing; infer_instance

instance (close : String) (item : α → Parser α) (a : α) [∀ a, (item a).Reads] :
    (commaFold close item a).Reads := by
  unfold commaFold; infer_instance

instance (close : String) (item : Parser Unit) [item.Reads] : (commaList close item).Reads := by
  unfold commaList; infer_instance

instance (separator : String) (item : Parser Unit) [item.Reads] :
    (separatedBy separator item).Reads := by
  unfold separatedBy; infer_instance

instance : canEndStatement.Reads := by
  unfold canEndStatement
  refine reads_bind_of fun t => ?_
  split <;> infer_instance

instance : endOfStatement.Reads := by unfold endOfStatement; infer_instance

/-! ## Names -/

instance : atBindingName.Reads := by unfold atBindingName; infer_instance

instance : name.Reads := by
  unfold name
  refine reads_bind_of fun t => ?_
  split <;> infer_instance

instance : anyWord.Reads := by
  unfold anyWord
  refine reads_bind_of fun t => ?_
  split <;> infer_instance

instance : stringLiteral.Reads := by
  unfold stringLiteral
  refine reads_bind_of fun t => ?_
  split <;> infer_instance

end Parser

end OriginTags.Tsx
