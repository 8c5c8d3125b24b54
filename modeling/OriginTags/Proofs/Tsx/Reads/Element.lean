import OriginTags.Proofs.Tsx.Reads.Statement
import OriginTags.Tsx.Program
/-!
# Elements stand where they are read

A parser of an element leaves a tree that stands between the `<` of the element and its last `>`.
With it every parser of the grammar reads forward, so that the markup of a program stands in its
source.
-/

namespace OriginTags.Tsx

open Tsx.Parser
open Markup (ClosingTagStands OpeningTag StandIn TagName Tree)

-- The size of an instance counts a shared step once for each way that leads to it.
set_option synthInstance.maxSize 1000000

/-! ## Names and attributes -/

instance : tagWord.Reads := by
  unfold tagWord
  refine reads_bind_of fun t => ?_
  split
  · refine ⟨fun c => .of_valid fun hc => readsAt_get_bind ?_⟩
    dsimp only
    split
    · refine readsAt_bind (readsAt_moveTo ?_) fun _ => inferInstance
      exact (Text.suffix_span _ c.lexeme.rest).trans hc.suffix
    · exact Reads.readsAt c
  · infer_instance

instance : tagName.Reads := by unfold tagName; infer_instance

theorem suffix_of_rawString {cs rest : List Char} {value : String}
    (h : rawString cs = some (value, rest)) : rest <:+ cs := by
  unfold rawString at h
  split at h
  · next quote inner =>
    split at h
    · dsimp only at h
      split at h
      · next hspan =>
        cases h
        exact Text.suffix_cons_of_suffix _ (Text.suffix_of_cons (hspan ▸ Text.suffix_span _ inner))
      · cases h
    · cases h
  · cases h

variable (g : Grammar) [g.Reads]

instance : (bracedExpression g).Reads := by unfold bracedExpression; infer_instance

instance : (attributeValue g).Reads := by
  unfold attributeValue
  refine reads_bind_of fun _ => reads_bind_of fun _ =>
    ⟨fun c => .of_valid fun hc => readsAt_get_bind ?_⟩
  split
  · next here hskip =>
    split
    · next rest hraw =>
      have hrest := ((suffix_of_rawString hraw).trans (suffix_of_skipTrivia hskip)).trans hc.suffix
      exact readsAt_bind (readsAt_moveTo hrest) fun _ => inferInstance
    · refine readsAt_bind (Reads.readsAt c) fun _ => reads_bind_of fun t => ?_
      split <;> infer_instance
  · exact reads_failure.readsAt c

instance : (tagAttribute g).Reads := by
  have hvalue : ∀ name, (do
      match ← attributeValue g with
      | some value => return .literal name value
      | none => return .expression name : Parser Markup.Attribute).Reads := by
    intro name
    refine reads_bind_of fun value => ?_
    split <;> infer_instance
  dsimp only [tagAttribute]
  infer_instance

instance : (tagAttributes g).Reads := by
  unfold tagAttributes
  refine @reads_bind _ _ _ _ (@reads_growing _ _ _ fun found => reads_bind_of fun t => ?_)
    fun _ => inferInstance
  split <;> infer_instance

/-! ## Symbols -/

section

variable {α : Type} {a : α} {c c' : Cursor} {known known' : Known} {text : String}

theorem get_bind_apply (f : Cursor → Parser α) : (get >>= f) c known = f c c known := rfl

theorem token_bind_apply (f : Token → Parser α) :
    (token >>= f) c known = f c.lexeme.token c known :=
  rfl

theorem atSymbol_bind_apply (f : Bool → Parser α) :
    (atSymbol text >>= f) c known = f (c.lexeme.token == .symbol text) c known :=
  rfl

theorem offsetOf_bind_apply {cs : List Char} (f : Nat → Parser α) :
    (offsetOf cs >>= f) c known = f (c.size - Text.byteSize cs) c known :=
  rfl

theorem require_bind_eq_some {condition : Bool} {f : Unit → Parser α}
    (h : (require condition >>= f) c known = (some (a, c'), known')) :
    condition = true ∧ f () c known = (some (a, c'), known') := by
  cases condition with
  | true => exact ⟨rfl, h⟩
  | false => cases h

/-- The cursor at the next token. -/
def Cursor.next (c : Cursor) : Cursor := { c with lexeme := scan c.limit c.lexeme.rest }

theorem Cursor.valid_next (c : Cursor) : c.next.lexeme.Valid := valid_scan ..

theorem Cursor.here_next (c : Cursor) : c.next.lexeme.here <:+ c.lexeme.rest := here_scan ..

theorem Cursor.skipTrivia_next (h : c.next.lexeme.token ≠ .unreadable) :
    ∃ newline, skipTrivia .between false c.lexeme.rest = some (newline, c.next.lexeme.here) :=
  skipTrivia_scan h

theorem advance_of_symbol (h : c.lexeme.token = .symbol text) :
    advance c known = (some ((), c.next), known) := by
  obtain ⟨⟨token, newline, here, rest⟩⟩ := c
  cases h
  rfl

theorem eatSymbol_bind_eq_some {f : Bool → Parser α}
    (h : (eatSymbol text >>= f) c known = (some (a, c'), known')) :
    (c.lexeme.token = .symbol text ∧ f true c.next known = (some (a, c'), known')) ∨
      f false c known = (some (a, c'), known') := by
  obtain ⟨found, mid, _, heat, hrest⟩ := bind_eq_some h
  rw [eatSymbol, atSymbol_bind_apply] at heat
  split at heat
  · next hsymbol =>
    obtain ⟨_, _, _, hadvance, hpure⟩ := bind_eq_some heat
    rw [advance_of_symbol (eq_of_beq hsymbol)] at hadvance
    cases hadvance
    cases hpure
    exact .inl ⟨eq_of_beq hsymbol, hrest⟩
  · cases heat
    exact .inr hrest

theorem require_atSymbol_eq_some
    (h : (atSymbol text >>= fun found => require found) c known = (some ((), c'), known')) :
    c.lexeme.token = .symbol text ∧ c = c' := by
  rw [atSymbol_bind_apply] at h
  cases hsymbol : c.lexeme.token == Token.symbol text with
  | true =>
      rw [hsymbol] at h
      cases h
      exact ⟨eq_of_beq hsymbol, rfl⟩
  | false =>
      rw [hsymbol] at h
      cases h

theorem symbol_bind_eq_some {f : Unit → Parser α}
    (h : (symbol text >>= f) c known = (some (a, c'), known')) :
    c.lexeme.token = .symbol text ∧ f () c.next known = (some (a, c'), known') := by
  obtain ⟨_, mid, _, hsymbol, hrest⟩ := bind_eq_some h
  obtain ⟨htoken, hfound⟩ | hmissing := eatSymbol_bind_eq_some hsymbol
  · cases hfound
    exact ⟨htoken, hrest⟩
  · cases hmissing

end

/-! ## Silence -/

/-- A parser leaves no markup behind. -/
class Parser.Silent {α : Type} (p : Parser α) : Prop where
  markup_eq : ∀ {c known a c' known'}, p c known = (some (a, c'), known') → c'.markup = c.markup

section

variable {α β : Type}

instance silent_bind (p : Parser α) (f : α → Parser β) [hp : p.Silent] [hf : ∀ a, (f a).Silent] :
    (p >>= f).Silent := by
  constructor
  intro c known b c' known' h
  obtain ⟨a, mid, known'', hfirst, hsecond⟩ := bind_eq_some h
  exact ((hf a).markup_eq hsecond).trans (hp.markup_eq hfirst)

theorem silent_bind_of {p : Parser α} {f : α → Parser β} [p.Silent] (hf : ∀ a, (f a).Silent) :
    (p >>= f).Silent :=
  silent_bind p f

instance silent_pure (a : α) : (pure a : Parser α).Silent := by
  constructor
  intro c known a' c' known' h
  cases h
  rfl

instance silent_failure : (failure : Parser α).Silent := by
  constructor
  intro c known a c' known' h
  cases h

instance silent_ite (p q : Parser α) (condition : Prop) [Decidable condition] [hp : p.Silent]
    [hq : q.Silent] : (if condition then p else q).Silent := by
  split
  · exact hp
  · exact hq

instance silent_get : (get : Parser Cursor).Silent := by
  constructor
  intro c known a c' known' h
  cases h
  rfl

theorem silent_modify {f : Cursor → Cursor} (h : ∀ c, (f c).markup = c.markup) :
    (modify f : Parser Unit).Silent := by
  constructor
  intro c known a c' known' hmodify
  cases hmodify
  exact h c

instance silent_iterate (fuel : Nat) (step : α → Parser (Option α)) (a : α)
    [∀ a, (step a).Silent] : (iterate fuel step a).Silent := by
  induction fuel generalizing a with
  | zero => exact silent_failure
  | succ fuel ih =>
    unfold iterate
    refine silent_bind_of fun next => ?_
    split <;> infer_instance

instance (step : α → Parser (Option α)) (a : α) [∀ a, (step a).Silent] :
    (growing step a).Silent := by
  unfold growing; infer_instance

end

instance : token.Silent := by unfold token; infer_instance

instance (condition : Bool) : (require condition).Silent := by unfold require; infer_instance

instance (broken : Bool) : (flawIf broken).Silent := by
  have hflaw : (modify fun c => { c with flawed := true } : Parser Unit).Silent :=
    silent_modify fun _ => rfl
  unfold flawIf
  infer_instance

instance (cs : List Char) : (moveTo cs).Silent := silent_modify fun _ => rfl

instance : passName.Silent := by unfold passName; infer_instance

instance : advance.Silent := by
  unfold advance
  refine silent_bind_of fun t => ?_
  split <;> infer_instance

instance (text : String) : (atSymbol text).Silent := by unfold atSymbol; infer_instance

instance (text : String) : (eatSymbol text).Silent := by unfold eatSymbol; infer_instance

instance : tagWord.Silent := by
  unfold tagWord
  refine silent_bind_of fun t => ?_
  split
  · refine silent_bind_of fun c => ?_
    dsimp only
    split <;> infer_instance
  · infer_instance

instance : tagName.Silent := by unfold tagName; infer_instance

/-! ## Markup set apart -/

/-- What was met is told from the markup before it, wherever the cursor stood. -/
theorem Cursor.Met.of_before {a b c : Cursor} {front rest : List Char} (h : b.Met c front rest)
    (hsize : b.size = a.size) (hmarkup : b.markup = a.markup) : a.Met c front rest := by
  obtain ⟨trees, htrees, hstand⟩ := h.markup
  exact ⟨h.valid, h.size.trans hsize, trees, hmarkup ▸ htrees, hsize ▸ hstand⟩

theorem collect_eq_some {α : Type} {p : Parser α} {c c' : Cursor} {known known' : Known} {a : α}
    {trees : List Tree} (h : collect p c known = (some ((a, trees), c'), known')) :
    ∃ mid, p { c with markup := [] } known = (some (a, mid), known') ∧
      trees = mid.markup.reverse ∧ c' = { mid with markup := c.markup } := by
  unfold collect at h
  obtain ⟨_, _, _, hget, h⟩ := bind_eq_some h
  cases hget
  obtain ⟨_, _, _, hclear, h⟩ := bind_eq_some h
  cases hclear
  obtain ⟨a, mid, _, hp, h⟩ := bind_eq_some h
  cases h
  exact ⟨mid, hp, rfl, rfl⟩

/-- Markup that is set apart stands where it was met. -/
theorem Cursor.Met.standIn_reverse {c mid : Cursor} {front rest : List Char}
    (h : { c with markup := [] }.Met mid front rest) :
    StandIn c.size mid.markup.reverse front rest := by
  obtain ⟨trees, htrees, hstand⟩ := h.markup
  rw [htrees, List.append_nil, List.reverse_reverse]
  exact hstand

/-- A tree that is added stands where nothing else was met. -/
theorem Cursor.Met.of_tree {c mid : Cursor} {tree : Tree} {front rest : List Char}
    (hvalid : mid.lexeme.Valid) (hsize : mid.size = c.size) (hmarkup : mid.markup = tree :: c.markup)
    (hstands : tree.Stands c.size front rest) : c.Met mid front rest :=
  ⟨hvalid, hsize, [tree], by simpa using hmarkup, .singleton hstands⟩

instance : (childExpression g).Reads := by
  refine ⟨fun c known a c' known' hc h => ?_⟩
  unfold childExpression at h
  obtain ⟨_, opened, _, hopen, h⟩ := bind_eq_some h
  have hopened := met_of_reads hc hopen
  obtain ⟨⟨_, parts⟩, _, _, hcollect, h⟩ := bind_eq_some h
  obtain ⟨mid, hparts, rfl, rfl⟩ := collect_eq_some hcollect
  have hmid := met_of_reads (c := { opened with markup := [] }) hopened.valid hparts
  refine hopened.trans ?_
  dsimp only at h
  split at h
  · cases h
    exact .of_tree hmid.valid hmid.size rfl hmid.standIn_reverse
  · cases h
    exact .of_lexeme hmid.valid hmid.size rfl hmid.suffix

/-! ## Children -/

theorem met_of_childText {c c' : Cursor} {known known' : Known}
    (h : childText c known = (some ((), c'), known')) : c.Met c' c.lexeme.rest c'.lexeme.here := by
  dsimp only [childText] at h
  rw [get_bind_apply] at h
  obtain ⟨-, h⟩ := require_bind_eq_some h
  have hrest := Text.suffix_span (fun c => c != '<' && c != '\x7b') c.lexeme.rest
  have hhere := List.IsSuffix.trans (here_scan c.limit _) hrest
  split at h
  · cases h
    exact .of_tree (valid_scan ..) rfl rfl hhere
  · cases h
    exact .of_lexeme (valid_scan ..) rfl rfl hhere

theorem met_of_childNode {g : Grammar} [hg : g.Reads] {c c' : Cursor} {known known' : Known}
    {goesOn : Bool} (hc : c.lexeme.Valid) (h : childNode g c known = (some (goesOn, c'), known')) :
    c.Met c' c.lexeme.here (if goesOn then c'.lexeme.rest else c'.lexeme.here) := by
  rw [childNode, token_bind_apply] at h
  generalize c.lexeme.token = t at h
  split at h
  · obtain ⟨_, mid, _, hchild, hpure⟩ := bind_eq_some h
    have hmid := met_of_reads hc hchild
    cases hpure
    exact hmid.of_suffix_rest hmid.valid.suffix
  · obtain ⟨_, mid, _, hsplit, hnode⟩ := bind_eq_some h
    have hmid := met_of_reads hc hsplit
    obtain ⟨closes, next, _, hlook, hnode⟩ := bind_eq_some hnode
    have hnext := hmid.trans (met_of_reads hmid.valid hlook)
    split at hnode
    · cases hnode
      exact hnext
    · obtain ⟨_, last, _, hchild, hpure⟩ := bind_eq_some hnode
      have hlast := hg.child next _ last _ hnext.valid hchild
      cases hpure
      exact hnext.trans hlast
  · cases h

/-- Children reach from the end of a token to their closing tag. -/
theorem met_of_childLoop {g : Grammar} [g.Reads] {fuel : Nat} {c c' : Cursor} {known known' : Known}
    (hc : c.lexeme.Valid)
    (h : loop fuel (do childText; childNode g) c known = (some ((), c'), known')) :
    c.Met c' c.lexeme.rest c'.lexeme.here := by
  induction fuel generalizing c known with
  | zero => cases h
  | succ fuel ih =>
      unfold loop at h
      obtain ⟨goesOn, mid, _, hstep, hrest⟩ := bind_eq_some h
      obtain ⟨_, text, _, hread, hnode⟩ := bind_eq_some hstep
      have htext := met_of_childText hread
      have hmid := htext.trans (met_of_childNode htext.valid hnode)
      split at hrest
      · next hgoes =>
        rw [if_pos hgoes] at hmid
        exact hmid.trans (ih hmid.valid hrest)
      · next hstops =>
        rw [if_neg hstops] at hmid
        cases hrest
        exact hmid

theorem met_of_children {g : Grammar} [g.Reads] {c c' : Cursor} {known known' : Known}
    (hc : c.lexeme.Valid) (h : children g c known = (some ((), c'), known')) :
    c.Met c' c.lexeme.rest c'.lexeme.here := by
  unfold children repeatWhile at h
  obtain ⟨_, _, _, hget, hloop⟩ := bind_eq_some h
  cases hget
  exact met_of_childLoop hc hloop

/-! ## Tags -/

/-- A symbol of one character stands at the cursor as it is spelled. -/
theorem Lexeme.Valid.here_eq {l : Lexeme} (h : l.Valid) {text : String} (c : Char)
    (htoken : l.token = .symbol text) (htext : text.toList = [c]) : l.here = c :: l.rest := by
  rw [h.symbol text htoken, htext]
  rfl

theorem stands_of_closingTag {name : Option TagName} {c c' : Cursor} {known known' : Known}
    (hc : c.lexeme.Valid) (h : closingTag name c known = (some ((), c'), known')) :
    ClosingTagStands c.lexeme.here c'.lexeme.rest ∧ c'.lexeme.Valid ∧ c'.size = c.size ∧
      c'.markup = c.markup := by
  dsimp only [closingTag] at h
  obtain ⟨hopen, h⟩ := symbol_bind_eq_some h
  obtain ⟨-, h⟩ := symbol_bind_eq_some h
  have hname : c.next.next.Met c' c.next.next.lexeme.here c'.lexeme.here ∧
      c'.markup = c.next.next.markup ∧ c'.lexeme.token = .symbol ">" := by
    split at h
    · obtain ⟨found, mid, _, hfound, h⟩ := bind_eq_some h
      obtain ⟨-, h⟩ := require_bind_eq_some h
      obtain ⟨hclose, rfl⟩ := require_atSymbol_eq_some h
      exact ⟨met_of_reads c.next.valid_next hfound, Silent.markup_eq hfound, hclose⟩
    · obtain ⟨hclose, rfl⟩ := require_atSymbol_eq_some h
      exact ⟨.refl c.next.valid_next, rfl, hclose⟩
  obtain ⟨hmet, hmarkup, hclose⟩ := hname
  refine ⟨?_, hmet.valid, hmet.size, hmarkup⟩
  have hsuffix : c'.lexeme.here <:+ c.lexeme.rest :=
    ((hmet.suffix.trans c.next.here_next).trans c.valid_next.suffix).trans c.here_next
  obtain ⟨inner, hinner⟩ := hsuffix
  refine ⟨inner, ?_⟩
  rw [hc.here_eq '<' hopen rfl, ← hinner, hmet.valid.here_eq '>' hclose rfl]

/-- An opening tag is read up to a delimiter, whose last token is the current one. -/
theorem delimits_of_openingTag {g : Grammar} [g.Reads] {start : Nat} {tag : OpeningTag}
    {c c' : Cursor} {known known' : Known} (hc : c.lexeme.Valid)
    (h : openingTag g start c known = (some (tag, c'), known')) :
    tag.span = ⟨start, c'.size - Text.byteSize c'.lexeme.rest⟩ ∧ ∃ close,
      c.Met c' c.lexeme.here close ∧ Markup.Delimits tag.selfClosing close c'.lexeme.rest := by
  unfold openingTag at h
  obtain ⟨name, named, _, hname, h⟩ := bind_eq_some h
  have hnamed := met_of_reads hc hname
  obtain ⟨_, typed, _, htypes, h⟩ := bind_eq_some h
  have htyped := hnamed.trans (met_of_reads hnamed.valid htypes)
  obtain ⟨attributes, inner, _, hattributes, h⟩ := bind_eq_some h
  have hinner := htyped.trans (met_of_reads htyped.valid hattributes)
  obtain ⟨hslash, h⟩ | h := eatSymbol_bind_eq_some h
  · rw [atSymbol_bind_apply] at h
    obtain ⟨hclose, h⟩ := require_bind_eq_some h
    cases h
    have hend := inner.valid_next.here_eq '>' (eq_of_beq hclose) rfl
    obtain ⟨gap, hgap⟩ := inner.here_next
    obtain ⟨newline, hskip⟩ := inner.skipTrivia_next (by simp [eq_of_beq hclose])
    refine ⟨rfl, inner.lexeme.here, ⟨inner.valid_next, hinner.size, hinner.markup⟩, gap, newline, ?_⟩
    rw [← hend, hgap]
    exact ⟨hinner.valid.here_eq '/' hslash rfl, hskip⟩
  · rw [atSymbol_bind_apply] at h
    obtain ⟨hclose, h⟩ := require_bind_eq_some h
    cases h
    exact ⟨rfl, _, hinner, hinner.valid.here_eq '>' (eq_of_beq hclose) rfl⟩

/-- What stands between an opening tag and its closing tag, and the tree that is made of it. -/
theorem met_of_inside {g : Grammar} [g.Reads] {name : Option TagName} {tree : List Tree → Tree}
    {c c' : Cursor} {known known' : Known} {front : List Char} (hc : c.lexeme.Valid)
    (h : (do
      let (_, inside) ← collect (children g)
      closingTag name
      emit (tree inside)) c known = (some ((), c'), known'))
    (htree : ∀ inside last, StandIn c.size inside c.lexeme.rest last →
      ClosingTagStands last c'.lexeme.rest → (tree inside).Stands c.size front c'.lexeme.rest) :
    c.Met c' front c'.lexeme.rest := by
  obtain ⟨⟨_, inside⟩, _, _, hinside, h⟩ := bind_eq_some h
  obtain ⟨last, hchildren, rfl, rfl⟩ := collect_eq_some hinside
  have hlast := met_of_children (c := { c with markup := [] }) hc hchildren
  obtain ⟨_, closed, _, hclosing, h⟩ := bind_eq_some h
  obtain ⟨hstands, hvalid, hsize, hmarkup⟩ :=
    stands_of_closingTag (c := { last with markup := c.markup }) hlast.valid hclosing
  cases h
  exact .of_tree hvalid (hsize.trans hlast.size) (congrArg _ hmarkup)
    (htree _ _ hlast.standIn_reverse hstands)

/-- A tree of markup stands between its `<` and its last `>`. -/
theorem met_of_markupNode {g : Grammar} [g.Reads] {c c' : Cursor} {known known' : Known}
    (hc : c.lexeme.Valid) (h : markupNode g c known = (some ((), c'), known')) :
    c.Met c' c.lexeme.here c'.lexeme.rest := by
  unfold markupNode at h
  rw [get_bind_apply, offsetOf_bind_apply] at h
  obtain ⟨hopen, h⟩ := symbol_bind_eq_some h
  rw [atSymbol_bind_apply] at h
  have hfront := hc.here_eq '<' hopen rfl
  split at h
  · refine (met_of_inside c.valid_next h fun inside last hinside hclosing => ?_).of_before rfl rfl
    have hrest : c.next.lexeme.rest <:+ c.lexeme.here :=
      (c.valid_next.suffix.trans c.here_next).trans hc.suffix
    exact (hinside.of_suffix_rest hclosing.suffix).of_suffix_front hrest
  obtain ⟨⟨tag, inAttributes⟩, _, _, hcollect, h⟩ := bind_eq_some h
  obtain ⟨mid, htag, rfl, rfl⟩ := collect_eq_some hcollect
  obtain ⟨hspan, close, hmid, hdelimits⟩ :=
    delimits_of_openingTag (c := { c.next with markup := [] }) c.valid_next htag
  have hsize : mid.size = c.size := hmid.size
  have hstands : tag.Stands c.size c.lexeme.here close mid.lexeme.rest :=
    { start := by rw [hspan]
      stop := by rw [hspan, hsize]
      opens := ⟨c.lexeme.rest, hfront, hmid.suffix.trans c.here_next⟩
      closes := hdelimits }
  have hattributes : StandIn c.size mid.markup.reverse c.lexeme.here.tail close := by
    rw [hfront, List.tail_cons]
    exact hmid.standIn_reverse.of_suffix_front c.here_next
  dsimp only at h
  split at h
  · next hself =>
    cases h
    refine .of_tree hmid.valid hsize rfl ⟨close, mid.lexeme.rest, hstands, hattributes, ?_⟩
    rw [if_pos hself]
    exact ⟨rfl, rfl⟩
  · next hself =>
    refine (met_of_inside (c := { mid with markup := c.markup }) hmid.valid h
      fun inside last hinside hclosing => ⟨close, mid.lexeme.rest, ?_, ?_, ?_⟩).of_before hsize rfl
    · exact hsize ▸ hstands
    · exact hsize ▸ hattributes
    · rw [if_neg hself]
      exact ⟨last, hinside, hclosing⟩

/-! ## Programs -/

/-- Moving on starts at the end of the current token. -/
theorem met_of_advance {c c' : Cursor} {known known' : Known}
    (h : advance c known = (some ((), c'), known')) : c.Met c' c.lexeme.rest c'.lexeme.here := by
  rw [advance, token_bind_apply] at h
  generalize c.lexeme.token = t at h
  split at h
  · obtain ⟨_, mid, _, hflaw, hpass⟩ := bind_eq_some h
    unfold flawIf at hflaw
    split at hflaw <;> cases hflaw <;> cases hpass <;>
      exact .of_lexeme (valid_scan ..) rfl rfl (here_scan ..)
  · cases h
    exact .of_lexeme (valid_scan ..) rfl rfl (here_scan ..)

instance : (markup g false).Reads := by
  refine ⟨fun c known a c' known' hc h => ?_⟩
  obtain ⟨_, node, _, hnode, hadvance⟩ := bind_eq_some h
  exact (met_of_markupNode hc hnode).trans (met_of_advance hadvance)

instance reads_construct : (construct g).Reads where
  rule r hr := by
    cases r with
    | markup child =>
        cases child with
        | false => exact inferInstanceAs (markup g false).Reads
        | true => exact absurd rfl hr
    | expression => exact inferInstanceAs (expression g).Reads
    | assignment branch => exact inferInstanceAs (assignment g branch).Reads
    | binary level => exact inferInstanceAs (binary g level).Reads
    | unary => exact inferInstanceAs (unary g).Reads
    | access calls => exact inferInstanceAs (access g calls).Reads
    | type => exact inferInstanceAs (type g).Reads
    | typeOperator => exact inferInstanceAs (operatorType g).Reads
    | typePrimary => exact inferInstanceAs (primaryType g).Reads
    | binding => exact inferInstanceAs (binding g).Reads
    | statement position => exact inferInstanceAs (statement g position).Reads
    | block => exact inferInstanceAs (block g).Reads
  child c known c' known' hc h := by
    obtain ⟨_, node, _, hnode, hpure⟩ := bind_eq_some h
    cases hpure
    exact met_of_markupNode hc hnode

instance reads_grammar (depth : Nat) : (grammar depth).Reads := by
  induction depth with
  | zero => exact ⟨fun _ _ => reads_failure, fun _ _ _ _ _ h => by cases h⟩
  | succ depth ih => exact reads_construct _

instance : (program g).Reads := by
  refine @reads_bind _ _ _ _ (@reads_growing _ _ _ fun found => reads_bind_of fun t =>
    @reads_ite _ _ _ _ _ inferInstance (reads_bind_of fun isImport => ?_)) fun _ => inferInstance
  split
  · refine reads_bind_of fun found => ?_
    split <;> infer_instance
  · infer_instance

/-- The markup of a program stands in its source. -/
theorem standIn_of_parse? {source : List Char} {parsed : Program} (h : parse? source = some parsed) :
    StandIn (Text.byteSize source) parsed.markup source [] := by
  dsimp only [parse?] at h
  split at h
  · next imports stop hrun =>
    split at h
    · cases h
    · cases h
      have hmet := met_of_reads (valid_scan ..) (Prod.ext hrun rfl)
      obtain ⟨trees, htrees, hstand⟩ := hmet.markup
      rw [htrees, List.append_nil, List.reverse_reverse]
      exact (hstand.of_suffix_rest (List.nil_suffix)).of_suffix_front
        (List.IsSuffix.trans (here_scan ..) (suffix_skipHashbang source))
  · cases h

end OriginTags.Tsx
