import OriginTags.Markup.Tree
import OriginTags.Proofs.Text.Bytes
import OriginTags.Proofs.Tsx.Scanner
/-!
# Where markup stands

A place in a source is given by the text from it on. Trees that were read one after the other stand
one after the other in the source, and the trees of the attribute values of an element stand inside
its opening tag, before the delimiter that closes it.
-/

namespace OriginTags.Markup

/-! ## Tags -/

/-- A delimiter at `close` ends an opening tag, with `after` behind it. In that of a self-closing tag,
blanks and comments may stand between `/` and `>`. -/
def Delimits : (selfClosing : Bool) → (close after : List Char) → Prop
  | false, close, after => close = '>' :: after
  | true, close, after => ∃ gap newline, close = '/' :: (gap ++ '>' :: after) ∧
    Tsx.skipTrivia .between false (gap ++ '>' :: after) = some (newline, '>' :: after)

/-- A tag opens at `front` and is closed by a delimiter at `close`, with `after` behind it. -/
structure OpeningTag.Stands (size : Nat) (tag : OpeningTag) (front close after : List Char) : Prop where
  start : tag.span.start = size - Text.byteSize front
  stop : tag.span.stop = size - Text.byteSize after
  opens : ∃ inner, front = '<' :: inner ∧ close <:+ inner
  closes : Delimits tag.selfClosing close after

/-- A closing tag opens at `front`, with `rest` behind it. -/
def ClosingTagStands (front rest : List Char) : Prop := ∃ inner, front = '<' :: (inner ++ '>' :: rest)

/-! ## Trees -/

mutual

/-- A tree stands at `front`, with `rest` behind it, in a source of a size. -/
def Tree.Stands (size : Nat) : Tree → (front rest : List Char) → Prop
  | .element tag inAttributes children, front, rest =>
    ∃ close after, tag.Stands size front close after ∧ StandIn size inAttributes front.tail close ∧
      if tag.selfClosing then children = [] ∧ rest = after
      else ∃ last, StandIn size children after last ∧ ClosingTagStands last rest
  | .fragment children, front, rest => StandIn size children front rest
  | .text _, front, rest => rest <:+ front
  | .embedded parts, front, rest => StandIn size parts front rest

/-- Trees stand one after the other behind `front` and before `rest`, perhaps with other text between
them. -/
def StandIn (size : Nat) : List Tree → (front rest : List Char) → Prop
  | [], front, rest => rest <:+ front
  | tree :: trees, front, rest =>
    ∃ here next, here <:+ front ∧ tree.Stands size here next ∧ StandIn size trees next rest

end

theorem Delimits.suffix {selfClosing : Bool} {close after : List Char}
    (h : Delimits selfClosing close after) : after <:+ close := by
  cases selfClosing with
  | false =>
      rw [show close = '>' :: after from h]
      exact List.suffix_cons _ _
  | true =>
      obtain ⟨gap, -, rfl, -⟩ := h
      exact ⟨'/' :: (gap ++ ['>']), by simp⟩

theorem OpeningTag.Stands.suffix {size : Nat} {tag : OpeningTag} {front close after : List Char}
    (h : tag.Stands size front close after) : close <:+ front ∧ after <:+ close := by
  obtain ⟨inner, rfl, hclose⟩ := h.opens
  exact ⟨Text.suffix_cons_of_suffix _ hclose, h.closes.suffix⟩

theorem ClosingTagStands.suffix {front rest : List Char} (h : ClosingTagStands front rest) :
    rest <:+ front := by
  obtain ⟨inner, rfl⟩ := h
  exact ⟨'<' :: (inner ++ ['>']), by simp⟩

mutual

theorem Tree.Stands.suffix {size : Nat} :
    ∀ {tree : Tree} {front rest : List Char}, tree.Stands size front rest → rest <:+ front
  | .element tag inAttributes children, front, rest, h => by
      obtain ⟨close, after, htag, -, hrest⟩ := h
      have hafter := htag.suffix.2.trans htag.suffix.1
      split at hrest
      · exact hrest.2 ▸ hafter
      · obtain ⟨last, hchildren, hclosing⟩ := hrest
        exact (hclosing.suffix.trans hchildren.suffix).trans hafter
  | .fragment _, _, _, h => by
      rw [Tree.Stands] at h
      exact StandIn.suffix h
  | .text _, _, _, h => h
  | .embedded _, _, _, h => by
      rw [Tree.Stands] at h
      exact StandIn.suffix h

theorem StandIn.suffix {size : Nat} :
    ∀ {trees : List Tree} {front rest : List Char}, StandIn size trees front rest → rest <:+ front
  | [], _, _, h => h
  | _ :: _, _, _, ⟨_, _, hhere, htree, htrees⟩ =>
      (htrees.suffix.trans (Tree.Stands.suffix htree)).trans hhere

end

namespace StandIn

variable {size : Nat} {trees more : List Tree} {front mid rest : List Char}

theorem of_suffix_front {wider : List Char} (hwider : front <:+ wider)
    (h : StandIn size trees front rest) : StandIn size trees wider rest := by
  cases trees with
  | nil => exact List.IsSuffix.trans h hwider
  | cons tree trees =>
      obtain ⟨here, next, hhere, htree, htrees⟩ := h
      exact ⟨here, next, hhere.trans hwider, htree, htrees⟩

theorem append (h : StandIn size trees front mid) (hmore : StandIn size more mid rest) :
    StandIn size (trees ++ more) front rest := by
  induction trees generalizing front with
  | nil => exact hmore.of_suffix_front h
  | cons tree trees ih =>
      obtain ⟨here, next, hhere, htree, htrees⟩ := h
      exact ⟨here, next, hhere, htree, ih htrees⟩

theorem of_suffix_rest {further : List Char} (hfurther : further <:+ rest)
    (h : StandIn size trees front rest) : StandIn size trees front further := by
  have hnone : StandIn size [] rest further := hfurther
  simpa using h.append hnone

theorem singleton {tree : Tree} (h : tree.Stands size front rest) :
    StandIn size [tree] front rest :=
  ⟨front, rest, List.suffix_rfl, h, List.suffix_rfl⟩

end StandIn

/-! ## Elements -/

mutual

/-- The elements of a tree, each with the trees of its attribute values, in the order of their opening
tags. -/
def Tree.elements : Tree → List (OpeningTag × List Tree)
  | .element tag inAttributes children =>
    (tag, inAttributes) :: (elementsOf inAttributes ++ elementsOf children)
  | .fragment children => elementsOf children
  | .text _ => []
  | .embedded parts => elementsOf parts

/-- The elements of some trees. -/
def elementsOf : List Tree → List (OpeningTag × List Tree)
  | [] => []
  | tree :: trees => tree.elements ++ elementsOf trees

end

/-- An element stands between two places: its tag, with the trees of its attribute values before the
delimiter that closes it. -/
def ElementStands (size : Nat) (element : OpeningTag × List Tree) (front rest : List Char) : Prop :=
  ∃ here close after, here <:+ front ∧ element.1.Stands size here close after ∧
    StandIn size element.2 here.tail close ∧ rest <:+ after

theorem ElementStands.mono {size : Nat} {element : OpeningTag × List Tree}
    {front rest wider further : List Char} (h : ElementStands size element front rest)
    (hwider : front <:+ wider) (hfurther : further <:+ rest) :
    ElementStands size element wider further := by
  obtain ⟨here, close, after, hhere, htag, hattributes, hafter⟩ := h
  exact ⟨here, close, after, hhere.trans hwider, htag, hattributes, hfurther.trans hafter⟩

mutual

/-- The elements of a tree stand where the tree does. -/
theorem Tree.Stands.elementStands {size : Nat} {element : OpeningTag × List Tree} :
    ∀ {tree : Tree} {front rest : List Char}, tree.Stands size front rest →
      element ∈ tree.elements → ElementStands size element front rest
  | .element tag inAttributes children, front, rest, h, hmem => by
      obtain ⟨close, after, htag, hattributes, hinside⟩ := h
      have hrest : rest <:+ after := by
        split at hinside
        · exact hinside.2 ▸ List.suffix_rfl
        · obtain ⟨last, hchildren, hclosing⟩ := hinside
          exact hclosing.suffix.trans hchildren.suffix
      simp only [Tree.elements, List.mem_cons, List.mem_append] at hmem
      rcases hmem with rfl | hmem | hmem
      · exact ⟨front, close, after, List.suffix_rfl, htag, hattributes, hrest⟩
      · exact (StandIn.elementStands hattributes hmem).mono (List.tail_suffix front)
          (hrest.trans htag.suffix.2)
      · split at hinside
        · rw [hinside.1] at hmem
          cases hmem
        · obtain ⟨last, hchildren, hclosing⟩ := hinside
          exact (StandIn.elementStands hchildren hmem).mono (htag.suffix.2.trans htag.suffix.1)
            hclosing.suffix
  | .fragment _, _, _, h, hmem => by
      rw [Tree.Stands] at h
      exact StandIn.elementStands h hmem
  | .text _, _, _, _, hmem => by cases hmem
  | .embedded _, _, _, h, hmem => by
      rw [Tree.Stands] at h
      exact StandIn.elementStands h hmem

theorem StandIn.elementStands {size : Nat} {element : OpeningTag × List Tree} :
    ∀ {trees : List Tree} {front rest : List Char}, StandIn size trees front rest →
      element ∈ elementsOf trees → ElementStands size element front rest
  | [], _, _, _, hmem => by cases hmem
  | tree :: trees, front, rest, h, hmem => by
      obtain ⟨here, next, hhere, htree, htrees⟩ := h
      simp only [elementsOf, List.mem_append] at hmem
      rcases hmem with hmem | hmem
      · exact (htree.elementStands hmem).mono hhere htrees.suffix
      · exact (htrees.elementStands hmem).mono (htree.suffix.trans hhere) List.suffix_rfl

end

theorem Delimits.byteSize_lt {selfClosing : Bool} {close after : List Char}
    (h : Delimits selfClosing close after) : Text.byteSize after < Text.byteSize close := by
  cases selfClosing with
  | false =>
      rw [show close = '>' :: after from h]
      exact Nat.lt_add_of_pos_left (Char.utf8Size_pos '>')
  | true =>
      obtain ⟨gap, -, rfl, -⟩ := h
      simp only [Text.byteSize_cons, Text.byteSize_append]
      have hslash := Char.utf8Size_pos '/'
      omega

/-- The `<` of a tag is as wide as its byte. -/
theorem OpeningTag.Stands.byteSize_tail {size : Nat} {tag : OpeningTag} {front close after : List Char}
    (h : tag.Stands size front close after) : Text.byteSize front = Text.byteSize front.tail + 1 := by
  obtain ⟨inner, rfl, -⟩ := h.opens
  exact Nat.add_comm _ _

/-- The opening tag of an element stops between the places that the element stands between. -/
theorem ElementStands.stop_mem {size : Nat} {element : OpeningTag × List Tree}
    {front rest : List Char} (h : ElementStands size element front rest)
    (hfront : Text.byteSize front ≤ size) :
    size - Text.byteSize front < element.1.span.stop ∧
      element.1.span.stop ≤ size - Text.byteSize rest := by
  obtain ⟨here, close, after, hhere, htag, -, hrest⟩ := h
  have hhere := Text.byteSize_le_of_suffix hhere
  have hclose := Text.byteSize_le_of_suffix htag.suffix.1
  have hafter := htag.closes.byteSize_lt
  have hrest := Text.byteSize_le_of_suffix hrest
  rw [htag.stop]
  omega

/-- The opening tag of an element starts between the same places. -/
theorem ElementStands.start_mem {size : Nat} {element : OpeningTag × List Tree}
    {front rest : List Char} (h : ElementStands size element front rest)
    (hfront : Text.byteSize front ≤ size) :
    size - Text.byteSize front ≤ element.1.span.start ∧
      element.1.span.start < size - Text.byteSize rest := by
  obtain ⟨here, close, after, hhere, htag, -, hrest⟩ := h
  have hhere := Text.byteSize_le_of_suffix hhere
  have hclose := Text.byteSize_le_of_suffix htag.suffix.1
  have hafter := htag.closes.byteSize_lt
  have hrest := Text.byteSize_le_of_suffix hrest
  rw [htag.start]
  omega

/-- The tags of two elements neither start nor stop at one place. -/
structure TagsApart (e e' : OpeningTag × List Tree) : Prop where
  start_ne : e.1.span.start ≠ e'.1.span.start
  stop_ne : e.1.span.stop ≠ e'.1.span.stop

/-- Elements before a place and elements behind it have tags apart. -/
theorem pairwise_apart_append {size : Nat} {before behind : List (OpeningTag × List Tree)}
    {front mid rest : List Char} (hfront : Text.byteSize front ≤ size)
    (hmid : Text.byteSize mid ≤ size) (hbefore : ∀ e ∈ before, ElementStands size e front mid)
    (hbehind : ∀ e ∈ behind, ElementStands size e mid rest) (happart : before.Pairwise TagsApart)
    (happart' : behind.Pairwise TagsApart) : (before ++ behind).Pairwise TagsApart := by
  refine List.pairwise_append.2 ⟨happart, happart', fun e he e' he' => ?_⟩
  have hstart := ((hbefore e he).start_mem hfront).2
  have hstart' := ((hbehind e' he').start_mem hmid).1
  have hstop := ((hbefore e he).stop_mem hfront).2
  have hstop' := ((hbehind e' he').stop_mem hmid).1
  exact ⟨by omega, by omega⟩

mutual

/-- No two tags of a tree start or stop at one place. -/
theorem Tree.Stands.pairwise_apart {size : Nat} :
    ∀ {tree : Tree} {front rest : List Char}, tree.Stands size front rest →
      Text.byteSize front ≤ size → tree.elements.Pairwise TagsApart
  | .element tag inAttributes children, front, rest, h, hfront => by
      obtain ⟨close, after, htag, hattributes, hinside⟩ := h
      have hclose := Nat.le_trans (Text.byteSize_le_of_suffix htag.suffix.1) hfront
      have hafter := htag.closes.byteSize_lt
      have htail := htag.byteSize_tail
      have hwidth := Text.byteSize_le_of_suffix hattributes.suffix
      have hchildren : (∀ e ∈ elementsOf children, ElementStands size e after rest) ∧
          (elementsOf children).Pairwise TagsApart := by
        split at hinside
        · rw [hinside.1]
          exact ⟨nofun, .nil⟩
        · obtain ⟨last, hchildren, hclosing⟩ := hinside
          exact ⟨fun e he => (StandIn.elementStands hchildren he).mono List.suffix_rfl hclosing.suffix,
            StandIn.pairwise_apart hchildren (by omega)⟩
      refine List.pairwise_cons.2 ⟨fun e he => ?_, ?_⟩
      -- The tag itself starts before all others, and stops behind those in its attribute values and
      -- before those of its children.
      · rcases List.mem_append.1 he with he | he
        · have hstart := ((StandIn.elementStands hattributes he).start_mem (by omega)).1
          have hstop := ((StandIn.elementStands hattributes he).stop_mem (by omega)).2
          exact ⟨by rw [htag.start]; omega, by rw [htag.stop]; omega⟩
        · have hstart := ((hchildren.1 e he).start_mem (by omega)).1
          have hstop := ((hchildren.1 e he).stop_mem (by omega)).1
          exact ⟨by rw [htag.start]; omega, by rw [htag.stop]; omega⟩
      · refine pairwise_apart_append hfront (by omega) (fun e he => ?_) hchildren.1
          (StandIn.pairwise_apart hattributes (by omega)) hchildren.2
        exact (StandIn.elementStands hattributes he).mono (List.tail_suffix front) htag.suffix.2
  | .fragment _, _, _, h, hfront => by
      rw [Tree.Stands] at h
      exact StandIn.pairwise_apart h hfront
  | .text _, _, _, _, _ => .nil
  | .embedded _, _, _, h, hfront => by
      rw [Tree.Stands] at h
      exact StandIn.pairwise_apart h hfront

theorem StandIn.pairwise_apart {size : Nat} :
    ∀ {trees : List Tree} {front rest : List Char}, StandIn size trees front rest →
      Text.byteSize front ≤ size → (elementsOf trees).Pairwise TagsApart
  | [], _, _, _, _ => .nil
  | tree :: trees, front, rest, h, hfront => by
      obtain ⟨here, next, hhere, htree, htrees⟩ := h
      have hhere := Nat.le_trans (Text.byteSize_le_of_suffix hhere) hfront
      have hnext := Nat.le_trans (Text.byteSize_le_of_suffix htree.suffix) hhere
      exact pairwise_apart_append hhere hnext (fun e he => htree.elementStands he)
        (fun e he => htrees.elementStands he) (htree.pairwise_apart hhere)
        (htrees.pairwise_apart hnext)

end

end OriginTags.Markup
