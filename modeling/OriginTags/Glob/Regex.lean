import OriginTags.Text.Bytes
/-!
# Regular expressions of globs

The few regular expressions that globs need: characters, two classes of characters and their
repetition, sequences, alternatives and optional groups. An expression has a text, in the usual
notation, and it matches paths.
-/

namespace OriginTags.Glob

inductive CharClass
  /-- Written `.`: every character but a line feed. -/
  | notNewline
  /-- Written `[^/]`: every character but a slash. -/
  | notSlash
deriving DecidableEq, Repr

def CharClass.holds : CharClass → Char → Bool
  | .notNewline, c => c != '\n'
  | .notSlash, c => c != '/'

inductive Regex
  | empty
  | char (c : Char)
  | one (cls : CharClass)
  | many (cls : CharClass)
  | seq (first second : Regex)
  | alt (first second : Regex)
  | group (inner : Regex)
  | optional (inner : Regex)
deriving DecidableEq, Repr

namespace Regex

/-! ## Text -/

/-- The characters with a meaning in the notation. -/
def metaChars : List Char :=
  ['\\', '.', '+', '*', '?', '(', ')', '|', '[', ']', '\x7b', '\x7d', '^', '$', '#', '&', '-', '~']

/-- A character that stands for itself. -/
def literalText (c : Char) : List Char :=
  if metaChars.contains c then ['\\', c] else [c]

def classText : CharClass → List Char
  | .notNewline => ['.']
  | .notSlash => "[^/]".toList

/-- The notation of an expression. -/
def text : Regex → List Char
  | .empty => []
  | .char c => literalText c
  | .one cls => classText cls
  | .many cls => classText cls ++ ['*']
  | .seq first second => text first ++ text second
  | .alt first second => text first ++ '|' :: text second
  | .group inner => "(?:".toList ++ text inner ++ [')']
  | .optional inner => text inner ++ ['?']

/-- The notation of an expression that has to match a whole text. -/
def anchoredText (r : Regex) : List Char := '^' :: (text r ++ ['$'])

/-! ## Matching -/

/-- What may be left of a text after some characters of a class. -/
def dropMany (cls : CharClass) : List Char → List (List Char)
  | [] => [[]]
  | c :: cs => if cls.holds c then (c :: cs) :: dropMany cls cs else [c :: cs]

/-- A text without its first character, if that has a property. -/
def dropOne (holds : Char → Bool) : List Char → Option (List Char)
  | [] => none
  | c :: cs => if holds c then some cs else none

/-- What may be left of some texts after a part that an expression matches. -/
def remainders : Regex → List (List Char) → List (List Char)
  | .empty, texts => texts
  | .char c, texts => texts.filterMap (dropOne (· == c))
  | .one cls, texts => texts.filterMap (dropOne cls.holds)
  | .many cls, texts => (texts.flatMap (dropMany cls)).eraseDups
  | .seq first second, texts => second.remainders (first.remainders texts)
  | .alt first second, texts => (first.remainders texts ++ second.remainders texts).eraseDups
  | .group inner, texts => inner.remainders texts
  | .optional inner, texts => (texts ++ inner.remainders texts).eraseDups

def isMatch (r : Regex) (text : List Char) : Bool := (r.remainders [text]).any List.isEmpty

end Regex

end OriginTags.Glob
