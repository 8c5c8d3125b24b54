import OriginTags.Decimal.Binary64
import OriginTags.Text.Identifier
/-!
# Tokens

The tokens of a module in TypeScript with markup, the classes of characters that separate them, and
the classes of words that the grammar tells apart.
-/

namespace OriginTags.Tsx

/-- A token. A `>` is always a token of its own: the grammar decides where several of them form an
operator. In the same way a `/` may turn out to begin a regular expression. -/
inductive Token
  | endOfInput
  /-- An identifier or keyword; `escaped` tells whether it was written with an escape. -/
  | word (name : String) (escaped : Bool)
  /-- `#name`. -/
  | privateName (name : String)
  | number (value : Binary64)
  | bigint
  /-- A string; `lone` tells whether it holds a surrogate that is not part of a pair. -/
  | string (value : String) (lone : Bool)
  /-- A template up to its first substitution or to its end; `valid` tells whether its escapes are
  those of a string. -/
  | template (ended valid : Bool)
  | symbol (text : String)
  /-- A character or a literal that is no token. -/
  | unreadable
deriving DecidableEq, Repr

/-! ## Characters -/

/-- Whether a character ends a line. -/
def isLineEnd (c : Char) : Bool :=
  c == '\n' || c == '\r' || c.toNat == 0x2028 || c.toNat == 0x2029

/-- Whether a character separates tokens and ends no line. -/
def isSpace (c : Char) : Bool :=
  let n := c.toNat
  n == 0x20 || n == 9 || n == 0xB || n == 0xC || n == 0x85 || n == 0xA0 || n == 0x1680 ||
  (0x2000 ≤ n && n ≤ 0x200B) || n == 0x202F || n == 0x205F || n == 0x3000 || n == 0xFEFF

/-! ## Words -/

/-- The words that name nothing but themselves. -/
def reservedWords : List String :=
  ["break", "case", "catch", "class", "const", "continue", "debugger", "default", "delete", "do",
   "else", "enum", "export", "extends", "false", "finally", "for", "function", "if", "import", "in",
   "instanceof", "new", "null", "return", "super", "switch", "this", "throw", "true", "try",
   "typeof", "var", "void", "while", "with"]

/-- The words that are operators in some functions and names elsewhere. -/
def suspendingWords : List String := ["await", "yield"]

/-- The words that have a meaning of their own in some places and are names in others. -/
def contextualWords : List String :=
  ["abstract", "accessor", "any", "as", "assert", "asserts", "async", "bigint", "boolean",
   "constructor", "declare", "defer", "from", "get", "global", "implements", "infer", "interface",
   "intrinsic", "is", "keyof", "let", "meta", "module", "namespace", "never", "number", "object",
   "of", "out", "override", "package", "private", "protected", "public", "readonly", "require",
   "satisfies", "set", "source", "static", "string", "symbol", "target", "type", "undefined",
   "unique", "unknown", "using"]

/-- Further words that name no variable that a module exports. -/
def strictWords : List String :=
  ["implements", "interface", "package", "private", "protected", "public", "static"]

/-- Whether a word may name a variable that is introduced, operator or not. -/
def isBindable (name : String) : Bool := !reservedWords.contains name

/-- Whether a word is a name in every function. -/
def isFree (name : String) : Bool := isBindable name && !suspendingWords.contains name

/-- Whether a word has a meaning of its own somewhere. -/
def isKeyword (name : String) : Bool := !isFree name || contextualWords.contains name

/-! ## Symbols -/

/-- The symbols, longer ones before their own beginnings. -/
def symbols : List String :=
  ["\x7b", "\x7d", "(", ")", "[", "]", ";", ",", "~", ":", "@",
   "...", ".",
   "<<=", "<<", "<=", "<",
   ">",
   "===", "==", "=>", "=",
   "!==", "!=", "!",
   "++", "+=", "+", "--", "-=", "-",
   "**=", "**", "*=", "*", "/=", "/", "%=", "%",
   "&&=", "&&", "&=", "&", "||=", "||", "|=", "|", "^=", "^",
   "??=", "??", "?.", "?"]

namespace Token

def isWord : Token → Bool
  | .word .. => true
  | _ => false

/-- Whether a token is a certain word, however it is written. -/
def isWordOf (name : String) : Token → Bool
  | .word w _ => w == name
  | _ => false

def isBindingName : Token → Bool
  | .word w _ => isBindable w
  | _ => false

def isFreeName : Token → Bool
  | .word w _ => isFree w
  | _ => false

def isSymbolIn (texts : List String) : Token → Bool
  | .symbol text => texts.contains text
  | _ => false

/-- Whether a token may be the name of a property as it stands. -/
def isPlainKey : Token → Bool
  | .word .. | .string .. | .number _ | .bigint => true
  | _ => false

def isLiteral : Token → Bool
  | .string .. | .number _ | .bigint => true
  | .word w _ => w == "true" || w == "false" || w == "null"
  | _ => false

def isNumeral : Token → Bool
  | .number _ | .bigint => true
  | _ => false

end Token

end OriginTags.Tsx
