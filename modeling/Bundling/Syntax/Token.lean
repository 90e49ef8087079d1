import Bundling.Syntax.Identifier

/-!
# Tokens

Words are kept as text, whether keyword or name: which of them a place admits is for the grammar. A
token holds the text from its start, so that it can be read again where the grammar decides between a
division and a regular expression, or takes `>>` as two closing brackets.
-/

namespace Bundling.Syntax

/-- Punctuation. Assignment operators other than `=` and `/=` need no distinction. -/
inductive Mark where
  | leftBrace | rightBrace | leftParen | rightParen | leftBracket | rightBracket
  | dot | ellipsis | semicolon | comma | colon | question | optionalDot
  | less | greater | lessEqual | greaterEqual | shiftLeft | shiftRight | shiftRightZero
  | equal | notEqual | same | notSame
  | plus | minus | star | slash | percent | power
  | increment | decrement
  | bitAnd | bitOr | bitXor | bang | tilde | andAnd | orOr | nullish
  | assign | slashAssign | compoundAssign | arrow | at
  deriving DecidableEq, Repr

/-- What a token is. -/
inductive Lexeme where
  | word (text : String) (escaped : Bool)
  | privateName (text : String)
  | number
  | string (value : String)
  /-- A piece of a template: its text as written, whether its escapes are valid, and whether it ends
  the template. -/
  | template (raw : String) (valid : Bool) (closed : Bool)
  | regex
  | mark (m : Mark)
  | markupText
  | eof
  deriving DecidableEq, Repr

/-- One token. -/
structure Token where
  lexeme : Lexeme
  /-- Whether a line ends between the previous token and this one. -/
  afterNewline : Bool
  /-- The source from the token's first character on. -/
  start : List Char
  /-- The source after the token. -/
  rest : List Char

/-- Words that are never names. -/
def reservedWords : List String :=
  ["await", "break", "case", "catch", "class", "const", "continue", "debugger", "default", "delete",
   "do", "else", "enum", "export", "extends", "false", "finally", "for", "function", "if", "import",
   "in", "instanceof", "new", "null", "return", "super", "switch", "this", "throw", "true", "try",
   "typeof", "var", "void", "while", "with", "yield"]

/-- Words that strict code reserves. -/
def strictWords : List String :=
  ["let", "static", "implements", "interface", "package", "private", "protected", "public"]

def isReserved (w : String) : Bool := reservedWords.contains w

/-- Names that a place outside generators and asynchronous code may bind. -/
def isBindable (w : String) : Bool := !isReserved w || w == "yield" || w == "await"

/-- Words that modify a declaration. -/
def isModifier (w : String) : Bool :=
  ["abstract", "accessor", "async", "const", "declare", "in", "out", "public", "private",
   "protected", "readonly", "static", "override", "export", "default"].contains w

end Bundling.Syntax
