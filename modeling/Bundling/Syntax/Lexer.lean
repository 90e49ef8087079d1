import Bundling.Json.Reader
import Bundling.Syntax.Token

/-!
# Reading tokens

Every reader takes the characters that are left and gives what it read together with what follows;
`none` means that no token starts there. Readers whose step is not a single character take a bound on
the number of steps; the length of the source is always enough.
-/

namespace Bundling.Syntax.Lexer

def isLineEnd (c : Char) : Bool :=
  c == '\n' || c == '\r' || c.toNat == 0x2028 || c.toNat == 0x2029

/-- Blanks within a line. -/
def isBlank (c : Char) : Bool :=
  c == ' ' || c == '\t' || c.toNat == 0x0B || c.toNat == 0x0C || c.toNat == 0x85
    || c.toNat == 0xA0 || c.toNat == 0xFEFF || c.toNat == 0x1680
    || (0x2000 ≤ c.toNat && c.toNat ≤ 0x200B) || c.toNat == 0x202F || c.toNat == 0x205F
    || c.toNat == 0x3000

/-! ## Between tokens -/

/-- Where the text between two tokens stands. -/
inductive Gap where
  | blank
  | lineComment
  | blockComment

/-- Skips blanks and comments; scripts also have the comments of markup. Gives whether a line ended,
and fails in a comment that does not end. -/
def skipGap (script : Bool) : Gap → Bool → List Char → Option (Bool × List Char)
  | .blank, newline, '/' :: '/' :: cs => skipGap script .lineComment newline cs
  | .blank, newline, '/' :: '*' :: cs => skipGap script .blockComment newline cs
  | .blank, newline, '<' :: '!' :: '-' :: '-' :: cs =>
    if script then skipGap script .lineComment newline cs
    else some (newline, '<' :: '!' :: '-' :: '-' :: cs)
  | .blank, newline, '-' :: '-' :: '>' :: cs =>
    if script && newline then skipGap script .lineComment newline cs
    else some (newline, '-' :: '-' :: '>' :: cs)
  | .blank, newline, c :: cs =>
    if isLineEnd c then skipGap script .blank true cs
    else if isBlank c then skipGap script .blank newline cs
    else some (newline, c :: cs)
  | .blank, newline, [] => some (newline, [])
  | .lineComment, newline, c :: cs =>
    if isLineEnd c then skipGap script .blank true cs else skipGap script .lineComment newline cs
  | .lineComment, newline, [] => some (newline, [])
  | .blockComment, newline, '*' :: '/' :: cs => skipGap script .blank newline cs
  | .blockComment, newline, c :: cs => skipGap script .blockComment (newline || isLineEnd c) cs
  | .blockComment, _, [] => none

/-! ## Words -/

def hexRun (cs : List Char) : List Char × List Char :=
  cs.span fun c => (Json.Reader.hexValue? c).isSome

def hexNat (ds : List Char) : Nat :=
  ds.foldl (fun n d => n * 16 + (Json.Reader.hexValue? d).getD 0) 0

/-- The code point of a unicode escape, after its `\u`. -/
def codePoint? : List Char → Option (Nat × List Char)
  | '{' :: cs =>
    match hexRun cs with
    | ([], _) => none
    | (ds, '}' :: rest) => if hexNat ds ≤ 0x10FFFF then some (hexNat ds, rest) else none
    | _ => none
  | cs => Json.Reader.hex4 cs

/-- The rest of a word, its characters last first. -/
def wordRest : Nat → List Char → Bool → List Char → Option (String × Bool × List Char)
  | 0, _, _, _ => none
  | limit + 1, acc, _, '\\' :: 'u' :: cs =>
    match codePoint? cs with
    | some (n, rest) =>
      if n.isValidChar && isIdentifierPart (Char.ofNat n) then
        wordRest limit (Char.ofNat n :: acc) true rest
      else none
    | none => none
  | limit + 1, acc, escaped, c :: cs =>
    if isIdentifierPart c then wordRest limit (c :: acc) escaped cs
    else if c == '\\' then none
    else some (String.ofList acc.reverse, escaped, c :: cs)
  | _ + 1, acc, escaped, [] => some (String.ofList acc.reverse, escaped, [])

/-- A word: its text with escapes resolved, and whether it has any. -/
def word? (limit : Nat) : List Char → Option (String × Bool × List Char)
  | '\\' :: 'u' :: cs =>
    match codePoint? cs with
    | some (n, rest) =>
      if n.isValidChar && isIdentifierStart (Char.ofNat n) then
        wordRest limit [Char.ofNat n] true rest
      else none
    | none => none
  | c :: cs => if isIdentifierStart c then wordRest limit [c] false cs else none
  | [] => none

/-! ## Numbers -/

/-- Digits with single separators between them; fails on a separator without a digit after it. -/
def digitsRest (isDigit : Char → Bool) : List Char → Option (List Char)
  | '_' :: c :: cs => if isDigit c then digitsRest isDigit cs else none
  | c :: cs =>
    if c == '_' then none else if isDigit c then digitsRest isDigit cs else some (c :: cs)
  | [] => some []

/-- At least one digit. -/
def digits? (isDigit : Char → Bool) : List Char → Option (List Char)
  | c :: cs => if isDigit c then digitsRest isDigit cs else none
  | [] => none

/-- Nothing that could belong to the number may follow it. -/
def numberEnd? : List Char → Option (List Char)
  | c :: cs => if c.isDigit || isIdentifierStart c || c == '\\' then none else some (c :: cs)
  | [] => some []

def exponent? : List Char → Option (List Char)
  | c :: cs =>
    if c == 'e' || c == 'E' then
      match cs with
      | '+' :: cs => digits? Char.isDigit cs
      | '-' :: cs => digits? Char.isDigit cs
      | cs => digits? Char.isDigit cs
    else some (c :: cs)
  | [] => some []

/-- What follows the point of a number. -/
def fraction? (cs : List Char) : Option (List Char) := do
  let cs ← match cs with
    | c :: _ => if c.isDigit then digits? Char.isDigit cs else some cs
    | [] => some []
  numberEnd? (← exponent? cs)

/-- The end of a whole decimal, which may go on with a point, an exponent or the mark of a big
integer. -/
def decimalTail? : List Char → Option (List Char)
  | '.' :: cs => fraction? cs
  | 'n' :: cs => numberEnd? cs
  | cs => do numberEnd? (← exponent? cs)

def radixDigits? (isDigit : Char → Bool) (cs : List Char) : Option (List Char) := do
  match ← digits? isDigit cs with
  | 'n' :: cs => numberEnd? cs
  | cs => numberEnd? cs

def isOctal (c : Char) : Bool := '0' ≤ c && c ≤ '7'

/-- A number that starts with zero. -/
def zeroTail? : List Char → Option (List Char)
  | 'x' :: cs | 'X' :: cs => radixDigits? (fun c => (Json.Reader.hexValue? c).isSome) cs
  | 'o' :: cs | 'O' :: cs => radixDigits? isOctal cs
  | 'b' :: cs | 'B' :: cs => radixDigits? (fun c => c == '0' || c == '1') cs
  | c :: cs =>
    if c.isDigit then
      let (ds, rest) := (c :: cs).span Char.isDigit
      if ds.all isOctal then numberEnd? rest
      else match rest with
        | '.' :: rest => fraction? rest
        | rest => do numberEnd? (← exponent? rest)
    else decimalTail? (c :: cs)
  | [] => some []

def number? : List Char → Option (List Char)
  | '.' :: cs => do fraction? (← (digits? Char.isDigit cs).map fun _ => cs)
  | '0' :: cs => zeroTail? cs
  | cs => do decimalTail? (← digits? Char.isDigit cs)

/-! ## Strings -/

/-- The value of a string from its code points, in which surrogates may stand: a pair is one
character, and one that stands alone becomes the replacement character with its digits. -/
def stringValue (units : List Nat) : String :=
  let lone := hasLone units
  String.ofList (go lone units)
where
  isHigh (n : Nat) : Bool := 0xD800 ≤ n && n < 0xDC00
  isLow (n : Nat) : Bool := 0xDC00 ≤ n && n < 0xE000
  hasLone : List Nat → Bool
    | u :: v :: rest =>
      if isHigh u && isLow v then hasLone rest else isHigh u || isLow u || hasLone (v :: rest)
    | [u] => isHigh u || isLow u
    | [] => false
  digits (n : Nat) : List Char :=
    Char.ofNat 0xFFFD :: [n / 4096, n / 256 % 16, n / 16 % 16, n % 16].map
      fun d => (Nat.toDigits 16 d).headD '0'
  go (lone : Bool) : List Nat → List Char
    | u :: v :: rest =>
      if isHigh u && isLow v then
        Char.ofNat (0x10000 + (u - 0xD800) * 0x400 + (v - 0xDC00)) :: go lone rest
      else (if isHigh u || isLow u || (lone && u == 0xFFFD) then digits u else [Char.ofNat u])
        ++ go lone (v :: rest)
    | [u] => if isHigh u || isLow u || (lone && u == 0xFFFD) then digits u else [Char.ofNat u]
    | [] => []

/-- An octal escape of old style, up to three digits and below 256. -/
def octalEscape (c : Char) (cs : List Char) : Nat × List Char :=
  let v := c.toNat - 48
  match cs with
  | d :: rest =>
    if isOctal d then
      let w := v * 8 + (d.toNat - 48)
      match rest with
      | e :: rest' => if isOctal e && v ≤ 3 then (w * 8 + (e.toNat - 48), rest') else (w, rest)
      | [] => (w, [])
    else (v, cs)
  | [] => (v, [])

/-- A string up to its closing quote; `acc` holds its code points, last first. -/
def stringBody? (quote : Char) : Nat → List Nat → List Char → Option (String × List Char)
  | 0, _, _ => none
  | _ + 1, _, [] => none
  | limit + 1, acc, c :: cs =>
    if c == quote then some (stringValue acc.reverse, cs)
    else if c == '\n' || c == '\r' then none
    else if c != '\\' then stringBody? quote limit (c.toNat :: acc) cs
    else match cs with
      | [] => none
      | '\r' :: '\n' :: cs => stringBody? quote limit acc cs
      | 'u' :: cs =>
        match codePoint? cs with
        | some (n, cs) => stringBody? quote limit (n :: acc) cs
        | none => none
      | 'x' :: a :: b :: cs =>
        match Json.Reader.hexValue? a, Json.Reader.hexValue? b with
        | some x, some y => stringBody? quote limit ((x * 16 + y) :: acc) cs
        | _, _ => none
      | 'x' :: _ => none
      | 'n' :: cs => stringBody? quote limit (10 :: acc) cs
      | 'r' :: cs => stringBody? quote limit (13 :: acc) cs
      | 't' :: cs => stringBody? quote limit (9 :: acc) cs
      | 'b' :: cs => stringBody? quote limit (8 :: acc) cs
      | 'v' :: cs => stringBody? quote limit (11 :: acc) cs
      | 'f' :: cs => stringBody? quote limit (12 :: acc) cs
      | d :: cs =>
        if isLineEnd d then stringBody? quote limit acc cs
        else if isOctal d then
          let (n, cs) := octalEscape d cs
          stringBody? quote limit (n :: acc) cs
        else stringBody? quote limit (d.toNat :: acc) cs

/-! ## Templates -/

/-- Whether an escape is one that a template admits; `cs` follows the backslash. -/
def validEscape : List Char → Bool
  | 'u' :: cs => (codePoint? cs).isSome
  | 'x' :: a :: b :: _ => (Json.Reader.hexValue? a).isSome && (Json.Reader.hexValue? b).isSome
  | 'x' :: _ => false
  | '0' :: d :: _ => !d.isDigit
  | d :: _ => !d.isDigit || d == '0'
  | [] => true

/-- A piece of a template up to its end or to the next substitution. Line ends are written as line
feeds. -/
def templateBody? : List Char → Bool → List Char → Option (Lexeme × List Char)
  | acc, valid, '`' :: cs => some (.template (String.ofList acc.reverse) valid true, cs)
  | acc, valid, '$' :: '{' :: cs => some (.template (String.ofList acc.reverse) valid false, cs)
  | acc, valid, '\\' :: '\r' :: '\n' :: cs => templateBody? ('\n' :: '\\' :: acc) valid cs
  | acc, valid, '\\' :: c :: cs =>
    templateBody? ((if c == '\r' then '\n' else c) :: '\\' :: acc) (valid && validEscape (c :: cs)) cs
  | acc, valid, '\r' :: '\n' :: cs => templateBody? ('\n' :: acc) valid cs
  | acc, valid, c :: cs => templateBody? ((if c == '\r' then '\n' else c) :: acc) valid cs
  | _, _, [] => none

/-! ## Regular expressions -/

/-- The body of a regular expression after its first slash; a class may hold slashes. -/
def regexBody? : Bool → List Char → Option (List Char)
  | inClass, '\\' :: c :: cs => if isLineEnd c then none else regexBody? inClass cs
  | inClass, c :: cs =>
    if isLineEnd c then none
    else if c == '[' then regexBody? true cs
    else if c == ']' then regexBody? false cs
    else if c == '/' && !inClass then some cs
    else if c == '\\' then none
    else regexBody? inClass cs
  | _, [] => none

/-- The flags: each at most once, and no other word character. -/
def regexFlags? : List Char → List Char → Option (List Char)
  | seen, c :: cs =>
    if "dgimsuvy".toList.contains c then
      if seen.contains c then none else regexFlags? (c :: seen) cs
    else if isIdentifierPart c || c == '\\' then none
    else some (c :: cs)
  | _, [] => some []

def regex? (cs : List Char) : Option (List Char) := do
  regexFlags? [] (← regexBody? false cs)

/-! ## Punctuation -/

/-- The longest mark at the front; `>` is always read alone. -/
def mark? : List Char → Option (Mark × List Char)
  | '{' :: cs => some (.leftBrace, cs)
  | '}' :: cs => some (.rightBrace, cs)
  | '(' :: cs => some (.leftParen, cs)
  | ')' :: cs => some (.rightParen, cs)
  | '[' :: cs => some (.leftBracket, cs)
  | ']' :: cs => some (.rightBracket, cs)
  | ';' :: cs => some (.semicolon, cs)
  | ',' :: cs => some (.comma, cs)
  | ':' :: cs => some (.colon, cs)
  | '~' :: cs => some (.tilde, cs)
  | '@' :: cs => some (.at, cs)
  | '.' :: '.' :: '.' :: cs => some (.ellipsis, cs)
  | '.' :: cs => some (.dot, cs)
  | '?' :: '?' :: '=' :: cs => some (.compoundAssign, cs)
  | '?' :: '?' :: cs => some (.nullish, cs)
  | '?' :: '.' :: c :: cs =>
    if c.isDigit then some (.question, '.' :: c :: cs) else some (.optionalDot, c :: cs)
  | '?' :: '.' :: cs => some (.optionalDot, cs)
  | '?' :: cs => some (.question, cs)
  | '<' :: '<' :: '=' :: cs => some (.compoundAssign, cs)
  | '<' :: '<' :: cs => some (.shiftLeft, cs)
  | '<' :: '=' :: cs => some (.lessEqual, cs)
  | '<' :: cs => some (.less, cs)
  | '>' :: cs => some (.greater, cs)
  | '=' :: '=' :: '=' :: cs => some (.same, cs)
  | '=' :: '=' :: cs => some (.equal, cs)
  | '=' :: '>' :: cs => some (.arrow, cs)
  | '=' :: cs => some (.assign, cs)
  | '!' :: '=' :: '=' :: cs => some (.notSame, cs)
  | '!' :: '=' :: cs => some (.notEqual, cs)
  | '!' :: cs => some (.bang, cs)
  | '+' :: '+' :: cs => some (.increment, cs)
  | '+' :: '=' :: cs => some (.compoundAssign, cs)
  | '+' :: cs => some (.plus, cs)
  | '-' :: '-' :: cs => some (.decrement, cs)
  | '-' :: '=' :: cs => some (.compoundAssign, cs)
  | '-' :: cs => some (.minus, cs)
  | '*' :: '*' :: '=' :: cs => some (.compoundAssign, cs)
  | '*' :: '*' :: cs => some (.power, cs)
  | '*' :: '=' :: cs => some (.compoundAssign, cs)
  | '*' :: cs => some (.star, cs)
  | '/' :: '=' :: cs => some (.slashAssign, cs)
  | '/' :: cs => some (.slash, cs)
  | '%' :: '=' :: cs => some (.compoundAssign, cs)
  | '%' :: cs => some (.percent, cs)
  | '&' :: '&' :: '=' :: cs => some (.compoundAssign, cs)
  | '&' :: '&' :: cs => some (.andAnd, cs)
  | '&' :: '=' :: cs => some (.compoundAssign, cs)
  | '&' :: cs => some (.bitAnd, cs)
  | '|' :: '|' :: '=' :: cs => some (.compoundAssign, cs)
  | '|' :: '|' :: cs => some (.orOr, cs)
  | '|' :: '=' :: cs => some (.compoundAssign, cs)
  | '|' :: cs => some (.bitOr, cs)
  | '^' :: '=' :: cs => some (.compoundAssign, cs)
  | '^' :: cs => some (.bitXor, cs)
  | _ => none

/-- The operator that starts with `>`, where operators are wanted. -/
def greaterMark : List Char → Mark × List Char
  | '>' :: '>' :: '>' :: '=' :: cs => (.compoundAssign, cs)
  | '>' :: '>' :: '>' :: cs => (.shiftRightZero, cs)
  | '>' :: '>' :: '=' :: cs => (.compoundAssign, cs)
  | '>' :: '>' :: cs => (.shiftRight, cs)
  | '>' :: '=' :: cs => (.greaterEqual, cs)
  | cs => (.greater, cs.drop 1)

/-! ## Tokens -/

/-- The lexeme at the front of a text that starts with no blank. -/
def lexeme? (limit : Nat) : List Char → Option (Lexeme × List Char)
  | [] => some (.eof, [])
  | '"' :: cs => (stringBody? '"' limit [] cs).map fun (s, rest) => (.string s, rest)
  | '\'' :: cs => (stringBody? '\'' limit [] cs).map fun (s, rest) => (.string s, rest)
  | '`' :: cs => templateBody? [] true cs
  | '#' :: cs => (word? limit cs).map fun (w, _, rest) => (.privateName w, rest)
  | c :: cs =>
    if c.isDigit || (c == '.' && (cs.head?.map Char.isDigit).getD false) then
      (number? (c :: cs)).map fun rest => (.number, rest)
    else if isIdentifierStart c || c == '\\' then
      (word? limit (c :: cs)).map fun (w, escaped, rest) => (.word w escaped, rest)
    else (mark? (c :: cs)).map fun (m, rest) => (.mark m, rest)

/-- The next token of a text. -/
def token? (script : Bool) (limit : Nat) (atLineStart : Bool) (cs : List Char) : Option Token := do
  let (newline, start) ← skipGap script .blank atLineStart cs
  let (lexeme, rest) ← lexeme? limit start
  some ⟨lexeme, newline, start, rest⟩

/-- The next token inside a markup element: text, or the start of an expression or a tag. Closing
brackets are no text. -/
def markupChild? : List Char → Option Token
  | [] => some ⟨.eof, false, [], []⟩
  | '{' :: cs => some ⟨.mark .leftBrace, false, '{' :: cs, cs⟩
  | '<' :: cs => some ⟨.mark .less, false, '<' :: cs, cs⟩
  | cs =>
    match cs.dropWhile fun c => c ∉ ['{', '}', '<', '>'] with
    | '}' :: _ | '>' :: _ => none
    | rest => some ⟨.markupText, false, cs, rest⟩

/-- A markup name read on over hyphens, from the text after its first word. -/
def markupNameRest (cs : List Char) : List Char × List Char :=
  cs.span fun c => isIdentifierPart c || c == '-'

/-- The value of a markup attribute: text between quotes without escapes, or an ordinary token. -/
def attributeValue? (script : Bool) (limit : Nat) (cs : List Char) : Option Token := do
  let (newline, start) ← skipGap script .blank false cs
  let quoted (q : Char) (body : List Char) : Option Token :=
    match body.span (· != q) with
    | (text, _ :: rest) => some ⟨.string (String.ofList text), newline, start, rest⟩
    | (_, []) => none
  match start with
  | '"' :: body => quoted '"' body
  | '\'' :: body => quoted '\'' body
  | _ =>
    let (lexeme, rest) ← lexeme? limit start
    some ⟨lexeme, newline, start, rest⟩

end Bundling.Syntax.Lexer
