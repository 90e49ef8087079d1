import Bundling.Json.Reader
import Bundling.Pattern.Basic

/-!
# Regular expressions

Reading the usual notation of patterns: classes, groups, counted repetition and flags. There are no
back references and no looking around. Whatever has no meaning is refused.
-/

namespace Bundling.Pattern.Expression

/-- How the following characters are meant. -/
structure Flags where
  anyCase : Bool := false
  multiLine : Bool := false
  dotAll : Bool := false
  spaced : Bool := false

/-- The characters of a text that have a meaning of their own. -/
def isMeta (c : Char) : Bool := "\\.+*?()|[]{}^$#&-~".toList.contains c

/-- Whether a character that needs no escape may still have one. -/
def isEscapable (c : Char) : Bool :=
  isMeta c || (c.toNat < 128 && !c.isAlphanum && c != '<' && c != '>' && 33 ≤ c.toNat && c.toNat < 127)
    || c == ' '

/-- A named class by its letter; the capital means all other characters. -/
def classLetter? (c : Char) : Option CharSet :=
  match c with
  | 'd' => some (.named .digit)
  | 'D' => some (.negated (.named .digit))
  | 's' => some (.named .space)
  | 'S' => some (.negated (.named .space))
  | 'w' => some (.named .word)
  | 'W' => some (.negated (.named .word))
  | _ => none

/-- A class by the name of a Unicode property. -/
def property? (name : String) : Option CharClass :=
  match (name.toLower.toList.filter fun c => c != '_' && c != ' ' && c != '-') with
  | cs =>
    match String.ofList cs with
    | "l" | "letter" | "alphabetic" | "alpha" => some .letter
    | "lu" | "uppercase" | "uppercaseletter" | "upper" => some .upper
    | "ll" | "lowercase" | "lowercaseletter" | "lower" => some .lower
    | "n" | "nd" | "number" | "decimalnumber" | "digit" => some .numeric
    | "whitespace" | "space" => some .space
    | _ => none

/-- A property after `\p`: one letter, or a name between braces. -/
def propertyRest? (negated : Bool) : List Char → Option (CharSet × List Char)
  | '{' :: cs =>
    let (name, rest) := cs.span (· != '}')
    match name, rest with
    | '^' :: name, '}' :: rest => build (!negated) name rest
    | name, '}' :: rest => build negated name rest
    | _, _ => none
  | c :: cs => build negated [c] cs
  | [] => none
where
  build (negated : Bool) (name rest : List Char) : Option (CharSet × List Char) :=
    (property? (String.ofList name)).map fun k =>
      (if negated then .negated (.named k) else .named k, rest)

/-- A character by its hexadecimal number: so many digits, or any number of them between braces. -/
def hexRest? (digits : Nat) : List Char → Option (Char × List Char)
  | '{' :: cs =>
    let (ds, rest) := cs.span fun c => (Json.Reader.hexValue? c).isSome
    match rest with
    | '}' :: rest => if ds.isEmpty then none else (value? ds).map (·, rest)
    | _ => none
  | cs =>
    let ds := cs.take digits
    if ds.length = digits && ds.all (fun c => (Json.Reader.hexValue? c).isSome) then
      (value? ds).map (·, cs.drop digits)
    else none
where
  value? (ds : List Char) : Option Char :=
    let n := ds.foldl (fun n d => n * 16 + (Json.Reader.hexValue? d).getD 0) 0
    if n.isValidChar then some (Char.ofNat n) else none

/-- What an escape stands for: a character, a set, or an anchor. -/
inductive Escape where
  | char (c : Char)
  | set (s : CharSet)
  | anchor (a : Anchor)

/-- An escape after its backslash. -/
def escape? : List Char → Option (Escape × List Char)
  | 'b' :: '{' :: cs =>
    let (name, rest) := cs.span (· != '}')
    match String.ofList name, rest with
    | "start", '}' :: rest => some (.anchor .wordStart, rest)
    | "end", '}' :: rest => some (.anchor .wordEnd, rest)
    | _, _ => none
  | 'b' :: cs => some (.anchor .wordEdge, cs)
  | 'B' :: cs => some (.anchor .noWordEdge, cs)
  | 'A' :: cs => some (.anchor .textStart, cs)
  | 'z' :: cs => some (.anchor .textEnd, cs)
  | '<' :: cs => some (.anchor .wordStart, cs)
  | '>' :: cs => some (.anchor .wordEnd, cs)
  | 'a' :: cs => some (.char '\x07', cs)
  | 'f' :: cs => some (.char '\x0c', cs)
  | 't' :: cs => some (.char '\t', cs)
  | 'n' :: cs => some (.char '\n', cs)
  | 'r' :: cs => some (.char '\r', cs)
  | 'v' :: cs => some (.char '\x0b', cs)
  | 'x' :: cs => (hexRest? 2 cs).map fun (c, rest) => (.char c, rest)
  | 'u' :: cs => (hexRest? 4 cs).map fun (c, rest) => (.char c, rest)
  | 'U' :: cs => (hexRest? 8 cs).map fun (c, rest) => (.char c, rest)
  | 'p' :: cs => (propertyRest? false cs).map fun (s, rest) => (.set s, rest)
  | 'P' :: cs => (propertyRest? true cs).map fun (s, rest) => (.set s, rest)
  | c :: cs =>
    match classLetter? c with
    | some s => some (.set s, cs)
    | none => if isEscapable c then some (.char c, cs) else none
  | [] => none

/-! ## Classes -/

/-- The class of a name between `[:` and `:]`. -/
def asciiClass? (name : String) : Option CharSet :=
  let r (low high : Char) : CharSet := .range false low high
  match name with
  | "alnum" => some (.union (r '0' '9') (.union (r 'A' 'Z') (r 'a' 'z')))
  | "alpha" => some (.union (r 'A' 'Z') (r 'a' 'z'))
  | "ascii" => some (r '\x00' '\x7f')
  | "blank" => some (.union (r '\t' '\t') (r ' ' ' '))
  | "cntrl" => some (.union (r '\x00' '\x1f') (r '\x7f' '\x7f'))
  | "digit" => some (r '0' '9')
  | "graph" => some (r '!' '~')
  | "lower" => some (r 'a' 'z')
  | "print" => some (r ' ' '~')
  | "punct" =>
    some (.union (r '!' '/') (.union (r ':' '@') (.union (r '[' '\x60') (r '\x7b' '~'))))
  | "space" => some (.union (r '\t' '\r') (r ' ' ' '))
  | "upper" => some (r 'A' 'Z')
  | "word" => some (.union (r '0' '9') (.union (r 'A' 'Z') (.union (r '_' '_') (r 'a' 'z'))))
  | "xdigit" => some (.union (r '0' '9') (.union (r 'A' 'F') (r 'a' 'f')))
  | _ => none

/-- An ASCII class after `[`, if there is one. -/
def asciiClassRest? : List Char → Option (CharSet × List Char)
  | ':' :: cs =>
    let (negated, cs) := match cs with
      | '^' :: cs => (true, cs)
      | cs => (false, cs)
    let (name, rest) := cs.span (· != ':')
    match rest with
    | ':' :: ']' :: rest =>
      (asciiClass? (String.ofList name)).map fun s => (if negated then .negated s else s, rest)
    | _ => none
  | _ => none

/-- One item of a class: a character, or a set. -/
def classItem? : List Char → Option ((Char ⊕ CharSet) × List Char)
  | '\\' :: cs =>
    match escape? cs with
    | some (.char c, rest) => some (.inl c, rest)
    | some (.set s, rest) => some (.inr s, rest)
    | _ => none
  | c :: cs => some (.inl c, cs)
  | [] => none

/-- A character of a class, with the one its range goes to, or a set. -/
def classRange? (anyCase : Bool) (cs : List Char) : Option (CharSet × List Char) := do
  match ← classItem? cs with
  | (.inr s, rest) =>
    match rest with
    | '-' :: c :: _ => if c = ']' || c = '-' then some (s, rest) else none
    | _ => some (s, rest)
  | (.inl low, rest) =>
    match rest with
    | '-' :: c :: more =>
      if c = ']' || c = '-' then some (.char anyCase low, rest)
      else match ← classItem? (c :: more) with
        | (.inl high, rest) => if low ≤ high then some (.range anyCase low high, rest) else none
        | _ => none
    | _ => some (.char anyCase low, rest)

/-- How the sets of a class are joined. -/
inductive SetOperator where
  | inter
  | difference
  | symmetric

def SetOperator.apply : SetOperator → CharSet → CharSet → CharSet
  | inter, a, b => .inter a b
  | difference, a, b => .difference a b
  | symmetric, a, b => .union (.difference a b) (.difference b a)

/-- The rest of a class: `left` is what stands before the last operator, `items` what stands after it.
`fresh` says that a closing bracket is still an ordinary character. -/
def classRest (anyCase : Bool) : (fuel : Nat) → Option (CharSet × SetOperator) → CharSet →
    (fresh : Bool) → List Char → Option (CharSet × List Char)
  | 0, _, _, _, _ => none
  | fuel + 1, left, items, fresh, cs =>
    let joined : CharSet := match left with
      | some (a, o) => o.apply a items
      | none => items
    let ranged (cs : List Char) : Option (CharSet × List Char) := do
      let (s, rest) ← classRange? anyCase cs
      classRest anyCase fuel left (.union items s) false rest
    match cs with
    | [] => none
    | ']' :: rest =>
      if fresh then classRest anyCase fuel left (.union items (.char anyCase ']')) false rest
      else some (joined, rest)
    | '-' :: rest =>
      if fresh then classRest anyCase fuel left (.union items (.char anyCase '-')) true rest
      else match rest with
        | '-' :: rest => classRest anyCase fuel (some (joined, .difference)) .none false rest
        | _ => ranged cs
    | '&' :: '&' :: rest => classRest anyCase fuel (some (joined, .inter)) .none false rest
    | '~' :: '~' :: rest => classRest anyCase fuel (some (joined, .symmetric)) .none false rest
    | '[' :: rest =>
      match asciiClassRest? rest with
      | some (s, rest) => classRest anyCase fuel left (.union items s) false rest
      | none =>
        let (negated, rest) := match rest with
          | '^' :: rest => (true, rest)
          | rest => (false, rest)
        match classRest anyCase fuel none .none true rest with
        | some (s, rest) =>
          classRest anyCase fuel left (.union items (if negated then .negated s else s)) false rest
        | none => none
    | cs => ranged cs

/-! ## Repetition -/

def number? (cs : List Char) : Option (Nat × List Char) :=
  let cs := cs.dropWhile Text.isBlank
  let (ds, rest) := cs.span Char.isDigit
  if ds.isEmpty then none
  else
    let n := ds.foldl (fun n d => n * 10 + (d.toNat - 48)) 0
    if n < Nat.pow 2 32 then some (n, rest.dropWhile Text.isBlank) else none

/-- The counts after an opening brace. -/
def counts? (cs : List Char) : Option ((Nat × Option Nat) × List Char) := do
  let (least, rest) ← number? cs
  match rest with
  | '}' :: rest => some ((least, some least), rest)
  | ',' :: rest =>
    match rest.dropWhile Text.isBlank with
    | '}' :: rest => some ((least, none), rest)
    | rest =>
      let (most, rest) ← number? rest
      match rest with
      | '}' :: rest => if least ≤ most then some ((least, some most), rest) else none
      | _ => none
  | _ => none

/-- The marks of repetition after an item. -/
def repetitions : (fuel : Nat) → Pattern → List Char → Option (Pattern × List Char)
  | 0, _, _ => none
  | fuel + 1, p, cs =>
    let lazily (q : Pattern) (rest : List Char) : Option (Pattern × List Char) :=
      match rest with
      | '?' :: rest => repetitions fuel q rest
      | rest => repetitions fuel q rest
    match cs with
    | '*' :: rest => lazily (.repeated p 0 none) rest
    | '+' :: rest => lazily (.repeated p 1 none) rest
    | '?' :: rest => lazily (.repeated p 0 (some 1)) rest
    | '{' :: rest => do
      let ((least, most), rest) ← counts? rest
      lazily (.repeated p least most) rest
    | cs => some (p, cs)

/-! ## Groups -/

/-- The flags of a group up to `)` or `:`; gives which of the two ends them. -/
def flags? : (given : List Char) → (negative : Bool) → Flags → List Char →
    Option (Flags × Bool × List Char)
  | given, _, f, ':' :: rest => if given.getLast? = some '-' then none else some (f, true, rest)
  | given, _, f, ')' :: rest =>
    if given.isEmpty || given.getLast? = some '-' then none else some (f, false, rest)
  | given, negative, f, c :: rest =>
    if given.contains c then none
    else match c with
      | '-' => flags? (given ++ ['-']) true f rest
      | 'i' => flags? (given ++ [c]) negative { f with anyCase := !negative } rest
      | 'm' => flags? (given ++ [c]) negative { f with multiLine := !negative } rest
      | 's' => flags? (given ++ [c]) negative { f with dotAll := !negative } rest
      | 'x' => flags? (given ++ [c]) negative { f with spaced := !negative } rest
      | 'U' | 'u' | 'R' => flags? (given ++ [c]) negative f rest
      | _ => none
  | _, _, _, [] => none

/-- The name of a group up to its closing angle. -/
def groupName? (cs : List Char) : Option (String × List Char) :=
  match cs.span (· != '>') with
  | (c :: name, '>' :: rest) =>
    let starts := c == '_' || (if c.toNat < 128 then c.isAlpha else Syntax.isIdentifierStart c)
    let goesOn (d : Char) : Bool :=
      ['_', '.', '[', ']'].contains d ||
        (if d.toNat < 128 then d.isAlphanum else Syntax.isIdentifierPart d)
    if starts && name.all goesOn then some (String.ofList (c :: name), rest) else none
  | _ => none

/-- What has been read of a group: the finished alternatives, and the current one. -/
structure Built where
  earlier : Option Pattern := none
  current : Pattern := .empty

def Built.whole (b : Built) : Pattern :=
  match b.earlier with
  | some p => .alt p b.current
  | none => b.current

/-- Reads alternatives up to a closing bracket, which is left, or to the end. The names of the groups
read so far come along. -/
def alternatives : (fuel : Nat) → Flags → (names : List String) → Built → List Char →
    Option (Pattern × List String × List Char)
  | 0, _, _, _, _ => none
  | _ + 1, _, names, b, [] => some (b.whole, names, [])
  | fuel + 1, f, names, b, c :: cs =>
    let item (names : List String) (p : Pattern) (rest : List Char) :
        Option (Pattern × List String × List Char) := do
      let rest := if f.spaced then rest.dropWhile Text.isBlank else rest
      let (p, rest) ← repetitions (rest.length + 1) p rest
      alternatives fuel f names { b with current := .seq b.current p } rest
    let group (f : Flags) (names : List String) (cs : List Char) :
        Option (Pattern × List String × List Char) := do
      match ← alternatives fuel f names {} cs with
      | (p, names, ')' :: rest) => item names p rest
      | _ => none
    match c with
    | ')' => some (b.whole, names, c :: cs)
    | '|' => alternatives fuel f names { earlier := some b.whole } cs
    | '*' | '+' | '?' | '{' => none
    | '(' =>
      match cs with
      | '?' :: 'P' :: '<' :: rest | '?' :: '<' :: rest => do
        let (name, rest) ← groupName? rest
        if names.contains name then none else group f (name :: names) rest
      | '?' :: rest => do
        match ← flags? [] false f rest with
        | (g, true, rest) => group g names rest
        | (g, false, rest) => alternatives fuel g names b rest
      | rest => group f names rest
    | '[' => do
      let (negated, rest) := match cs with
        | '^' :: rest => (true, rest)
        | rest => (false, rest)
      let (s, rest) ← classRest f.anyCase (rest.length + 1) none .none true rest
      item names (.chars (if negated then .negated s else s)) rest
    | '.' =>
      item names (.chars (if f.dotAll then .all else .negated (.char false '\n'))) cs
    | '^' => item names (.anchor (if f.multiLine then .lineStart else .textStart)) cs
    | '$' => item names (.anchor (if f.multiLine then .lineEnd else .textEnd)) cs
    | '\\' => do
      match ← escape? cs with
      | (.char c, rest) => item names (.chars (.char f.anyCase c)) rest
      | (.set s, rest) => item names (.chars s) rest
      | (.anchor a, rest) => item names (.anchor a) rest
    | c =>
      if f.spaced && Text.isBlank c then alternatives fuel f names b cs
      else if f.spaced && c == '#' then
        alternatives fuel f names b (cs.dropWhile (· != '\n'))
      else item names (.chars (.char f.anyCase c)) cs

end Expression

/-- The pattern that a regular expression describes, if it is one. -/
def ofExpression? (text : String) : Option Pattern :=
  let cs := text.toList
  match Expression.alternatives (2 * cs.length + 2) {} [] {} cs with
  | some (p, _, []) => some p
  | _ => none

end Bundling.Pattern
