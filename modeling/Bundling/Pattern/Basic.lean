import Bundling.Syntax.Identifier
import Bundling.Text.Blank

/-!
# Patterns

Regular patterns over texts. `Pattern.ends` gives every place where a match that starts at some place
can end, which is all that asking for a match needs.
-/

namespace Bundling

/-- Characters that have a name in patterns. -/
inductive CharClass where
  | digit
  | space
  | word
  | letter
  | upper
  | lower
  | numeric
  deriving DecidableEq

namespace CharClass

def holds : CharClass → Char → Bool
  | digit, c => c.isDigit
  | space, c => Text.isBlank c
  | word, c =>
    c == '_' || (if c.toNat < 128 then c.isAlphanum else Syntax.isIdentifierPart c)
  | letter, c => if c.toNat < 128 then c.isAlpha else Syntax.isIdentifierStart c
  | upper, c => c.isUpper
  | lower, c => c.isLower
  | numeric, c => c.isDigit

end CharClass

/-- A set of characters. -/
inductive CharSet where
  /-- From one character to another, either case if `anyCase`. -/
  | range (anyCase : Bool) (low high : Char)
  | named (c : CharClass)
  | negated (s : CharSet)
  | union (a b : CharSet)
  | inter (a b : CharSet)
  | none

namespace CharSet

/-- The character in the other case, if it has one. -/
def otherCase (c : Char) : Char := if c.isUpper then c.toLower else c.toUpper

def holds : CharSet → Char → Bool
  | range anyCase low high, c =>
    (low ≤ c && c ≤ high) || (anyCase && low ≤ otherCase c && otherCase c ≤ high)
  | named k, c => k.holds c
  | negated s, c => !s.holds c
  | union a b, c => a.holds c || b.holds c
  | inter a b, c => a.holds c && b.holds c
  | none, _ => false

def all : CharSet := negated none

def char (anyCase : Bool) (c : Char) : CharSet := range anyCase c c

def difference (a b : CharSet) : CharSet := inter a (negated b)

end CharSet

/-- What a place in a text may be asked for. -/
inductive Anchor where
  | textStart
  | textEnd
  | lineStart
  | lineEnd
  | wordEdge
  | noWordEdge
  | wordStart
  | wordEnd
  deriving DecidableEq

inductive Pattern where
  | empty
  | chars (s : CharSet)
  | anchor (a : Anchor)
  | seq (a b : Pattern)
  | alt (a b : Pattern)
  /-- At least `least` times, and at most `most` times if that is given. -/
  | repeated (p : Pattern) (least : Nat) (most : Option Nat)
  /-- No text at all. -/
  | never

namespace Anchor

/-- Whether an anchor holds between the characters before and after a place. -/
def holds (before after : Option Char) : Anchor → Bool
  | textStart => before.isNone
  | textEnd => after.isNone
  | lineStart => before.isNone || before == some '\n'
  | lineEnd => after.isNone || after == some '\n'
  | wordEdge => isWord before != isWord after
  | noWordEdge => isWord before == isWord after
  | wordStart => !isWord before && isWord after
  | wordEnd => isWord before && !isWord after
where
  isWord (c : Option Char) : Bool := (c.map CharClass.word.holds).getD false

end Anchor

namespace Pattern

/-- The members of both lists, each once. -/
def merge (xs ys : List Nat) : List Nat := xs ++ ys.filter fun y => !xs.contains y

/-- The places that one more use of a step reaches, along with those reached already; at most `fuel`
uses. -/
def closure (step : Nat → List Nat) : (fuel : Nat) → (reached fresh : List Nat) → List Nat
  | 0, reached, _ => reached
  | fuel + 1, reached, fresh =>
    let next := (fresh.flatMap step).foldl (fun acc i => merge acc [i]) []
    let new := next.filter fun i => !reached.contains i
    if new.isEmpty then reached else closure step fuel (merge reached new) new

/-- The places that exactly `n` uses of a step reach. -/
def iterate (step : Nat → List Nat) : (n : Nat) → List Nat → List Nat
  | 0, places => places
  | n + 1, places => iterate step n ((places.flatMap step).foldl (fun acc i => merge acc [i]) [])

/-- The places that up to `n` uses of a step reach. -/
def iterateUpTo (step : Nat → List Nat) : (n : Nat) → List Nat → List Nat
  | 0, places => places
  | n + 1, places => merge places (iterateUpTo step n (places.flatMap step))

/-- Where a match that starts at a place of a text can end. -/
def ends (text : Array Char) : Pattern → Nat → List Nat
  | empty, i => [i]
  | chars s, i =>
    match text[i]? with
    | some c => if s.holds c then [i + 1] else []
    | none => []
  | anchor a, i =>
    let before := if i = 0 then none else text[i - 1]?
    if a.holds before text[i]? then [i] else []
  | seq a b, i => ((ends text a i).flatMap (ends text b)).foldl (fun acc j => merge acc [j]) []
  | alt a b, i => merge (ends text a i) (ends text b i)
  | repeated p least most, i =>
    let first := iterate (ends text p) least [i]
    match most with
    | none => closure (ends text p) (text.size + 1) first first
    | some n => iterateUpTo (ends text p) (n - least) first
  | never, _ => []

/-- Whether the pattern matches some part of a text. -/
def matchesIn (p : Pattern) (text : List Char) : Bool :=
  let cs := text.toArray
  (List.range (cs.size + 1)).any fun i => !(p.ends cs i).isEmpty

/-- Whether the pattern matches a text as a whole. -/
def matchesAll (p : Pattern) (text : List Char) : Bool :=
  let cs := text.toArray
  (p.ends cs 0).contains cs.size

end Pattern

end Bundling
