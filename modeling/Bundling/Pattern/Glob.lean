import Bundling.Pattern.Basic
import Bundling.Text.Utf8

/-!
# Globs

Patterns for paths. `?` stands for one octet and `*` for any number of them, separators included;
`**` between separators stands for any number of directories. A glob is matched against the octets of
a path, which are taken for the characters of their number.
-/

namespace Bundling.Glob

/-- The parts of a glob. -/
inductive Part where
  | literal (c : Char)
  | any
  | anyRun
  /-- `**/` at the front. -/
  | dirsFirst
  /-- `/**` at the end. -/
  | dirsLast
  /-- `/**/` in between. -/
  | dirs
  | chars (negated : Bool) (ranges : List (Char × Char))
  | choice (options : List (List Part))

/-- An octet as a character. -/
def octetChar (b : UInt8) : Char := Char.ofNat b.toNat

/-! ## Reading -/

/-- The rest of a class; `ranges` are those read so far, last first, and `open_` says that the last
one waits for its end. -/
def classRest : (first isOpen : Bool) → List (Char × Char) → List Char →
    Option (List (Char × Char) × List Char)
  | _, _, _, [] => none
  | first, isOpen, ranges, c :: cs =>
    if c = ']' && !first then
      some ((if isOpen then ('-', '-') :: ranges else ranges).reverse, cs)
    else if c = '-' && !first && !isOpen then classRest false true ranges cs
    else if isOpen && c != ']' then
      match ranges with
      | (low, _) :: rest => if low ≤ c then classRest false false ((low, c) :: rest) cs else none
      | [] => none
    else classRest false false ((c, c) :: ranges) cs

/-- A list of parts under construction, last part first. A choice has its finished options. -/
structure Level where
  options : List (List Part) := []
  parts : List Part := []

/-- The whole state of reading: the level that is read and those around it. -/
structure Reading where
  level : Level := {}
  outer : List Level := []

namespace Reading

def push (r : Reading) (p : Part) : Reading :=
  { r with level := { r.level with parts := p :: r.level.parts } }

/-- `**`, with what stood before it and what follows. -/
def doubleStar (r : Reading) (before : Option Char) (cs : List Char) : Reading × List Char :=
  let plain := ((r.push .anyRun).push .anyRun, cs)
  let inChoice := !r.outer.isEmpty
  if r.level.parts.isEmpty then
    match cs with
    | [] => (r.push .dirsFirst, [])
    | '/' :: rest => (r.push .dirsFirst, rest)
    | _ => plain
  else if before != some '/' && !(inChoice && (before == some ',' || before == some '{')) then plain
  else
    let ended : Option (Bool × List Char) := match cs with
      | [] => some (true, [])
      | '/' :: rest => some (false, rest)
      | c :: _ => if inChoice && (c == ',' || c == '}') then some (true, cs) else none
    match ended, r.level.parts with
    | some (isLast, rest), last :: parts =>
      let joined : Part := match last with
        | .dirsFirst => .dirsFirst
        | .dirsLast => .dirsLast
        | _ => if isLast then .dirsLast else .dirs
      ({ r with level := { r.level with parts := joined :: parts } }, rest)
    | _, _ => plain

end Reading

/-- Reads parts; `before` is the character before the next one. -/
def parts? : (fuel : Nat) → Reading → (before : Option Char) → List Char → Option (List Part)
  | 0, _, _, _ => none
  | _ + 1, r, _, [] => if r.outer.isEmpty then some r.level.parts.reverse else none
  | fuel + 1, r, before, c :: cs =>
    match c with
    | '?' => parts? fuel (r.push .any) (some c) cs
    | '*' =>
      match cs with
      | '*' :: cs =>
        let (next, rest) := r.doubleStar before cs
        let read := if rest.length < cs.length then some '/' else some '*'
        parts? fuel next read rest
      | cs => parts? fuel (r.push .anyRun) (some c) cs
    | '[' =>
      let (negated, cs) := match cs with
        | '!' :: cs | '^' :: cs => (true, cs)
        | cs => (false, cs)
      match classRest true false [] cs with
      | some (ranges, rest) => parts? fuel (r.push (.chars negated ranges)) (some ']') rest
      | none => none
    | '{' => parts? fuel ⟨{}, r.level :: r.outer⟩ (some c) cs
    | '}' =>
      match r.outer with
      | level :: outer =>
        let options := r.level.options ++ [r.level.parts.reverse]
        parts? fuel (Reading.push ⟨level, outer⟩ (.choice options)) (some c) cs
      | [] => none
    | ',' =>
      if r.outer.isEmpty then parts? fuel (r.push (.literal c)) (some c) cs
      else
        let level : Level := { options := r.level.options ++ [r.level.parts.reverse] }
        parts? fuel { r with level := level } (some c) cs
    | '\\' =>
      match cs with
      | d :: cs => parts? fuel (r.push (.literal d)) (some d) cs
      | [] => none
    | c => parts? fuel (r.push (.literal c)) (some c) cs

/-! ## Meaning -/

def anyRun : Pattern := .repeated (.chars .all) 0 none

def octet (c : Char) : Pattern := .chars (.char false c)

/-- A text, octet by octet. -/
def literal (c : Char) : Pattern :=
  (String.utf8EncodeChar c).foldr (fun o p => .seq (octet (octetChar o)) p) .empty

mutual

/-- The pattern of a part; none for a choice without any option. -/
def Part.pattern : Part → Pattern
  | .literal c => Glob.literal c
  | .any => .chars .all
  | .anyRun => anyRun
  | .dirsFirst => .alt (.repeated (octet '/') 0 (some 1)) (.seq anyRun (octet '/'))
  | .dirsLast => .seq (octet '/') anyRun
  | .dirs => .alt (octet '/') (.seq (octet '/') (.seq anyRun (octet '/')))
  | .chars negated ranges =>
    let set := ranges.foldl (fun s (low, high) => CharSet.union s (.range false low high)) .none
    .chars (if negated then .negated set else set)
  | .choice options => choicePattern options

def sequencePattern : List Part → Pattern
  | [] => .empty
  | p :: ps => .seq p.pattern (sequencePattern ps)

/-- The options that are not empty; without any the choice stands for nothing. -/
def choicePattern : List (List Part) → Pattern
  | [] => .empty
  | o :: os =>
    if o.isEmpty then choicePattern os
    else if os.all List.isEmpty then sequencePattern o
    else .alt (sequencePattern o) (choicePattern os)

end

/-- The pattern that a glob describes, if it is one, for the octets of paths. -/
def pattern? (glob : String) : Option Pattern :=
  let cs := glob.toList
  (parts? (cs.length + 1) {} none cs).map fun
    | [.dirsFirst] => anyRun
    | ps => sequencePattern ps

/-- Whether the octets of a path match. -/
def holds (p : Pattern) (path : List UInt8) : Bool := p.matchesAll (path.map octetChar)

end Bundling.Glob
