import Bundling.Path
import Bundling.Text.Utf8

/-!
# Requests

A request is what a source text asks for. It names a path when it starts with `.`, `..` or the root as
a segment of its own; any other request is bare and starts with the name of a package.
-/

namespace Bundling.Request

/-- The text up to the first separator, and what follows the separator, if there is one. -/
def firstSegment : List Char → List Char × Option (List Char)
  | [] => ([], none)
  | c :: cs =>
    if c = '/' then ([], some cs)
    else
      let (segment, rest) := firstSegment cs
      (c :: segment, rest)

/-- Whether a request names a path rather than a package. -/
def isPath (request : String) : Bool :=
  match firstSegment request.toList with
  | ([], some _) => true
  | (segment, _) => segment == ['.'] || segment == ['.', '.']

/-- The next segment of a text, unless it is empty, and what follows the separator behind it. -/
def nextFilled? (text : Option (List Char)) : Option (List Char × Option (List Char)) :=
  (text.map firstSegment).filter fun next => !next.1.isEmpty

/-- Where the package of a request ends, in octets: behind the first segment, or behind the second when
the first is a scope, which starts with `@`. None of them may be empty. -/
def packageEnd? (request : String) : Option Nat := do
  let (first, behind) ← nextFilled? (some request.toList)
  let last := (String.ofList first).utf8ByteSize
  if first.head? = some '@' then
    let (second, _) ← nextFilled? behind
    return last + (1 + (String.ofList second).utf8ByteSize)
  else return last

/-- The package of a request: the front of the request that ends there. -/
def package? (request : String) : Option String := do
  let last ← packageEnd? request
  let front ← Text.Utf8.front? last request.toList
  return String.ofList front

end Bundling.Request
