import Bundling.Path

/-!
# Dialects

Which language a source file is written in follows from its name: scripts and modules, with or
without types and markup expressions.
-/

namespace Bundling.Syntax

/-- The grammar a source text is read with. -/
structure Dialect where
  /-- A module rather than a script: `await` is an operator at the top, no markup comments. -/
  isModule : Bool := true
  /-- Type annotations and the declarations that go with them. -/
  types : Bool := false
  /-- Markup elements as expressions. -/
  markup : Bool := false
  /-- A file of declarations only. -/
  declarations : Bool := false
  deriving DecidableEq, Repr

namespace Dialect

/-- The pieces of a file name between its dots; always at least one. -/
def pieces : List Char → List (List Char)
  | [] => [[]]
  | '.' :: cs => [] :: pieces cs
  | c :: cs =>
    match pieces cs with
    | [] => [[c]]
    | p :: ps => (c :: p) :: ps

/-- Whether a file of types holds declarations only: its name has a piece `d` in front of its
extension, or in front of at most `between` pieces before that. -/
def isDeclarations (between : Nat) (name : String) : Bool :=
  (((pieces name.toList).reverse.drop 1).take (between + 1)).contains ['d']

/-- The dialect of a file by its name; none for files that are not source text. Of a name that is no
text only the extension counts, and only whether it stands for scripts. -/
def ofPath? (path : Path) : Option Dialect := do
  let extension ← path.extension?
  if extension ∉ ["js", "mjs", "cjs", "jsx", "ts", "mts", "cts", "tsx"] then none
  else if extension = "cjs" then some { isModule := false }
  else match path.fileName?.bind Text.Utf8.text? with
    | none => some {}
    | some name =>
      match extension with
      | "jsx" => some { markup := true }
      | "ts" => some { types := true, declarations := isDeclarations 1 name }
      | "mts" => some { types := true, declarations := isDeclarations 0 name }
      | "cts" => some { isModule := false, types := true, declarations := isDeclarations 0 name }
      | "tsx" => some { types := true, markup := true }
      | _ => some {}

end Dialect

end Bundling.Syntax
