import Bundling.Json.Writer
import Bundling.SourceMap.Basic
import Bundling.SourceMap.Segment
import Bundling.Text.Base64

/-!
# Writing source maps

Mappings are written relative to the one before: a semicolon for every line, a comma between the
segments of a line. A mapping that repeats the one before it on the same line is left out.
-/

namespace Bundling.SourceMap

/-- What the numbers of the next segment are relative to. -/
structure Cursor where
  line : Nat := 0
  column : Nat := 0
  source : Nat := 0
  originLine : Nat := 0
  originColumn : Nat := 0
  name : Nat := 0

namespace Cursor

/-- The numbers of the origin of a segment, and the cursor after it. -/
def originNumbers (c : Cursor) (o : Origin) : List Int × Cursor :=
  let base : List Int :=
    [(o.source : Int) - c.source, (o.line : Int) - c.originLine, (o.column : Int) - c.originColumn]
  let c := { c with source := o.source, originLine := o.line, originColumn := o.column }
  match o.name with
  | some n => (base ++ [(n : Int) - c.name], { c with name := n })
  | none => (base, c)

/-- The numbers of a segment, and the cursor after it. -/
def numbers (c : Cursor) (m : Mapping) : List Int × Cursor :=
  let first := (m.column : Int) - c.column
  let c := { c with column := m.column }
  match m.origin with
  | some o =>
    let (rest, c) := c.originNumbers o
    (first :: rest, c)
  | none => ([first], c)

end Cursor

/-- The text of mappings after a cursor; `previous` is the mapping written last. -/
def mappingsText : Cursor → (previous : Option Mapping) → List Mapping → List Char
  | _, _, [] => []
  | c, previous, m :: ms =>
    if c.line < m.line then
      let (ns, after) := { c with line := m.line, column := 0 }.numbers m
      List.replicate (m.line - c.line) ';' ++ ns.flatMap numberText
        ++ mappingsText after (some m) ms
    else if previous = some m then mappingsText c previous ms
    else
      let (ns, after) := c.numbers m
      (if previous.isSome then [','] else []) ++ ns.flatMap numberText
        ++ mappingsText after (some m) ms

/-- The map as a JSON value. The embedded texts are left out when there is none. -/
def toJson (m : SourceMap) : Json :=
  let optional (key : String) : Option Json → List (String × Json)
    | some j => [(key, j)]
    | none => []
  let texts (xs : List String) : Json := .array (xs.map .string)
  let embedded : Option Json :=
    if m.contents.any Option.isSome then
      some (.array (m.contents.map fun
        | some s => .string s
        | none => .null))
    else none
  .object <|
    [("version", Json.ofNat 3)]
      ++ optional "file" (m.file.map .string)
      ++ optional "sourceRoot" (m.sourceRoot.map .string)
      ++ [("names", texts m.names), ("sources", texts m.sources)]
      ++ optional "sourcesContent" embedded
      ++ optional "x_google_ignoreList" (m.ignored.map fun is => .array (is.map Json.ofNat))
      ++ [("mappings", .string (String.ofList (mappingsText {} none m.mappings)))]
      ++ optional "debugId" (m.debugId.map .string)

/-- The map as text. -/
def text (m : SourceMap) : String := m.toJson.compact

/-- The map as an address that holds its whole text. -/
def dataAddress (m : SourceMap) : String :=
  "data:application/json;charset=utf-8;base64," ++
    String.ofList (Text.base64 m.text.toUTF8.toList)

end Bundling.SourceMap
