/-!
# Source maps

A source map says for positions of a generated text which position of which source they come from. A
mapping holds from its position up to the next mapping on its line; one without an origin says that
the text from there on comes from nowhere. `SourceMap.lookup?` is what a map means.

Lines, columns and the numbers of lines that texts are moved by are counted without a bound. Readers refuse what does
not fit into 32 bits, so what is shown of maps that are made here is for counters below `2 ^ 32`.
-/

namespace Bundling

namespace SourceMap

/-- Where a piece of generated text comes from; the source and the name are indices into the tables of
the map. -/
structure Origin where
  source : Nat
  line : Nat
  column : Nat
  name : Option Nat
  deriving DecidableEq, Repr

/-- What holds from a generated position on. Lines and columns count from zero. -/
structure Mapping where
  line : Nat
  column : Nat
  origin : Option Origin
  deriving DecidableEq, Repr

end SourceMap

/-- A source map. -/
structure SourceMap where
  /-- The name of the generated file. -/
  file : Option String := none
  /-- What the names of the sources are relative to. -/
  sourceRoot : Option String := none
  names : List String := []
  sources : List String := []
  /-- The texts of the sources, as far as they are embedded. -/
  contents : List (Option String) := []
  /-- The sources that readers of the map skip. -/
  ignored : Option (List Nat) := none
  mappings : List SourceMap.Mapping := []
  debugId : Option String := none
  deriving DecidableEq, Repr

namespace SourceMap

/-- A position in a source as a reader of a map sees it. -/
structure SourcePosition where
  source : Option String
  line : Nat
  column : Nat
  name : Option String
  deriving DecidableEq, Repr

/-- The mapping that holds at a generated position: the last one of its line that does not start
behind it. -/
def mappingAt? (m : SourceMap) (line column : Nat) : Option Mapping :=
  (m.mappings.filter fun t => t.line = line ∧ t.column ≤ column).getLast?

/-- The source position a generated one comes from, if it has any. -/
def lookup? (m : SourceMap) (line column : Nat) : Option SourcePosition := do
  let t ← m.mappingAt? line column
  let o ← t.origin
  some ⟨m.sources[o.source]?, o.line, o.column, o.name.bind (m.names[·]?)⟩

end SourceMap

end Bundling
