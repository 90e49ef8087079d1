import Bundling.SourceMap.Basic
import Bundling.Text.Lines

/-!
# Merging source maps

The maps of modules become one map of the text that they all stand in. A module has one source, its
own, and its mappings move down to the line where it starts. Mappings without an origin are left out; a
module without a map is mapped line by line.
-/

namespace Bundling.SourceMap

/-- The place of an item, which is added at the end if it is not there. -/
def intern (item : String) (items : List String) : Nat × List String :=
  match items.idxOf? item with
  | some i => (i, items)
  | none => (items.length, items ++ [item])

/-- Adds a source with its text; the text of a source that is there already stays. -/
def addSource (m : SourceMap) (name text : String) : Nat × SourceMap :=
  let (i, sources) := intern name m.sources
  (i, if i < m.sources.length then m
    else { m with sources := sources, contents := m.contents ++ [some text] })

/-- One mapping of a module, moved to its place. -/
def addMapping (own : SourceMap) (source offset : Nat) (m : SourceMap) (t : Mapping) : SourceMap :=
  match t.origin with
  | none => m
  | some o =>
    let (name, names) :=
      match o.name.bind fun n => own.names[n]? with
      | some text =>
        let (n, names) := intern text m.names
        (some n, names)
      | none => (none, m.names)
    let moved : Mapping :=
      { line := t.line + offset, column := t.column, origin := some { o with source, name } }
    { m with names := names, mappings := m.mappings ++ [moved] }

/-- The mappings of a text that stands for its source as it is. -/
def identityMappings (source offset lines : Nat) : List Mapping :=
  (List.range lines).map fun l =>
    { line := offset + l, column := 0, origin := some ⟨source, l, 0, none⟩ }

/-- Adds a module whose compiled contents start on a line. -/
def addModule (m : SourceMap) (name sources : String) (own : Option SourceMap) (contents : String)
    (offset : Nat) : SourceMap :=
  let (source, m) := m.addSource name sources
  match own with
  | some own => own.mappings.foldl (addMapping own source offset) m
  | none =>
    { m with mappings := m.mappings ++ identityMappings source offset (Text.lineCount contents) }

end Bundling.SourceMap
