import Bundling.SourceMap.Reader
import Bundling.Module
import Bundling.Transform.Basic

/-!
# Pipelines of transformers

Transformers run one after the other, each on what the one before it made. The last source map given
counts, and it is read only at the end; the imports found are joined, first occurrences first.
-/

namespace Bundling

/-- Why a pipeline gives no result. -/
inductive TransformFault where
  | failed (transformer message : String)
  /-- The map that counts is not one. -/
  | invalidMap
  deriving DecidableEq

/-- What all transformers together make of a file. -/
structure Transformed where
  contents : String
  sourceMap : Option SourceMap := none
  imports : List String := []
  deriving DecidableEq

namespace Pipeline

/-- What has been made so far; the source map is still text. -/
structure Progress where
  contents : String
  mapText : Option String := none
  imports : List String := []

/-- Takes in the output of one transformer. -/
def Progress.add (p : Progress) (o : TransformOutput) : Progress where
  contents := o.contents
  mapText := o.sourceMap <|> p.mapText
  imports := firstOccurrences (p.imports ++ o.imports)

/-- Runs transformers in order, up to the first that fails. -/
def steps {σ : Type} (path : Path) (publicPath : String) :
    List (Transformer σ) → Progress → Work σ (Except TransformFault Progress)
  | [], p => pure (.ok p)
  | t :: ts, p => do
    match ← t.transform ⟨path, p.contents, publicPath⟩ with
    | .error message => pure (.error (.failed t.name message))
    | .ok none => steps path publicPath ts p
    | .ok (some o) => steps path publicPath ts (p.add o)

/-- Reads the source map at the end. -/
def finish (p : Progress) : Except TransformFault Transformed :=
  match p.mapText with
  | none => .ok { contents := p.contents, imports := p.imports }
  | some text =>
    match SourceMap.ofText? text with
    | some m => .ok { contents := p.contents, sourceMap := some m, imports := p.imports }
    | none => .error .invalidMap

/-- Runs all transformers over the contents of a file. -/
def run {σ : Type} (ts : List (Transformer σ)) (path : Path) (contents publicPath : String) :
    Work σ (Except TransformFault Transformed) := do
  return (← steps path publicPath ts { contents }).bind finish

end Pipeline

end Bundling
