import Bundling.Chunk.Basic
import Bundling.Config.Basic
import Bundling.Graph.Operation

/-!
# Dividing a graph into chunks
-/

namespace Bundling.ChunkList

variable {σ : Type}

/-- The request that an entry is. -/
def entryRequest (root : ProjectRoot) (id : ModuleId) : ChunkRequest :=
  { request := root.publicPath id, target := some id }

/-- A chunk for each entry, with all that is below it. -/
def perEntry (g : Graph σ) (root : ProjectRoot) :
    List ModuleId → ChunkList → Except CompileError ChunkList
  | [], l => .ok l
  | id :: ids, l =>
    match g.below [id] with
    | .ok files => perEntry g root ids (l.add [entryRequest root id] files)
    | .error e => .error e

/-- Divides what is below the entries. With a chunk for each entry, modules below several entries are
in each of their chunks. -/
def partition (g : Graph σ) (root : ProjectRoot) : ChunkStrategy → Except CompileError ChunkList
  | .single =>
    match g.allBelow with
    | .ok files => .ok (({} : ChunkList).add (g.entries.map (entryRequest root)) files)
    | .error e => .error e
  | .perEntry => perEntry g root g.entries {}

end Bundling.ChunkList
