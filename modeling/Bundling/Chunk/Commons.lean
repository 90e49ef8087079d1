import Bundling.Chunk.Basic

/-!
# Common chunks

Modules that are in several chunks move to a new chunk, which comes first and takes over all entries:
once it is loaded, it brings in the chunks that hold the modules of the entries.
-/

namespace Bundling.Commons

/-- The name of the transformer. -/
def name : String := "commons"

/-- The modules of some files that have been seen before, each once; `seen` and `common` are what was
found so far. -/
def repeated : (seen : List ModuleId) → (common : List Module) → List Module → List Module
  | _, common, [] => common
  | seen, common, m :: ms =>
    if m.id ∈ seen then
      repeated seen (if common.any fun n => n.id = m.id then common else common ++ [m]) ms
    else repeated (m.id :: seen) common ms

/-- The modules that are in more than one chunk, in the order in which they are found again. -/
def shared (cs : List Chunk) : List Module := repeated [] [] (cs.flatMap Chunk.files)

/-- A chunk without some modules and without entries. -/
def strip (common : List Module) (c : Chunk) : Chunk :=
  { c with entries := [], files := c.files.filter fun m => !common.any fun n => n.id = m.id }

/-- Moves the modules that several chunks share. -/
def extract (l : ChunkList) : ChunkList :=
  let common := shared l.chunks
  if common.isEmpty then l
  else
    let (c, l) := l.new (l.chunks.flatMap Chunk.entries) common
    let imports := common.map fun m => { request := m.id.text, target := some m.id : ChunkRequest }
    { l with chunks := { c with imports := imports } :: l.chunks.map (strip common) }

def transformer : ChunkTransformer where
  name := name
  transform l := (.ok (), extract l)

end Bundling.Commons
