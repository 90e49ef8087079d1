import Bundling.Chunk.Basic

/-!
# Entries in other chunks

For every chunk it is recorded which of its entries are written with another one.
-/

namespace Bundling.Chunk

/-- The first chunk other than `c` that holds a module. -/
def owner? (cs : List Chunk) (c : Chunk) (id : ModuleId) : Option Chunk :=
  cs.find? fun d => d.id ≠ c.id ∧ d.contains id

/-- The entries of a chunk that are written with another one. -/
def mappingsOf (cs : List Chunk) (c : Chunk) : List ChunkMapping :=
  c.entries.filterMap fun e => do
    let id ← e.target
    if c.contains id then none
    else
      let d ← owner? cs c id
      some { module := id, chunk := d.id }

/-- Records the mappings of all chunks. -/
def computeMappings (cs : List Chunk) : List Chunk :=
  cs.map fun c => { c with mappings := mappingsOf cs c }

end Bundling.Chunk
