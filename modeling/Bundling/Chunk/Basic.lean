import Bundling.Bundle.Error
import Bundling.Module

/-!
# Chunks

A chunk is a set of modules that become one output file, with the requests that are made once it is
loaded.
-/

namespace Bundling

/-- A request of a chunk, and the module it stands for. Only with a module it can be written. -/
structure ChunkRequest where
  request : String
  target : Option ModuleId := none
  deriving DecidableEq

/-- An entry whose module is written with another chunk. -/
structure ChunkMapping where
  module : ModuleId
  chunk : Nat
  deriving DecidableEq

structure Chunk where
  id : Nat
  /-- What is requested once the chunk is loaded. -/
  entries : List ChunkRequest := []
  /-- Requests for the modules that the chunk was made for. -/
  imports : List ChunkRequest := []
  /-- The modules in the order they are written. -/
  files : List Module := []
  mappings : List ChunkMapping := []
  deriving DecidableEq

namespace Chunk

/-- Puts a module where the one of the same id is, or at the end. -/
def putFile (m : Module) : List Module → List Module
  | [] => [m]
  | n :: ns => if n.id = m.id then m :: ns else n :: putFile m ns

/-- Modules with each id once: at its first place, with its last version. -/
def gather (ms : List Module) : List Module := ms.foldl (fun acc m => putFile m acc) []

/-- The name of the output file. -/
def outputName (c : Chunk) : String := toString c.id ++ ".js"

def contains (c : Chunk) (id : ModuleId) : Bool := c.files.any fun m => m.id = id

def addFile (c : Chunk) (m : Module) : Chunk := { c with files := putFile m c.files }

/-- Removes a module and says whether it was there; the others keep their order. -/
def deleteFile (c : Chunk) (id : ModuleId) : Bool × Chunk :=
  (c.contains id, { c with files := c.files.filter fun m => m.id ≠ id })

end Chunk

/-- Chunks that are being worked on, and the number that the next new one gets. Numbers have 32 bits where chunks are
built for real; they do not run over here, and what is shown of them is for less than `2 ^ 32` chunks. -/
structure ChunkList where
  next : Nat := 0
  chunks : List Chunk := []
  deriving DecidableEq

namespace ChunkList

/-- A chunk with a number of its own; it is not in the list. -/
def new (l : ChunkList) (entries : List ChunkRequest) (files : List Module) : Chunk × ChunkList :=
  ({ id := l.next, entries, files := Chunk.gather files }, { l with next := l.next + 1 })

/-- Adds a new chunk at the end. -/
def add (l : ChunkList) (entries : List ChunkRequest) (files : List Module) : ChunkList :=
  let (c, l) := l.new entries files
  { l with chunks := l.chunks ++ [c] }

end ChunkList

/-- What works on all chunks once they are made. -/
structure ChunkTransformer where
  name : String
  transform : ChunkList → Except BundleError Unit × ChunkList

namespace ChunkList

/-- Runs transformers in order, up to the first that fails. What was changed stays. -/
def transformAll : List ChunkTransformer → ChunkList → Except BundleError Unit × ChunkList
  | [], l => (.ok (), l)
  | t :: ts, l =>
    match t.transform l with
    | (.ok (), l) => transformAll ts l
    | (.error e, l) => (.error e, l)

end ChunkList

end Bundling
