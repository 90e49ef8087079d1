import Bundling.Config.Basic
import Bundling.ModuleId

/-!
# Public paths

What modules are called at run time. Numbers of 32 bits are given at first sight and kept, so a chunk
that is written anew calls its modules as before.
-/

namespace Bundling

/-- The kind of public paths, and the modules that have numbers, in the order of these. -/
structure PublicPaths where
  pathType : PathType := .filePath
  numbered : List ModuleId := []
  deriving DecidableEq

namespace PublicPaths

/-- What the module at a place among those that have numbers is called. -/
def numberAt (place : Nat) : String := toString (UInt32.ofNat place)

/-- What a module is called. -/
def get (p : PublicPaths) (root : ProjectRoot) (id : ModuleId) : String × PublicPaths :=
  match p.pathType with
  | .filePath => (root.publicPath id, p)
  | .number =>
    match p.numbered.idxOf? id with
    | some n => (numberAt n, p)
    | none => (numberAt p.numbered.length, { p with numbered := p.numbered ++ [id] })

/-- What modules are called, in order. -/
def getAll (root : ProjectRoot) : (p : PublicPaths) → List ModuleId → List String × PublicPaths
  | p, [] => ([], p)
  | p, id :: ids =>
    let (s, p) := p.get root id
    let (ss, p) := getAll root p ids
    (s :: ss, p)

end PublicPaths

end Bundling
