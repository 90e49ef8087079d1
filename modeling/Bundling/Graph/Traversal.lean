import Bundling.Graph.Registry

/-!
# Walks over the registry

Depth-first walks in the order of imports, with a stack of their own, so that long chains of imports
need no deep recursion. One walk may start from several roots, and visits no module twice.
-/

namespace Bundling

/-- What a walk does about an id that is not registered. -/
inductive Missing where
  /-- It ends there. -/
  | fail
  | skip
  deriving DecidableEq

/-- How far a walk has come. -/
structure Walk where
  /-- What it has visited, in order. -/
  visited : List Version := []
  /-- The id that it ended at because there is no such module. -/
  absent : Option ModuleId := none
  deriving DecidableEq

namespace Walk

def hasVisited (visited : List Version) (id : ModuleId) : Bool := visited.any fun v => v.id = id

/-- The imports of a version that have not been visited. -/
def fresh (visited : List Version) (v : Version) : List ModuleId :=
  v.body.imports.filter fun id => !hasVisited visited id

/-- Works off a stack of ids, the next one first. -/
def go (r : Registry) (missing : Missing) :
    (fuel : Nat) → (stack : List ModuleId) → (visited : List Version) → Walk
  | _, [], visited => { visited }
  | 0, _ :: _, visited => { visited }
  | fuel + 1, id :: stack, visited =>
    if hasVisited visited id then go r missing fuel stack visited
    else match r.get? id with
      | some v =>
        let visited := visited ++ [v]
        go r missing fuel (fresh visited v ++ stack) visited
      | none =>
        match missing with
        | .fail => { visited, absent := some id }
        | .skip => go r missing fuel stack visited

/-- More ids than one walk can ever have on its stack: the root, and the imports of each version
once. -/
def bound (r : Registry) : Nat := (r.versions.flatMap fun v => v.body.imports).length + 1

/-- Visits a root and everything that it imports and that has not been visited. -/
def visit (r : Registry) (missing : Missing) (w : Walk) (root : ModuleId) : Walk :=
  go r missing (bound r) [root] w.visited

/-- Visits roots in order, up to one below which a module is missing. -/
def visitAll (r : Registry) (missing : Missing) : List ModuleId → Walk → Walk
  | [], w => w
  | root :: roots, w =>
    match visit r missing w root with
    | { visited, absent := none } => visitAll r missing roots { visited }
    | w => w

end Walk

namespace Registry

/-- Everything below some roots, in the order of a walk; or the id that is missing first. -/
def closure (r : Registry) (roots : List ModuleId) : Except ModuleId (List Version) :=
  let w := Walk.visitAll r .fail roots {}
  match w.absent with
  | none => .ok w.visited
  | some id => .error id

/-- Everything that can be reached from some roots through modules that are registered. -/
def reachable (r : Registry) (roots : List ModuleId) : List Version :=
  (Walk.visitAll r .skip roots {}).visited

/-- Keeps what can be reached from some roots. -/
def collect (r : Registry) (roots : List ModuleId) : Registry :=
  r.filter fun v => Walk.hasVisited (r.reachable roots) v.id

/-- What cannot be reached from some roots, in the order of registration. -/
def garbage (r : Registry) (roots : List ModuleId) : List ModuleId :=
  r.ids.filter fun id => !Walk.hasVisited (r.reachable roots) id

end Registry

end Bundling
