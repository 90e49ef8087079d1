import Bundling.Graph.Schedule

/-!
# Operations on a graph

What can be asked of a graph between compilations.
-/

namespace Bundling.Graph

variable {σ : Type}

/-- The ids of entries, which may be relative to the root. -/
def entryIds (root : ProjectRoot) (entries : List Path) : Except ModuleIdError (List ModuleId) :=
  entries.mapM root.toId

/-- A graph with nothing compiled. -/
def build (root : ProjectRoot) (entries : List Path) (env : σ) : Except ModuleIdError (Graph σ) :=
  (entryIds root entries).map fun ids => { layer := { env }, entries := ids }

/-- Changes the entries; the modules stay as they are. -/
def setEntries (g : Graph σ) (root : ProjectRoot) (entries : List Path) :
    Except ModuleIdError (Graph σ) :=
  (entryIds root entries).map fun ids => { g with entries := ids }

/-- The modules below some ids, in the order of a walk. -/
def below (g : Graph σ) (roots : List ModuleId) : Except CompileError (List Module) :=
  match g.registry.closure roots with
  | .ok vs => .ok (vs.map Version.body)
  | .error id => .error (.notRegistered id)

/-- All modules below the entries. -/
def allBelow (g : Graph σ) : Except CompileError (List Module) := g.below g.entries

/-- Whether everything below the entries is registered, so that output can be made of it. -/
def isComplete (g : Graph σ) : Bool :=
  match g.allBelow with
  | .ok _ => true
  | .error _ => false

/-- The modules in the order of their registration. -/
def modules (g : Graph σ) : List Module := g.registry.versions.map Version.body

def get? (g : Graph σ) (id : ModuleId) : Option Module := (g.registry.get? id).map Version.body

/-- Whether the module of a file is registered. -/
def containsPath (g : Graph σ) (root : ProjectRoot) (path : Path) : Bool :=
  match root.toId path with
  | .ok id => g.registry.contains id
  | .error _ => false

/-- Asks the resolution layer. There is no result where the rounds did not suffice. -/
def ask (g : Graph σ) (tools : Toolchain σ) (request : String) (importer : Option ModuleId) :
    Option Resolved × Graph σ :=
  let callers := [Resolution.Thread.resolving request importer]
  let (layer, callers) :=
    Resolution.rounds tools.resolvers tools.fuel tools.fuel g.layer callers
  (callers.head?.bind Resolution.Thread.result?, { g with layer := layer })

/-- Runs the hooks for the end, then drops all modules and hooks. -/
def dispose (g : Graph σ) : Graph σ :=
  let ((), g) := g.act g.hooks.runDestroyed
  { g with hooks := g.hooks.clear, registry := .empty, inFlight := [] }

end Bundling.Graph
