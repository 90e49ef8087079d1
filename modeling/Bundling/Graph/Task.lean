import Bundling.Graph.Commit
import Bundling.Graph.Traversal
import Bundling.Graph.Error
import Bundling.Graph.Hook
import Bundling.Resolve.Layer
import Bundling.Store.Basic

/-!
# Compiling a module

A module is compiled by a task, which goes through stages: the file is read, the transformers run, the
imports are resolved, the hooks are told, the module is registered, and the imports that are missing are
compiled by tasks of their own. A module is registered before its imports are read, which is why cycles end; if one of
them fails, the module is taken back.

Reads are listed by module while they are on their way: who wants a module that is being read waits
for that read. `Graph.step` is all that a task does at a time. What comes between two steps is up to
the schedule.
-/

namespace Bundling

/-- What modules are compiled with. -/
structure Toolchain (σ : Type) where
  root : ProjectRoot
  store : FileStore σ
  transformers : List (Transformer σ)
  resolvers : List (Resolver σ)
  /-- More steps than any resolution takes. -/
  fuel : Nat

/-- What is known of a module before it is registered. -/
structure Draft where
  sources : String
  event : CompileEvent
  /-- The version that is being replaced. -/
  previous : Option Version

/-- The commits of a task and of the tasks it waited for, its own one first; or why there are none. -/
abbrev Compiled := Except CompileError (List Commit)

/-- How far a task is. -/
inductive Stage (σ : Type) where
  /-- The file is to be read. -/
  | reading
  /-- The text is there. -/
  | given (contents : String)
  | transforming (draft : Draft)
  /-- The transformers have let others go on, and go on themselves when the clock is there. -/
  | paused (draft : Draft) (wake : Nat) (rest : Work σ (Except TransformFault Transformed))
  /-- The imports are being resolved, each by a caller of the layer. -/
  | resolving (draft : Draft) (made : Transformed) (callers : List (Resolution.Thread σ))
  /-- The hooks are being told of the compiled module, and have let others go on. -/
  | announcing (draft : Draft) (event : CompileEvent) (requests : List (String × ModuleId)) (wake : Nat)
      (rest : Work σ Unit)
  /-- The module is registered and waits for the reads of its imports. -/
  | awaiting (own : Commit) (children : List Nat)
  | done (r : Compiled)

/-- A module on its way. -/
structure Task (σ : Type) where
  id : ModuleId
  stage : Stage σ

/-- A module graph: the resolution layer with the state that plugins act on, the entries, the modules,
the hooks, all tasks ever started (known by their number), and the reads on their way. -/
structure Graph (σ : Type) where
  layer : Resolution.State σ
  entries : List ModuleId := []
  registry : Registry := .empty
  /-- How many versions have been made. -/
  stamps : Nat := 0
  hooks : Hooks σ := {}
  tasks : List (Task σ) := []
  inFlight : List (ModuleId × Nat) := []

namespace Graph

variable {σ : Type}

/-- Acts on the state of the plugins. -/
def act {α : Type} (g : Graph σ) (m : StateM σ α) : α × Graph σ :=
  let (a, env) := m g.layer.env
  (a, { g with layer := { g.layer with env := env } })

def stage? (g : Graph σ) (n : Nat) : Option (Stage σ) := (g.tasks[n]?).map Task.stage

/-- What a task came to. -/
def outcome? (g : Graph σ) (n : Nat) : Option Compiled :=
  match g.stage? n with
  | some (.done r) => some r
  | _ => none

/-- Starts a task. -/
def start (g : Graph σ) (id : ModuleId) (stage : Stage σ) : Nat × Graph σ :=
  (g.tasks.length, { g with tasks := g.tasks ++ [{ id, stage }] })

/-- The read of a module that is on its way; if there is none, a new one. -/
def join (g : Graph σ) (id : ModuleId) : Nat × Graph σ :=
  match g.inFlight.lookup id with
  | some n => (n, g)
  | none =>
    let (n, g) := g.start id .reading
    (n, { g with inFlight := g.inFlight ++ [(id, n)] })

/-- Joins the reads of modules in order. -/
def joinAll : (g : Graph σ) → List ModuleId → List Nat × Graph σ
  | g, [] => ([], g)
  | g, id :: ids =>
    let (n, g) := g.join id
    let (ns, g) := joinAll g ids
    (n :: ns, g)

/-- Sets the stage of a task. A read that is done is listed no longer. -/
def setStage (g : Graph σ) (n : Nat) (stage : Stage σ) : Graph σ :=
  let tasks := g.tasks.modify n fun t => { t with stage }
  match stage with
  | .done _ => { g with tasks, inFlight := g.inFlight.filter (·.2 != n) }
  | _ => { g with tasks }

/-- Removes what cannot be reached from the entries, and says what that was. -/
def collect (g : Graph σ) : List ModuleId × Graph σ :=
  (g.registry.garbage g.entries, { g with registry := g.registry.collect g.entries })

/-! ## The stages -/

/-- Takes up the text of a module. The text that the module already has is left alone. -/
def accept (g : Graph σ) (id : ModuleId) (contents : String) : Stage σ × Graph σ :=
  let previous := g.registry.get? id
  if previous.any fun v => v.body.sources = contents then (.done (.ok []), g)
  else
    let (event, g) := g.act (g.hooks.runBefore { id, contents, old := previous.map Version.body })
    (.transforming { sources := contents, event, previous }, g)

/-- Reads the file of a module. -/
def read (tools : Toolchain σ) (g : Graph σ) (id : ModuleId) : Stage σ × Graph σ :=
  match g.act (tools.store.read id.path) with
  | (.error e, g) => (.done (.error (.read id.path e.message)), g)
  | (.ok contents, g) => g.accept id contents

/-- What the transformers have to do on the text of a module. -/
def transformation (tools : Toolchain σ) (id : ModuleId) (contents : String) :
    Work σ (Except TransformFault Transformed) :=
  Pipeline.run tools.transformers id.path contents (tools.root.publicPath id)

/-- Carries the transformers on. When they are done, the imports that they found are to be resolved. -/
def transform (g : Graph σ) (id : ModuleId) (draft : Draft)
    (work : Work σ (Except TransformFault Transformed)) : Stage σ × Graph σ :=
  match g.act work.go with
  | (.paused rounds rest, g) => (.paused draft (g.layer.clock + rounds) rest, g)
  | (.done (.error fault), g) => (.done (.error (.ofFault id.path fault)), g)
  | (.done (.ok made), g) =>
    (.resolving draft made (made.imports.map fun r => .resolving r (some id)), g)

/-- The module that an event and the requests in its text make. -/
def moduleOf (id : ModuleId) (sources : String) (event : CompileEvent)
    (requests : List (String × ModuleId)) : Module :=
  let plain : Module :=
    { id, sources, contents := event.contents, sourceMap := event.sourceMap }
  (plain.withImports event.imports).withRequests requests

/-- Registers the module, and joins the reads of the imports that are not registered. -/
def register (g : Graph σ) (id : ModuleId) (draft : Draft) (event : CompileEvent)
    (requests : List (String × ModuleId)) : Stage σ × Graph σ :=
  let body := moduleOf id draft.sources event requests
  let own : Commit := { version := { stamp := g.stamps, body }, previous := draft.previous }
  let g := { g with registry := g.registry.insert own.version, stamps := g.stamps + 1 }
  let (children, g) := g.joinAll (body.imports.filter fun i => !g.registry.contains i)
  (.awaiting own children, g)

/-- Carries on what the hooks have to do that are told of the compiled module, and registers it then. -/
def announce (g : Graph σ) (id : ModuleId) (draft : Draft) (event : CompileEvent)
    (requests : List (String × ModuleId)) (work : Work σ Unit) : Stage σ × Graph σ :=
  match g.act work.go with
  | (.paused rounds rest, g) => (.announcing draft event requests (g.layer.clock + rounds) rest, g)
  | (.done (), g) => g.register id draft event requests

/-- Hands the compiled module to the hooks. -/
def finish (g : Graph σ) (id : ModuleId) (draft : Draft) (made : Transformed) (imports : List ModuleId) :
    Stage σ × Graph σ :=
  let event := { draft.event with
    contents := made.contents, sourceMap := made.sourceMap, imports := imports }
  let (event, g) := g.act (g.hooks.runAfter event)
  g.announce id draft event (made.imports.zip imports) (g.hooks.runCompiled event)

/-- Carries the resolution of the imports on, and goes on with the module when all are resolved. Of
several failures the first in the order of the imports counts. -/
def resolve (tools : Toolchain σ) (g : Graph σ) (id : ModuleId) (draft : Draft) (made : Transformed)
    (callers : List (Resolution.Thread σ)) : Stage σ × Graph σ :=
  let (layer, callers) := Resolution.pollAll tools.resolvers tools.fuel g.layer callers
  let g := { g with layer := layer }
  match callers.mapM Resolution.Thread.result? with
  | none => (.resolving draft made callers, g)
  | some results =>
    match results.mapM fun r => r with
    | .error e => (.done (.error (.resolve e)), g)
    | .ok imports => g.finish id draft made imports

/-- The first failure in a list of outcomes. -/
def firstError {α ε : Type} : List (Except ε α) → Option ε
  | [] => none
  | .error e :: _ => some e
  | .ok _ :: rest => firstError rest

/-- All commits in a list of outcomes. -/
def commits : List Compiled → List Commit
  | [] => []
  | .ok cs :: rest => cs ++ commits rest
  | .error _ :: rest => commits rest

/-- Ends a task whose imports have all come to an end. What became unreachable is removed if the
module now imports something else than its old version did. -/
def settle (g : Graph σ) (own : Commit) (outcomes : List Compiled) : Stage σ × Graph σ :=
  match firstError outcomes with
  | some e =>
    (.done (.error e), { g with registry := own.rollback (commits outcomes) g.registry })
  | none =>
    let stage := .done (.ok (own :: commits outcomes))
    match own.previous with
    | some old =>
      if old.body.importsChanged own.version.body then (stage, g.collect.2) else (stage, g)
    | none => (stage, g)

/-- Goes from one stage to the next, if nothing else has to come to an end before. -/
def advance (tools : Toolchain σ) (g : Graph σ) (id : ModuleId) : Stage σ → Stage σ × Graph σ
  | .reading => g.read tools id
  | .given contents => g.accept id contents
  | .transforming draft => g.transform id draft (transformation tools id draft.event.contents)
  | .paused draft wake rest =>
    if wake ≤ g.layer.clock then g.transform id draft rest else (.paused draft wake rest, g)
  | .resolving draft made callers => g.resolve tools id draft made callers
  | .announcing draft event requests wake rest =>
    if wake ≤ g.layer.clock then g.announce id draft event requests rest
    else (.announcing draft event requests wake rest, g)
  | .awaiting own children =>
    match children.mapM g.outcome? with
    | some outcomes => g.settle own outcomes
    | none => (.awaiting own children, g)
  | .done r => (.done r, g)

/-- One step of a task. -/
def step (tools : Toolchain σ) (g : Graph σ) (n : Nat) : Graph σ :=
  match g.tasks[n]? with
  | none => g
  | some t =>
    let (stage, g) := g.advance tools t.id t.stage
    g.setStage n stage

end Graph

end Bundling
