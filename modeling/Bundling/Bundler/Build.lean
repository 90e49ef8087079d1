import Bundling.Bundle.Output
import Bundling.Bundler.Basic
import Bundling.Chunk.Mapping
import Bundling.Chunk.Partition

/-!
# Building

From the modules of a session to chunks, from chunks to bundles, and from bundles to files.
-/

namespace Bundling.Bundler

variable {σ : Type}

/-- Compiles all entries. There is no result where the steps of the host did not suffice. -/
def compile (b : Bundler σ) : StateM (Session σ) (Option (Except BundleError Unit)) := do
  return (← Session.onGraph fun g => g.run b.tools .compile).map (·.mapError .compile)

/-- Divides the modules into chunks, as configured. -/
def chunks (b : Bundler σ) (g : Graph σ) : Except BundleError (List Chunk) :=
  match ChunkList.partition g b.tools.root b.config.chunking.strategy with
  | .error e => .error (.compile e)
  | .ok l =>
    match l.transformAll b.chunkTransformers with
    | (.error e, _) => .error e
    | (.ok (), l) => .ok (Chunk.computeMappings l.chunks)

/-- Generates chunks with the generator of the bundler. -/
def generateChunks (b : Bundler σ) (options : GeneratorOptions) (cs : List Chunk) :
    StateM (Session σ) (Except BundleError (List Bundle)) :=
  Session.onPaths (Generator.generateAll b.generator ⟨b.tools.root, b.host.store, options⟩ cs)

/-- Generates all bundles of the compiled modules. -/
def generate (b : Bundler σ) : StateM (Session σ) (Except BundleError (List Bundle)) := do
  match b.chunks (← get).graph with
  | .error e => return .error e
  | .ok cs => b.generateChunks b.config.generator cs

/-- Compiles and generates. -/
def build (b : Bundler σ) : StateM (Session σ) (Option (Except BundleError (List Bundle))) := do
  match ← b.compile with
  | none => return none
  | some (.error e) => return some (.error e)
  | some (.ok ()) => return some (← b.generate)

/-! ## A single bundle -/

/-- All modules below the entries in one chunk, whatever is configured. -/
def singleChunk (b : Bundler σ) (g : Graph σ) : Except BundleError Chunk :=
  match ChunkList.partition g b.tools.root .single with
  | .error e => .error (.compile e)
  | .ok l =>
    match l.chunks.getLast? with
    | some c => .ok c
    | none => .error (.generate "graph produced no chunk")

/-- Generates the single chunk. -/
def generateSingle (b : Bundler σ) (options : GeneratorOptions) :
    StateM (Session σ) (Except BundleError Bundle) := do
  match b.singleChunk (← get).graph with
  | .error e => return .error e
  | .ok c =>
    match ← b.generateChunks options [c] with
    | .error e => return .error e
    | .ok bs =>
      match bs.getLast? with
      | some bundle => return .ok bundle
      | none => return .error (.generate "generator returned no bundle")

/-- All modules in one bundle. -/
def generateBundle (b : Bundler σ) : StateM (Session σ) (Except BundleError Bundle) :=
  b.generateSingle b.config.generator

/-- The source map of the single bundle, as JSON or as the comment that a bundle ends with. -/
def sourceMap (b : Bundler σ) (asComment : Bool) : StateM (Session σ) (Except BundleError String) := do
  let options := { b.config.generator with sourceMap := true, mapPlacement := .external }
  match ← b.generateSingle options with
  | .error e => return .error e
  | .ok bundle =>
    match bundle.sourceMap with
    | none => return .error (.generate "generator did not produce a source map")
    | some m =>
      return .ok (if asComment then "//# sourceMappingURL=" ++ m.dataAddress else m.text)

/-! ## Files -/

/-- Writes bundles to the output directory, and their source maps if they are files of their own. -/
def write (b : Bundler σ) (bs : List Bundle) (overwrite : Bool) :
    StateM (Session σ) (Except BundleError (List Path)) := do
  let o := b.config.generator
  let maps : Bool := o.sourceMap && o.mapPlacement == .external
  Session.onGraph fun g => g.act fun env =>
    let (r, disk) := Output.write (b.host.disk env) bs b.config.outputPath overwrite maps
    (r, b.host.setDisk disk env)

/-- Generates all bundles and writes them over the ones that are there. -/
def rebuild (b : Bundler σ) : StateM (Session σ) (Except BundleError Unit) := do
  match ← b.generate with
  | .error e => return .error e
  | .ok bs => return (← b.write bs true).map fun _ => ()

/-- Ends the session of a graph: the hooks for the end run, and all modules are dropped. -/
def dispose : StateM (Session σ) Unit := Session.onGraph fun g => ((), g.dispose)

end Bundling.Bundler
