import Bundling.Config.Validation
import Bundling.Graph.Operation
import Bundling.Plugin
import Bundling.Resolve.Command

/-!
# Bundlers

A bundler is a configuration with the plugins that it asks for. What changes while it works is its
session: the module graph, in which the state of the store lies, and the public paths given so far.
-/

namespace Bundling

/-- What a bundler finds around it: the store that modules are read from, the disk that output is
written to, and the means to run commands. -/
structure Host (σ : Type) where
  store : FileStore σ
  disk : σ → Disk
  setDisk : Disk → σ → σ
  run : Install.Runner σ
  /-- More steps than any operation takes. -/
  fuel : Nat

structure Bundler (σ : Type) where
  /-- The configuration; its root directory is absolute. -/
  config : Config
  host : Host σ
  tools : Toolchain σ
  generator : Generator σ
  chunkTransformers : List ChunkTransformer

/-- What changes while a bundler works. -/
structure Session (σ : Type) where
  graph : Graph σ
  paths : PublicPaths

namespace Bundler

variable {σ : Type}

/-- Where the modules are, from the root of the disk. -/
def rootOf (config : Config) (workingDir : Path) : Path :=
  (workingDir.join config.rootDirectory).clean.toPath

/-- The resolver that installs missing packages, if it is enabled. -/
def installResolver (config : Config) (host : Host σ) (root : Path) :
    Except BundleError (List (Resolver σ)) :=
  let o := config.resolve.install
  if o.enabled then
    let options : Install.Options :=
      { save := o.save, silent := o.silent, includes := o.includes, excludes := o.excludes }
    match Install.Filter.ofOptions? options with
    | some filter =>
      .ok [Install.resolver (Install.byCommand host.run o.command) options filter {} root]
    | none => .error (.invalidConfig "invalid install filter")
  else .ok []

/-- Sets a bundler up. Modules are resolved by the plugins that are listed, then in the file store,
and last by installing packages. -/
def ofConfig (config : Config) (workingDir : Path) (catalog : Catalog σ) (host : Host σ) (env : σ) :
    Except BundleError (Bundler σ × Session σ) := do
  config.checkSchema.mapError BundleError.config
  let root := ProjectRoot.ofPath (rootOf config workingDir)
  let config := { config with rootDirectory := root.path }
  let equipment ← catalog.resolve config
  let generator ← catalog.generator Generator.defaultName config
  let files := Candidates.resolver host.store root.path config.resolve.extensions
  let install ← installResolver config host root.path
  let tools : Toolchain σ :=
    { root
      store := host.store
      transformers := equipment.transformers
      resolvers := equipment.resolvers ++ [files] ++ install
      fuel := host.fuel }
  let graph ← (Graph.build root config.entries env).mapError fun e => .invalidConfig e.message
  return ({ config, host, tools, generator, chunkTransformers := equipment.chunkTransformers },
    { graph, paths := { pathType := config.generator.pathType } })

end Bundler

namespace Session

variable {σ : Type}

/-- Acts on the graph. -/
def onGraph {α : Type} (f : Graph σ → α × Graph σ) : StateM (Session σ) α := fun s =>
  let (a, graph) := f s.graph
  (a, { s with graph := graph })

/-- Acts on the public paths and on the state of the plugins. -/
def onPaths {α : Type} (m : StateM (PublicPaths × σ) α) : StateM (Session σ) α := fun s =>
  let (a, paths, env) := m (s.paths, s.graph.layer.env)
  (a, { graph := { s.graph with layer := { s.graph.layer with env := env } }, paths := paths })

end Session

end Bundling
