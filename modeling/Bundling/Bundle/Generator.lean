import Bundling.Bundle.Basic
import Bundling.Bundle.PublicPaths
import Bundling.Bundle.Runtime
import Bundling.Bundle.SourceMapMerge
import Bundling.Chunk.Basic
import Bundling.Json.Writer
import Bundling.Store.Basic
import Bundling.Text.Blank

/-!
# Generating bundles

The text of a chunk: the runtime, a block for each module, the tables of paths and requests, and the
entries, which wait for the other chunks that their modules are in. The parts are joined by line ends.

Lines are counted as the text grows: the contents of a module start on the line below the one that
opens its block. That is the line its source map moves to.
-/

namespace Bundling

/-- What a generator may look at besides the chunk. -/
structure GenerateContext (σ : Type) where
  root : ProjectRoot
  store : FileStore σ
  options : GeneratorOptions

/-- A generator acts on the state of the store and on the public paths given so far. -/
structure Generator (σ : Type) where
  name : String
  generate : GenerateContext σ → Chunk → StateM (PublicPaths × σ) (Except BundleError Bundle)

namespace Generator

variable {σ : Type}

/-- The name of the generator that bundles are made with. -/
def defaultName : String := "default"

def prologue : String := ";(function() \x7b"

def epilogue : String := "\x7d)();\n"

/-- The text of the runtime; another one than the built-in is a file seen from the root. -/
def runtime (c : GenerateContext σ) : StateM σ (Except BundleError String) := do
  if c.options.wrapper = "normal" then pure (.ok Runtime.text)
  else
    let path := c.root.path / c.options.wrapper
    match ← c.store.read path with
    | .ok text => pure (.ok (String.ofList (Text.trimEnd text.toList)))
    | .error e =>
      pure (.error (.generate ("cannot read wrapper " ++ path.text ++ ": " ++ e.message)))

/-- The block of a module. -/
def block (publicPath contents : String) : String :=
  Runtime.globalName ++ ".registerModule(" ++ Json.quote publicPath ++
    ", function(__filename, __dirname, require, module, exports) \x7b\n" ++ contents ++ "\n\x7d);"

/-- A bundle on its way: its parts, the line on which the contents of the next module start, and what
is known of the modules. -/
structure Progress where
  parts : List String
  line : Nat
  paths : PublicPaths
  map : SourceMap
  names : List (String × Json) := []
  requests : List (String × Json) := []

/-- What a bundle starts with. -/
def start (outputName runtime : String) (paths : PublicPaths) : Progress where
  parts := [prologue, runtime]
  line := Text.lineCount ("\n".intercalate [prologue, runtime]) + 1
  paths := paths
  map := { file := some outputName }

/-- The name of the source of a module in the map. -/
def sourceName (root : ProjectRoot) (o : GeneratorOptions) (m : Module) : String :=
  "bale:///$" ++ o.mapNamespace ++ "/" ++ root.relative m.id

/-- Adds a module. -/
def addModule (root : ProjectRoot) (o : GeneratorOptions) (p : Progress) (m : Module) : Progress :=
  let (publicPath, paths) := p.paths.get root m.id
  let (targets, paths) := PublicPaths.getAll root paths (m.requests.map (·.2))
  let text := block publicPath m.contents
  let table := Json.object (Json.sortMembers ((m.requests.map (·.1)).zip (targets.map .string)))
  { parts := p.parts ++ [text]
    line := p.line + Text.lineCount text
    paths := paths
    map := p.map.addModule (sourceName root o m) m.sources m.sourceMap m.contents p.line
    names := p.names ++
      [(publicPath, .string ("$" ++ o.sourceNamespace ++ "/" ++ root.relative m.id))]
    requests := p.requests ++ if m.requests.isEmpty then [] else [(publicPath, table)] }

/-- The call that hands the tables over. -/
def tables (chunk : Nat) (p : Progress) : String :=
  Runtime.globalName ++ ".registerMappings(" ++ Json.quote (toString chunk) ++ ", " ++
    (Json.object (Json.sortMembers p.names)).compact ++ ", " ++
    (Json.object (Json.sortMembers p.requests)).compact ++ ")"

/-- The chunks that have to be there before the entries of a chunk, each once. -/
def external (c : Chunk) : List Nat :=
  firstOccurrences (c.entries.filterMap fun e => do
    let id ← e.target
    let m ← c.mappings.find? fun m => m.module = id
    some m.chunk)

/-- The call that waits for other chunks. -/
def ensure (chunks : List Nat) : String :=
  let ids := Json.array (chunks.map fun n => .string (toString n))
  Runtime.globalName ++ ".ensure(" ++ ids.compact ++ ", '" ++ rootToken ++ "', function() \x7b"

/-- The modules before the first entry that has none. -/
def resolvedFront : List ChunkRequest → List ModuleId
  | [] => []
  | e :: es =>
    match e.target with
    | none => []
    | some id => id :: resolvedFront es

/-- The text of a chunk under a runtime. -/
def render (root : ProjectRoot) (o : GeneratorOptions) (runtime : String) (c : Chunk)
    (paths : PublicPaths) : Except BundleError Bundle × PublicPaths :=
  let p := c.files.foldl (addModule root o) (start c.outputName runtime paths)
  let waits := external c
  let (entries, paths) := PublicPaths.getAll root p.paths (resolvedFront c.entries)
  match c.entries.find? fun e => e.target.isNone with
  | some e => (.error (.unresolved e.request), paths)
  | none =>
    let require (path : String) : String :=
      Runtime.globalName ++ ".require(" ++ Json.quote path ++ ")"
    let calls := entries.map require
    let calls := if waits.isEmpty then calls else ensure waits :: calls ++ ["\x7d)"]
    let comment :=
      if o.sourceMap ∧ o.mapPlacement = .inlined then
        ["//# sourceMappingURL=" ++ p.map.dataAddress]
      else []
    let parts := p.parts ++ tables c.id p :: calls ++ epilogue :: comment
    (.ok {
      chunk := c.id
      outputName := c.outputName
      contents := "\n".intercalate parts
      sourceMap := if o.sourceMap then some p.map else none
      files := c.files.map Module.id }, paths)

/-- The generator that bundles are made with. -/
def standard : Generator σ where
  name := defaultName
  generate c chunk := fun (paths, s) =>
    match runtime c s with
    | (.error e, s) => (.error e, (paths, s))
    | (.ok text, s) =>
      let (r, paths) := render c.root c.options text chunk paths
      (r, (paths, s))

/-- Generates chunks in order, up to the first that fails. -/
def generateAll (g : Generator σ) (c : GenerateContext σ) :
    List Chunk → StateM (PublicPaths × σ) (Except BundleError (List Bundle))
  | [] => pure (.ok [])
  | chunk :: chunks => do
    match ← g.generate c chunk with
    | .error e => pure (.error e)
    | .ok b =>
      match ← generateAll g c chunks with
      | .error e => pure (.error e)
      | .ok bs => pure (.ok (b :: bs))

end Generator

end Bundling
