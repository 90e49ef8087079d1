import Bundling.Plugin
import Bundling.Graph.Hook
import Bundling.Resolve.Install
import Bundling.Text.Capital
import Bundling.Text.Search

/-!
# Scripted plugins

Plugins that are described by data and keep a journal of their calls. They stand in for real ones where
the behaviour of a project is to be tried out.
-/

namespace Bundling.Scripted

variable {σ : Type}

/-- Writes a line into the journal. -/
abbrev Journal (σ : Type) := String → StateM σ Unit

/-- The importer of a request as the journal shows it. -/
def importerText : Option ModuleId → String
  | some id => id.text
  | none => "-"

/-! ## Transformers -/

/-- A change of a file. -/
structure Edit where
  /-- What comes before the contents; each `{public}` in it is the public path. -/
  start : String := ""
  /-- The contents; without them those of the file are kept. -/
  contents : Option String := none
  upper : Bool := false
  ending : String := ""
  sourceMap : Option String := none
  imports : List String := []
  deriving DecidableEq

/-- What a rule makes of a file. -/
inductive Effect where
  | skip
  | fail (text : String)
  | edit (e : Edit)
  deriving DecidableEq

/-- A rule for files: all, or those of a path, or those with a text. -/
structure Rule where
  path : Option String := none
  part : Option String := none
  effect : Effect
  deriving DecidableEq

def Rule.applies (r : Rule) (file : SourceFile) : Bool :=
  r.path.all (· == file.path.text) &&
    r.part.all fun t => Text.occursIn t.toList file.contents.toList

/-- A file after a change. -/
def Edit.output (e : Edit) (file : SourceFile) : TransformOutput :=
  let contents := e.contents.getD file.contents
  let contents := if e.upper then Text.upper contents else contents
  let start := Text.replaceAll "\x7bpublic\x7d" file.publicPath e.start
  { contents := start ++ contents ++ e.ending, sourceMap := e.sourceMap, imports := e.imports }

/-- What the first rule that applies makes of a file. -/
def ruled (rules : List Rule) (file : SourceFile) : Except String (Option TransformOutput) :=
  match (rules.find? fun r => r.applies file).map Rule.effect with
  | none | some .skip => .ok none
  | some (.fail text) => .error text
  | some (.edit e) => .ok (some (e.output file))

def transformer (journal : Journal σ) (name : String) (rules : List Rule) : Transformer σ where
  name := name
  transform file := .ofState do
    journal ("transform " ++ name ++ " " ++ file.path.text)
    return ruled rules file

/-- The scanner, under another name and with a journal. -/
def scanner (journal : Journal σ) : Transformer σ where
  name := "logged-scan"
  transform file := .ofState do
    journal ("scan " ++ file.path.text)
    return Scan.output false file

/-! ## Resolvers -/

/-- What a resolver answers. -/
inductive Answer where
  | path (text : String)
  /-- What the other resolvers answer to a request. -/
  | others (request : String)
  | fail (text : String)
  deriving DecidableEq

/-- A resolver with a table of answers; other requests are left to the next one. -/
def resolver (journal : Journal σ) (name : String) (answers : List (String × Answer)) :
    Resolver σ where
  name := name
  resolve request importer :=
    .andThen (journal ("resolve " ++ name ++ " " ++ request ++ " " ++ importerText importer)) <|
      match answers.lookup request with
      | none => .defer
      | some (.path text) =>
        .answer ((ModuleId.ofPath ⟨text⟩).mapError ResolveError.ofModuleIdError)
      | some (.others other) => .ask other importer .answer
      | some (.fail text) => .answer (.error (.plugin name text))

/-! ## Installers -/

/-- A package: its files by their path below it, how long it takes to install, and whether that fails
in the end. -/
structure Package where
  files : List (String × String) := []
  rounds : Nat := 0
  failure : Option String := none
  deriving DecidableEq

/-- An installer with a table of packages; `put` puts a file in its place. -/
def installer (journal : Journal σ) (put : (path text : String) → StateM σ Unit)
    (packages : List (String × Package)) : Install.Installer σ := fun name save root done =>
  let package := (packages.lookup name).getD { failure := some "not in registry" }
  let install : StateM σ Unit := do
    package.files.forM fun (path, text) =>
      put (root.text ++ "/" ++ Candidates.packageDir ++ "/" ++ name ++ "/" ++ path) text
    journal ("installed " ++ name)
  let outcome : Except ResolveError Unit := match package.failure with
    | some reason => .error (.install name reason)
    | none => .ok ()
  .andThen (journal ("install " ++ name ++ " save=" ++ toString save ++ " root=" ++ root.text)) <|
    .pause package.rounds (.andThen install (done outcome))

/-- Callbacks that only keep the journal. -/
def callbacks (journal : Journal σ) : Install.Callbacks σ where
  before name := journal ("before " ++ name)
  after name r := journal ("after " ++ name ++ " " ++
    match r with
    | .ok () => "ok"
    | .error e => e.message)

/-! ## Hooks -/

/-- A change of an event; of one module, or of all. -/
structure EventEdit where
  only : Option String := none
  replaced : Option (String × String) := none
  appended : String := ""
  dropped : List String := []
  added : List ModuleId := []
  dropMap : Bool := false
  deriving DecidableEq

def EventEdit.apply (edit : EventEdit) (e : CompileEvent) : CompileEvent :=
  if !edit.only.all (· == e.id.text) then e
  else
    let contents := match edit.replaced with
      | some (part, replacement) => Text.replaceAll part replacement e.contents
      | none => e.contents
    { e with
      contents := contents ++ edit.appended
      imports := e.imports.filter (fun i => !edit.dropped.contains i.text) ++ edit.added
      sourceMap := if edit.dropMap then none else e.sourceMap }

/-- An event as the journal shows it. -/
def eventText (e : CompileEvent) : String :=
  let old : Json := match e.old with
    | some m => .string m.sources
    | none => .null
  (Json.array [.string e.id.text, .string e.contents, .array (e.imports.map fun i => .string i.text),
    .bool e.sourceMap.isSome, old]).compact

/-- A hook of a kind: `before`, `after`, `did`, or else the end. -/
def hook (journal : Journal σ) (kind name : String) (edit : EventEdit) : Hook σ :=
  let label := kind ++ " " ++ name
  let run (e : CompileEvent) : StateM σ CompileEvent := do
    journal (label ++ " " ++ eventText e)
    return edit.apply e
  if kind = "before" then .before run
  else if kind = "after" then .after run
  else if kind = "did" then .compiled fun e => .ofState (journal (label ++ " " ++ eventText e))
  else .destroyed (journal label)

/-! ## Chunks and bundles -/

/-- A chunk transformer by its name. Besides the one for common chunks there are some that only show
that they ran; any other name fails. -/
def chunkTransformer (name : String) : ChunkTransformer where
  name := name
  transform l :=
    if name = Commons.name then Commons.transformer.transform l
    else if name = "reverse" then (.ok (), { l with chunks := l.chunks.reverse })
    else if name = "clear" then (.ok (), { l with chunks := [] })
    else if name = "unresolve" then
      let lose (c : Chunk) : Chunk :=
        { c with entries := c.entries.map fun e => { e with target := none } }
      (.ok (), { l with chunks := l.chunks.map lose })
    else if name = "extra" then (.ok (), l.add [] [])
    else (.error (.generate "chunk stub failed"), l)

/-- A generator that only tells how long the text would be. -/
def generator (name : String) : Generator σ where
  name := name
  generate c chunk := do
    match ← Generator.standard.generate c chunk with
    | .error e => return .error e
    | .ok b =>
      let text := "/* " ++ name ++ " */ " ++ toString b.contents.utf8ByteSize
      return .ok { b with contents := text, sourceMap := none }

end Bundling.Scripted
