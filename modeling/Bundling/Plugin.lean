import Bundling.Bundle.Generator
import Bundling.Chunk.Commons
import Bundling.Config.Basic
import Bundling.Resolve.Activity
import Bundling.Text.Quoted
import Bundling.Transform.Scan

/-!
# Plugins

A configuration refers to plugins by name. A catalog holds what the names stand for; it is consulted
once, when a bundler is set up.
-/

namespace Bundling

/-- What a plugin provides. -/
inductive PluginKind where
  | transformer
  | resolver
  | chunkTransformer
  | generator
  deriving DecidableEq

def PluginKind.text : PluginKind → String
  | transformer => "Transformer"
  | resolver => "Resolver"
  | chunkTransformer => "ChunkTransformer"
  | generator => "Generator"

/-- A plugin, which is made for a configuration. -/
inductive Plugin (σ : Type) where
  | transformer (make : Config → Transformer σ)
  | resolver (make : Config → Resolver σ)
  | chunkTransformer (make : Config → ChunkTransformer)
  | generator (make : Config → Generator σ)

def Plugin.kind {σ : Type} : Plugin σ → PluginKind
  | transformer _ => .transformer
  | resolver _ => .resolver
  | chunkTransformer _ => .chunkTransformer
  | generator _ => .generator

/-- The plugins that a configuration lists, each kind in the order of the list. -/
structure Equipment (σ : Type) where
  transformers : List (Transformer σ) := []
  resolvers : List (Resolver σ) := []
  chunkTransformers : List ChunkTransformer := []

/-- Plugins by name, in the order in which the names were first registered. -/
structure Catalog (σ : Type) where
  plugins : List (String × Plugin σ) := []

namespace Catalog

variable {σ : Type}

/-- Registers a plugin. Under a name that is taken it replaces the earlier one. -/
def insert (c : Catalog σ) (name : String) (p : Plugin σ) : Catalog σ where
  plugins := assign name p c.plugins

def get? (c : Catalog σ) (name : String) : Option (Plugin σ) := c.plugins.lookup name

def size (c : Catalog σ) : Nat := c.plugins.length

/-- The plugins that are always there. -/
def builtIn : Catalog σ where
  plugins := [
    (Scan.name, .transformer fun _ => Scan.transformer false),
    (Commons.name, .chunkTransformer fun _ => Commons.transformer),
    (Generator.defaultName, .generator fun _ => Generator.standard)]

/-- The catalog as a text: names and kinds. -/
def text (c : Catalog σ) : String :=
  let entries := c.plugins.map fun (name, p) => Text.quoted name ++ ": " ++ p.kind.text
  "\x7b" ++ ", ".intercalate entries ++ "\x7d"

def unknown (name : String) : BundleError := .invalidConfig ("unknown plugin '" ++ name ++ "'")

/-- The names of the plugins to use. Common chunks are also asked for by the option for them. -/
def listed (config : Config) : List String :=
  if config.chunking.commons ∧ Commons.name ∉ config.plugins then config.plugins ++ [Commons.name]
  else config.plugins

/-- Makes a plugin and puts it with the others of its kind. -/
def equip (c : Catalog σ) (config : Config) (e : Equipment σ) (name : String) :
    Except BundleError (Equipment σ) :=
  match c.get? name with
  | some (.transformer make) => .ok { e with transformers := e.transformers ++ [make config] }
  | some (.resolver make) => .ok { e with resolvers := e.resolvers ++ [make config] }
  | some (.chunkTransformer make) =>
    .ok { e with chunkTransformers := e.chunkTransformers ++ [make config] }
  | some (.generator _) =>
    .error (.invalidConfig ("'" ++ name ++ "' is a generator and cannot be listed in plugins"))
  | none => .error (unknown name)

/-- Makes the plugins that a configuration lists. A name may be listed more than once. -/
def resolve (c : Catalog σ) (config : Config) : Except BundleError (Equipment σ) :=
  (listed config).foldlM (c.equip config) {}

/-- Makes the generator of a name. -/
def generator (c : Catalog σ) (name : String) (config : Config) : Except BundleError (Generator σ) :=
  match c.get? name with
  | some (.generator make) => .ok (make config)
  | some p =>
    .error (.invalidConfig ("'" ++ name ++ "' is a " ++ p.kind.text ++ ", not a generator"))
  | none => .error (unknown name)

end Catalog

end Bundling
