import Bundling.Chunk.Basic
import Bundling.Bundle.Basic
import Bundling.Report.Error
import Bundling.Store.Disk

/-!
# Reports of modules, chunks, bundles and files

What is compiled and written as JSON values, for tools.
-/

namespace Bundling

def ModuleId.report (id : ModuleId) : Json := .string id.text

def SourceMap.report : Option SourceMap → Json
  | some m => .string m.text
  | none => .null

namespace Report

def ids (is : List ModuleId) : Json := .array (is.map ModuleId.report)

def optionalId : Option ModuleId → Json
  | some id => id.report
  | none => .null

end Report

open Report

/-- All that is known of a module. -/
def Module.report (m : Module) : Json :=
  let request (r : String × ModuleId) : Json := .array [.string r.1, r.2.report]
  .object [("id", m.id.report), ("sources", .string m.sources), ("contents", .string m.contents),
    ("imports", ids m.imports), ("requests", .array (m.requests.map request)),
    ("map", SourceMap.report m.sourceMap)]

/-- The id, the sources and the imports of a module. -/
def Module.summary (m : Module) : Json :=
  .object [("id", m.id.report), ("sources", .string m.sources), ("imports", ids m.imports)]

def ChunkRequest.report (r : ChunkRequest) : Json :=
  .array [.string r.request, optionalId r.target, .bool r.target.isSome]

def Chunk.report (c : Chunk) : Json :=
  .object [("id", .string (toString c.id)), ("output_name", .string c.outputName),
    ("entries", .array (c.entries.map ChunkRequest.report)),
    ("imports", .array (c.imports.map ChunkRequest.report)),
    ("files", ids (c.files.map Module.id)),
    ("mappings", .array (c.mappings.map fun m => .array [m.module.report, .ofNat m.chunk]))]

/-- A bundle; `shown` is how its text is shown. -/
def Bundle.report (shown : String → String) (b : Bundle) : Json :=
  .object [("chunk", .ofNat b.chunk), ("output_name", .string b.outputName),
    ("map_name", .string b.mapName), ("contents", .string (shown b.contents)),
    ("source_map", SourceMap.report b.sourceMap), ("files", ids b.files)]

/-- The files below a directory by the way to them, and the directories that are empty; `shown` is how
their texts are shown. -/
def Disk.report (disk : Disk) (shown : String → String) (dir : Path) : Json :=
  let entries := (disk.below (disk.placeOf dir)).map fun (way, bytes) =>
    let name := "/".intercalate (way.map Name.text)
    match bytes with
    | some bytes => (name, Json.string (shown (Text.Utf8.lenient bytes)))
    | none => (name ++ "/", .null)
  .object (Json.sortMembers entries)

end Bundling
