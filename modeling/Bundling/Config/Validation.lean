import Bundling.Config.Error
import Bundling.Config.Reader
import Bundling.Pattern.Expression
import Bundling.Store.Disk
import Bundling.Text.Blank

/-!
# Checking configurations

The schema is what a configuration has to satisfy by itself. With the disk at hand, the root, the
entries and the runtime have to be there, too.
-/

namespace Bundling.Config

/-- The configuration that a value describes. -/
def ofValue (j : Json) : Except ConfigError Config :=
  (ofJson .strict j).mapError ConfigError.ofDecodeError

/-- The first item that a test finds, as a failure. -/
private def refuse {α : Type} (items : List α) (bad : α → Bool) (e : α → ConfigError) :
    Except ConfigError Unit :=
  match items.find? bad with
  | some a => .error (e a)
  | none => .ok ()

private def isBlank (s : String) : Bool := s.toList.all Text.isBlank

/-- Checks what needs no disk. Of several faults the first in this order counts. -/
def checkSchema (c : Config) : Except ConfigError Unit := do
  if c.entries.isEmpty then .error .noEntries
  refuse c.entries Path.isEmpty fun _ =>
    .schema "entry paths cannot be empty" (some "Remove empty strings from the 'entries' array")
  refuse c.resolve.extensions (fun e => e.isEmpty || e.toList.head? == some '.') fun e =>
    .schema ("invalid extension '" ++ e ++ "'")
      (some "List extensions without the leading dot, e.g. \"js\"")
  let install := c.resolve.install
  refuse (install.includes ++ install.excludes) (fun p => (Pattern.ofExpression? p).isNone) fun p =>
    .schema ("invalid install filter '" ++ p ++ "'")
      (some "'include' and 'exclude' are regular expressions")
  if install.enabled && isBlank install.command then
    .error (.schema "install command cannot be empty"
      (some "Set resolve.install.command, e.g. \"npm\""))
  refuse [c.generator.sourceNamespace, c.generator.mapNamespace]
    (fun n => n.isEmpty || n.toList.contains '/') fun n =>
    .schema ("invalid namespace '" ++ n ++ "'")
      (some "Namespaces are single path segments such as \"app\"")
  refuse c.plugins isBlank fun _ => .schema "plugin names cannot be empty" none

/-- An entry seen from the root: without the root token, if that is its first component. -/
def plainEntry (entry : Path) : Path :=
  match Path.segments entry.octets with
  | first :: rest =>
    if first = Text.Utf8.encode rootToken then
      let rest := ((rest.dropWhile Path.isVoid).reverse.dropWhile Path.isVoid).reverse
      .ofOctets ([Path.slash].intercalate rest)
    else entry
  | [] => entry

/-- Checks the schema, and that the files are there; `base` is what a relative root is seen from. -/
def checkFiles (c : Config) (disk : Disk) (base : Path) : Except ConfigError Unit := do
  c.checkSchema
  let root := base.join c.rootDirectory
  if !disk.isDir root then .error (.rootNotFound root)
  match c.entries.map (fun e => root.join (plainEntry e)) |>.find? fun p => !disk.isFile p with
  | some p => .error (.entryNotFound p)
  | none =>
    let wrapper := root.join ⟨c.generator.wrapper⟩
    if c.generator.wrapper ≠ "normal" ∧ !disk.isFile wrapper then
      .error (.schema ("wrapper not found: " ++ wrapper.text)
        (some "Use \"normal\" or a path to a runtime file"))

end Bundling.Config
