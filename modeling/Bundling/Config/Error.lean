import Bundling.Json.Decode
import Bundling.Path

/-!
# Configuration errors
-/

namespace Bundling

/-- Why there is no configuration, or why it cannot be used. -/
inductive ConfigError where
  | entryNotFound (path : Path)
  | rootNotFound (path : Path)
  /-- There is no configuration file. -/
  | notFound
  | invalidValue (field : String) (hint : Option String)
  | noEntries
  | schema (text : String) (hint : Option String)
  | io (text : String)
  deriving DecidableEq

namespace ConfigError

def message : ConfigError → String
  | entryNotFound p => "entry path not found: " ++ p.text
  | rootNotFound p => "root directory not found: " ++ p.text
  | notFound => "config not found"
  | invalidValue field hint =>
    "invalid config value for '" ++ field ++ "'" ++
      (match hint with
        | some h => ": " ++ h
        | none => "")
  | noEntries => "no entries specified"
  | schema text _ => "schema validation failed: " ++ text
  | io text => "I/O error: " ++ text

/-- What could be done about it. -/
def hint : ConfigError → Option String
  | invalidValue _ hint => hint
  | schema _ hint => hint
  | noEntries => some "Add at least one path to 'entries'"
  | notFound => some "Create a bale.toml or add a 'bale' field to package.json"
  | _ => none

/-- A value that cannot be read as a configuration. -/
def ofDecodeError (e : Json.DecodeError) : ConfigError := invalidValue "config" (some e.message)

end ConfigError

end Bundling
