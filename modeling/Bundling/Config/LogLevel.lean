import Bundling.Config.Basic
import Bundling.Text.Case

/-!
# Log levels
-/

namespace Bundling

inductive LogLevel where
  | silent
  | error
  | warn
  | info
  | debug
  | trace
  deriving DecidableEq

namespace LogLevel

/-- The level of a name, whatever the case of its letters; or what is wrong with it. -/
def ofName (name : String) : Except String LogLevel :=
  match Text.lower name with
  | "silent" | "off" => .ok silent
  | "error" => .ok error
  | "warn" | "warning" => .ok warn
  | "info" => .ok info
  | "debug" => .ok debug
  | "trace" => .ok trace
  | other => .error ("Invalid log level: " ++ other)

def text : LogLevel → String
  | silent => "off"
  | error => "error"
  | warn => "warn"
  | info => "info"
  | debug => "debug"
  | trace => "trace"

/-- The level that settings name; `info` where they name none. -/
def ofSettings (s : Settings) : LogLevel :=
  match s.logLevel.map ofName with
  | some (.ok level) => level
  | _ => info

end LogLevel

end Bundling
