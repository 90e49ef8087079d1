import Bundling.Config.Error
import Bundling.Graph.Error

/-!
# Errors of bundling
-/

namespace Bundling

/-- Why there is no bundle, or why it is not written. -/
inductive BundleError where
  | compile (e : CompileError)
  /-- The entry of a chunk stands for no module. -/
  | unresolved (request : String)
  | generate (text : String)
  | watch (text : String)
  | invalidConfig (text : String)
  | config (e : ConfigError)
  | outputPath (text : String)
  | write (text : String)
  | outputExists (text : String)
  | io (text : String)
  deriving DecidableEq

namespace BundleError

def message : BundleError → String
  | compile e => e.message
  | unresolved request => "Entry '" ++ request ++ "' was not resolved"
  | generate t => "Generation failed: " ++ t
  | watch t => "Watch error: " ++ t
  | invalidConfig t => "Invalid configuration: " ++ t
  | config e => e.message
  | outputPath t => "Invalid output path: " ++ t
  | write t => "Write failure: " ++ t
  | outputExists t => "Output exists: " ++ t
  | io t => "I/O error: " ++ t

/-- The kind of an error, for tools. -/
def code : BundleError → String
  | compile _ => "COMPILE_ERROR"
  | unresolved _ => "CONSISTENCY_ERROR"
  | generate _ => "GENERATE_ERROR"
  | watch _ => "WATCH_ERROR"
  | invalidConfig _ => "INVALID_CONFIG"
  | config _ => "CONFIG_ERROR"
  | outputPath _ => "INVALID_OUTPUT_PATH"
  | write _ => "WRITE_FAILURE"
  | outputExists _ => "OUTPUT_EXISTS"
  | io _ => "IO_ERROR"

/-- What could be done about it. -/
def help : BundleError → Option String
  | compile (.resolve (.notFound request _)) =>
    some ("Check that '" ++ request ++
      "' exists, or enable resolve.install to install missing packages.")
  | compile (.transform _ name _) =>
    some ("The '" ++ name ++
      "' transformer rejected this file. Fix the syntax error and save again.")
  | unresolved request =>
    some ("'" ++ request ++ "' is listed as an entry but no module was resolved for it. " ++
      "Run compile() before generating.")
  | invalidConfig t => some ("Check your configuration file for syntax errors.\nError: " ++ t)
  | config e => e.hint
  | outputPath t =>
    some ("The output path '" ++ t ++ "' is invalid. " ++
      "Ensure it's within the output directory and doesn't contain '..' components.")
  | write t => some ("Failed to write file. Check disk space and permissions.\nError: " ++ t)
  | outputExists t =>
    some ("Output file already exists: " ++ t ++
      "\nPass overwrite = true to replace existing files.")
  | _ => none

end BundleError

end Bundling
