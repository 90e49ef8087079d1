import Bundling.Resolve.Activity
import Bundling.Transform.Pipeline

/-!
# Compile errors
-/

namespace Bundling

/-- Why a module is not compiled. -/
inductive CompileError where
  /-- Its file could not be read. -/
  | read (path : Path) (reason : String)
  | resolve (e : ResolveError)
  | transform (path : Path) (transformer text : String)
  /-- It is imported but not registered. -/
  | notRegistered (id : ModuleId)
  | sourceMap (path : Path) (reason : String)
  /-- A path is no module id. -/
  | path (e : ModuleIdError)
  deriving DecidableEq

namespace CompileError

def message : CompileError → String
  | read p reason => "Failed to read '" ++ p.text ++ "': " ++ reason
  | resolve e => e.message
  | transform p name text => "Transformer '" ++ name ++ "' failed on '" ++ p.text ++ "': " ++ text
  | notRegistered id => "Module not found in registry: " ++ id.text
  | sourceMap p reason => "Invalid source map for '" ++ p.text ++ "': " ++ reason
  | path e => "Invalid module path: " ++ e.message

/-- A fault of the pipeline on a file. -/
def ofFault (p : Path) : TransformFault → CompileError
  | .failed name text => transform p name text
  | .invalidMap => sourceMap p "the text is not a source map"

end CompileError

end Bundling
