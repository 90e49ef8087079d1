import Bundling.ModuleId
import Bundling.SourceMap.Writer

/-!
# Bundles
-/

namespace Bundling

/-- The output of one chunk. -/
structure Bundle where
  chunk : Nat
  outputName : String
  contents : String
  /-- The map of the contents, wherever it goes. -/
  sourceMap : Option SourceMap := none
  /-- The modules in the contents, in order. -/
  files : List ModuleId := []
  deriving DecidableEq

namespace Bundle

/-- The name of the file for the source map. -/
def mapName (b : Bundle) : String := b.outputName ++ ".map"

end Bundle

end Bundling
