import Bundling.Syntax.Program
import Bundling.Text.Blank
import Bundling.Transform.Basic

/-!
# Finding imports

The transformer that reads source texts for the specifiers they request and leaves their contents
alone. A JSON file becomes a module that exports its value.
-/

namespace Bundling.Scan

/-- What reading a file for its requests gives; nothing for files of other kinds. -/
def output (templates : Bool) (file : SourceFile) : Except String (Option TransformOutput) :=
  if file.path.extension? = some "json" then
    let value := String.ofList (Text.trimEnd file.contents.toList)
    .ok (some { contents := "module.exports = " ++ value ++ ";" })
  else match Syntax.Dialect.ofPath? file.path with
    | none => .ok none
    | some dialect =>
      match Syntax.requests? dialect templates file.contents.toList with
      | some imports => .ok (some { contents := file.contents, imports })
      | none => .error "the source text is not well formed"

/-- The name the transformer is registered under. -/
def name : String := "scan"

/-- The transformer; with `templates`, `require` may also be given a template without
substitutions. -/
def transformer {σ : Type} (templates : Bool) : Transformer σ where
  name := name
  transform file := pure (output templates file)

end Bundling.Scan
