import Bundling.Json
import Bundling.Text.Quoted

/-!
# Errors of decoding

What is said when a JSON value has another shape than a typed reader expects.
-/

namespace Bundling.Json

/-- A value as messages name it. -/
def described : Json → String
  | null => "null"
  | bool b => "boolean `" ++ (if b then "true" else "false") ++ "`"
  | number (.int i) => "integer `" ++ toString i ++ "`"
  | number (.float x) => "floating point `" ++ x.text ++ "`"
  | number (.beyond text) => "floating point `" ++ text ++ "`"
  | string s => "string " ++ Text.quoted s
  | array _ => "sequence"
  | object _ => "map"

/-- Why a value cannot be read as a typed one. -/
inductive DecodeError where
  /-- A value of another kind than the expected one. -/
  | invalidType (found : Json) (expected : String)
  /-- A value of the right kind that is not admitted. -/
  | invalidValue (found : Json) (expected : String)
  | unknownVariant (name : String) (variants : List String)
  /-- An array with more items than there are fields. -/
  | excessLength (length : Nat)
  | other (message : String)

namespace DecodeError

def message : DecodeError → String
  | invalidType found expected => "invalid type: " ++ found.described ++ ", expected " ++ expected
  | invalidValue found expected => "invalid value: " ++ found.described ++ ", expected " ++ expected
  | unknownVariant name variants =>
    "unknown variant `" ++ name ++ "`, expected " ++
      " or ".intercalate (variants.map fun v => "`" ++ v ++ "`")
  | excessLength n =>
    "invalid length " ++ toString n ++ ", expected fewer elements in array"
  | other m => m

end DecodeError

end Bundling.Json
