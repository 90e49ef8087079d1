/-!
# Searching texts
-/

namespace Bundling.Text

/-- Whether one text occurs in another. -/
def occursIn (part : List Char) : List Char → Bool
  | [] => part.isEmpty
  | c :: cs => part.isPrefixOf (c :: cs) || occursIn part cs

/-- Replaces every occurrence of `part`, from the front and without overlaps; `skip` characters belong
to an occurrence. The empty text occurs between any two characters. -/
def replaceFrom (part replacement : List Char) : (skip : Nat) → List Char → List Char
  | _, [] => if part.isEmpty then replacement else []
  | skip + 1, _ :: cs => replaceFrom part replacement skip cs
  | 0, c :: cs =>
    if part.isEmpty then replacement ++ c :: replaceFrom part replacement 0 cs
    else if part.isPrefixOf (c :: cs) then
      replacement ++ replaceFrom part replacement (part.length - 1) cs
    else c :: replaceFrom part replacement 0 cs

/-- Replaces every occurrence of one text by another. -/
def replaceAll (part replacement text : String) : String :=
  String.ofList (replaceFrom part.toList replacement.toList 0 text.toList)

end Bundling.Text
