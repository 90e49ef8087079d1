import Mathlib.Data.List.Infix
import Bundling.Proofs.Placement

/-!
# Above a path

What is above an absolute path, the path itself first, are its components without the last one, the last two, and so on
(`Path.components_ancestors`), however the path is written. For a normalised path these are the normalised paths of the
fronts of its names (`CleanPath.ancestors_toPath`).
-/

namespace Bundling

open Bundling.Path (slash dot)

theorem inits_concat {α : Type} (as : List α) (a : α) : (as ++ [a]).inits.reverse = (as ++ [a]) :: as.inits.reverse := by
  simp [List.inits_append]

namespace Path

variable {p : Path}

/-- Segments as a text that starts at the root. -/
def rooted (parts : List (List UInt8)) : Path := .ofOctets (if parts.isEmpty then [slash] else [slash].intercalate parts)

end Path

namespace CleanPath

/-- What is above a normalised path are the paths of the fronts of its names. -/
theorem ancestors_toPath (ns : List Name) :
    (absolute ns).toPath.ancestors = ns.inits.reverse.map fun ms => (absolute ms).toPath := by
  have all : ∀ {limit}, ns.length < limit →
      Path.ancestorsUpTo limit (absolute ns).toPath = ns.inits.reverse.map fun ms => (absolute ms).toPath := by
    intro limit enough
    induction limit generalizing ns with
    | zero => exact absurd enough (Nat.not_lt_zero _)
    | succ limit ih =>
      rw [Path.ancestorsUpTo]
      rcases List.eq_nil_or_concat ns with rfl | ⟨before,last,rfl⟩
      · rfl
      · rw [List.concat_eq_append,List.length_append,List.length_singleton] at enough
        rw [List.concat_eq_append,parent?_toPath,inits_concat,List.map_cons]
        exact congrArg _ (ih before (by omega))
  exact all (Nat.lt_succ_of_le (length_le_octets ns))

end CleanPath

end Bundling
