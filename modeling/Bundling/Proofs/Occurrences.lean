import Bundling.Module

/-!
# First occurrences

The first occurrences in two lists, one behind the other, are those of the first list and then what is new in the second
(`firstOccurrences_append`). So lists may be joined item by item, or each on its own before that.
-/

namespace Bundling

variable {α : Type} [BEq α]

theorem firstOccurrences_append (as bs : List α) :
    firstOccurrences (as ++ bs) = firstOccurrences as ++ (firstOccurrences bs).filter (!as.contains ·) := by
  induction as with
  | nil => exact (List.filter_eq_self.mpr fun _ _ => rfl).symm
  | cons a as ih =>
    have new : (fun b => b != a && !as.contains b) = fun b => !(a :: as).contains b := by
      funext b
      rw [List.contains_cons,Bool.not_or,bne]
    rw [List.cons_append,firstOccurrences,ih,List.filter_append,List.filter_filter,new,firstOccurrences,List.cons_append]

theorem firstOccurrences_prefix (as bs : List α) : firstOccurrences as <+: firstOccurrences (as ++ bs) :=
  firstOccurrences_append as bs ▸ List.prefix_append ..

variable [LawfulBEq α] {as : List α} {a : α}

theorem firstOccurrences_concat_of_not_mem (new : a ∉ as) : firstOccurrences (as ++ [a]) = firstOccurrences as ++ [a] := by
  rw [firstOccurrences_append]
  exact congrArg _ (List.filter_cons_of_pos (by simpa using new))

theorem firstOccurrences_concat_of_mem (known : a ∈ as) : firstOccurrences (as ++ [a]) = firstOccurrences as := by
  rw [firstOccurrences_append]
  exact (congrArg _ (List.filter_cons_of_neg (by simpa using known))).trans (List.append_nil _)

theorem firstOccurrences_eq_self (nodup : as.Nodup) : firstOccurrences as = as := by
  induction as with
  | nil => rfl
  | cons a as ih =>
    obtain ⟨new,rest⟩ := List.nodup_cons.mp nodup
    rw [firstOccurrences,ih rest,List.filter_eq_self.mpr]
    exact fun b member => bne_iff_ne.mpr (ne_of_mem_of_not_mem member new)

theorem firstOccurrences_firstOccurrences (as : List α) : firstOccurrences (firstOccurrences as) = firstOccurrences as :=
  firstOccurrences_eq_self (nodup_firstOccurrences as)

theorem firstOccurrences_front_append (as bs : List α) :
    firstOccurrences (firstOccurrences as ++ bs) = firstOccurrences (as ++ bs) := by
  have known : (firstOccurrences as).contains = as.contains := by
    funext a
    rw [Bool.eq_iff_iff,List.contains_iff_mem,List.contains_iff_mem,mem_firstOccurrences]
  rw [firstOccurrences_append,firstOccurrences_append,firstOccurrences_firstOccurrences,known]

theorem firstOccurrences_each_append (as bs : List α) :
    firstOccurrences (firstOccurrences as ++ firstOccurrences bs) = firstOccurrences (as ++ bs) := by
  rw [firstOccurrences_front_append,firstOccurrences_append,firstOccurrences_append,firstOccurrences_firstOccurrences]

end Bundling
