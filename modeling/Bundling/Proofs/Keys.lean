import Mathlib.Data.List.Induction
import Mathlib.Data.String.Basic
import Bundling.Json
import Bundling.Proofs.Lookup

/-!
# Objects by their keys

An object is what it has under each key: members in the order of their keys, each key once, are told from what is found
under the keys (`Json.eq_of_lookup`), and the canonical form of an object has under each key what the object has there,
in canonical form (`Json.get?_sorted`).
-/

namespace Bundling.Json

section

variable {α β : Type} {ms ns : List (String × α)} {key : String}

/-- Members in the order of their keys, each key once. -/
abbrev Ascending (ms : List (String × α)) : Prop := ms.Pairwise (·.1 < ·.1)

theorem lookup_insertSorted (key k : String) (value : α) (ms : List (String × α)) :
    (insertSorted key value ms).lookup k = if k = key then some value else ms.lookup k := by
  induction ms with
  | nil => rw [insertSorted,lookup_cons_eq]
  | cons m ms ih =>
    rw [insertSorted]
    split
    · rw [lookup_cons_eq]
    · split
      · rename_i same
        rw [lookup_cons_eq,lookup_cons_eq,same]
        split <;> rfl
      · rename_i other
        rw [lookup_cons_eq,ih,lookup_cons_eq]
        by_cases here : k = m.1
        · rw [if_pos here,if_pos here,if_neg (here ▸ Ne.symm other)]
        · rw [if_neg here,if_neg here]

theorem mem_insertSorted {value : α} {m : String × α} (member : m ∈ insertSorted key value ms) : m = (key,value) ∨ m ∈ ms := by
  induction ms with
  | nil => exact .inl (List.mem_singleton.mp member)
  | cons n ms ih =>
    rw [insertSorted] at member
    split at member
    · exact (List.mem_cons.mp member)
    · split at member
      · exact (List.mem_cons.mp member).imp_right (List.mem_cons_of_mem n)
      · rcases List.mem_cons.mp member with here | below
        · exact .inr (here ▸ List.mem_cons_self)
        · exact (ih below).imp_right (List.mem_cons_of_mem n)

theorem ascending_insertSorted (value : α) (ascending : Ascending ms) : Ascending (insertSorted key value ms) := by
  induction ms with
  | nil => exact List.pairwise_singleton _ _
  | cons m ms ih =>
    obtain ⟨first,rest⟩ := List.pairwise_cons.mp ascending
    rw [insertSorted]
    split
    · rename_i before
      refine List.pairwise_cons.mpr ⟨fun n member => ?_,ascending⟩
      rcases List.mem_cons.mp member with rfl | later
      · exact before
      · exact String.lt_trans before (first n later)
    · rename_i after
      split
      · rename_i same
        subst same
        exact List.pairwise_cons.mpr ⟨first,rest⟩
      · rename_i other
        refine List.pairwise_cons.mpr ⟨fun n member => ?_,ih rest⟩
        rcases mem_insertSorted member with rfl | later
        · exact lt_of_le_of_ne (not_lt.mp after) (Ne.symm other)
        · exact first n later

theorem sortMembers_concat (ms : List (String × α)) (m : String × α) :
    sortMembers (ms ++ [m]) = insertSorted m.1 m.2 (sortMembers ms) := List.foldl_concat ..

theorem ascending_sortMembers (ms : List (String × α)) : Ascending (sortMembers ms) := by
  induction ms using List.reverseRecOn with
  | nil => exact .nil
  | append_singleton ms m ih =>
    rw [sortMembers_concat]
    exact ascending_insertSorted m.2 ih

/-- Of several members with one key, the last one is kept. -/
theorem lookup_sortMembers (k : String) (ms : List (String × α)) :
    (sortMembers ms).lookup k = (ms.reverse.find? (·.1 == k)).map (·.2) := by
  induction ms using List.reverseRecOn with
  | nil => rfl
  | append_singleton ms m ih =>
    rw [sortMembers_concat,lookup_insertSorted,ih,List.reverse_append,List.reverse_singleton,List.singleton_append,List.find?_cons]
    by_cases here : k = m.1
    · rw [if_pos here,beq_iff_eq.mpr here.symm]
      rfl
    · rw [if_neg here,beq_eq_false_iff_ne.mpr (Ne.symm here)]

theorem Ascending.nodup (ascending : Ascending ms) : (ms.map Prod.fst).Nodup :=
  List.pairwise_map.mpr (ascending.imp ne_of_lt)

/-- Below the first key there is none. -/
theorem Ascending.lookup_eq_none {m : String × α} (ascending : Ascending (m :: ms)) (before : key ≤ m.1) :
    ms.lookup key = none := by
  refine List.lookup_eq_none_iff.mpr fun n member => bne_iff_ne.mpr (ne_of_lt ?_)
  exact lt_of_le_of_lt before (List.rel_of_pairwise_cons ascending member)

/-- Members in the order of their keys are told from what is found under the keys. -/
theorem eq_of_lookup (ascending : Ascending ms) (ascending' : Ascending ns) (same : ∀ k, ms.lookup k = ns.lookup k) : ms = ns := by
  induction ms generalizing ns with
  | nil =>
    cases ns with
    | nil => rfl
    | cons n ns =>
      have found := same n.1
      rw [lookup_cons_eq,if_pos rfl] at found
      cases found
  | cons m ms ih =>
    cases ns with
    | nil =>
      have found := same m.1
      rw [lookup_cons_eq,if_pos rfl] at found
      cases found
    | cons n ns =>
      -- Were one of the first keys smaller, it would be missing on the other side.
      have first : m.1 = n.1 := by
        rcases lt_trichotomy m.1 n.1 with less | equal | greater
        · have found := same m.1
          rw [lookup_cons_eq,if_pos rfl,lookup_cons_eq,if_neg (ne_of_lt less),ascending'.lookup_eq_none less.le] at found
          cases found
        · exact equal
        · have found := same n.1
          rw [lookup_cons_eq,if_neg (ne_of_lt greater),ascending.lookup_eq_none greater.le,lookup_cons_eq,if_pos rfl] at found
          cases found
      have value : m.2 = n.2 := by
        have found := same m.1
        rwa [lookup_cons_eq,if_pos rfl,lookup_cons_eq,if_pos first,Option.some.injEq] at found
      obtain rfl : m = n := Prod.ext first value
      refine congrArg _ (ih (List.Pairwise.of_cons ascending) (List.Pairwise.of_cons ascending') fun k => ?_)
      by_cases here : k = m.1
      · rw [here,ascending.lookup_eq_none le_rfl,ascending'.lookup_eq_none le_rfl]
      · have found := same k
        rwa [lookup_cons_eq,if_neg here,lookup_cons_eq,if_neg here] at found

/-- With each key once, it does not matter from which end one looks. -/
theorem lookup_eq_last (distinct : (ms.map Prod.fst).Nodup) (k : String) :
    (ms.reverse.find? (·.1 == k)).map (·.2) = ms.lookup k := by
  induction ms with
  | nil => rfl
  | cons m ms ih =>
    obtain ⟨new,rest⟩ := List.nodup_cons.mp distinct
    rw [List.reverse_cons,List.find?_append,lookup_cons_eq,Option.map_or,ih rest,List.find?_singleton]
    by_cases here : k = m.1
    · have absent : ms.lookup k = none := List.lookup_eq_none_iff.mpr fun n member =>
        bne_iff_ne.mpr fun same => new (here ▸ same ▸ List.mem_map_of_mem member)
      rw [absent,if_pos here,beq_iff_eq.mpr here.symm]
      rfl
    · rw [if_neg here,beq_eq_false_iff_ne.mpr (Ne.symm here)]
      simp

theorem sortMembers_of_ascending (ascending : Ascending ms) : sortMembers ms = ms :=
  eq_of_lookup (ascending_sortMembers ms) ascending fun k => by rw [lookup_sortMembers,lookup_eq_last ascending.nodup]

theorem lookup_map (f : α → β) (k : String) (ms : List (String × α)) :
    (ms.map fun m => (m.1,f m.2)).lookup k = (ms.lookup k).map f := by
  induction ms with
  | nil => rfl
  | cons m ms ih =>
    rw [List.map_cons,lookup_cons_eq,lookup_cons_eq,ih]
    split <;> rfl

theorem last_map (f : α → β) (k : String) (ms : List (String × α)) :
    ((ms.map fun m => (m.1,f m.2)).reverse.find? (·.1 == k)).map (·.2) = ((ms.reverse.find? (·.1 == k)).map (·.2)).map f := by
  rw [← List.map_reverse,List.find?_map,Option.map_map,Option.map_map]
  rfl

/-- What is done to the values leaves the order of the keys as it is. -/
theorem sortMembers_map (f : α → β) (ms : List (String × α)) :
    sortMembers (ms.map fun m => (m.1,f m.2)) = (sortMembers ms).map fun m => (m.1,f m.2) := by
  refine eq_of_lookup (ascending_sortMembers _) (List.pairwise_map.mpr (ascending_sortMembers ms)) fun k => ?_
  rw [lookup_sortMembers,last_map,lookup_map,lookup_sortMembers]

end

/-! ## Canonical forms -/

variable {ms ns : List (String × Json)} {j : Json} {k : String}

theorem get?_object (k : String) (ms : List (String × Json)) : (object ms).get? k = (sortMembers ms).lookup k :=
  (lookup_sortMembers k ms).symm

theorem sortedItems_eq (js : List Json) : sortedItems js = js.map sorted := by
  induction js with
  | nil => rfl
  | cons j js ih => rw [sortedItems,ih,List.map_cons]

theorem sortedMembers_eq (ms : List (String × Json)) : sortedMembers ms = ms.map fun m => (m.1,sorted m.2) := by
  induction ms with
  | nil => rfl
  | cons m ms ih => rw [sortedMembers,ih,List.map_cons]

theorem finiteItems_eq (js : List Json) : finiteItems js = js.map finite := by
  induction js with
  | nil => rfl
  | cons j js ih => rw [finiteItems,ih,List.map_cons]

theorem finiteMembers_eq (ms : List (String × Json)) : finiteMembers ms = ms.map fun m => (m.1,finite m.2) := by
  induction ms with
  | nil => rfl
  | cons m ms ih => rw [finiteMembers,ih,List.map_cons]

theorem sorted_object (ms : List (String × Json)) : (object ms).sorted = object ((sortMembers ms).map fun m => (m.1,sorted m.2)) := by
  rw [sorted,sortedMembers_eq,sortMembers_map]

/-- The members of a canonical form are in order already. -/
theorem sortMembers_sorted (ms : List (String × Json)) :
    sortMembers ((sortMembers ms).map fun m => (m.1,sorted m.2)) = (sortMembers ms).map fun m => (m.1,sorted m.2) :=
  sortMembers_of_ascending (List.pairwise_map.mpr (ascending_sortMembers ms))

theorem get?_sorted (k : String) (j : Json) : j.sorted.get? k = (j.get? k).map sorted := by
  cases j with
  | object ms => rw [sorted_object,get?_object,sortMembers_sorted,lookup_map,get?_object]
  | null | bool | number | string => rfl
  | array => rw [sorted]; rfl

/-- What is under a key is smaller than the object. -/
theorem sizeOf_get? {i : Json} (found : j.get? k = some i) : sizeOf i < sizeOf j := by
  cases j with
  | object ms =>
    obtain ⟨m,first,rfl⟩ := Option.map_eq_some_iff.mp found
    have member := List.sizeOf_lt_of_mem (List.mem_reverse.mp (List.mem_of_find?_eq_some first))
    have inside : sizeOf m.2 < sizeOf m := by
      obtain ⟨key,i⟩ := m
      simp only [Prod.mk.sizeOf_spec]
      omega
    simp only [object.sizeOf_spec]
    omega
  | null | bool | number | string | array => cases found

/-! ## Equality -/

mutual

/-- Whether two values are the same, members in the same order. -/
def equal : Json → Json → Bool
  | null,null => true
  | bool b,bool c => b == c
  | number m,number n => m == n
  | string s,string t => s == t
  | array is,array js => equalItems is js
  | object ms,object ns => equalMembers ms ns
  | _,_ => false

def equalItems : List Json → List Json → Bool
  | [],[] => true
  | i :: is,j :: js => equal i j && equalItems is js
  | _,_ => false

def equalMembers : List (String × Json) → List (String × Json) → Bool
  | [],[] => true
  | (k,i) :: ms,(l,j) :: ns => k == l && equal i j && equalMembers ms ns
  | _,_ => false

end

mutual

theorem equal_iff : (i j : Json) → equal i j = true ↔ i = j
  | null,j => by cases j <;> simp [equal]
  | bool b,j => by cases j <;> simp [equal]
  | number n,j => by cases j <;> simp [equal]
  | string s,j => by cases j <;> simp [equal]
  | array is,j => by cases j <;> simp [equal,equalItems_iff]
  | object ms,j => by cases j <;> simp [equal,equalMembers_iff]

theorem equalItems_iff : (is js : List Json) → equalItems is js = true ↔ is = js
  | [],js => by cases js <;> simp [equalItems]
  | i :: is,js => by cases js <;> simp [equalItems,equal_iff i,equalItems_iff is]

theorem equalMembers_iff : (ms ns : List (String × Json)) → equalMembers ms ns = true ↔ ms = ns
  | [],ns => by cases ns <;> simp [equalMembers]
  | (k,i) :: ms,ns => by cases ns <;> simp [equalMembers,Prod.ext_iff,equal_iff i,equalMembers_iff ms]

end

instance : DecidableEq Json := fun i j => decidable_of_iff _ (equal_iff i j)

end Bundling.Json
