import Mathlib.Data.List.Basic
import Bundling.ModuleId

/-!
# Paths of modules

The segments of a path that was put together from names are these names, so modules have different
paths. Where names are numbers, these are told from the text.
-/

namespace Bundling

open Bundling.Path (slash dot)

/-! ## Numbers -/

theorem eq_of_toString {m n : Nat} (same : toString m = toString n) : m = n := by
  have read : ∀ n : Nat, Nat.ofDigitChars 10 (toString n).toList 0 = n := fun n => by
    rw [Nat.toString_eq_repr,Nat.toList_repr,Nat.ofDigitChars_ten_toDigits]
  rw [← read m,same,read n]

theorem Component.name_injective : Function.Injective Component.name := fun _ _ same => Component.name.inj same

/-- What follows names among names are names. -/
theorem Component.exists_append_of_names {ns ms : List Name} {cs : List Component} (split : ns.map name ++ cs = ms.map name) :
    ∃ rest, ms = ns ++ rest ∧ cs = rest.map name := by
  obtain ⟨front,rest,rfl,same,rfl⟩ := List.map_eq_append_iff.mp split.symm
  exact ⟨rest,by rw [name_injective.list_map same],rfl⟩

theorem Component.ofSegment?_name (n : Name) : ofSegment? n.octets = some (name n) := by
  rw [ofSegment?,if_neg n.isName.2.2.1,dif_pos n.isName]

/-! ## Segments -/

theorem filterMap_dropWhile {α β : Type} {f : α → Option β} {p : α → Bool} (void : ∀ a, p a = true → f a = none) (as : List α) :
    (as.dropWhile p).filterMap f = as.filterMap f := by
  induction as with
  | nil => rfl
  | cons a as ih =>
    by_cases dropped : p a = true
    · rw [List.dropWhile_cons_of_pos dropped,ih,List.filterMap_cons_none (void a dropped)]
    · rw [List.dropWhile_cons_of_neg dropped]

namespace Path

theorem segments_of_not_mem {s : List UInt8} (plain : slash ∉ s) : segments s = [s] := by
  induction s with
  | nil => rfl
  | cons c cs ih =>
    have parts : slash ≠ c ∧ slash ∉ cs := by simpa using plain
    rw [segments,if_neg (Ne.symm parts.1),ih parts.2]

theorem segments_append_slash (s t : List UInt8) : segments (s ++ slash :: t) = segments s ++ segments t := by
  induction s with
  | nil => rfl
  | cons c s ih =>
    rw [List.cons_append,segments,segments,ih]
    split
    · rfl
    · cases parts : segments s with
      | nil => exact absurd parts (segments_ne_nil s)
      | cons p ps => rfl

theorem segments_append {s rest : List UInt8} (plain : slash ∉ s) : segments (s ++ slash :: rest) = s :: segments rest := by
  rw [segments_append_slash,segments_of_not_mem plain]
  rfl

/-- The octets of segments are those of the path but the separators. -/
theorem mem_segments_iff {c : UInt8} {cs : List UInt8} : (∃ s ∈ segments cs, c ∈ s) ↔ c ∈ cs ∧ c ≠ slash := by
  induction cs with
  | nil => simp [segments]
  | cons d cs ih =>
    rw [segments]
    split
    · rename_i at_slash
      subst at_slash
      simp only [List.mem_cons,exists_eq_or_imp,List.not_mem_nil,false_or,ih]
      tauto
    · rename_i other
      cases parts : segments cs with
      | nil => exact absurd parts (segments_ne_nil cs)
      | cons first rest =>
        rw [parts] at ih
        simp only [List.mem_cons,exists_eq_or_imp] at ih ⊢
        rw [or_assoc,ih]
        constructor
        · rintro (rfl | ⟨within,plain⟩)
          · exact ⟨.inl rfl,other⟩
          · exact ⟨.inr within,plain⟩
        · tauto

/-- What is put together from segments has these segments. -/
theorem segments_intercalate {parts : List (List UInt8)} (some : parts ≠ []) (plain : ∀ s ∈ parts, slash ∉ s) :
    segments ([slash].intercalate parts) = parts := by
  induction parts with
  | nil => exact absurd rfl some
  | cons s parts ih =>
    cases parts with
    | nil => rw [List.intercalate_singleton,segments_of_not_mem (plain s List.mem_cons_self)]
    | cons s' rest =>
      rw [List.intercalate_cons_cons,List.append_assoc,List.singleton_append,
        segments_append (plain s List.mem_cons_self),
        ih (by simp) fun t member => plain t (List.mem_cons_of_mem _ member)]

/-- Segments without a meaning stand for no components. -/
theorem filterMap_dropWhile_isVoid (parts : List (List UInt8)) :
    (parts.dropWhile isVoid).filterMap Component.ofSegment? = parts.filterMap Component.ofSegment? := by
  refine filterMap_dropWhile (fun s void => ?_) parts
  rcases (by simpa [isVoid] using void : s = [] ∨ s = [dot]) with rfl | rfl <;> decide

end Path

theorem Name.octets_injective : Function.Injective Name.octets := by
  rintro ⟨n,_⟩ ⟨m,_⟩ same
  obtain rfl : n = m := same
  rfl

namespace CleanPath

theorem octets_toPath (ns : List Name) : (absolute ns).toPath.octets = slash :: [slash].intercalate (ns.map Name.octets) := by
  have octets : (absolute ns).toPath.octets = slash :: [slash].intercalate ((ns.map Component.name).map Component.octets) := rfl
  rw [octets,List.map_map]
  rfl

theorem segments_toPath {ns : List Name} (some : ns ≠ []) :
    Path.segments (absolute ns).toPath.octets = [] :: ns.map Name.octets := by
  rw [octets_toPath,Path.segments,if_pos rfl,Path.segments_intercalate (by simpa using some)]
  intro s member
  obtain ⟨n,-,rfl⟩ := List.mem_map.mp member
  exact n.isName.2.2.2

theorem segments_root : Path.segments (absolute []).toPath.octets = [[],[]] := by decide

theorem toPath_injective {as bs : List Name} (same : (absolute as).toPath = (absolute bs).toPath) : as = bs := by
  have segments := congrArg (fun p => Path.segments p.octets) same
  have filled : ∀ n : Name, n.octets ≠ [] := fun n => n.isName.1
  cases as with
  | nil =>
    cases bs with
    | nil => rfl
    | cons m bs =>
      simp only [segments_root,segments_toPath (List.cons_ne_nil m bs)] at segments
      simp [filled m] at segments
  | cons n as =>
    cases bs with
    | nil =>
      simp only [segments_root,segments_toPath (List.cons_ne_nil n as)] at segments
      simp [filled n] at segments
    | cons m bs =>
      simp only [segments_toPath (List.cons_ne_nil _ _)] at segments
      exact Name.octets_injective.list_map (List.cons.inj segments).2

end CleanPath

theorem ModuleId.path_injective {a b : ModuleId} (same : a.path = b.path) : a = b :=
  congrArg ModuleId.mk (CleanPath.toPath_injective same)

end Bundling
