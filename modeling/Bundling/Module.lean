import Bundling.ModuleId
import Bundling.SourceMap.Basic

/-!
# Modules

A compiled module as the registry holds it. A module never imports itself and imports no other module
twice; a request maps to one module.
-/

namespace Bundling

/-- A compiled module. -/
structure Module where
  id : ModuleId
  /-- The text of the file. -/
  sources : String
  /-- The compiled text. -/
  contents : String
  /-- From `contents` back to `sources`. -/
  sourceMap : Option SourceMap := none
  /-- What the module imports, in the order of discovery. -/
  imports : List ModuleId := []
  /-- The requests as written, and what each stands for. -/
  requests : List (String × ModuleId) := []
  deriving DecidableEq

/-- The first occurrences of the items of a list. -/
def firstOccurrences {α : Type} [BEq α] : List α → List α
  | [] => []
  | a :: as => a :: (firstOccurrences as).filter (· != a)

theorem mem_firstOccurrences {α : Type} [BEq α] [LawfulBEq α] {a : α} {as : List α} :
    a ∈ firstOccurrences as ↔ a ∈ as := by
  induction as with
  | nil => rfl
  | cons b as ih =>
    rw [firstOccurrences,List.mem_cons,List.mem_cons,List.mem_filter,ih,bne_iff_ne]
    by_cases same : a = b <;> simp [same]

theorem nodup_firstOccurrences {α : Type} [BEq α] [LawfulBEq α] (as : List α) : (firstOccurrences as).Nodup := by
  induction as with
  | nil => exact List.nodup_nil
  | cons a as ih =>
    rw [firstOccurrences,List.nodup_cons]
    exact ⟨by simp,ih.filter _⟩

/-- Sets the value of a key, which keeps its place if it has one. -/
def assign {α β : Type} [BEq α] (key : α) (value : β) : List (α × β) → List (α × β)
  | [] => [(key, value)]
  | (k, v) :: rest => if k == key then (k, value) :: rest else (k, v) :: assign key value rest

/-- Pairs with each key once: at its first place, with its last value. -/
def assignAll {α β : Type} [BEq α] (pairs : List (α × β)) : List (α × β) :=
  pairs.foldl (fun acc (k, v) => assign k v acc) []

section

variable {α β : Type} [BEq α] {p : α × β}

theorem value_of_assign {key : α} {value : β} {pairs : List (α × β)} (member : p ∈ assign key value pairs) :
    p.2 = value ∨ p.2 ∈ pairs.map Prod.snd := by
  induction pairs with
  | nil => exact .inl (List.mem_singleton.mp member ▸ rfl)
  | cons q pairs ih =>
    rw [assign] at member
    rw [List.map_cons,List.mem_cons]
    split at member
    · rcases List.mem_cons.mp member with rfl | later
      · exact .inl rfl
      · exact .inr (.inr (List.mem_map_of_mem later))
    · rcases List.mem_cons.mp member with rfl | later
      · exact .inr (.inl rfl)
      · exact (ih later).imp_right .inr

/-- The values in a table are some of those that were assigned. -/
theorem value_of_assignAll {pairs : List (α × β)} (member : p ∈ assignAll pairs) : p.2 ∈ pairs.map Prod.snd := by
  have either : ∀ acc : List (α × β), p ∈ pairs.foldl (fun acc q => assign q.1 q.2 acc) acc →
      p.2 ∈ pairs.map Prod.snd ∨ p.2 ∈ acc.map Prod.snd := by
    clear member
    induction pairs with
    | nil => exact fun acc member => .inr (List.mem_map_of_mem member)
    | cons q pairs ih =>
      intro acc member
      rw [List.map_cons,List.mem_cons]
      rcases ih _ member with later | now
      · exact .inl (.inr later)
      · obtain ⟨q',inside,same⟩ := List.mem_map.mp now
        rcases value_of_assign inside with new | old
        · exact .inl (.inl (same ▸ new))
        · exact .inr (same ▸ old)
  exact (either [] member).resolve_right List.not_mem_nil

end

namespace Module

/-- A module that is its own text and imports nothing. -/
def ofSources (id : ModuleId) (sources : String) : Module := { id, sources, contents := sources }

def withImports (m : Module) (imports : List ModuleId) : Module :=
  { m with imports := (firstOccurrences imports).filter (· != m.id) }

def withRequests (m : Module) (requests : List (String × ModuleId)) : Module :=
  { m with requests := assignAll requests }

/-- Whether the two differ in what they import. -/
def importsChanged (m other : Module) : Bool := m.imports != other.imports

end Module

end Bundling
