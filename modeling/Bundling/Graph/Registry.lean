import Bundling.Module

/-!
# The registry

The compiled modules of a graph in the order of their registration. A module that is compiled anew
keeps its place.
-/

namespace Bundling

/-- One version of a module. Two versions that were compiled apart differ in their stamp, even where
all else is the same. -/
structure Version where
  stamp : Nat
  body : Module
  deriving DecidableEq

namespace Version

def id (v : Version) : ModuleId := v.body.id

/-- The ids in a list of versions. -/
def ids (vs : List Version) : List ModuleId := vs.map id

/-- Puts a version where the one of the same id is, or at the end. -/
def put (v : Version) : List Version → List Version
  | [] => [v]
  | w :: ws => if w.id = v.id then v :: ws else w :: put v ws

theorem ids_put (v : Version) (vs : List Version) :
    ids (put v vs) = if v.id ∈ ids vs then ids vs else ids vs ++ [v.id] := by
  induction vs with
  | nil => simp [put, ids]
  | cons w ws ih =>
    by_cases h : w.id = v.id
    · simp [put, ids, h]
    · have hne : v.id ≠ w.id := fun e => h e.symm
      simp only [ids] at ih
      by_cases hm : v.id ∈ ws.map id <;> simp_all [put, ids]

theorem nodup_ids_put (v : Version) (vs : List Version) (h : (ids vs).Nodup) :
    (ids (put v vs)).Nodup := by
  rw [ids_put]
  split
  · exact h
  · rename_i hv
    exact List.nodup_append.2 ⟨h, by simp, fun a ha b hb e => hv (by simp_all)⟩

end Version

/-- Modules by id, in the order of registration. -/
structure Registry where
  versions : List Version := []
  nodup : (Version.ids versions).Nodup := by simp [Version.ids]
  deriving DecidableEq

namespace Registry

/-- No modules. -/
def empty : Registry := {}

def ids (r : Registry) : List ModuleId := Version.ids r.versions

/-- The current version of a module. -/
def get? (r : Registry) (id : ModuleId) : Option Version := r.versions.find? fun v => v.id = id

def contains (r : Registry) (id : ModuleId) : Bool := (r.get? id).isSome

def size (r : Registry) : Nat := r.versions.length

/-- Makes a version the current one of its module. -/
def insert (r : Registry) (v : Version) : Registry where
  versions := Version.put v r.versions
  nodup := Version.nodup_ids_put v r.versions r.nodup

/-- Keeps the versions that a test holds for. -/
def filter (r : Registry) (p : Version → Bool) : Registry where
  versions := r.versions.filter p
  nodup := r.nodup.sublist (List.filter_sublist.map _)

/-- Removes a module; the others keep their order. -/
def erase (r : Registry) (id : ModuleId) : Registry := r.filter fun v => v.id ≠ id

/-- Whether a version is the current one of its module. -/
def isCurrent (r : Registry) (v : Version) : Bool :=
  match r.get? v.id with
  | some w => w.stamp = v.stamp
  | none => false

end Registry

end Bundling
