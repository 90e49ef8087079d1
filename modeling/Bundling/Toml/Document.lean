import Bundling.Module
import Bundling.Json

/-!
# TOML documents

A document is a tree of tables that grows while it is read. How a table came to be decides how it may
still be added to: a table that only lies on the way to another one can be given a header of its own
later, one that was made by a dotted key cannot, and values are closed.
-/

namespace Bundling.Toml

/-- How a table came to be. -/
inductive Origin where
  /-- On the way to the header of another table. -/
  | implied
  /-- On the way of a dotted key. -/
  | dotted
  | header
  deriving DecidableEq

/-- What stands under a key. -/
inductive Item where
  | value (j : Json)
  | table (origin : Origin) (members : List (String × Item))
  /-- Tables that are items of an array, each under a header. -/
  | tables (items : List (List (String × Item)))

abbrev Table := List (String × Item)

namespace Table

/-- Changes the table that some keys lead to; missing tables on the way are made. A dotted key leads
into no table that has a header. -/
def descend (viaDots : Bool) : List String → (Table → Option Table) → Table → Option Table
  | [], f, t => f t
  | key :: keys, f, t =>
    match t.lookup key with
    | none => do
      let made ← descend viaDots keys f []
      some (t ++ [(key, .table (if viaDots then .dotted else .implied) made)])
    | some (.table origin members) =>
      if viaDots ∧ origin = .header then none
      else do
        let changed ← descend viaDots keys f members
        some (assign key (.table origin changed) t)
    | some (.tables items) =>
      match items.getLast? with
      | some members =>
        if viaDots then none
        else do
          let changed ← descend viaDots keys f members
          some (assign key (.tables (items.dropLast ++ [changed])) t)
      | none => none
    | some (.value _) => none

/-- Puts a value under a key that is free. -/
def put (key : String) (j : Json) (t : Table) : Option Table :=
  match t.lookup key with
  | none => some (t ++ [(key, .value j)])
  | some _ => none

/-- Opens a table under a header. -/
def openTable (key : String) (t : Table) : Option Table :=
  match t.lookup key with
  | none => some (t ++ [(key, .table .header [])])
  | some (.table .implied members) => some (assign key (.table .header members) t)
  | some _ => none

/-- Opens a table that is the next item of an array. -/
def openItem (key : String) (t : Table) : Option Table :=
  match t.lookup key with
  | none => some (t ++ [(key, .tables [[]])])
  | some (.tables items) => some (assign key (.tables (items ++ [[]])) t)
  | some _ => none

end Table

mutual

def Item.toJson : Item → Json
  | .value j => j
  | .table _ members => .object (membersToJson members)
  | .tables items => .array (itemsToJson items)

/-- The members of a table as those of an object. -/
def membersToJson : List (String × Item) → List (String × Json)
  | [] => []
  | (key, item) :: rest => (key, item.toJson) :: membersToJson rest

def itemsToJson : List (List (String × Item)) → List Json
  | [] => []
  | members :: rest => .object (membersToJson members) :: itemsToJson rest

end

end Bundling.Toml
