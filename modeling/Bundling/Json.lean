import Bundling.Json.Double

/-!
# JSON values

An object keeps its members as they were written; of members with one key the last one counts.
`Json.sorted` is the canonical form: every object has its keys once, in the order of their bytes.
-/

namespace Bundling

/-- A JSON number: whole if written without fraction and exponent and within 64 bits. -/
inductive Json.Number where
  | int (i : Int)
  | float (x : Json.Double)
  /-- Infinite, or no number at all, by its text. No JSON text has such a value, but other formats do. -/
  | beyond (text : String)
  deriving DecidableEq, Repr

inductive Json where
  | null
  | bool (b : Bool)
  | number (n : Json.Number)
  | string (s : String)
  | array (items : List Json)
  | object (members : List (String × Json))
  deriving Repr, Inhabited

namespace Json

def ofNat (n : Nat) : Json := .number (.int n)

instance : Coe String Json := ⟨.string⟩
instance : Coe Bool Json := ⟨.bool⟩
instance : Coe Nat Json := ⟨ofNat⟩

/-- The value under `key`: the last member with that key. -/
def get? (key : String) : Json → Option Json
  | object ms => (ms.reverse.find? (·.1 == key)).map (·.2)
  | _ => none

def string? : Json → Option String
  | string s => some s
  | _ => none

def bool? : Json → Option Bool
  | bool b => some b
  | _ => none

def array? : Json → Option (List Json)
  | array xs => some xs
  | _ => none

def object? : Json → Option (List (String × Json))
  | object ms => some ms
  | _ => none

def int? : Json → Option Int
  | number (.int i) => some i
  | _ => none

/-- Inserts into members sorted by key; an equal key is replaced. -/
def insertSorted {α : Type} (key : String) (value : α) : List (String × α) → List (String × α)
  | [] => [(key, value)]
  | (k, v) :: rest =>
    if key < k then (key, value) :: (k, v) :: rest
    else if key = k then (key, value) :: rest
    else (k, v) :: insertSorted key value rest

/-- Members with each key once, in the order of the keys' bytes; the last value of a key stays. -/
def sortMembers {α : Type} (ms : List (String × α)) : List (String × α) :=
  ms.foldl (fun acc (k, v) => insertSorted k v acc) []

mutual

/-- The canonical form of a value. -/
def sorted : Json → Json
  | array xs => array (sortedItems xs)
  | object ms => object (sortMembers (sortedMembers ms))
  | j => j

def sortedItems : List Json → List Json
  | [] => []
  | j :: js => sorted j :: sortedItems js

def sortedMembers : List (String × Json) → List (String × Json)
  | [] => []
  | (k, j) :: ms => (k, sorted j) :: sortedMembers ms

end

mutual

/-- What is kept of a value in JSON: where a number has no text there, null. -/
def finite : Json → Json
  | number (.beyond _) => null
  | array xs => array (finiteItems xs)
  | object ms => object (finiteMembers ms)
  | j => j

def finiteItems : List Json → List Json
  | [] => []
  | j :: js => finite j :: finiteItems js

def finiteMembers : List (String × Json) → List (String × Json)
  | [] => []
  | (k, j) :: ms => (k, finite j) :: finiteMembers ms

end

end Json

end Bundling
