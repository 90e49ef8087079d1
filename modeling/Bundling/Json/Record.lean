import Bundling.Json.Decode

/-!
# Reading records

A record is read from an object, by the names of its fields, or from an array, by their places. Fields
that are not given keep the value of a default record, and members that are no fields are skipped. The
members of an object are read in the order of their keys, so of several faults the one under the first
key is reported.

A reading is strict or lenient. The lenient one, which is for values put together from several sources,
passes over items of an array that are left over, takes the first of several members where one variant
is expected, and admits the place of a variant for its name.
-/

namespace Bundling.Json

/-- How a value is read. -/
inductive Reading where
  | strict
  | lenient
  deriving DecidableEq

/-- What a value is read by. -/
abbrev Decoder (α : Type) := Reading → Json → Except DecodeError α

namespace Decoder

def bool : Decoder Bool
  | _, .bool b => .ok b
  | _, j => .error (.invalidType j "a boolean")

def string : Decoder String
  | _, .string s => .ok s
  | _, j => .error (.invalidType j "a string")

/-- A natural number below 2 ^ 64. -/
def word : Decoder UInt64
  | _, .number (.int i) =>
    if 0 ≤ i then .ok (UInt64.ofNat i.toNat)
    else .error (.invalidValue (.number (.int i)) "u64")
  | _, j => .error (.invalidType j "u64")

/-- Reads items in order, up to the first that fails. -/
def items {α : Type} (d : Decoder α) (r : Reading) : List Json → Except DecodeError (List α)
  | [] => .ok []
  | j :: js =>
    match d r j with
    | .ok a => (items d r js).map (a :: ·)
    | .error e => .error e

def list {α : Type} (d : Decoder α) : Decoder (List α)
  | r, .array js => items d r js
  | _, j => .error (.invalidType j "a sequence")

def nullable {α : Type} (d : Decoder α) : Decoder (Option α)
  | _, .null => .ok none
  | r, j => (d r j).map some

/-- The variant of a name. -/
def named {α : Type} (variants : List (String × α)) (name : String) : Except DecodeError α :=
  match variants.lookup name with
  | some a => .ok a
  | none => .error (.unknownVariant name (variants.map (·.1)))

/-- The variant under the key of a member, which has no value to it. -/
def member {α : Type} (variants : List (String × α)) (m : String × Json) : Except DecodeError α :=
  match named variants m.1 with
  | .error e => .error e
  | .ok a =>
    match m.2 with
    | .null => .ok a
    | j => .error (.invalidType j "unit")

/-- One of several variants, by its name or as the only key of an object. -/
def variant {α : Type} (variants : List (String × α)) : Decoder α
  | _, .string s => named variants s
  | r, .object ms =>
    match r, sortMembers ms with
    | _, [m] => member variants m
    | .strict, _ => .error (.invalidValue (.object ms) "map with a single key")
    | .lenient, m :: _ => member variants m
    | .lenient, [] => .error (.invalidType (.object ms) "enum")
  | .lenient, .number (.int i) =>
    match if 0 ≤ i then variants[i.toNat]? else none with
    | some (_, a) => .ok a
    | none => .error (.invalidValue (.number (.int i)) "variant index")
  | _, j => .error (.invalidType j "string or map")

end Decoder

/-- A field of a record: what it is called, and how a value is read into it. -/
structure RecordField (α : Type) where
  name : String
  put : Reading → Json → α → Except DecodeError α

/-- A field that a decoder reads. -/
def RecordField.of {α β : Type} (name : String) (d : Decoder β) (set : β → α → α) : RecordField α where
  name := name
  put r j a := (d r j).map fun b => set b a

namespace Record

variable {α : Type}

/-- Reads members into a record. -/
def ofMembers (fields : List (RecordField α)) (r : Reading) :
    List (String × Json) → α → Except DecodeError α
  | [], a => .ok a
  | (key, j) :: ms, a =>
    match fields.find? fun f => f.name = key with
    | none => ofMembers fields r ms a
    | some f =>
      match f.put r j a with
      | .ok a => ofMembers fields r ms a
      | .error e => .error e

/-- Reads items into the fields in their order. -/
def ofItems (r : Reading) : List (RecordField α) → List Json → α → Except DecodeError α
  | f :: fs, j :: js, a =>
    match f.put r j a with
    | .ok a => ofItems r fs js a
    | .error e => .error e
  | _, _, a => .ok a

/-- Reads a record; `kind` is what messages call it. -/
def decoder (kind : String) (fields : List (RecordField α)) (default : α) : Decoder α
  | r, .object ms => ofMembers fields r (sortMembers ms) default
  | r, .array js =>
    match ofItems r fields js default with
    | .error e => .error e
    | .ok a =>
      if r = .strict ∧ fields.length < js.length then .error (.excessLength js.length) else .ok a
  | _, j => .error (.invalidType j ("struct " ++ kind))

end Record

end Bundling.Json
