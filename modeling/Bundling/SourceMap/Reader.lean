import Bundling.Json.Reader
import Bundling.SourceMap.Basic
import Bundling.SourceMap.Segment

/-!
# Reading source maps

A map is read strictly: members of the wrong kind or named twice, numbers outside 32 bits and
references past the tables are refused. Unknown members are skipped.
-/

namespace Bundling.SourceMap.Reader

/-- What the numbers of segments add up to. -/
structure Sums where
  source : Nat := 0
  line : Nat := 0
  column : Nat := 0
  name : Nat := 0

/-- A running value after one more number; it stays within 32 bits. -/
def advance? (n : Nat) (i : Int) : Option Nat :=
  let sum := (n : Int) + i
  if 0 ≤ sum ∧ sum < Nat.pow 2 32 then some sum.toNat else none

/-- An index below the length of its table. -/
def reference? (length n : Nat) (i : Int) : Option Nat := do
  let sum ← advance? n i
  if sum < length then some sum else none

/-- One segment: the column it starts at, its origin, and the running values after it. -/
def segment? (sources names : Nat) (column : Nat) (s : Sums) :
    List Int → Option (Nat × Option Origin × Sums)
  | [c] => do some (← advance? column c, none, s)
  | [c, i, l, k] => do
    let column ← advance? column c
    let s := { s with
      source := ← reference? sources s.source i, line := ← advance? s.line l,
      column := ← advance? s.column k }
    some (column, some ⟨s.source, s.line, s.column, none⟩, s)
  | [c, i, l, k, n] => do
    let column ← advance? column c
    let s : Sums := {
      source := ← reference? sources s.source i, line := ← advance? s.line l,
      column := ← advance? s.column k, name := ← reference? names s.name n }
    some (column, some ⟨s.source, s.line, s.column, some s.name⟩, s)
  | _ => none

/-- The pieces of a text between separators; at least one. -/
def pieces (separator : Char) : List Char → List (List Char)
  | [] => [[]]
  | c :: cs =>
    if c = separator then [] :: pieces separator cs
    else match pieces separator cs with
      | [] => [[c]]
      | p :: ps => (c :: p) :: ps

/-- The mappings of one line; empty segments count for nothing. -/
def line? (sources names line : Nat) :
    (column : Nat) → Sums → List (List Char) → Option (List Mapping × Sums)
  | _, s, [] => some ([], s)
  | column, s, text :: rest =>
    if text.isEmpty then line? sources names line column s rest
    else do
      let (column, origin, s) ← segment? sources names column s (← numbers? text)
      let (ms, s) ← line? sources names line column s rest
      some (⟨line, column, origin⟩ :: ms, s)

/-- The mappings of consecutive lines. -/
def lines? (sources names : Nat) : (line : Nat) → Sums → List (List Char) → Option (List Mapping)
  | _, _, [] => some []
  | line, s, text :: rest => do
    let (ms, s) ← line? sources names line 0 s (pieces ',' text)
    some (ms ++ (← lines? sources names (line + 1) s rest))

/-- The mappings of a text, for tables of the given lengths. -/
def mappings? (sources names : Nat) (text : List Char) : Option (List Mapping) :=
  lines? sources names 0 {} (pieces ';' text)

/-! ## Members -/

/-- The value of a member that may stand once, under any of its keys. -/
def member? (keys : List String) (ms : List (String × Json)) : Option (Option Json) :=
  match ms.filter fun m => keys.contains m.1 with
  | [] => some none
  | [(_, j)] => some (some j)
  | _ => none

/-- A member that may be absent or null. -/
def optional? {α : Type} (read : Json → Option α) (key : List String) (ms : List (String × Json)) :
    Option (Option α) := do
  match ← member? key ms with
  | none | some .null => some none
  | some j => some (some (← read j))

def items? {α : Type} (read : Json → Option α) (j : Json) : Option (List α) := do
  (← j.array?).mapM read

def natural? (j : Json) : Option Nat := do
  let i ← j.int?
  if 0 ≤ i ∧ i < Nat.pow 2 32 then some i.toNat else none

def nullableText? : Json → Option (Option String)
  | .null => some none
  | .string s => some (some s)
  | _ => none

/-- The map that a JSON value describes. -/
def ofJson? (j : Json) : Option SourceMap := do
  let ms ← j.object?
  let version ← natural? (← ← member? ["version"] ms)
  if version ≠ 3 then none
  let file ← optional? Json.string? ["file"] ms
  let sourceRoot ← optional? Json.string? ["sourceRoot"] ms
  let sources ← items? Json.string? (← ← member? ["sources"] ms)
  let contents ← optional? (items? nullableText?) ["sourcesContent"] ms
  let names ← match ← member? ["names"] ms with
    | some j => items? Json.string? j
    | none => some []
  let text ← (← ← member? ["mappings"] ms).string?
  let debugId ← optional? Json.string? ["debugId", "debug_id"] ms
  let ignored ← optional? (items? natural?) ["x_google_ignoreList", "ignoreList"] ms
  if (ignored.getD []).any (sources.length ≤ ·) then none
  let mappings ← mappings? sources.length names.length text.toList
  some { file, sourceRoot, names, sources, contents := contents.getD [], ignored, mappings, debugId }

end Reader

/-- The map that a text describes. -/
def ofText? (text : String) : Option SourceMap := do Reader.ofJson? (← Json.parse? text)

end Bundling.SourceMap
