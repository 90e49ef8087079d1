import Bundling.Proofs.Fields

/-!
# Values that are filled up with defaults

A value is filled up when members that an object does not have are added as a default has them, at any depth (`Json.Padded`).
A record whose fields read their defaults as the values that they have when they are absent is read alike from a value and from
the one that is filled up (`Json.Record.pads_decoder`).
-/

namespace Bundling.Json

variable {d e i j x y new new' : Json} {k : String} {path : List String}

/-! ## Paths of keys -/

/-- What objects are, as against all other values. -/
def IsTable : Json → Prop
  | object _ => True
  | _ => False

theorem IsTable.exists_eq (table : j.IsTable) : ∃ ms, j = object ms := by
  cases j with
  | object ms => exact ⟨ms,rfl⟩
  | null | bool | number | string | array => exact table.elim

theorem get?_of_not_isTable (value : ¬ j.IsTable) (k : String) : j.get? k = none := by
  cases j with
  | object => exact absurd trivial value
  | null | bool | number | string | array => rfl

theorem isTable_of_get? (found : j.get? k = some i) : j.IsTable := by
  by_contra value
  cases (get?_of_not_isTable value k).symm.trans found

/-- What is under a path of keys. -/
def at? : (path : List String) → Json → Option Json
  | [],j => some j
  | k :: path,j => (j.get? k).bind (at? path)

theorem at?_append (path rest : List String) (j : Json) : j.at? (path ++ rest) = (j.at? path).bind (at? rest) := by
  induction path generalizing j with
  | nil => rfl
  | cons k path ih =>
    rw [List.cons_append,at?,at?,Option.bind_assoc]
    exact congrArg _ (funext ih)

/-! ## Filling up -/

/-- One value is another one, with members added that a default has. -/
inductive Padded : (default lower padded : Json) → Prop
  | same {d j : Json} : Padded d j j
  | table {ds ms ns : List (String × Json)}
      (added : ∀ k, (object ms).get? k = none → (object ns).get? k = none ∨ (object ns).get? k = (object ds).get? k)
      (kept : ∀ k i, (object ms).get? k = some i → ∃ j, (object ns).get? k = some j)
      (inner : ∀ k i j, (object ms).get? k = some i → (object ns).get? k = some j →
        Padded (((object ds).get? k).getD .null) i j) : Padded (object ds) (object ms) (object ns)

/-- Where the default is no object, nothing is added. -/
theorem Padded.eq_of_value (padded : Padded d x y) (value : ¬ d.IsTable) : x = y := by
  cases padded with
  | same => rfl
  | table => exact absurd trivial value

namespace Padded

/-- What a key is like: it has come to have what the default has there, or what it had was filled up. -/
def Under (d x y : Json) (k : String) : Prop :=
  (x.get? k = none ∧ (y.get? k = none ∨ y.get? k = d.get? k)) ∨
    ∃ i j, x.get? k = some i ∧ y.get? k = some j ∧ Padded ((d.get? k).getD .null) i j

theorem under_of_eq (same : x.get? k = y.get? k) : Under d x y k := by
  cases found : y.get? k with
  | none => exact .inl ⟨same.trans found,.inl found⟩
  | some i => exact .inr ⟨i,i,same.trans found,found,.same⟩

theorem under (padded : Padded d x y) (k : String) : Under d x y k := by
  cases padded with
  | same => exact under_of_eq rfl
  | @table ds ms ns added kept inner =>
    cases found : (object ms).get? k with
    | none => exact .inl ⟨found,added k found⟩
    | some i =>
      obtain ⟨j,there⟩ := kept k i found
      exact .inr ⟨i,j,found,there,inner k i j found there⟩

/-- An object is filled up key by key. -/
theorem of_keys {ds ms ns : List (String × Json)} (keys : ∀ k, Under (object ds) (object ms) (object ns) k) :
    Padded (object ds) (object ms) (object ns) := by
  refine .table (fun k absent => ?_) (fun k i found => ?_) fun k i j before after => ?_
  · rcases keys k with ⟨-,added⟩ | ⟨i,j,found,-,-⟩
    · exact added
    · cases absent.symm.trans found
  · rcases keys k with ⟨absent,-⟩ | ⟨-,j,-,after,-⟩
    · cases absent.symm.trans found
    · exact ⟨j,after⟩
  · rcases keys k with ⟨absent,-⟩ | ⟨i',j',before',after',below⟩
    · cases absent.symm.trans before
    · cases before.symm.trans before'
      cases after.symm.trans after'
      exact below

/-- An empty object filled up entirely. -/
theorem full (table : d.IsTable) : Padded d (object []) d := by
  obtain ⟨ds,rfl⟩ := table.exists_eq
  exact of_keys fun _ => .inl ⟨rfl,.inr rfl⟩

end Padded

/-! ## Readers that do not see it -/

/-- A value is read as the one that it is filled up to. -/
def Pads {α : Type} (d : Json) (read : Decoder α) : Prop := ∀ {r x y}, Padded d x y → read r x = read r y

theorem pads_of_value {α : Type} (value : ¬ d.IsTable) (read : Decoder α) : Pads d read :=
  fun padded => by rw [padded.eq_of_value value]

namespace Record

open Decoder

variable {α : Type} {fields fs : List (RecordField α)} {a : α} {r : Reading}

/-- Fields, from one on, whose values where nothing is given are the ones that the default is read as. -/
inductive Fits (default : Json) : List (RecordField α) → α → Prop
  | nil {a : α} : Fits default [] a
  | cons {β : Type} {read : Decoder β} {name : String} {set : β → α → α} {b : β} {e : Json} {fs : List (RecordField α)} {a : α}
      (found : default.get? name = some e) (pads : Pads e read) (reads : ∀ r, read r e = .ok b) (has : set b a = a)
      (rest : ∀ v, Fits default fs (set v a)) : Fits default (.of name read set :: fs) a

/-- A field whose default is no object. -/
theorem Fits.value {β : Type} {read : Decoder β} {name : String} {set : β → α → α} {b : β} (found : d.get? name = some e)
    (value : ¬ e.IsTable) (reads : ∀ r, read r e = .ok b) (has : set b a = a) (rest : ∀ v, Fits d fs (set v a)) :
    Fits d (.of name read set :: fs) a := .cons found (pads_of_value value read) reads has rest

theorem Fits.readFields_eq (fits : Fits d fs a) (padded : Padded d x y) :
    readFields r (fun k => x.get? k) fs a = readFields r (fun k => y.get? k) fs a := by
  induction fits with
  | nil => rfl
  | @cons β read name set b e fs a found pads reads has rest ih =>
    have same : given read b r (x.get? name) = given read b r (y.get? name) := by
      have under := padded.under name
      rw [Padded.Under,found] at under
      rcases under with ⟨absent,still | added⟩ | ⟨i,j,before,after,below⟩
      · rw [absent,still]
      · rw [absent,added]
        exact (reads r).symm
      · rw [before,after]
        exact pads below
    rw [readFields_cons name set fs has,readFields_cons name set fs has,same]
    exact congrArg _ (funext ih)

theorem pads_decoder (kind : String) (distinct : (fields.map RecordField.name).Nodup) (fits : Fits d (inOrder fields) a) :
    Pads d (decoder kind fields a) := by
  intro r x y padded
  cases padded with
  | same => rfl
  | table added kept inner =>
    rw [decoder_object distinct,decoder_object distinct]
    exact fits.readFields_eq (.table added kept inner)

end Record

end Bundling.Json
