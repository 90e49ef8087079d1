import Mathlib.Data.List.Sort
import Bundling.Json.Record
import Bundling.Proofs.Keys

/-!
# Records, field by field

A record is read from an object by reading its fields, in the order of their names, from what is under these names
(`Json.Record.decoder_object`). What is read depends neither on the order in which members are written, nor on numbers that
JSON has no text for, and what a strict reading accepts a lenient one reads in the same way (`Json.Decoder.Steady`).
-/

namespace Bundling.Json

namespace Record

variable {α : Type} {fields fs gs : List (RecordField α)} {r : Reading} {look look' : String → Option Json} {a : α}

/-- Reads fields one after the other from what is under their names. -/
def readFields (r : Reading) (look : String → Option Json) : List (RecordField α) → α → Except DecodeError α
  | [], a => .ok a
  | f :: fs, a =>
    match look f.name with
    | none => readFields r look fs a
    | some j =>
      match f.put r j a with
      | .ok a => readFields r look fs a
      | .error e => .error e

/-- The fields of a record in the order of their names. -/
def inOrder (fields : List (RecordField α)) : List (RecordField α) := fields.insertionSort fun f g => f.name ≤ g.name

theorem readFields_congr (same : ∀ f ∈ fs, look f.name = look' f.name) : readFields r look fs a = readFields r look' fs a := by
  induction fs generalizing a with
  | nil => rfl
  | cons f fs ih =>
    obtain ⟨first,rest⟩ := List.forall_mem_cons.mp same
    rw [readFields,readFields,first]
    split
    · exact ih rest
    · split
      · exact ih rest
      · rfl

theorem readFields_append_of_none (none : ∀ f ∈ fs, look f.name = none) :
    readFields r look (fs ++ gs) a = readFields r look gs a := by
  induction fs with
  | nil => rfl
  | cons f fs ih =>
    obtain ⟨first,rest⟩ := List.forall_mem_cons.mp none
    rw [List.cons_append,readFields,first]
    exact ih rest

theorem readFields_of_none (none : ∀ f ∈ fs, look f.name = none) : readFields r look fs a = .ok a := by
  rw [← List.append_nil fs,readFields_append_of_none none]
  rfl

theorem mem_inOrder {f : RecordField α} : f ∈ inOrder fields ↔ f ∈ fields := List.mem_insertionSort _

theorem ascending_inOrder (distinct : (fields.map RecordField.name).Nodup) :
    ((inOrder fields).map RecordField.name).Pairwise (· < ·) := by
  have sorted : (inOrder fields).Pairwise fun f g => f.name ≤ g.name := List.pairwise_insertionSort _ fields
  have unlike := ((List.perm_insertionSort (fun f g => f.name ≤ g.name) fields).map RecordField.name).nodup_iff.mpr distinct
  exact (List.pairwise_map.mpr sorted).imp₂ (fun _ _ => lt_of_le_of_ne) unlike

/-- Before a field are those with smaller names, behind it those with greater ones. -/
theorem exists_split (distinct : (fields.map RecordField.name).Nodup) {f : RecordField α} (member : f ∈ fields) :
    ∃ before behind, inOrder fields = before ++ f :: behind ∧ (∀ g ∈ before, g.name < f.name) ∧ ∀ g ∈ behind, f.name < g.name := by
  obtain ⟨before,behind,split⟩ := List.append_of_mem (mem_inOrder.mpr member)
  have ascending := ascending_inOrder distinct
  rw [split,List.map_append,List.map_cons,List.pairwise_append] at ascending
  refine ⟨before,behind,split,fun g within => ?_,fun g within => ?_⟩
  · exact ascending.2.2 _ (List.mem_map_of_mem within) _ List.mem_cons_self
  · exact List.rel_of_pairwise_cons ascending.2.1 (List.mem_map_of_mem within)

/-- Members in the order of their keys are read field by field. -/
theorem ofMembers_eq_readFields (distinct : (fields.map RecordField.name).Nodup) {ms : List (String × Json)}
    (ascending : Ascending ms) : ofMembers fields r ms a = readFields r (fun k => ms.lookup k) (inOrder fields) a := by
  induction ms generalizing a with
  | nil => exact (readFields_of_none fun _ _ => rfl).symm
  | cons m ms ih =>
    obtain ⟨key,j⟩ := m
    have other {name : String} (ne : name ≠ key) : ((key,j) :: ms).lookup name = ms.lookup name := by rw [lookup_cons_eq,if_neg ne]
    cases found : fields.find? (fun g => g.name = key) with
    | none =>
      rw [ofMembers,found]
      refine (ih ascending.of_cons).trans (readFields_congr fun f member => (other fun named => ?_).symm)
      exact List.find?_eq_none.mp found f (mem_inOrder.mp member) (decide_eq_true named)
    | some f =>
      obtain rfl : f.name = key := by simpa using List.find?_some found
      obtain ⟨before,behind,split,less,greater⟩ := exists_split distinct (List.mem_of_find?_eq_some found)
      -- The fields in front of this one are not among the members.
      have absent {name : String} (le : name ≤ f.name) : ms.lookup name = none := ascending.lookup_eq_none le
      rw [ofMembers,found,split,
        readFields_append_of_none fun g member => (other (ne_of_lt (less g member))).trans (absent (less g member).le),
        readFields,lookup_cons_eq,if_pos rfl]
      cases put : f.put r j a with
      | error e => simp only [put]
      | ok b =>
        simp only [put]
        refine (ih ascending.of_cons).trans ?_
        rw [split,readFields_append_of_none fun g member => absent (less g member).le,readFields,absent le_rfl]
        exact readFields_congr fun g member => (other (ne_of_gt (greater g member))).symm

/-- A record is read from an object field by field. -/
theorem decoder_object (distinct : (fields.map RecordField.name).Nodup) (kind : String) (r : Reading) (ms : List (String × Json)) :
    decoder kind fields a r (.object ms) = readFields r (fun k => (object ms).get? k) (inOrder fields) a := by
  refine (ofMembers_eq_readFields distinct (ascending_sortMembers ms)).trans (readFields_congr fun f _ => ?_)
  rw [get?_object]

end Record

/-! ## What does not matter when a value is read -/

namespace Decoder

variable {α β : Type} {d : Decoder α}

/-- What is read is the same in canonical form, without numbers that JSON has no text for, and when a strict reading becomes a
lenient one. A value that is refused is refused with the same words in canonical form. -/
structure Steady (d : Decoder α) : Prop where
  lenient : ∀ {j a}, d .strict j = .ok a → d .lenient j = .ok a
  finite : ∀ {r j a}, d r j = .ok a → d r j.finite = .ok a
  sorted : ∀ r j, (d r j.sorted).mapError DecodeError.message = (d r j).mapError DecodeError.message

theorem mapError_map {ε ε' : Type} (g : ε → ε') (f : α → β) (x : Except ε α) : (x.map f).mapError g = (x.mapError g).map f := by
  cases x <;> rfl

theorem map_eq_ok_iff {ε : Type} {f : α → β} {x : Except ε α} {b : β} : x.map f = .ok b ↔ ∃ a, x = .ok a ∧ f a = b := by
  cases x <;> simp [Except.map]

theorem Steady.map (steady : d.Steady) (f : α → β) : Steady fun r j => (d r j).map f where
  lenient read := by
    obtain ⟨a,taken,rfl⟩ := map_eq_ok_iff.mp read
    exact map_eq_ok_iff.mpr ⟨a,steady.lenient taken,rfl⟩
  finite read := by
    obtain ⟨a,taken,rfl⟩ := map_eq_ok_iff.mp read
    exact map_eq_ok_iff.mpr ⟨a,steady.finite taken,rfl⟩
  sorted r j := by simp only [mapError_map,steady.sorted]

theorem described_sorted (j : Json) : j.sorted.described = j.described := by
  cases j with
  | array | object => rw [Json.sorted]; rfl
  | null | bool | number | string => rfl

theorem message_invalidType (found : Json) (expected : String) :
    (DecodeError.invalidType found expected).message = "invalid type: " ++ found.described ++ ", expected " ++ expected := rfl

theorem message_sorted (j : Json) (expected : String) :
    (DecodeError.invalidType j.sorted expected).message = (DecodeError.invalidType j expected).message := by
  rw [message_invalidType,message_invalidType,described_sorted]

/-- What reads neither lists nor objects, nor numbers without a text, and reads strictly as it does leniently. -/
theorem steady_of_scalar (expected : String) (one : ∀ j, d .strict j = d .lenient j)
    (array : ∀ r js, d r (.array js) = .error (.invalidType (.array js) expected))
    (object : ∀ r ms, d r (.object ms) = .error (.invalidType (.object ms) expected))
    (beyond : ∀ r text a, d r (.number (.beyond text)) ≠ .ok a) : Steady d where
  lenient read := one _ ▸ read
  finite {r j a} read := by
    cases j with
    | number n =>
      cases n with
      | int | float => exact read
      | beyond text => exact absurd read (beyond r text a)
    | array js => cases (array r js).symm.trans read
    | object ms => cases (object r ms).symm.trans read
    | null | bool | string => exact read
  sorted r j := by
    cases j with
    | array js =>
      rw [Json.sorted,array,array]
      exact congrArg Except.error (message_sorted (.array js) expected)
    | object ms =>
      rw [Json.sorted,object,object]
      exact congrArg Except.error (message_sorted (.object ms) expected)
    | null | bool | number | string => rfl

theorem steady_bool : Steady bool :=
  steady_of_scalar "a boolean" (fun j => by cases j <;> rfl) (fun _ _ => rfl) (fun _ _ => rfl) fun _ _ _ read => by cases read

theorem steady_string : Steady string :=
  steady_of_scalar "a string" (fun j => by cases j <;> rfl) (fun _ _ => rfl) (fun _ _ => rfl) fun _ _ _ read => by cases read

theorem steady_word : Steady word := by
  refine steady_of_scalar "u64" (fun j => ?_) (fun _ _ => rfl) (fun _ _ => rfl) fun _ _ _ read => by cases read
  cases j with
  | number n => cases n <;> rfl
  | null | bool | string | array | object => rfl

/-! ### Lists and choices -/

theorem items_cons (d : Decoder α) (r : Reading) (j : Json) (js : List Json) :
    items d r (j :: js) = (d r j).bind fun a => (items d r js).map (a :: ·) := by
  rw [items]
  cases d r j <;> rfl

theorem bind_eq_ok_iff {ε : Type} {x : Except ε α} {f : α → Except ε β} {b : β} : x.bind f = .ok b ↔ ∃ a, x = .ok a ∧ f a = .ok b := by
  cases x <;> simp [Except.bind]

theorem mapError_bind {ε ε' : Type} (g : ε → ε') (f : α → Except ε β) (x : Except ε α) :
    (x.bind f).mapError g = (x.mapError g).bind fun a => (f a).mapError g := by
  cases x <;> rfl

theorem items_keep {r r' : Reading} {g : Json → Json} (keeps : ∀ {j a}, d r j = .ok a → d r' (g j) = .ok a) {js : List Json}
    {as : List α} (read : items d r js = .ok as) : items d r' (js.map g) = .ok as := by
  induction js generalizing as with
  | nil => exact read
  | cons j js ih =>
    rw [items_cons] at read
    obtain ⟨a,first,read⟩ := bind_eq_ok_iff.mp read
    obtain ⟨rest,taken,rfl⟩ := map_eq_ok_iff.mp read
    rw [List.map_cons,items_cons,keeps first]
    exact map_eq_ok_iff.mpr ⟨rest,ih taken,rfl⟩

theorem Steady.sorted_items (steady : d.Steady) (r : Reading) (js : List Json) :
    (items d r (js.map Json.sorted)).mapError DecodeError.message = (items d r js).mapError DecodeError.message := by
  induction js with
  | nil => rfl
  | cons j js ih => simp only [List.map_cons,items_cons,mapError_bind,mapError_map,steady.sorted,ih]

theorem Steady.list (steady : d.Steady) : Steady d.list where
  lenient {j as} read := by
    cases j with
    | array js =>
      have kept := items_keep steady.lenient read
      rwa [List.map_id'] at kept
    | null | bool | number | string | object => cases read
  finite {r j as} read := by
    cases j with
    | array js =>
      rw [Json.finite,finiteItems_eq]
      exact items_keep steady.finite read
    | null | bool | number | string | object => cases read
  sorted r j := by
    cases j with
    | array js =>
      rw [Json.sorted,sortedItems_eq]
      exact steady.sorted_items r js
    | object => exact congrArg Except.error (message_sorted _ _)
    | null | bool | number | string => rfl

theorem nullable_of_ne_null {j : Json} (some : j ≠ .null) (r : Reading) : nullable d r j = (d r j).map Option.some := by
  cases j with
  | null => exact absurd rfl some
  | bool | number | string | array | object => rfl

/-- Null may stand for nothing when it is no value itself. -/
theorem Steady.nullable (steady : d.Steady) (nothing : ∀ r a, d r .null ≠ .ok a) : Steady d.nullable where
  lenient {j a} read := by
    by_cases null : j = .null
    · subst null
      exact read
    · rw [nullable_of_ne_null null] at read ⊢
      exact (steady.map Option.some).lenient read
  finite {r j a} read := by
    by_cases null : j = .null
    · subst null
      exact read
    · rw [nullable_of_ne_null null] at read
      have taken := (steady.map Option.some).finite read
      rw [nullable_of_ne_null fun none => ?_]
      · exact taken
      · obtain ⟨b,refused,-⟩ := map_eq_ok_iff.mp taken
        exact nothing r b (none ▸ refused)
  sorted r j := by
    by_cases null : j = .null
    · subst null
      rfl
    · rw [nullable_of_ne_null null,nullable_of_ne_null fun none => ?_]
      · exact (steady.map Option.some).sorted r j
      · cases j <;> first | exact null rfl | cases none

section

variable (variants : List (String × α))

/-- The name of a variant has no value to it, in any form. -/
theorem member_eq_ok_iff {m : String × Json} {a : α} : member variants m = .ok a ↔ named variants m.1 = .ok a ∧ m.2 = .null := by
  obtain ⟨key,j⟩ := m
  rw [member]
  cases named variants key <;> cases j <;> simp

theorem member_sorted (m : String × Json) :
    (member variants (m.1,m.2.sorted)).mapError DecodeError.message = (member variants m).mapError DecodeError.message := by
  obtain ⟨key,j⟩ := m
  rw [member,member]
  cases named variants key with
  | error => rfl
  | ok a =>
    cases j with
    | array | object => exact congrArg Except.error (message_sorted _ _)
    | null | bool | number | string => rfl

/-- The variant that the members of an object give. -/
theorem variant_object (r : Reading) (ms : List (String × Json)) : variant variants r (object ms) =
    match r,sortMembers ms with
    | _,[m] => member variants m
    | .strict,_ => .error (.invalidValue (object ms) "map with a single key")
    | .lenient,m :: _ => member variants m
    | .lenient,[] => .error (.invalidType (object ms) "enum") := rfl

theorem steady_variant : Steady (variant variants) where
  lenient {j a} read := by
    cases j with
    | string s => exact read
    | object ms =>
      rw [variant_object] at read ⊢
      cases members : sortMembers ms with
      | nil => rw [members] at read; cases read
      | cons m more =>
        rw [members] at read
        cases more with
        | nil => exact read
        | cons n more => cases read
    | number n => cases n <;> cases read
    | null | bool | array => cases read
  finite {r j a} read := by
    cases j with
    | string s => exact read
    | object ms =>
      rw [Json.finite,finiteMembers_eq,variant_object,sortMembers_map]
      rw [variant_object] at read
      cases members : sortMembers ms with
      | nil => rw [members] at read; cases r <;> cases read
      | cons m more =>
        -- The value of the one member that is read is null, and stays so.
        have stays (taken : member variants m = .ok a) : member variants (m.1,m.2.finite) = .ok a := by
          obtain ⟨name,null⟩ := (member_eq_ok_iff variants).mp taken
          rw [null]
          exact (member_eq_ok_iff variants).mpr ⟨name,rfl⟩
        rw [members] at read
        cases more with
        | nil => exact stays read
        | cons n more =>
          cases r with
          | strict => cases read
          | lenient => exact stays read
    | number n =>
      cases n with
      | int i => exact read
      | float | beyond => cases r <;> cases read
    | null | bool | array => cases r <;> cases read
  sorted r j := by
    cases j with
    | object ms =>
      rw [variant_object,sorted_object,variant_object,sortMembers_sorted]
      cases members : sortMembers ms with
      | nil => cases r <;> rfl
      | cons m more =>
        cases more with
        | nil => exact member_sorted variants m
        | cons n more =>
          cases r with
          | strict => rfl
          | lenient => exact member_sorted variants m
    | array => cases r <;> exact congrArg Except.error (message_sorted _ _)
    | null | bool | number | string => rfl

end

end Decoder

/-! ### Records -/

namespace Record

open Decoder

variable {α : Type} {fields : List (RecordField α)} {a b : α} {r : Reading}

/-- A field that is read steadily. -/
def Steady (f : RecordField α) : Prop := ∀ a, Decoder.Steady fun r j => f.put r j a

theorem steady_of {β : Type} {d : Decoder β} (steady : d.Steady) (name : String) (set : β → α → α) : Steady (.of name d set) :=
  fun _ => steady.map _

theorem ofMembers_cons (fields : List (RecordField α)) (r : Reading) (m : String × Json) (ms : List (String × Json)) (a : α) :
    ofMembers fields r (m :: ms) a =
      ((fields.find? fun f => f.name = m.1).elim (.ok a) fun f => f.put r m.2 a).bind fun b => ofMembers fields r ms b := by
  obtain ⟨key,j⟩ := m
  rw [ofMembers]
  cases found : fields.find? fun f => f.name = key with
  | none => rfl
  | some f =>
    cases put : f.put r j a with
    | error => simp only [Option.elim_some,put]; rfl
    | ok => simp only [Option.elim_some,put]; rfl

theorem ofItems_cons (r : Reading) (f : RecordField α) (fs : List (RecordField α)) (j : Json) (js : List Json) (a : α) :
    ofItems r (f :: fs) (j :: js) a = (f.put r j a).bind fun b => ofItems r fs js b := by
  rw [ofItems]
  cases f.put r j a <;> rfl

section

variable {r' : Reading} {g : Json → Json} (keeps : ∀ f ∈ fields, ∀ {a j b}, f.put r j a = .ok b → f.put r' (g j) a = .ok b)

include keeps

theorem ofMembers_keep {ms : List (String × Json)} (read : ofMembers fields r ms a = .ok b) :
    ofMembers fields r' (ms.map fun m => (m.1,g m.2)) a = .ok b := by
  induction ms generalizing a with
  | nil => exact read
  | cons m ms ih =>
    rw [ofMembers_cons] at read
    obtain ⟨c,first,rest⟩ := bind_eq_ok_iff.mp read
    rw [List.map_cons,ofMembers_cons]
    refine bind_eq_ok_iff.mpr ⟨c,?_,ih rest⟩
    cases found : fields.find? fun f => f.name = m.1 with
    | none => rwa [found] at first
    | some f =>
      rw [found] at first
      exact keeps f (List.mem_of_find?_eq_some found) first

theorem ofItems_keep {js : List Json} (read : ofItems r fields js a = .ok b) : ofItems r' fields (js.map g) a = .ok b := by
  induction fields generalizing js a with
  | nil => exact read
  | cons f fs ih =>
    cases js with
    | nil => exact read
    | cons j js =>
      obtain ⟨here,others⟩ := List.forall_mem_cons.mp keeps
      rw [ofItems_cons] at read
      obtain ⟨c,first,rest⟩ := bind_eq_ok_iff.mp read
      rw [List.map_cons,ofItems_cons]
      exact bind_eq_ok_iff.mpr ⟨c,here first,ih others rest⟩

end

section

variable (steady : ∀ f ∈ fields, Steady f)

include steady

theorem sorted_ofMembers (r : Reading) (ms : List (String × Json)) (a : α) :
    (ofMembers fields r (ms.map fun m => (m.1,m.2.sorted)) a).mapError DecodeError.message =
      (ofMembers fields r ms a).mapError DecodeError.message := by
  induction ms generalizing a with
  | nil => rfl
  | cons m ms ih =>
    rw [List.map_cons,ofMembers_cons,ofMembers_cons]
    cases found : fields.find? fun f => f.name = m.1 with
    | none => exact ih a
    | some f =>
      rw [Option.elim_some,Option.elim_some,mapError_bind,mapError_bind,(steady f (List.mem_of_find?_eq_some found) a).sorted]
      exact congrArg _ (funext ih)

theorem sorted_ofItems (r : Reading) (js : List Json) (a : α) :
    (ofItems r fields (js.map Json.sorted) a).mapError DecodeError.message =
      (ofItems r fields js a).mapError DecodeError.message := by
  induction fields generalizing js a with
  | nil => rfl
  | cons f fs ih =>
    cases js with
    | nil => rfl
    | cons j js =>
      obtain ⟨here,others⟩ := List.forall_mem_cons.mp steady
      rw [List.map_cons,ofItems_cons,ofItems_cons,mapError_bind,mapError_bind,(here a).sorted]
      exact congrArg _ (funext fun b => ih others js b)

end

/-- The items of an array make a record unless there are too many for a strict reading. -/
theorem decoder_array (kind : String) (fields : List (RecordField α)) (a : α) (r : Reading) (js : List Json) :
    decoder kind fields a r (.array js) = (ofItems r fields js a).bind fun b =>
      if r = .strict ∧ fields.length < js.length then .error (.excessLength js.length) else .ok b := by
  rw [decoder]
  cases ofItems r fields js a <;> rfl

theorem steady_decoder (kind : String) (steady : ∀ f ∈ fields, Steady f) (a : α) : Decoder.Steady (decoder kind fields a) where
  lenient {j b} read := by
    cases j with
    | object ms =>
      have kept := ofMembers_keep (fun f member _ _ _ => (steady f member _).lenient) read
      rwa [List.map_id''] at kept
      exact fun _ => rfl
    | array js =>
      rw [decoder_array] at read ⊢
      obtain ⟨c,items,within⟩ := bind_eq_ok_iff.mp read
      have kept := ofItems_keep (fun f member _ _ _ => (steady f member _).lenient) items
      rw [List.map_id'] at kept
      refine bind_eq_ok_iff.mpr ⟨c,kept,?_⟩
      rw [if_neg fun lenient => by cases lenient.1]
      split at within
      · cases within
      · exact within
    | null | bool | number | string => cases read
  finite {r j b} read := by
    cases j with
    | object ms =>
      rw [Json.finite,finiteMembers_eq,decoder,sortMembers_map]
      exact ofMembers_keep (fun f member _ _ _ => (steady f member _).finite) read
    | array js =>
      rw [decoder_array] at read
      obtain ⟨c,items,within⟩ := bind_eq_ok_iff.mp read
      rw [Json.finite,finiteItems_eq,decoder_array,List.length_map]
      exact bind_eq_ok_iff.mpr ⟨c,ofItems_keep (fun f member _ _ _ => (steady f member _).finite) items,within⟩
    | null | bool | number | string => cases read
  sorted r j := by
    cases j with
    | object ms =>
      rw [sorted_object,decoder,decoder,sortMembers_sorted]
      exact sorted_ofMembers steady r _ a
    | array js =>
      rw [Json.sorted,sortedItems_eq,decoder_array,decoder_array,List.length_map,mapError_bind,mapError_bind,sorted_ofItems steady]
    | null | bool | number | string => rfl

/-! ### One field after the other -/

section

variable {β : Type} {d : Decoder β} {look look' : String → Option Json}

/-- What is read where a value may be given, and what it is where none is. -/
def given (d : Decoder β) (b : β) (r : Reading) : Option Json → Except DecodeError β
  | none => .ok b
  | some j => d r j

/-- A field that is not given is what the record has there. -/
theorem readFields_cons (name : String) (set : β → α → α) (fs : List (RecordField α)) {b : β} (has : set b a = a) :
    readFields r look (.of name d set :: fs) a =
      (given d b r (look name)).bind fun v => readFields r look fs (set v a) := by
  rw [readFields]
  cases found : look name with
  | none =>
    simp only [RecordField.of,found,given,Except.bind,has]
  | some j =>
    cases read : d r j with
    | error => simp only [RecordField.of,found,given,read]; rfl
    | ok => simp only [RecordField.of,found,given,read]; rfl

end

end Record

end Bundling.Json
