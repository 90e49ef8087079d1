import Bundling.ModuleId

/-!
# Activities

What a resolver does to answer one request, as data: steps on a state `σ`, pauses, questions to the
other resolvers, and attempts that concurrent callers share. As data, an activity can be taken apart
and carried on in any interleaving with others.
-/

namespace Bundling

/-- Why a request has no module. -/
inductive ResolveError where
  /-- No resolver has an answer. -/
  | notFound (request : String) (importer : Option ModuleId)
  | install (package reason : String)
  /-- The file store failed while candidates were probed. -/
  | store (text : String)
  | plugin (resolver text : String)
  deriving DecidableEq

namespace ResolveError

def message : ResolveError → String
  | notFound request importer =>
    "Cannot find module '" ++ request ++ "'" ++
      (match importer with
        | some id => " from '" ++ id.text ++ "'"
        | none => "")
  | install package reason => "Failed to install '" ++ package ++ "': " ++ reason
  | store text => "Store error during resolution: " ++ text
  | plugin resolver text => "Resolver '" ++ resolver ++ "' failed: " ++ text

/-- A path that is no module id, as a failure of resolution. -/
def ofModuleIdError (e : ModuleIdError) : ResolveError := .store e.message

end ResolveError

/-- What comes of resolving a request. -/
abbrev Resolved := Except ResolveError ModuleId

/-- What a resolver does to answer a request. -/
inductive Activity (σ : Type) where
  | answer (r : Resolved)
  /-- Leaves the request to the next resolver. -/
  | defer
  /-- A step that nothing comes in between of. -/
  | step (f : σ → Activity σ × σ)
  /-- Lets others go on for some rounds. -/
  | pause (rounds : Nat) (next : Activity σ)
  /-- Asks all other resolvers. -/
  | ask (request : String) (importer : Option ModuleId) (next : Resolved → Activity σ)
  /-- Makes an attempt under the lock of a key, or joins the one that is being made. -/
  | share (key : String) (attempt : Activity σ) (next : Resolved → Activity σ)
  /-- Looks at the keys that are locked, in their order. -/
  | pending (next : List String → Activity σ)

namespace Activity

variable {σ : Type}

/-- An answer that takes one step. -/
def ofState (m : StateM σ (Except ResolveError (Option ModuleId))) : Activity σ :=
  .step fun s =>
    match m s with
    | (.ok (some id), s) => (.answer (.ok id), s)
    | (.ok none, s) => (.defer, s)
    | (.error e, s) => (.answer (.error e), s)

/-- A step that has no answer, and what follows it. -/
def andThen (m : StateM σ Unit) (next : Activity σ) : Activity σ := .step fun s => (next, (m s).2)

end Activity

/-- A resolver: given a request and its importer (none for entries), what it does. -/
structure Resolver (σ : Type) where
  name : String
  resolve : String → Option ModuleId → Activity σ

end Bundling
