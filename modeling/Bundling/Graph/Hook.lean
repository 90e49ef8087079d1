import Bundling.Module
import Bundling.Transform.Basic

/-!
# Hooks

Callbacks at the stages of a compilation, in the order of their registration. Those before and after
the transformers may change the event; those that follow only watch, but each may let others go on before
it comes back, and the next one waits for it.
-/

namespace Bundling

/-- What hooks are told about the module that is being compiled. -/
structure CompileEvent where
  id : ModuleId
  /-- The text of the file before the transformers, the compiled text after them. -/
  contents : String
  sourceMap : Option SourceMap := none
  /-- What the requests stand for; empty before the transformers. -/
  imports : List ModuleId := []
  /-- The module that is being replaced. -/
  old : Option Module := none
  deriving DecidableEq

/-- What a hook does, and when. -/
inductive Hook (σ : Type) where
  | before (run : CompileEvent → StateM σ CompileEvent)
  | after (run : CompileEvent → StateM σ CompileEvent)
  | compiled (run : CompileEvent → Work σ Unit)
  | destroyed (run : StateM σ Unit)

/-- The hooks that are registered, each with the number it was given. -/
structure Hooks (σ : Type) where
  next : Nat := 0
  registered : List (Nat × Hook σ) := []

namespace Hooks

variable {σ : Type}

/-- Registers a hook under a number that was never given before. -/
def add (h : Hooks σ) (hook : Hook σ) : Nat × Hooks σ :=
  (h.next, { next := h.next + 1, registered := h.registered ++ [(h.next, hook)] })

/-- Removes a hook and says whether it was there. -/
def remove (h : Hooks σ) (n : Nat) : Bool × Hooks σ :=
  (h.registered.any (·.1 == n), { h with registered := h.registered.filter (·.1 != n) })

/-- Removes all hooks; their numbers are not given again. -/
def clear (h : Hooks σ) : Hooks σ := { h with registered := [] }

/-- Runs the hooks in order. -/
def runAll (pick : Hook σ → Option (CompileEvent → StateM σ CompileEvent)) :
    List (Nat × Hook σ) → CompileEvent → StateM σ CompileEvent
  | [], e => pure e
  | (_, hook) :: rest, e =>
    match pick hook with
    | some run => do runAll pick rest (← run e)
    | none => runAll pick rest e

def runBefore (h : Hooks σ) : CompileEvent → StateM σ CompileEvent :=
  runAll (fun | .before run => some run | _ => none) h.registered

def runAfter (h : Hooks σ) : CompileEvent → StateM σ CompileEvent :=
  runAll (fun | .after run => some run | _ => none) h.registered

/-- Tells hooks of an event in order, each when the one before it has come back. -/
def announceAll (e : CompileEvent) : List (Nat × Hook σ) → Work σ Unit
  | [] => .done ()
  | (_, .compiled run) :: rest => (run e).bind fun () => announceAll e rest
  | _ :: rest => announceAll e rest

def runCompiled (h : Hooks σ) (e : CompileEvent) : Work σ Unit := announceAll e h.registered

def runDestroyed (h : Hooks σ) : StateM σ Unit :=
  h.registered.forM fun
    | (_, .destroyed run) => run
    | _ => pure ()

end Hooks

end Bundling
