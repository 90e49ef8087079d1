import Bundling.Path

/-!
# Transformers

A transformer sees a file and may give new contents, a source map and the requests it found. It may
also find that it is not applicable, or fail. Transformers act on a state `σ`, which is where a plugin
keeps what it remembers, and they may let others go on before they have their answer.
-/

namespace Bundling

/-- What is done to come to a value, as data: steps on a state, and pauses. -/
inductive Work (σ α : Type) where
  | done (a : α)
  /-- A step that nothing comes in between of; what follows may look at the state before it. -/
  | step (f : σ → σ) (next : σ → Work σ α)
  /-- Lets others go on for some rounds. -/
  | pause (rounds : Nat) (next : Work σ α)

namespace Work

variable {σ α β : Type}

/-- Work that takes one step. -/
def ofState (m : StateM σ α) : Work σ α := .step (fun s => (m s).2) fun s => .done (m s).1

/-- Goes on with what the value of some work calls for. -/
def bind : Work σ α → (α → Work σ β) → Work σ β
  | done a, k => k a
  | step f next, k => .step f fun s => (next s).bind k
  | pause rounds next, k => .pause rounds (next.bind k)

instance : Monad (Work σ) where
  pure := done
  bind := bind

/-- Does all the work; nobody is let go on at a pause. -/
def run : Work σ α → StateM σ α
  | done a, s => (a, s)
  | step f next, s => (next s).run (f s)
  | pause _ next, s => next.run s

/-- Where work stops: at its value, or at a pause that is one. -/
inductive Halt (σ α : Type) where
  | done (a : α)
  | paused (rounds : Nat) (next : Work σ α)

/-- Does work up to its next halt. -/
def go : Work σ α → σ → Halt σ α × σ
  | done a, s => (.done a, s)
  | step f next, s => (next s).go (f s)
  | pause rounds next, s => if rounds = 0 then next.go s else (.paused rounds next, s)

end Work

/-- A file as a transformer sees it. -/
structure SourceFile where
  path : Path
  contents : String
  publicPath : String

/-- What a transformer makes of a file. -/
structure TransformOutput where
  contents : String
  /-- A source map in JSON, which replaces any earlier one. -/
  sourceMap : Option String := none
  /-- Requests as written, such as `./util` or `lodash/map`. -/
  imports : List String := []
  deriving DecidableEq

/-- A source transformer. Its answer is a failure with a text, no output where it is not applicable,
or an output. -/
structure Transformer (σ : Type) where
  name : String
  transform : SourceFile → Work σ (Except String (Option TransformOutput))

end Bundling
