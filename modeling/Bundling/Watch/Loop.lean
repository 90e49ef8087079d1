import Bundling.Bundler.Basic
import Bundling.Pattern.Glob
import Bundling.Watch.Queue

/-!
# Watch loops

A watch loop processes changes of files one at a time. The file of a change is read again if it is in
the graph, the output may be made anew, and callbacks are told what happens. A failure is reported and
the loop goes on.

A change goes through stages, and between any two of them the clock, the files and the queue may go
on: `Loop.step` is all that the loop does at a time.
-/

namespace Bundling.Watch

variable {σ : Type}

/-- Callbacks and filters of a loop. -/
structure Options (σ : Type) where
  /-- Patterns for the paths whose changes are passed over. -/
  ignored : List String := []
  ready : StateM σ Unit := pure ()
  /-- A module is about to be compiled anew. -/
  before : Path → StateM σ Unit := fun _ => pure ()
  /-- A module has been compiled anew, or why it has not. -/
  after : Path → Except BundleError Unit → StateM σ Unit := fun _ _ => pure ()
  failed : BundleError → StateM σ Unit := fun _ => pure ()
  /-- Makes the output anew once a module has been compiled anew. -/
  rebuild : Option (StateM (Session σ) (Except BundleError Unit)) := none

/-- How far the loop is with the change that it has taken. -/
inductive Job where
  /-- None is taken. -/
  | none
  /-- The file is being read and compiled. -/
  | reading (change : Path) (call : Graph.Call)
  /-- The module is compiled and the output is to be made. -/
  | rebuilding (change : Path)
  deriving DecidableEq

structure Loop (σ : Type) where
  options : Options σ
  ignored : List Pattern
  queue : Queue := {}
  /-- Whether changes are being taken. -/
  running : Bool := false
  job : Job := .none

namespace Loop

/-- The patterns of some globs, up to the first that is none. -/
def patterns : List String → Except BundleError (List Pattern)
  | [] => .ok []
  | g :: gs => do
    match Glob.pattern? g with
    | some p => return p :: (← patterns gs)
    | none => .error (.invalidConfig ("invalid watch ignore pattern '" ++ g ++ "'"))

/-- A loop that is not started. -/
def ofOptions (options : Options σ) : Except BundleError (Loop σ) := do
  return { options, ignored := ← patterns options.ignored }

def state (l : Loop σ) : State := l.queue.state

/-- Whether changes of a file are passed over. Patterns are held against the path, and against the
path seen from the root. -/
def ignores (l : Loop σ) (root path : Path) : Bool :=
  l.ignored.any fun p => Glob.holds p path.octets ||
    match path.below? root with
    | some way => Glob.holds p way.octets
    | none => false

/-- Puts a change into the queue and says whether it was accepted. A relative path is seen from the
root. -/
def push (l : Loop σ) (root path : Path) : Bool × Loop σ :=
  let path := root.join path
  if l.ignores root path then (false, l)
  else
    let (accepted, queue) := l.queue.push path
    (accepted, { l with queue := queue })

/-- Acts on the state of the plugins. -/
def tell (m : StateM σ Unit) : StateM (Session σ) Unit := Session.onGraph fun g => g.act m

/-- Starts to take changes. -/
def start (l : Loop σ) : StateM (Session σ) (Except BundleError Unit × Loop σ) := do
  match l.queue.start? with
  | none => return (.error (.watch "watch loop already started"), l)
  | some queue =>
    tell l.options.ready
    return (.ok (), { l with queue := queue, running := true })

/-- Reports what has come of a change, and is done with it. -/
def report (l : Loop σ) (change : Path) (r : Except BundleError Unit) :
    StateM (Session σ) (Loop σ) := do
  match r with
  | .error e => tell (l.options.failed e)
  | .ok () => pure ()
  tell (l.options.after change r)
  return { l with job := .none, queue := l.queue.finish }

/-- Takes a change, if there is one. A file that is not in the graph is passed over. -/
def take (tools : Toolchain σ) (l : Loop σ) : StateM (Session σ) (Loop σ) := do
  match l.queue.take? with
  | none => return l
  | some (change, queue) =>
    if (← get).graph.containsPath tools.root change then
      tell (l.options.before change)
      return { l with queue := queue, job := .reading change (.asked (.read change)) }
    else return { l with queue := queue.finish }

/-- One step of a loop that is running. A loop that was stopped still finishes its change. -/
def step (tools : Toolchain σ) (l : Loop σ) : StateM (Session σ) (Loop σ) := do
  match l.job with
  | .none => if l.running then l.take tools else return l
  | .reading change call =>
    let call ← Session.onGraph fun g => g.poll tools call
    match (← get).graph.result? call with
    | none => return { l with job := .reading change call }
    | some (.error e) => l.report change (.error (.compile e))
    | some (.ok ()) =>
      if l.options.rebuild.isSome then return { l with job := .rebuilding change }
      else l.report change (.ok ())
  | .rebuilding change =>
    match l.options.rebuild with
    | some rebuild => l.report change (← rebuild)
    | none => l.report change (.ok ())

/-- Whether those who wait for the loop need not wait any longer. -/
def isSettled (l : Loop σ) : Bool := l.state == .watching || l.state == .disposed

/-- One round: the clock ticks and the loop makes a step. -/
def round (tools : Toolchain σ) (l : Loop σ) : StateM (Session σ) (Loop σ) := do
  Session.onGraph fun g => ((), g.tick)
  l.step tools

/-- Rounds until the loop is settled, at most so many. -/
def settle (tools : Toolchain σ) : (limit : Nat) → Loop σ → StateM (Session σ) (Loop σ)
  | 0, l => pure l
  | limit + 1, l => do
    if l.isSettled then return l
    else settle tools limit (← l.round tools)

/-- Rounds until no change is being processed, at most so many. -/
def finishJob (tools : Toolchain σ) : (limit : Nat) → Loop σ → StateM (Session σ) (Loop σ)
  | 0, l => pure l
  | limit + 1, l => do
    if l.job = .none then return l
    else finishJob tools limit (← l.round tools)

/-- Stops the loop for good: a change that is being processed is finished, and what is waiting is
dropped. -/
def dispose (tools : Toolchain σ) (l : Loop σ) : StateM (Session σ) (Loop σ) :=
  finishJob tools tools.fuel { l with queue := l.queue.dispose, running := false }

end Loop

end Bundling.Watch
