import Bundling.Graph.Task

/-!
# Schedules

Operations on a graph are calls, of which several may be under way. In every round the clock ticks and
each call is carried on, in order; a task that waits for others carries those on. Tasks also have
histories, in which steps and rounds come in any order.
-/

namespace Bundling.Graph

variable {σ : Type}

mutual

/-- Carries a task on until it is done or has to wait. -/
def carry (tools : Toolchain σ) : (fuel : Nat) → Graph σ → Nat → Graph σ
  | 0, g, _ => g
  | fuel + 1, g, n =>
    match g.stage? n with
    | none | some (.done _) => g
    | some (.awaiting _ children) => (carryAll tools fuel g children).step tools n
    | some stage =>
      let g := g.step tools n
      match stage, g.stage? n with
      | _, some (.paused ..) | _, some (.announcing ..) => g
      | .resolving .., some (.resolving ..) => g
      | _, _ => carry tools fuel g n

/-- Carries tasks on, in order. -/
def carryAll (tools : Toolchain σ) : (fuel : Nat) → Graph σ → List Nat → Graph σ
  | 0, g, _ => g
  | _ + 1, g, [] => g
  | fuel + 1, g, n :: ns => carryAll tools fuel (carry tools fuel g n) ns

end

/-! ## Calls -/

/-- What a graph can be asked to do. -/
inductive Request where
  /-- Read all entries. -/
  | compile
  /-- Read a file and compile it. -/
  | read (path : Path)
  /-- Compile a text as the new contents of a file. -/
  | push (path : Path) (contents : String)
  deriving DecidableEq

/-- A read that has not been asked for, or a task. -/
inductive Item where
  | wanted (id : ModuleId)
  | task (n : Nat)
  deriving DecidableEq

/-- A request on its way. -/
inductive Call where
  | asked (r : Request)
  | refused (e : ModuleIdError)
  | under (items : List Item)
  deriving DecidableEq

/-- Takes up a request. -/
def begin (tools : Toolchain σ) (g : Graph σ) : Request → Call × Graph σ
  | .compile => (.under (g.entries.map .wanted), g)
  | .read path =>
    match tools.root.toId path with
    | .ok id => (.under [.wanted id], g)
    | .error e => (.refused e, g)
  | .push path contents =>
    match tools.root.toId path with
    | .ok id =>
      let (n, g) := g.start id (.given contents)
      (.under [.task n], g)
    | .error e => (.refused e, g)

/-- Carries the items of a call on, in order. -/
def pollItems (tools : Toolchain σ) : Graph σ → List Item → List Item × Graph σ
  | g, [] => ([], g)
  | g, i :: is =>
    let (n, g) := match i with
      | .wanted id => g.join id
      | .task n => (n, g)
    let (is, g) := pollItems tools (carry tools tools.fuel g n) is
    (.task n :: is, g)

/-- Carries a call on. -/
def poll (tools : Toolchain σ) (g : Graph σ) (c : Call) : Call × Graph σ :=
  let (c, g) := match c with
    | .asked r => g.begin tools r
    | c => (c, g)
  match c with
  | .under items =>
    let (items, g) := pollItems tools g items
    (.under items, g)
  | c => (c, g)

/-- What a call came to: the first failure in the order of its items. -/
def result? (g : Graph σ) : Call → Option (Except CompileError Unit)
  | .asked _ => none
  | .refused e => some (.error (.path e))
  | .under items => do
    let outcomes ← items.mapM fun
      | .wanted _ => none
      | .task n => g.outcome? n
    return match firstError outcomes with
      | some e => .error e
      | none => .ok ()

/-- Carries all calls on once, in order. -/
def pollAll (tools : Toolchain σ) : Graph σ → List Call → List Call × Graph σ
  | g, [] => ([], g)
  | g, c :: cs =>
    let (c, g) := poll tools g c
    let (cs, g) := pollAll tools g cs
    (c :: cs, g)

/-- Starts a round. -/
def tick (g : Graph σ) : Graph σ := { g with layer := g.layer.tick }

/-- Rounds until all calls have come to an end, at most so many. -/
def rounds (tools : Toolchain σ) : (limit : Nat) → Graph σ → List Call → List Call × Graph σ
  | 0, g, cs => (cs, g)
  | limit + 1, g, cs =>
    if cs.all fun c => (g.result? c).isSome then (cs, g)
    else
      let (cs, g) := pollAll tools g.tick cs
      rounds tools limit g cs

/-- Carries out requests side by side. There is no result where the rounds did not suffice. -/
def runAll (tools : Toolchain σ) (g : Graph σ) (rs : List Request) :
    Option (List (Except CompileError Unit)) × Graph σ :=
  let (cs, g) := rounds tools tools.fuel g (rs.map .asked)
  (cs.mapM g.result?, g)

/-- Carries out one request. -/
def run (tools : Toolchain σ) (g : Graph σ) (r : Request) :
    Option (Except CompileError Unit) × Graph σ :=
  let (results, g) := g.runAll tools [r]
  (results.bind List.head?, g)

/-! ## Histories -/

/-- One event of a history: a round starts, a read is asked for, or a task makes a step. -/
inductive Event where
  | tick
  | join (id : ModuleId)
  | step (n : Nat)
  deriving DecidableEq

def Event.apply (tools : Toolchain σ) (g : Graph σ) : Event → Graph σ
  | .tick => g.tick
  | .join id => (g.join id).2
  | .step n => g.step tools n

/-- Carries out a history. -/
def history (tools : Toolchain σ) (g : Graph σ) (events : List Event) : Graph σ :=
  events.foldl (fun g e => e.apply tools g) g

end Bundling.Graph
