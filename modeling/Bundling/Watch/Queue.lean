import Bundling.Path

/-!
# The queue of changes

Changes of files wait in a queue and are taken one at a time, in the order in which they arrived. The
queue knows whether a change is being processed, and from that and from what is waiting it tells its
state to those who watch it.
-/

namespace Bundling.Watch

/-- What a watch loop is doing. -/
inductive State where
  /-- It has not been started. -/
  | idle
  /-- It waits for changes. -/
  | watching
  /-- Changes are waiting. -/
  | queued
  /-- A change is being processed. -/
  | recompiling
  /-- It has been stopped for good. -/
  | disposed
  deriving DecidableEq

def State.text : State → String
  | idle => "Idle"
  | watching => "Watching"
  | queued => "Queued"
  | recompiling => "Recompiling"
  | disposed => "Disposed"

structure Queue where
  state : State := .idle
  /-- The changes that are waiting or being processed. -/
  pending : Nat := 0
  waiting : List Path := []
  /-- Whether it may still be started. -/
  startable : Bool := true
  deriving DecidableEq

namespace Queue

/-- The state of a queue in which nothing is being processed. -/
def restState (pending : Nat) : State := if pending = 0 then .watching else .queued

/-- Adds a change at the end and says whether it was accepted; after the end none is. -/
def push (q : Queue) (change : Path) : Bool × Queue :=
  if q.state = .disposed then (false, q)
  else (true, { q with
    pending := q.pending + 1
    waiting := q.waiting ++ [change]
    state := if q.state = .watching then .queued else q.state })

/-- Starts the queue, once; none where it was started or stopped before. -/
def start? (q : Queue) : Option Queue :=
  if q.startable then some { q with state := restState q.pending, startable := false } else none

/-- Takes the first change, to process it. -/
def take? (q : Queue) : Option (Path × Queue) :=
  match q.waiting with
  | [] => none
  | change :: rest =>
    if q.state = .disposed then none
    else some (change, { q with waiting := rest, state := .recompiling })

/-- The change that was taken is done with. -/
def finish (q : Queue) : Queue :=
  let pending := q.pending - 1
  { q with
    pending := pending
    state := if q.state = .disposed then .disposed else restState pending }

/-- Stops the queue; what is waiting is dropped. -/
def dispose (q : Queue) : Queue := { q with state := .disposed, waiting := [], startable := false }

end Queue

end Bundling.Watch
