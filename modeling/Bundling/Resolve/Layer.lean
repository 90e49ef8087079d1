import Bundling.Resolve.Activity

/-!
# The resolution layer

Resolvers are asked in order and the first answer wins. Attempts with side effects run under a lock:
at most one for a key at a time, every caller that finds the lock gets the outcome of the attempt that
holds it, and the lock goes when the attempt settles. A caller that has its outcome still waits for
the attempts that are pending at that moment.

Callers are threads, and so are attempts. `poll` carries a thread on until it is finished or has to
wait: for the clock, or for an attempt that cannot go on either. Whoever waits for an attempt carries
it on. Nothing else happens between two polls, so a history of the layer is a list of polls and ticks
of the clock.
-/

namespace Bundling.Resolution

/-- The question that a chain of resolvers is asked. -/
structure Query where
  request : String
  importer : Option ModuleId
  /-- The place in the chain that is passed over. -/
  skip : Option Nat := none
  deriving DecidableEq

/-- What a thread comes back to. -/
inductive Frame (σ : Type) where
  /-- The resolver at a place of the chain is at work on a query. -/
  | resolver (q : Query) (index : Nat)
  /-- An activity has asked the chain. -/
  | asker (next : Resolved → Activity σ)

/-- What a thread is about to do. -/
inductive Control (σ : Type) where
  | act (a : Activity σ)
  /-- The chain goes on with the resolver at a place. -/
  | chain (q : Query) (index : Nat)
  /-- The chain has answered. -/
  | answered (r : Resolved)
  | paused (wake : Nat) (next : Activity σ)
  /-- Waits for an attempt. -/
  | joined (attempt : Nat) (next : Resolved → Activity σ)
  /-- Has an outcome, and waits for attempts that were pending then. -/
  | settling (others : List Nat) (r : Resolved) (next : Resolved → Activity σ)
  | finished (r : Resolved)

/-- A caller or an attempt on its way. -/
structure Thread (σ : Type) where
  control : Control σ
  stack : List (Frame σ) := []
  /-- The resolver on whose behalf an attempt is made. -/
  home : Option Nat := none

namespace Thread

variable {σ : Type}

/-- A caller that asks the whole chain. -/
def resolving (request : String) (importer : Option ModuleId) : Thread σ :=
  { control := .chain { request, importer } 0 }

/-- A caller that acts by itself. -/
def acting (a : Activity σ) : Thread σ := { control := .act a }

def result? (t : Thread σ) : Option Resolved :=
  match t.control with
  | .finished r => some r
  | _ => none

/-- The resolver that is at work. -/
def worker (t : Thread σ) : Option Nat :=
  match t.stack with
  | .resolver _ i :: _ => some i
  | _ => t.home

end Thread

/-- How far an attempt is. -/
inductive Progress (σ : Type) where
  | running (t : Thread σ)
  /-- Is being carried on at this very moment. -/
  | busy
  | settled (r : Resolved)

structure Attempt (σ : Type) where
  key : String
  progress : Progress σ

/-- The state of the layer: the state that resolvers act on, the clock, the locks, and all attempts
ever made, which are known by their number. -/
structure State (σ : Type) where
  env : σ
  clock : Nat := 0
  locks : List (String × Nat) := []
  attempts : List (Attempt σ) := []

namespace State

variable {σ : Type}

/-- The keys that are locked, in order. -/
def pendingKeys (s : State σ) : List String := (s.locks.map (·.1)).mergeSort (· ≤ ·)

/-- Starts a round. -/
def tick (s : State σ) : State σ := { s with clock := s.clock + 1 }

def outcome? (s : State σ) (attempt : Nat) : Option Resolved :=
  match s.attempts[attempt]? with
  | some { progress := .settled r, .. } => some r
  | _ => none

/-- Sets how far an attempt is. -/
def setProgress (s : State σ) (attempt : Nat) (p : Progress σ) : State σ :=
  { s with attempts := s.attempts.modify attempt fun a => { a with progress := p } }

/-- An attempt has its outcome: the lock goes. -/
def settle (s : State σ) (attempt : Nat) (r : Resolved) : State σ :=
  { s.setProgress attempt (.settled r) with locks := s.locks.filter (·.2 != attempt) }

/-- The attempt that holds the lock of a key; if there is none, a new one. -/
def lock (s : State σ) (key : String) (home : Option Nat) (a : Activity σ) : Nat × State σ :=
  match s.locks.lookup key with
  | some n => (n, s)
  | none =>
    let n := s.attempts.length
    let attempt : Attempt σ := ⟨key, .running { control := .act a, home }⟩
    (n, { s with locks := s.locks ++ [(key, n)], attempts := s.attempts ++ [attempt] })

end State

section

variable {σ : Type}

/-- One step of a thread that needs no other thread; none where it has to wait. -/
def Thread.advance? (chain : List (Resolver σ)) (s : State σ) (t : Thread σ) :
    Option (State σ × Thread σ) :=
  match t.control with
  | .finished _ => none
  | .act (.answer r) =>
    match t.stack with
    | .resolver _ _ :: rest => some (s, { t with control := .answered r, stack := rest })
    | _ => some (s, { t with control := .finished r })
  | .act .defer =>
    match t.stack with
    | .resolver q i :: rest => some (s, { t with control := .chain q (i + 1), stack := rest })
    | _ => some (s, { t with control := .finished (.error (.notFound "" none)) })
  | .act (.step f) =>
    let (a, env) := f s.env
    some ({ s with env := env }, { t with control := .act a })
  | .act (.pause rounds next) =>
    some (s, { t with control := if rounds = 0 then .act next else .paused (s.clock + rounds) next })
  | .act (.ask request importer next) =>
    some (s, { t with
      control := .chain { request, importer, skip := t.worker } 0
      stack := .asker next :: t.stack })
  | .act (.share key attempt next) =>
    let (n, s) := s.lock key t.worker attempt
    some (s, { t with control := .joined n next })
  | .act (.pending next) => some (s, { t with control := .act (next s.pendingKeys) })
  | .chain q i =>
    match chain[i]? with
    | none => some (s, { t with control := .answered (.error (.notFound q.request q.importer)) })
    | some resolver =>
      if q.skip = some i then some (s, { t with control := .chain q (i + 1) })
      else some (s, { t with
        control := .act (resolver.resolve q.request q.importer)
        stack := .resolver q i :: t.stack })
  | .answered r =>
    match t.stack with
    | .asker next :: rest => some (s, { t with control := .act (next r), stack := rest })
    | _ => some (s, { t with control := .finished r })
  | .paused wake next =>
    if wake ≤ s.clock then some (s, { t with control := .act next }) else none
  | .joined n next =>
    (s.outcome? n).map fun r =>
      (s, { t with control := .settling (s.locks.map (·.2)) r next })
  | .settling others r next =>
    if others.all fun n => (s.outcome? n).isSome then some (s, { t with control := .act (next r) })
    else none

/-- The attempts a thread waits for, in order. -/
def Thread.awaited (s : State σ) (t : Thread σ) : List Nat :=
  match t.control with
  | .joined n _ => [n]
  | .settling others _ _ => others.filter fun n => (s.outcome? n).isNone
  | _ => []

mutual

/-- Carries a thread on until it is finished or has to wait. -/
def poll (chain : List (Resolver σ)) : (fuel : Nat) → State σ → Thread σ → State σ × Thread σ
  | 0, s, t => (s, t)
  | fuel + 1, s, t =>
    match t.advance? chain s with
    | some (s, t) => poll chain fuel s t
    | none =>
      let s := pollAttempts chain fuel s (t.awaited s)
      match t.advance? chain s with
      | some (s, t) => poll chain fuel s t
      | none => (s, t)

/-- Carries attempts on, each as far as it goes. -/
def pollAttempts (chain : List (Resolver σ)) : (fuel : Nat) → State σ → List Nat → State σ
  | 0, s, _ => s
  | _ + 1, s, [] => s
  | fuel + 1, s, n :: ns =>
    match s.attempts[n]? with
    | some { progress := .running t, .. } =>
      let (s, t) := poll chain fuel (s.setProgress n .busy) t
      let s := match t.control with
        | .finished r => s.settle n r
        | _ => s.setProgress n (.running t)
      pollAttempts chain fuel s ns
    | _ => pollAttempts chain fuel s ns

end

/-- Carries all threads on once, in order. -/
def pollAll (chain : List (Resolver σ)) (fuel : Nat) (s : State σ) (ts : List (Thread σ)) :
    State σ × List (Thread σ) :=
  ts.foldl (fun (s, done) t =>
    let (s, t) := poll chain fuel s t
    (s, done ++ [t])) (s, [])

/-- One round: the clock ticks and all threads are carried on. -/
def round (chain : List (Resolver σ)) (fuel : Nat) (s : State σ) (ts : List (Thread σ)) :
    State σ × List (Thread σ) := pollAll chain fuel s.tick ts

/-- Rounds until all threads are finished, at most so many. -/
def rounds (chain : List (Resolver σ)) (fuel : Nat) :
    (limit : Nat) → State σ → List (Thread σ) → State σ × List (Thread σ)
  | 0, s, ts => (s, ts)
  | limit + 1, s, ts =>
    if ts.all fun t => t.result?.isSome then (s, ts)
    else
      let (s, ts) := round chain fuel s ts
      rounds chain fuel limit s ts

/-! ## Histories -/

/-- One event of a history: a round starts, or one of the callers is carried on. -/
inductive Event where
  | tick
  | poll (caller : Nat)
  deriving DecidableEq

/-- Carries out one event. -/
def Event.apply (chain : List (Resolver σ)) (fuel : Nat) (s : State σ) (ts : List (Thread σ)) :
    Event → State σ × List (Thread σ)
  | .tick => (s.tick, ts)
  | .poll i =>
    match ts[i]? with
    | some t =>
      let (s, t) := Resolution.poll chain fuel s t
      (s, ts.set i t)
    | none => (s, ts)

/-- Carries out a history. -/
def history (chain : List (Resolver σ)) (fuel : Nat) (s : State σ) (ts : List (Thread σ))
    (events : List Event) : State σ × List (Thread σ) :=
  events.foldl (fun (s, ts) e => e.apply chain fuel s ts) (s, ts)

end

end Bundling.Resolution
