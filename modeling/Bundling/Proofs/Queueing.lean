import Bundling.Proofs.Watching

/-!
# What the queue of changes tells

The state of a queue and the number of changes that it counts, along any calls of a watch loop: changes are pushed at any
time, the loop is started once, changes are taken one at a time once it is started, and it may be stopped at any time, also
while a change is being processed. An `Account` has, besides the queue, the change that is being processed and what has
become of all others, and `Balanced` says how the queue agrees with it. All that a loop does are such calls
(`Loop.exists_account`).
-/

namespace Bundling.Watch

/-- A queue, the change that was taken and is not done with, and the changes that were accepted and those that are done
with, each in order. -/
structure Account where
  queue : Queue := {}
  held : Option Path := none
  accepted : List Path := []
  finished : List Path := []
  deriving DecidableEq

/-- What a watch loop asks of its queue. -/
inductive Call where
  | push (change : Path)
  | start
  | take
  | finish
  | dispose
  deriving DecidableEq

namespace Account

/-- What comes of a call; none where a loop does not make it. A loop is started once, and unless it was stopped. It takes
a change when it is started, done with the one before and not stopped, and is done with one only after it has taken it. -/
def call (a : Account) : Call → Option Account
  | .push change =>
    let (accepted,queue) := a.queue.push change
    some { a with queue, accepted := if accepted then a.accepted ++ [change] else a.accepted }
  | .start => a.queue.start?.map fun queue => { a with queue }
  | .take =>
    if a.queue.startable || a.held.isSome then none
    else a.queue.take?.map fun (change,queue) => { a with queue, held := some change }
  | .finish => a.held.map fun change =>
    { a with queue := a.queue.finish, held := none, finished := a.finished ++ [change] }
  | .dispose => some { a with queue := a.queue.dispose }

/-- What comes of calls in order. -/
def run (a : Account) (calls : List Call) : Option Account := calls.foldlM call a

variable {a b c : Account} {change : Path}

theorem run_cons_iff {asked : Call} {calls : List Call} :
    a.run (asked :: calls) = some c ↔ ∃ b, a.call asked = some b ∧ b.run calls = some c := by
  rw [run,List.foldlM_cons]
  exact Option.bind_eq_some_iff

theorem run_append_iff {calls more : List Call} :
    a.run (calls ++ more) = some c ↔ ∃ b, a.run calls = some b ∧ b.run more = some c := by
  rw [run,List.foldlM_append]
  exact Option.bind_eq_some_iff

/-! ## The calls -/

theorem call_push (a : Account) (change : Path) :
    a.queue.state = .disposed ∧ a.call (.push change) = some a ∨
      a.queue.state ≠ .disposed ∧ a.call (.push change) = some { a with
        queue := { a.queue with
          pending := a.queue.pending + 1
          waiting := a.queue.waiting ++ [change]
          state := if a.queue.state = .watching then .queued else a.queue.state }
        accepted := a.accepted ++ [change] } := by
  by_cases disposed : a.queue.state = .disposed
  · exact .inl ⟨disposed,by simp [call,Queue.push,disposed]⟩
  · exact .inr ⟨disposed,by simp [call,Queue.push,disposed]⟩

theorem call_start (called : a.call .start = some b) : a.queue.startable = true ∧
    b = { a with queue := { a.queue with state := Queue.restState a.queue.pending, startable := false } } := by
  obtain ⟨queue,started,rfl⟩ := Option.map_eq_some_iff.mp called
  unfold Queue.start? at started
  split at started
  · rename_i startable
    cases started
    exact ⟨startable,rfl⟩
  · cases started

theorem call_take (called : a.call .take = some b) :
    a.queue.startable = false ∧ a.held = none ∧ a.queue.state ≠ .disposed ∧ ∃ change rest,
      a.queue.waiting = change :: rest ∧
        b = { a with queue := { a.queue with waiting := rest, state := .recompiling }, held := some change } := by
  simp only [call] at called
  split at called
  · cases called
  · rename_i free
    obtain ⟨started,free⟩ : a.queue.startable = false ∧ a.held = none := by simpa using free
    obtain ⟨⟨change,queue⟩,took,rfl⟩ := Option.map_eq_some_iff.mp called
    have alive : a.queue.state ≠ .disposed := by
      intro disposed
      unfold Queue.take? at took
      split at took <;> simp [disposed] at took
    obtain ⟨rest,waiting,rfl⟩ := Queue.take?_eq took
    exact ⟨started,free,alive,change,rest,waiting,rfl⟩

theorem call_finish (called : a.call .finish = some b) : ∃ change, a.held = some change ∧
    b = { a with queue := a.queue.finish, held := none, finished := a.finished ++ [change] } := by
  obtain ⟨change,held,rfl⟩ := Option.map_eq_some_iff.mp called
  exact ⟨change,held,rfl⟩

/-! ## Whether the queue was started and stopped -/

theorem restState_ne_disposed (pending : Nat) : Queue.restState pending ≠ .disposed := by
  unfold Queue.restState
  split <;> exact nofun

/-- A queue can be started until it is started or stopped. -/
theorem startable_call {asked : Call} (called : a.call asked = some b) :
    b.queue.startable = false ↔ a.queue.startable = false ∨ asked = .start ∨ asked = .dispose := by
  cases asked with
  | push change =>
    rcases a.call_push change with ⟨-,same⟩ | ⟨-,same⟩ <;> cases same.symm.trans called <;> simp
  | start =>
    obtain ⟨-,rfl⟩ := call_start called
    simp
  | take =>
    obtain ⟨started,-,-,change,rest,-,rfl⟩ := call_take called
    simp [started]
  | finish =>
    obtain ⟨change,-,rfl⟩ := call_finish called
    simp [Queue.finish]
  | dispose =>
    cases called
    simp [Queue.dispose]

/-- A queue is disposed of when it is stopped, and stays so. -/
theorem disposed_call {asked : Call} (called : a.call asked = some b)
    (idle : a.queue.startable = true → a.queue.state = .idle) :
    b.queue.state = .disposed ↔ a.queue.state = .disposed ∨ asked = .dispose := by
  cases asked with
  | push change =>
    rcases a.call_push change with ⟨-,same⟩ | ⟨alive,same⟩ <;> cases same.symm.trans called
    · simp
    · by_cases watching : a.queue.state = .watching
      · simp [watching]
      · simp [watching]
  | start =>
    obtain ⟨startable,rfl⟩ := call_start called
    simp [idle startable,restState_ne_disposed]
  | take =>
    obtain ⟨-,-,alive,change,rest,-,rfl⟩ := call_take called
    simp [alive]
  | finish =>
    obtain ⟨change,-,rfl⟩ := call_finish called
    by_cases disposed : a.queue.state = .disposed
    · simp [Queue.finish,disposed]
    · simp [Queue.finish,disposed,restState_ne_disposed]
  | dispose =>
    cases called
    simp [Queue.dispose]

/-! ## The balance -/

/-- The queue agrees with what has become of the changes. -/
structure Balanced (a : Account) : Prop where
  idle : a.queue.startable = true → a.queue.state = .idle ∧ a.held = none
  line : a.queue.state ≠ .disposed → a.accepted = a.finished ++ a.held.toList ++ a.queue.waiting
  pending : a.queue.state ≠ .disposed → a.queue.pending = a.queue.waiting.length + a.held.toList.length
  /-- The change that is being processed counts, also if the queue has been stopped since it was taken. -/
  counted : a.held ≠ none → 0 < a.queue.pending
  state : a.queue.startable = false → a.queue.state ≠ .disposed →
    a.queue.state = if a.held.isSome then .recompiling else Queue.restState a.queue.pending

theorem Balanced.start : Balanced {} := by
  constructor <;> simp

theorem Balanced.call (balanced : Balanced a) {asked : Call} (called : a.call asked = some b) : Balanced b := by
  cases asked with
  | push change =>
    rcases a.call_push change with ⟨-,same⟩ | ⟨alive,same⟩ <;> cases same.symm.trans called
    · exact balanced
    · refine ⟨fun startable => ?_,fun _ => ?_,fun _ => ?_,fun _ => Nat.succ_pos _,fun started _ => ?_⟩
      · obtain ⟨idle,free⟩ := balanced.idle startable
        exact ⟨by simp [idle],free⟩
      · simp [balanced.line alive]
      · simp only [balanced.pending alive,List.length_append,List.length_singleton]
        omega
      · -- Of the states of a queue that was started, only the one without a change becomes another one.
        have state := balanced.state started alive
        cases busy : a.held.isSome with
        | true => simp [state,busy]
        | false =>
          simp only [busy,Bool.false_eq_true,if_false] at state ⊢
          by_cases none : a.queue.pending = 0
          · simp [state,Queue.restState,none]
          · simp [state,Queue.restState,none]
  | start =>
    obtain ⟨startable,rfl⟩ := call_start called
    obtain ⟨idle,free⟩ := balanced.idle startable
    have alive : a.queue.state ≠ .disposed := by simp [idle]
    refine ⟨fun startable => ?_,fun _ => balanced.line alive,fun _ => balanced.pending alive,balanced.counted,
      fun _ _ => by simp [free]⟩
    cases startable
  | take =>
    obtain ⟨started,free,alive,change,rest,waiting,rfl⟩ := call_take called
    have pending := balanced.pending alive
    rw [waiting,free] at pending
    refine ⟨fun startable => ?_,fun _ => ?_,fun _ => ?_,fun _ => ?_,fun _ _ => rfl⟩
    · exact absurd startable (by simp [started])
    · simp [balanced.line alive,waiting,free]
    · simp [pending]
    · show 0 < a.queue.pending
      rw [pending,List.length_cons]
      omega
  | finish =>
    obtain ⟨change,held,rfl⟩ := call_finish called
    have kept : a.queue.finish.state ≠ .disposed → a.queue.state ≠ .disposed := by
      intro alive disposed
      exact alive (by simp [Queue.finish,disposed])
    refine ⟨fun startable => ?_,fun alive => ?_,fun alive => ?_,fun held => absurd rfl held,fun _ alive => ?_⟩
    · have free := (balanced.idle startable).2
      rw [held] at free
      cases free
    · simp [balanced.line (kept alive),held,Queue.finish]
    · simp [balanced.pending (kept alive),held,Queue.finish]
    · simp [Queue.finish,kept alive]
  | dispose =>
    cases called
    refine ⟨fun startable => ?_,fun alive => absurd rfl alive,fun alive => absurd rfl alive,balanced.counted,
      fun _ alive => absurd rfl alive⟩
    cases startable

theorem Balanced.run (balanced : Balanced a) {calls : List Call} (ran : a.run calls = some b) : Balanced b := by
  induction calls generalizing a with
  | nil =>
    cases ran
    exact balanced
  | cons asked calls ih =>
    obtain ⟨next,called,ran⟩ := run_cons_iff.mp ran
    exact ih (balanced.call called) ran

/-- While the queue says that it is watching, all changes that were accepted are done with. -/
theorem Balanced.watching (balanced : Balanced a) (watching : a.queue.state = .watching) : a.accepted = a.finished := by
  have alive : a.queue.state ≠ .disposed := by simp [watching]
  have running : a.queue.startable = false := by
    by_contra startable
    have idle := (balanced.idle (by simpa using startable)).1
    simp [watching] at idle
  have state := balanced.state running alive
  rw [watching] at state
  have free : a.held = Option.none := by
    by_contra busy
    simp [Option.isSome_iff_ne_none.mpr busy] at state
  have none : a.queue.pending = 0 := by
    by_contra some
    simp [free,Queue.restState,some] at state
  have waiting : a.queue.waiting = [] := by
    have pending := balanced.pending alive
    exact List.eq_nil_of_length_eq_zero (by omega)
  simpa [free,waiting] using balanced.line alive

theorem startable_run {calls : List Call} (ran : a.run calls = some b) :
    b.queue.startable = false ↔ a.queue.startable = false ∨ .start ∈ calls ∨ .dispose ∈ calls := by
  induction calls generalizing a with
  | nil =>
    cases ran
    simp
  | cons asked calls ih =>
    obtain ⟨next,called,ran⟩ := run_cons_iff.mp ran
    rw [ih ran,startable_call called,List.mem_cons,List.mem_cons,eq_comm (b := asked),eq_comm (b := asked)]
    tauto

theorem disposed_run (balanced : Balanced a) {calls : List Call} (ran : a.run calls = some b) :
    b.queue.state = .disposed ↔ a.queue.state = .disposed ∨ .dispose ∈ calls := by
  induction calls generalizing a with
  | nil =>
    cases ran
    simp
  | cons asked calls ih =>
    obtain ⟨next,called,ran⟩ := run_cons_iff.mp ran
    rw [ih (balanced.call called) ran,disposed_call called fun startable => (balanced.idle startable).1,List.mem_cons,
      eq_comm (b := asked),or_assoc]

/-- Once the queue is disposed of, no change is accepted and none is taken. -/
theorem run_disposed (balanced : Balanced a) (disposed : a.queue.state = .disposed) {calls : List Call}
    (ran : a.run calls = some b) : b.accepted = a.accepted ∧ .take ∉ calls := by
  induction calls generalizing a with
  | nil =>
    cases ran
    exact ⟨rfl,List.not_mem_nil⟩
  | cons asked calls ih =>
    obtain ⟨next,called,ran⟩ := run_cons_iff.mp ran
    have still := (disposed_call called fun startable => (balanced.idle startable).1).mpr (.inl disposed)
    obtain ⟨accepted,untaken⟩ := ih (balanced.call called) still ran
    rw [accepted,List.mem_cons,not_or]
    cases asked with
    | push change =>
      rcases a.call_push change with ⟨-,same⟩ | ⟨alive,-⟩
      · cases same.symm.trans called
        exact ⟨rfl,nofun,untaken⟩
      · exact absurd disposed alive
    | start =>
      obtain ⟨-,rfl⟩ := call_start called
      exact ⟨rfl,nofun,untaken⟩
    | take => exact absurd disposed (call_take called).2.2.1
    | finish =>
      obtain ⟨change,-,rfl⟩ := call_finish called
      exact ⟨rfl,nofun,untaken⟩
    | dispose =>
      cases called
      exact ⟨rfl,nofun,untaken⟩

/-- Whatever calls a watch loop has made of its queue since it was made: until it is stopped, the queue counts the changes
that wait and the one that is being processed, and these and those that are done with are all that were accepted; whenever
a change is done with, it counts one less. Between start and stop it says that a change is being processed exactly if there
is one, and else whether any are waiting, so that it only says that it is watching when all accepted changes are done with.
Once it is stopped it stays so, accepts no change and gives none to process. -/
theorem state_agrees {calls : List Call} {a : Account} (ran : run {} calls = some a) :
    (.dispose ∉ calls → a.queue.pending = a.queue.waiting.length + a.held.toList.length ∧
      a.accepted = a.finished ++ a.held.toList ++ a.queue.waiting) ∧
    (∀ b, a.call .finish = some b → b.queue.pending + 1 = a.queue.pending) ∧
    (.start ∈ calls → .dispose ∉ calls → a.queue.state =
      if a.held.isSome then .recompiling else if 0 < a.queue.pending then .queued else .watching) ∧
    (a.queue.state = .watching → a.accepted = a.finished) ∧
    (a.queue.state = .disposed ↔ .dispose ∈ calls) ∧
    (a.queue.state = .disposed → ∀ later b, a.run later = some b →
      b.queue.state = .disposed ∧ b.accepted = a.accepted ∧ .take ∉ later) := by
  have balanced := Balanced.start.run ran
  have stopped : a.queue.state = .disposed ↔ .dispose ∈ calls := by simpa using disposed_run .start ran
  have started : a.queue.startable = false ↔ .start ∈ calls ∨ .dispose ∈ calls := by simpa using startable_run ran
  refine ⟨fun running => ?_,fun b called => ?_,fun running live => ?_,fun watching => ?_,stopped,
    fun disposed later b more => ?_⟩
  · have alive := mt stopped.mp running
    exact ⟨balanced.pending alive,balanced.line alive⟩
  · obtain ⟨change,held,rfl⟩ := call_finish called
    have counted := balanced.counted (by simp [held])
    simp only [Queue.finish]
    omega
  · have state := balanced.state (started.mpr (.inl running)) (mt stopped.mp live)
    rw [state,Queue.restState]
    by_cases none : a.queue.pending = 0
    · simp [none]
    · simp [none,Nat.pos_of_ne_zero none]
  · exact balanced.watching watching
  · exact ⟨(disposed_run balanced more).mpr (.inl disposed),run_disposed balanced disposed more⟩

/-- A change is pushed before the start and taken, another one comes while it is being processed. -/
def course : List Call := [.push ⟨"a.js"⟩,.start,.take,.push ⟨"b.js"⟩]

theorem state_agrees_course :
    (∃ a, run {} course = some a ∧ a.held = some ⟨"a.js"⟩ ∧ a.queue.waiting = [⟨"b.js"⟩] ∧
      a.queue.pending = a.queue.waiting.length + a.held.toList.length ∧ a.queue.state =
        if a.held.isSome then .recompiling else if 0 < a.queue.pending then .queued else .watching) ∧
    ∃ a, run {} (course ++ [.dispose]) = some a ∧ a.held = some ⟨"a.js"⟩ ∧ ∀ later b, a.run later = some b →
      b.queue.state = .disposed ∧ b.accepted = a.accepted ∧ .take ∉ later := by
  have ran : run {} course = some
      { queue := { state := .recompiling, pending := 2, waiting := [⟨"b.js"⟩], startable := false }
        held := some ⟨"a.js"⟩, accepted := [⟨"a.js"⟩,⟨"b.js"⟩] } := by decide
  have ended : run {} (course ++ [.dispose]) = some
      { queue := { state := .disposed, pending := 2, startable := false }
        held := some ⟨"a.js"⟩, accepted := [⟨"a.js"⟩,⟨"b.js"⟩] } := by decide
  obtain ⟨counts,-,state,-⟩ := state_agrees ran
  exact ⟨⟨_,ran,rfl,rfl,(counts (by decide)).1,state (by decide) (by decide)⟩,
    ⟨_,ended,rfl,(state_agrees ended).2.2.2.2.2 rfl⟩⟩

end Account

/-! ## Loops -/

variable {σ : Type}

namespace Loop

/-- What is done with a loop. Between any two of these the session may become any other one. -/
inductive Action (σ : Type) where
  | push (root path : Path)
  | start (s : Session σ)
  | step (tools : Toolchain σ) (s : Session σ)
  | stop

/-- The loop is stopped, and is still with its change. -/
def stop (l : Loop σ) : Loop σ := { l with queue := l.queue.dispose, running := false }

def act (l : Loop σ) : Action σ → Loop σ
  | .push root path => (l.push root path).2
  | .start s => (l.start s).1.2
  | .step tools s => (l.step tools s).1
  | .stop => l.stop

/-- What comes of actions in order. -/
def acts (l : Loop σ) (actions : List (Action σ)) : Loop σ := actions.foldl act l

/-- The account is that of the loop. -/
structure Has (l : Loop σ) (a : Account) : Prop where
  queue : a.queue = l.queue
  held : a.held.toList = l.job.changes
  started : l.running = true → l.queue.startable = false

variable {l : Loop σ} {a : Account} {change : Path}

theorem report_fst (l : Loop σ) (change : Path) (r : Except BundleError Unit) (s : Session σ) :
    (l.report change r s).1 = { l with job := .none, queue := l.queue.finish } := by
  cases r <;> rfl

/-- A loop that is done with its change has made one call for it. -/
theorem Has.reported (has : l.Has a) (busy : l.job.changes = [change]) :
    ∃ b, a.run [.finish] = some b ∧ Has { l with job := .none, queue := l.queue.finish } b := by
  have held : a.held = some change := Option.toList_eq_singleton_iff.mp (has.held.trans busy)
  refine ⟨{ a with queue := a.queue.finish, held := none, finished := a.finished ++ [change] },?_,?_,rfl,has.started⟩
  · rw [Account.run,List.foldlM_cons,Account.call,held]
    rfl
  · rw [has.queue]

/-- A step of a loop makes at most two calls. -/
theorem Has.step (has : l.Has a) (tools : Toolchain σ) (s : Session σ) :
    ∃ calls b, a.run calls = some b ∧ Has (l.step tools s).1 b := by
  cases job : l.job with
  | none =>
    cases running : l.running with
    | false => exact ⟨[],a,rfl,by rw [step_stopped job running]; exact has⟩
    | true =>
      cases took : l.queue.take? with
      | none => exact ⟨[],a,rfl,by rw [step_empty job running took]; exact has⟩
      | some p =>
        obtain ⟨change,queue⟩ := p
        have free : a.held = none := Option.toList_eq_nil_iff.mp (has.held.trans (by rw [job]; rfl))
        have taken : a.call .take = some { a with queue, held := some change } := by
          simp [Account.call,has.queue,free,has.started running,took]
        obtain ⟨rest,-,same⟩ := Queue.take?_eq took
        have started : queue.startable = false := by
          rw [same]
          exact has.started running
        rw [step_taking job running took]
        by_cases present : s.graph.containsPath tools.root change
        · rw [if_pos present]
          exact ⟨[.take],_,Account.run_cons_iff.mpr ⟨_,taken,rfl⟩,rfl,rfl,fun _ => started⟩
        · rw [if_neg present]
          exact ⟨[.take,.finish],_,Account.run_cons_iff.mpr ⟨_,taken,rfl⟩,rfl,by rw [job]; rfl,fun _ => started⟩
  | reading change call =>
    obtain ⟨b,ran,ended⟩ := has.reported (by rw [job]; rfl : l.job.changes = [change])
    cases polled : s.graph.poll tools call with
    | mk call' g =>
      rw [step_reading job polled]
      have held := has.held
      rw [job] at held
      cases g.result? call' with
      | none => exact ⟨[],a,rfl,has.queue,held,has.started⟩
      | some r =>
        cases r with
        | error e => exact ⟨_,b,ran,by rw [report_fst]; exact ended⟩
        | ok u =>
          show ∃ calls b, _ ∧ Has (if l.options.rebuild.isSome then _ else _ : Loop σ × Session σ).1 b
          by_cases rebuilds : l.options.rebuild.isSome
          · rw [if_pos rebuilds]
            exact ⟨[],a,rfl,has.queue,held,has.started⟩
          · rw [if_neg rebuilds,report_fst]
            exact ⟨_,b,ran,ended⟩
  | rebuilding change =>
    obtain ⟨b,ran,ended⟩ := has.reported (by rw [job]; rfl : l.job.changes = [change])
    rw [step_rebuilding job]
    refine ⟨_,b,ran,?_⟩
    cases l.options.rebuild <;> (rw [report_fst]; exact ended)

/-- All that is done with a loop are calls. -/
theorem Has.act (has : l.Has a) (action : Action σ) : ∃ calls b, a.run calls = some b ∧ (l.act action).Has b := by
  cases action with
  | push root path =>
    show ∃ calls b, a.run calls = some b ∧ (l.push root path).2.Has b
    unfold Loop.push
    by_cases ignored : l.ignores root (root.join path)
    · exact ⟨[],a,rfl,by simpa only [ignored,if_true] using has⟩
    · simp only [ignored,Bool.false_eq_true,if_false]
      refine ⟨[.push (root.join path)],_,rfl,?_,has.held,fun running => ?_⟩
      · exact congrArg (fun q : Queue => (q.push (root.join path)).2) has.queue
      · have started := has.started running
        unfold Queue.push
        split <;> exact started
  | start s =>
    unfold Loop.act Loop.start
    cases started : l.queue.start? with
    | none => exact ⟨[],a,rfl,has⟩
    | some queue =>
      have called : a.call .start = some { a with queue } := by simp [Account.call,has.queue,started]
      refine ⟨[.start],_,Account.run_cons_iff.mpr ⟨_,called,rfl⟩,rfl,has.held,fun _ => ?_⟩
      obtain ⟨-,same⟩ := Account.call_start called
      exact congrArg (fun b : Account => b.queue.startable) same
  | step tools s => exact has.step tools s
  | stop => exact ⟨[.dispose],_,rfl,by rw [has.queue]; rfl,has.held,nofun⟩

/-- Whatever is done with a loop, from the time when it was made, what it has asked of its queue are calls that make up an
account: so all that `Account.state_agrees` says holds of the loop. -/
theorem exists_account {options : Options σ} {made : Loop σ} (new : ofOptions options = .ok made)
    (actions : List (Action σ)) : ∃ calls a, Account.run {} calls = some a ∧ (made.acts actions).Has a := by
  have begun : made.Has {} := by
    unfold ofOptions at new
    cases patterned : patterns options.ignored with
    | error e =>
      rw [patterned] at new
      cases new
    | ok ignored =>
      rw [patterned] at new
      cases new
      exact ⟨rfl,rfl,nofun⟩
  suffices ∀ (l : Loop σ) (a : Account), l.Has a → ∃ calls b, a.run calls = some b ∧ (l.acts actions).Has b from
    this made {} begun
  intro l a has
  induction actions generalizing l a with
  | nil => exact ⟨[],a,rfl,has⟩
  | cons action actions ih =>
    obtain ⟨calls,b,ran,has⟩ := has.act action
    obtain ⟨more,c,later,has⟩ := ih (l.act action) b has
    exact ⟨calls ++ more,c,Account.run_append_iff.mpr ⟨b,ran,later⟩,has⟩

/-- To dispose of a loop is to stop it and to let it make steps. -/
theorem exists_dispose (tools : Toolchain σ) (l : Loop σ) (s : Session σ) :
    ∃ steps : List (Session σ), (l.dispose tools s).1 = l.acts (.stop :: steps.map (.step tools)) := by
  have finishing : ∀ (limit : Nat) (l : Loop σ) (s : Session σ), ∃ steps : List (Session σ),
      (finishJob tools limit l s).1 = l.acts (steps.map (.step tools)) := by
    intro limit
    induction limit with
    | zero => exact fun l s => ⟨[],rfl⟩
    | succ limit ih =>
      intro l s
      unfold finishJob
      by_cases done : l.job = .none
      · exact ⟨[],by rw [if_pos done]; rfl⟩
      · rw [if_neg done]
        let ticked : Session σ := { s with graph := s.graph.tick }
        obtain ⟨steps,same⟩ := ih (l.step tools ticked).1 (l.step tools ticked).2
        exact ⟨ticked :: steps,same⟩
  obtain ⟨steps,same⟩ := finishing tools.fuel l.stop s
  exact ⟨steps,same⟩

/-- Once a loop is settled and not disposed of, all changes that were accepted are done with. -/
theorem Has.settled (has : l.Has a) {calls : List Call} (ran : Account.run {} calls = some a)
    (settled : l.isSettled = true) (live : l.state ≠ .disposed) : a.accepted = a.finished := by
  have watching : l.state = .watching := by
    simpa [isSettled,live] using settled
  refine (Account.Balanced.start.run ran).watching ?_
  rw [has.queue]
  exact watching

end Loop

end Bundling.Watch
