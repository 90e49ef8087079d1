import Bundling.Graph.Operation

/-!
# Tasks and their stages

A task is looked up by its number (`Graph.At`). Setting the stage of one task leaves all others where they are
(`Graph.at_setStage_after`); what this means for the tasks that are under way, that wait, or that have ended is said here once,
for a task that goes on and for one that ends.
-/

namespace Bundling

namespace Stage

variable {σ : Type}

/-- The module is not registered yet. -/
def Early : Stage σ → Prop
  | .awaiting .. | .done _ => False
  | _ => True

def Finished : Stage σ → Prop
  | .done _ => True
  | _ => False

/-- What is being made takes the place of some version, or of none. -/
def Replaces (previous : Option Version) : Stage σ → Prop
  | .transforming draft | .paused draft .. | .resolving draft .. | .announcing draft .. => draft.previous = previous
  | _ => False

/-- Transformers, resolvers or hooks are at work, and come back when they like. -/
def Suspended : Stage σ → Prop
  | .paused .. | .resolving .. | .announcing .. => True
  | _ => False

/-- Hooks are being told of the module. -/
def Announcing : Stage σ → Prop
  | .announcing .. => True
  | _ => False

/-- A task is left alone when a step from one stage has led to the other: it has been let go on later,
or waits for a resolution. -/
def stops : Stage σ → Stage σ → Bool
  | _, .paused .. | _, .announcing .. => true
  | .resolving .., .resolving .. => true
  | _, _ => false

/-- What is known of the module that is being made. -/
def draft? : Stage σ → Option Draft
  | .transforming draft | .paused draft .. | .resolving draft .. | .announcing draft .. => some draft
  | _ => none

theorem replaces_iff {s : Stage σ} {previous : Option Version} :
    s.Replaces previous ↔ ∃ draft, s.draft? = some draft ∧ draft.previous = previous := by
  cases s <;> simp [Replaces,draft?]

theorem Replaces.early {s : Stage σ} {previous : Option Version} (replaces : s.Replaces previous) :
    s.Early := by
  cases s <;> trivial

theorem Early.unfinished {s : Stage σ} (early : s.Early) : ¬ s.Finished := by
  cases s <;> simp_all [Early,Finished]

theorem Early.ne_awaiting {s : Stage σ} (early : s.Early) (own : Commit) (children : List Nat) :
    s ≠ .awaiting own children := by
  rintro rfl
  exact early.elim

theorem done_ne_awaiting (r : Compiled) (own : Commit) (children : List Nat) :
    (.done r : Stage σ) ≠ .awaiting own children := by
  simp

end Stage

namespace Graph

variable {σ : Type}

/-- A task is of a module and at a stage. -/
def At (g : Graph σ) (n : Nat) (id : ModuleId) (stage : Stage σ) : Prop :=
  g.tasks[n]? = some ⟨id,stage⟩

/-- A task is of a module and has not come to its end. -/
def Open (g : Graph σ) (n : Nat) (id : ModuleId) : Prop := ∃ s, g.At n id s ∧ ¬ s.Finished

/-- No operation is under way. -/
structure Resting (g : Graph σ) : Prop where
  stamped : ∀ {i v}, g.registry.get? i = some v → v.stamp < g.stamps
  finished : ∀ {m i s}, g.At m i s → s.Finished
  idle : g.inFlight = []

theorem At.unique {g : Graph σ} {n : Nat} {id id' : ModuleId} {s s' : Stage σ} (one : g.At n id s)
    (other : g.At n id' s') : id = id' ∧ s = s' := by
  have equal : (⟨id,s⟩ : Task σ) = ⟨id',s'⟩ := Option.some.inj (one.symm.trans other)
  cases equal
  exact ⟨rfl,rfl⟩

theorem At.lt {g : Graph σ} {n : Nat} {id : ModuleId} {s : Stage σ} (here : g.At n id s) :
    n < g.tasks.length := (List.getElem?_eq_some_iff.mp here).1

theorem At.stage? {g : Graph σ} {n : Nat} {id : ModuleId} {s : Stage σ} (here : g.At n id s) :
    g.stage? n = some s := by
  rw [Graph.stage?,show g.tasks[n]? = some ⟨id,s⟩ from here]
  rfl

theorem outcome?_iff {g : Graph σ} {n : Nat} {r : Compiled} :
    g.outcome? n = some r ↔ ∃ id, g.At n id (.done r) := by
  constructor
  · intro found
    cases task : g.tasks[n]? with
    | none => simp [outcome?,stage?,task] at found
    | some t =>
      obtain ⟨id,stage⟩ := t
      have here : g.At n id stage := task
      cases stage <;> simp [outcome?,here.stage?] at found
      subst found
      exact ⟨id,here⟩
  · rintro ⟨id,here⟩
    simp [outcome?,here.stage?]

theorem At.outcome?_eq_none {g : Graph σ} {n : Nat} {id : ModuleId} {s : Stage σ} (here : g.At n id s)
    (going : ¬ s.Finished) : g.outcome? n = none := by
  cases s with
  | done r => exact absurd trivial going
  | _ => simp [outcome?,here.stage?]

/-- Which tasks there are, and at which stages, is told by the tasks alone. -/
theorem at_congr {g after : Graph σ} (tasks : after.tasks = g.tasks) {n : Nat} {id : ModuleId} {s : Stage σ} :
    after.At n id s ↔ g.At n id s := by
  rw [At,At,tasks]

theorem exists_at {g : Graph σ} {n : Nat} (bound : n < g.tasks.length) : ∃ id s, g.At n id s :=
  ⟨(g.tasks[n]).id,(g.tasks[n]).stage,List.getElem?_eq_getElem bound⟩

/-! ## Setting stages -/

section

variable {g : Graph σ} {n : Nat} {stage : Stage σ}

@[simp] theorem registry_setStage : (g.setStage n stage).registry = g.registry := by
  cases stage <;> rfl

@[simp] theorem stamps_setStage : (g.setStage n stage).stamps = g.stamps := by
  cases stage <;> rfl

@[simp] theorem entries_setStage : (g.setStage n stage).entries = g.entries := by
  cases stage <;> rfl

@[simp] theorem layer_setStage : (g.setStage n stage).layer = g.layer := by
  cases stage <;> rfl

@[simp] theorem hooks_setStage : (g.setStage n stage).hooks = g.hooks := by
  cases stage <;> rfl

theorem tasks_setStage : (g.setStage n stage).tasks = g.tasks.modify n fun t => { t with stage } := by
  cases stage <;> rfl

@[simp] theorem length_setStage : (g.setStage n stage).tasks.length = g.tasks.length := by
  rw [tasks_setStage,List.length_modify]

theorem inFlight_setStage (going : ¬ stage.Finished) : (g.setStage n stage).inFlight = g.inFlight := by
  cases stage <;> first | rfl | exact absurd trivial going

@[simp] theorem inFlight_setStage_done {r : Compiled} :
    (g.setStage n (.done r)).inFlight = g.inFlight.filter (·.2 != n) := rfl

theorem at_setStage_self {id : ModuleId} {old : Stage σ} (here : g.At n id old) :
    (g.setStage n stage).At n id stage := by
  rw [At,tasks_setStage,List.getElem?_modify_eq,show g.tasks[n]? = some ⟨id,old⟩ from here]
  rfl

theorem at_setStage_of_ne {m : Nat} (other : m ≠ n) {id : ModuleId} {s : Stage σ} :
    (g.setStage n stage).At m id s ↔ g.At m id s := by
  rw [At,tasks_setStage,List.getElem?_modify_ne _ _ (Ne.symm other)]
  exact Iff.rfl

theorem at_setStage {id : ModuleId} {old : Stage σ} (here : g.At n id old) {m : Nat} {id' : ModuleId}
    {s : Stage σ} :
    (g.setStage n stage).At m id' s ↔ (m = n ∧ id' = id ∧ s = stage) ∨ (m ≠ n ∧ g.At m id' s) := by
  by_cases same : m = n
  · subst same
    constructor
    · intro there
      obtain ⟨ids,stages⟩ := there.unique (at_setStage_self here)
      exact .inl ⟨rfl,ids,stages⟩
    · rintro (⟨-,rfl,rfl⟩ | ⟨other,-⟩)
      · exact at_setStage_self here
      · exact absurd rfl other
  · simp [at_setStage_of_ne same,same]

/-- What setting a stage means for the tasks of a graph that something else has been done to. -/
theorem at_setStage_after {after : Graph σ} {id : ModuleId} {old next : Stage σ} (here : g.At n id old)
    (tasks : after.tasks = g.tasks) {m : Nat} {id' : ModuleId} {s : Stage σ} :
    (after.setStage n next).At m id' s ↔ (m = n ∧ id' = id ∧ s = next) ∨ (m ≠ n ∧ g.At m id' s) := by
  rw [at_setStage ((at_congr tasks).mpr here),at_congr tasks]

/-- A task has come from one stage to another, and all others are where they were. -/
structure Turned (g after : Graph σ) (n : Nat) (id : ModuleId) (old next : Stage σ) : Prop where
  here : g.At n id old
  at_iff : ∀ {m id' s}, after.At m id' s ↔ (m = n ∧ id' = id ∧ s = next) ∨ (m ≠ n ∧ g.At m id' s)

theorem turned_setStage {after : Graph σ} {id : ModuleId} {old next : Stage σ} (here : g.At n id old)
    (tasks : after.tasks = g.tasks) : Turned g (after.setStage n next) n id old next :=
  ⟨here,at_setStage_after here tasks⟩

namespace Turned

variable {after : Graph σ} {n m : Nat} {id i : ModuleId} {old next s : Stage σ} {r : Compiled}

theorem there (turned : Turned g after n id old next) : after.At n id next := turned.at_iff.mpr (.inl ⟨rfl,rfl,rfl⟩)

theorem of_ne (turned : Turned g after n id old next) (other : m ≠ n) (before : g.At m i s) : after.At m i s :=
  turned.at_iff.mpr (.inr ⟨other,before⟩)

theorem exists_at (turned : Turned g after n id old next) (before : g.At m i s) : ∃ s', after.At m i s' := by
  by_cases equal : m = n
  · subst equal
    obtain ⟨rfl,-⟩ := before.unique turned.here
    exact ⟨next,turned.there⟩
  · exact ⟨s,turned.of_ne equal before⟩

/-- A task at another stage than the one that is left stays at it. -/
theorem kept (turned : Turned g after n id old next) (unlike : s ≠ old) (before : g.At m i s) : after.At m i s := by
  refine turned.of_ne ?_ before
  rintro rfl
  exact unlike (before.unique turned.here).2

/-- A task that has ended has ended before, or is the one that has come to its end now. -/
theorem of_done (turned : Turned g after n id old next) (ended : after.At m i (.done r)) :
    (i = id ∧ next = .done r) ∨ g.At m i (.done r) := by
  rcases turned.at_iff.mp ended with ⟨-,same,last⟩ | ⟨-,before⟩
  · exact .inl ⟨same,last.symm⟩
  · exact .inr before

theorem ended (turned : Turned g after n id old next) (going : ¬ old.Finished) (before : g.At m i (.done r)) :
    after.At m i (.done r) := by
  refine turned.kept ?_ before
  rintro rfl
  exact going trivial

theorem outcome (turned : Turned g after n id old next) (going : ¬ old.Finished) (before : g.outcome? m = some r) :
    after.outcome? m = some r := by
  obtain ⟨i,before⟩ := outcome?_iff.mp before
  exact outcome?_iff.mpr ⟨i,turned.ended going before⟩

/-- A task is going on as before, unless it is the one that has come to its end. -/
theorem opened (turned : Turned g after n id old next) (before : g.Open m i) :
    after.Open m i ∨ (m = n ∧ i = id ∧ next.Finished) := by
  obtain ⟨s,before,unfinished⟩ := before
  by_cases equal : m = n
  · subst equal
    obtain ⟨rfl,-⟩ := before.unique turned.here
    by_cases last : next.Finished
    · exact .inr ⟨rfl,rfl,last⟩
    · exact .inl ⟨next,turned.there,last⟩
  · exact .inl ⟨s,turned.of_ne equal before,unfinished⟩

end Turned

theorem outcome?_setStage_of_ne {m : Nat} (other : m ≠ n) :
    (g.setStage n stage).outcome? m = g.outcome? m := by
  simp only [outcome?,stage?,tasks_setStage]
  rw [List.getElem?_modify_ne _ _ (Ne.symm other)]

theorem outcome?_setStage_self {id : ModuleId} {old : Stage σ} {r : Compiled} (here : g.At n id old) :
    (g.setStage n (.done r)).outcome? n = some r :=
  outcome?_iff.mpr ⟨id,at_setStage_self here⟩

end

/-- An outcome in the graph at the end of a task that something else has been done to besides. -/
theorem outcome?_finish {g g' : Graph σ} {n : Nat} {id : ModuleId} {stage : Stage σ} {r : Compiled}
    (here : g.At n id stage) (tasks : g'.tasks = g.tasks) {m : Nat} {r' : Compiled} :
    (g'.setStage n (.done r)).outcome? m = some r' ↔ (m = n ∧ r' = r) ∨ (m ≠ n ∧ g.outcome? m = some r') := by
  have here' : g'.At n id stage := (at_congr tasks).mpr here
  by_cases same : m = n
  · subst same
    rw [outcome?_iff.mpr ⟨id,at_setStage_self here'⟩]
    simp [eq_comm]
  · rw [outcome?_setStage_of_ne same,show g'.outcome? m = g.outcome? m by simp only [outcome?,stage?,tasks]]
    simp [same]

/-! ## Tasks that go on and tasks that end -/

section

variable {g after : Graph σ} {n m : Nat} {id i : ModuleId} {stage next s : Stage σ} {own : Commit}
  {children : List Nat} {r : Compiled}

/-- A task that goes on before its module is registered leaves those whose modules are, or that have ended. -/
theorem at_setStage_early (here : g.At n id stage) (start : stage.Early) (goes : next.Early)
    (tasks : after.tasks = g.tasks) (late : ¬ s.Early) : (after.setStage n next).At m i s ↔ g.At m i s := by
  rw [at_setStage_after here tasks]
  constructor
  · rintro (⟨-,-,rfl⟩ | ⟨-,before⟩)
    · exact absurd goes late
    · exact before
  · intro before
    refine .inr ⟨?_,before⟩
    rintro rfl
    exact late ((before.unique here).2 ▸ start)

theorem outcome?_setStage_early (here : g.At n id stage) (start : stage.Early) (goes : next.Early)
    (tasks : after.tasks = g.tasks) : (after.setStage n next).outcome? m = some r ↔ g.outcome? m = some r := by
  rw [outcome?_iff,outcome?_iff]
  exact exists_congr fun _ => at_setStage_early here start goes tasks fun early => early

theorem open_setStage (here : g.At n id stage) (start : ¬ stage.Finished) (goes : ¬ next.Finished)
    (tasks : after.tasks = g.tasks) : (after.setStage n next).Open m i ↔ g.Open m i := by
  have at_iff := @at_setStage_after σ g n after id stage next here tasks
  constructor
  · rintro ⟨s,there,unfinished⟩
    rcases at_iff.mp there with ⟨rfl,rfl,-⟩ | ⟨-,before⟩
    · exact ⟨stage,here,start⟩
    · exact ⟨s,before,unfinished⟩
  · rintro ⟨s,before,unfinished⟩
    by_cases equal : m = n
    · subst equal
      obtain ⟨rfl,-⟩ := before.unique here
      exact ⟨next,at_iff.mpr (.inl ⟨rfl,rfl,rfl⟩),goes⟩
    · exact ⟨s,at_iff.mpr (.inr ⟨equal,before⟩),unfinished⟩

theorem awaiting_finish (here : g.At n id stage) (tasks : after.tasks = g.tasks) :
    (after.setStage n (.done r)).At m i (.awaiting own children) ↔ m ≠ n ∧ g.At m i (.awaiting own children) := by
  rw [at_setStage_after here tasks]
  simp

theorem open_finish (here : g.At n id stage) (tasks : after.tasks = g.tasks) :
    (after.setStage n (.done r)).Open m i ↔ m ≠ n ∧ g.Open m i := by
  have at_iff := @at_setStage_after σ g n after id stage (.done r) here tasks
  constructor
  · rintro ⟨s,there,unfinished⟩
    rcases at_iff.mp there with ⟨-,-,rfl⟩ | ⟨other,before⟩
    · exact absurd trivial unfinished
    · exact ⟨other,s,before,unfinished⟩
  · rintro ⟨other,s,before,unfinished⟩
    exact ⟨s,at_iff.mpr (.inr ⟨other,before⟩),unfinished⟩

theorem mem_inFlight_finish (inFlight : after.inFlight = g.inFlight) :
    (i,m) ∈ (after.setStage n (.done r)).inFlight ↔ (i,m) ∈ g.inFlight ∧ m ≠ n := by
  rw [inFlight_setStage_done,inFlight,List.mem_filter]
  simp

end

end Graph

end Bundling
