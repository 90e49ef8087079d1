import Bundling.Proofs.Rollback
import Bundling.Proofs.Step

/-!
# Reads in any order

What every step of a read keeps true, whatever comes between the steps: reads are listed once, what
waits is registered, commits are told apart by their stamps, and whoever was asked for by another task
is waited for by it. `Orderly.step` goes by the cases of a step. Which versions are known is followed
through the changes that a step can make (`Known.of_setStage`, `Known.of_entered`).
-/

namespace Bundling

/-- A commit tells of a version: the one that it made, and the one that it took the place of. -/
def Commit.Mentions (c : Commit) (v : Version) : Prop := v = c.version ∨ c.previous = some v

/-- The versions that a task knows of at some stage. -/
def Stage.Bears {σ : Type} (v : Version) : Stage σ → Prop
  | .awaiting own _ => own.Mentions v
  | .done (.ok cs) => ∃ c ∈ cs, c.Mentions v
  | s => s.Replaces (some v)

theorem Stage.bears_early {σ : Type} {v : Version} {s : Stage σ} (early : s.Early) :
    s.Bears v ↔ s.Replaces (some v) := by
  cases s with
  | awaiting | done => exact early.elim
  | _ => exact Iff.rfl

namespace Graph

variable {σ : Type}

/-- The versions that are registered or may be registered again, as far as tasks from some number on
know of them. -/
inductive Known (base : Nat) (g : Graph σ) (v : Version) : Prop where
  | registered {id : ModuleId} (found : g.registry.get? id = some v)
  | replaced {n : Nat} {id : ModuleId} {s : Stage σ} (here : g.At n id s) (replaces : s.Replaces (some v))
  | waiting {n : Nat} {id : ModuleId} {own : Commit} {children : List Nat}
      (here : g.At n id (.awaiting own children)) (mentions : own.Mentions v)
  | committed {n : Nat} {cs : List Commit} {c : Commit} (late : base ≤ n)
      (outcome : g.outcome? n = some (.ok cs)) (member : c ∈ cs) (mentions : c.Mentions v)

section

variable {g after : Graph σ} {base n : Nat} {id : ModuleId} {stage next : Stage σ} {v : Version}

theorem known_iff : g.Known base v ↔ (∃ id, g.registry.get? id = some v) ∨
    ∃ n id s, g.At n id s ∧ s.Bears v ∧ (s.Finished → base ≤ n) := by
  constructor
  · intro known
    cases known with
    | registered found => exact .inl ⟨_,found⟩
    | replaced here replaces =>
      exact .inr ⟨_,_,_,here,(Stage.bears_early replaces.early).mpr replaces,
        fun finished => absurd finished replaces.early.unfinished⟩
    | waiting here mentions => exact .inr ⟨_,_,_,here,mentions,fun finished => finished.elim⟩
    | committed late outcome member mentions =>
      obtain ⟨id,here⟩ := outcome?_iff.mp outcome
      exact .inr ⟨_,id,_,here,⟨_,member,mentions⟩,fun _ => late⟩
  · rintro (⟨id,found⟩ | ⟨n,id,s,here,bears,late⟩)
    · exact .registered found
    · cases s with
      | awaiting own children => exact .waiting here bears
      | done r =>
        cases r with
        | ok cs =>
          obtain ⟨c,member,mentions⟩ := bears
          exact .committed (late trivial) (outcome?_iff.mpr ⟨id,here⟩) member mentions
        | error => exact bears.elim
      | _ => exact .replaced here bears

/-- One task has gone on to a stage at which it knows of nothing new, and nothing new is registered. -/
theorem Known.of_setStage (known : (after.setStage n next).Known base v) (here : g.At n id stage)
    (tasks : after.tasks = g.tasks) (registered : ∀ {i}, after.registry.get? i = some v → g.Known base v)
    (bears : next.Bears v → g.Known base v) : g.Known base v := by
  rcases known_iff.mp known with ⟨i,found⟩ | ⟨m,i,s,there,this,late⟩
  · exact registered (registry_setStage ▸ found)
  · rcases (at_setStage_after here tasks).mp there with ⟨-,-,rfl⟩ | ⟨-,before⟩
    · exact bears this
    · exact known_iff.mpr (.inr ⟨m,i,s,before,this,late⟩)

/-- Only new tasks have been added, which know of nothing. -/
theorem Known.of_tasks (known : after.Known base v)
    (registered : ∀ {i}, after.registry.get? i = some v → g.registry.get? i = some v)
    (tasks : ∀ {m i s}, after.At m i s → g.At m i s ∨ ¬ s.Bears v) : g.Known base v := by
  refine known_iff.mpr ((known_iff.mp known).imp (fun ⟨i,found⟩ => ⟨i,registered found⟩) ?_)
  rintro ⟨m,i,s,there,bears,late⟩
  exact ⟨m,i,s,(tasks there).resolve_right fun none => none bears,bears,late⟩

/-- A module has been registered, and nothing besides is new. -/
theorem Known.of_entered {own : Commit} {children : List Nat} (known : after.Known base v)
    (here : g.At n id stage) (previous : stage.Replaces own.previous) (entered : Entered g after n own children) :
    g.Known base v ∨ v = own.version := by
  rcases known_iff.mp known with ⟨i,found⟩ | ⟨m,i,s,there,bears,late⟩
  · rcases entered.of_get? found with ⟨-,equal⟩ | ⟨-,before⟩
    · exact .inr equal
    · exact .inl (.registered before)
  · by_cases equal : m = n
    · subst equal
      obtain ⟨-,rfl⟩ := there.unique entered.here
      rcases bears with equal | replaced
      · exact .inr equal
      · exact .inl (.replaced here (replaced ▸ previous))
    · rcases entered.new equal there with before | ⟨-,rfl,-⟩
      · exact .inl (known_iff.mpr (.inr ⟨m,i,s,before,bears,late⟩))
      · exact bears.elim

/-- A version that is known after a step was known before, or has been registered in it. -/
theorem Known.of_step {tools : Toolchain σ} (known : (g.step tools n).Known base v)
    (late : ∀ {id own children}, g.At n id (.awaiting own children) → ∀ c ∈ children, base ≤ c) :
    g.Known base v ∨ ∃ stage draft own children, g.At n own.version.id stage ∧ stage.draft? = some draft ∧
      own.previous = draft.previous ∧ Entered g (g.step tools n) n own children ∧ v = own.version := by
  by_cases bound : n < g.tasks.length
  · obtain ⟨id,stage,here⟩ := exists_at bound
    have turn := step_turn tools here
    -- What a task gets to know from those it waited for.
    have below : ∀ {own children outcomes c}, stage = .awaiting own children → children.mapM g.outcome? = some outcomes →
        c ∈ commits outcomes → c.Mentions v → g.Known base v := by
      rintro own children outcomes c rfl all member mentions
      obtain ⟨cs,inside,member⟩ := mem_commits_iff.mp member
      obtain ⟨child,among,outcome⟩ := (mem_outcomes_iff all).mp inside
      exact .committed (late here child among) outcome member mentions
    generalize g.step tools n = after at turn known
    cases turn with
    | @early _ next layer start goes fresh =>
      refine .inl (known.of_setStage here rfl (fun found => .registered found) fun bears => ?_)
      rcases fresh.replaces _ ((Stage.bears_early goes).mp bears) with old | registered
      · exact .replaced here old
      · exact .registered registered.symm
    | failed =>
      exact .inl (known.of_setStage here rfl (fun found => .registered found) fun bears => bears.elim)
    | kept =>
      exact .inl (known.of_setStage here rfl (fun found => .registered found)
        fun ⟨_,member,_⟩ => absurd member List.not_mem_nil)
    | @registered stage draft layer own _ drafts _ same previous =>
      obtain ⟨children,entered⟩ := entered_spec here same layer
      rcases known.of_entered here (Stage.replaces_iff.mpr ⟨draft,drafts,previous.symm⟩) entered with old | new
      · exact .inl old
      · exact .inr ⟨stage,draft,own,children,same ▸ here,drafts,previous,entered,new⟩
    | waiting => exact .inl known
    | @settled own children outcomes all =>
      refine .inl (known.of_setStage here rfl (fun found => .registered (get?_of_tidied found)) ?_)
      rintro ⟨c,member,mentions⟩
      rcases List.mem_cons.mp member with rfl | member
      · exact .waiting here mentions
      · exact below rfl all member mentions
    | @rolledBack own children outcomes _ all =>
      refine .inl (known.of_setStage here rfl ?_ fun bears => bears.elim)
      intro i found
      rcases Commit.rollback_origin found with before | before | ⟨c,member,before⟩
      · exact .registered before
      · exact .waiting here (.inr before)
      · exact below rfl all member (.inr before)
    | ended =>
      refine .inl (known.of_tasks (fun found => registry_setStage ▸ found) fun there => .inl ?_)
      exact (at_congr (tasks_setStage_same here)).mp there
  · rw [step_none tools (List.getElem?_eq_none (Nat.le_of_not_lt bound))] at known
    exact .inl known

end

/-- How a graph is while modules are read. The tasks of the reads are numbered from `base` on, and
their versions stamped from `young` on. Some reads were asked for from outside: the tasks `outside`, of
modules in `roots`. -/
structure Orderly (base young : Nat) (roots : List ModuleId) (outside : List Nat) (g : Graph σ) :
    Prop where
  start : base ≤ g.tasks.length
  listed : ∀ {n id}, (id,n) ∈ g.inFlight → base ≤ n ∧ g.Open n id
  opened : ∀ {n id}, g.Open n id → (id,n) ∈ g.inFlight
  once : ∀ {id n m}, (id,n) ∈ g.inFlight → (id,m) ∈ g.inFlight → n = m
  clock : young ≤ g.stamps
  bounded : ∀ {v}, g.Known base v → v.stamp < g.stamps
  /-- Young versions are told apart by their stamps. -/
  apart : ∀ {v w}, g.Known base v → g.Known base w → young ≤ v.stamp → v.stamp = w.stamp → v = w
  replaced : ∀ {n id s v}, g.At n id s → s.Replaces (some v) → v.id = id
  waiting : ∀ {n id own children}, g.At n id (.awaiting own children) →
    own.version.id = id ∧ young ≤ own.version.stamp ∧ own.WellFormed ∧
      g.registry.get? id = some own.version
  formed : ∀ {n cs}, base ≤ n → g.outcome? n = some (.ok cs) → ∀ c ∈ cs,
    c.WellFormed ∧ young ≤ c.version.stamp
  /-- What waits has not been committed. -/
  pending : ∀ {n cs m id own children}, base ≤ n → g.outcome? n = some (.ok cs) →
    g.At m id (.awaiting own children) → ∀ c ∈ cs, c.version ≠ own.version
  /-- A module that was asked for by another task is a new one. -/
  new : ∀ {n id s}, g.At n id s → s.Early → id ∉ roots →
    g.registry.get? id = none ∧ ∀ v, ¬ s.Replaces (some v)
  renewed : ∀ {n id own children}, g.At n id (.awaiting own children) → id ∉ roots → own.previous = none
  children : ∀ {n id own children}, g.At n id (.awaiting own children) → ∀ c ∈ children,
    base ≤ c ∧ ∃ i s, g.At c i s ∧ i ∈ own.version.body.imports
  /-- Who is waited for registers its module later. -/
  later : ∀ {n id own children}, g.At n id (.awaiting own children) → ∀ c ∈ children,
    ∀ {i own' children'}, g.At c i (.awaiting own' children') → own.version.stamp < own'.version.stamp
  asked : ∀ {n id}, g.Open n id → (n ∈ outside ∧ id ∈ roots) ∨ ∃ m < n, ∃ i own children,
    g.At m i (.awaiting own children) ∧ n ∈ children ∧ id ∈ own.version.body.imports

section

variable {g after : Graph σ} {base young n : Nat} {roots : List ModuleId} {outside : List Nat}
  {id : ModuleId} {stage : Stage σ}

/-- Nothing has changed that matters here. -/
theorem Orderly.congr (orderly : g.Orderly base young roots outside) (tasks : after.tasks = g.tasks)
    (inFlight : after.inFlight = g.inFlight) (registry : after.registry = g.registry)
    (stamps : after.stamps = g.stamps) : after.Orderly base young roots outside := by
  obtain ⟨layer,entries,registry',stamps',hooks,tasks',inFlight'⟩ := after
  cases tasks
  cases inFlight
  cases registry
  cases stamps
  have known : ∀ {v}, Known base ⟨layer,entries,g.registry,g.stamps,hooks,g.tasks,g.inFlight⟩ v → g.Known base v :=
    fun known => known.of_tasks (fun found => found) .inl
  exact { orderly with
    bounded := fun one => orderly.bounded (known one)
    apart := fun one other => orderly.apart (known one) (known other) }

/-- Whoever was waited for is there after a stage has been set, and reads an import of the module that waits. -/
theorem Orderly.children_turned (orderly : g.Orderly base young roots outside) {next : Stage σ}
    (turned : Turned g after n id stage next) {m c : Nat} {i : ModuleId} {own : Commit} {children : List Nat}
    (there : g.At m i (.awaiting own children)) (child : c ∈ children) :
    base ≤ c ∧ ∃ j s, after.At c j s ∧ j ∈ own.version.body.imports := by
  obtain ⟨late,j,s,before,imported⟩ := orderly.children there c child
  obtain ⟨s',now⟩ := turned.exists_at before
  exact ⟨late,j,s',now,imported⟩

/-- A task goes on before its module is registered. -/
theorem Orderly.advance (orderly : g.Orderly base young roots outside) (here : g.At n id stage)
    (start : stage.Early) {next : Stage σ} (goes : next.Early) (layer : Resolution.State σ)
    (drafted : ∀ previous, next.Replaces previous →
      stage.Replaces previous ∨ previous = g.registry.get? id) :
    (({ g with layer }).setStage n next).Orderly base young roots outside := by
  have going := goes.unfinished
  have at_iff := @at_setStage_after σ g n { g with layer } id stage next here rfl
  -- The only task that has changed is not waiting, before and after.
  have same : ∀ {m i own children}, (({ g with layer } : Graph σ).setStage n next).At m i (.awaiting own children) ↔
      g.At m i (.awaiting own children) := at_setStage_early here start goes (by rfl) fun early => early
  have ended : ∀ {m r}, (({ g with layer } : Graph σ).setStage n next).outcome? m = some r → g.outcome? m = some r :=
    (outcome?_setStage_early here start goes (by rfl)).mp
  have opened : ∀ {m i}, (({ g with layer } : Graph σ).setStage n next).Open m i ↔ g.Open m i :=
    open_setStage here start.unfinished going (by rfl)
  have replaced : ∀ {m i s v}, (({ g with layer } : Graph σ).setStage n next).At m i s →
      s.Replaces (some v) → (∃ s', g.At m i s' ∧ s'.Early ∧ s'.Replaces (some v)) ∨
        (m = n ∧ i = id ∧ g.registry.get? i = some v) := by
    intro m i s v there replaces
    rcases at_iff.mp there with ⟨rfl,rfl,rfl⟩ | ⟨-,before⟩
    · rcases drafted _ replaces with old | registered
      · exact .inl ⟨stage,here,start,old⟩
      · exact .inr ⟨rfl,rfl,registered.symm⟩
    · exact .inl ⟨s,before,replaces.early,replaces⟩
  have known : ∀ {v}, (({ g with layer } : Graph σ).setStage n next).Known base v → g.Known base v := by
    intro v known
    refine known.of_setStage here (by rfl) (fun found => .registered found) fun bears => ?_
    rcases drafted _ ((Stage.bears_early goes).mp bears) with old | registered
    · exact .replaced here old
    · exact .registered registered.symm
  constructor
  case start =>
    rw [length_setStage]
    exact orderly.start
  case listed =>
    intro m i member
    rw [inFlight_setStage going] at member
    exact ⟨(orderly.listed member).1,opened.mpr (orderly.listed member).2⟩
  case opened =>
    intro m i open_
    rw [inFlight_setStage going]
    exact orderly.opened (opened.mp open_)
  case once =>
    intro i m k one other
    rw [inFlight_setStage going] at one other
    exact orderly.once one other
  case clock =>
    rw [stamps_setStage]
    exact orderly.clock
  case bounded =>
    intro v mentioned
    rw [stamps_setStage]
    exact orderly.bounded (known mentioned)
  case apart => exact fun one other => orderly.apart (known one) (known other)
  case replaced =>
    intro m i s v there replaces
    rcases replaced there replaces with ⟨s',before,-,old⟩ | ⟨-,rfl,registered⟩
    · exact orderly.replaced before old
    · exact Registry.get?_id registered
  case waiting =>
    intro m i own children there
    rw [registry_setStage]
    exact orderly.waiting (same.mp there)
  case formed => exact fun late outcome => orderly.formed late (ended outcome)
  case pending => exact fun late outcome there => orderly.pending late (ended outcome) (same.mp there)
  case new =>
    intro m i s there early asked
    rw [registry_setStage]
    rcases at_iff.mp there with ⟨rfl,rfl,rfl⟩ | ⟨-,before⟩
    · obtain ⟨absent,fresh⟩ := orderly.new here start asked
      refine ⟨absent,fun v replaces => ?_⟩
      rcases drafted _ replaces with old | registered
      · exact fresh v old
      · rw [absent] at registered
        cases registered
    · exact orderly.new before early asked
  case renewed => exact fun there => orderly.renewed (same.mp there)
  case children => exact fun there _ child => orderly.children_turned (turned_setStage here (by rfl)) (same.mp there) child
  case later =>
    intro m i own children there c child j own' children' below
    exact orderly.later (same.mp there) c child (same.mp below)
  case asked =>
    intro m i open_
    rcases orderly.asked (opened.mp open_) with root | ⟨k,less,j,own,children,there,child⟩
    · exact .inl root
    · exact .inr ⟨k,less,j,own,children,same.mpr there,child⟩

/-- Whoever asked for what is still under way is not the task that ends, and so still waits for it. -/
theorem Orderly.asked_finish (orderly : g.Orderly base young roots outside) {r : Compiled}
    (turned : Turned g after n id stage (.done r))
    (below : ∀ own children, stage = .awaiting own children → ∀ c ∈ children, ∃ r, g.outcome? c = some r)
    {m : Nat} {i : ModuleId} (opened : g.Open m i) :
    (m ∈ outside ∧ i ∈ roots) ∨ ∃ k < m, ∃ j own children,
      after.At k j (.awaiting own children) ∧ m ∈ children ∧ i ∈ own.version.body.imports := by
  rcases orderly.asked opened with root | ⟨k,less,j,own,children,there,child,imported⟩
  · exact .inl root
  · refine .inr ⟨k,less,j,own,children,turned.of_ne ?_ there,child,imported⟩
    rintro rfl
    obtain ⟨r',found⟩ := below own children (there.unique turned.here).2.symm m child
    obtain ⟨s,found',unfinished⟩ := opened
    rw [found'.outcome?_eq_none unfinished] at found
    cases found

/-- A task comes to its end. The registry may have changed, but not so that something new is in it,
that anything that still waits is gone, or that a missing module is there. -/
theorem Orderly.finish (orderly : g.Orderly base young roots outside) (here : g.At n id stage)
    (going : ¬ stage.Finished) (after : Graph σ) (tasks : after.tasks = g.tasks)
    (inFlight : after.inFlight = g.inFlight) (stamps : after.stamps = g.stamps) (r : Compiled)
    (registered : ∀ {i v}, after.registry.get? i = some v → g.Known base v)
    (waits : ∀ {m i own children}, m ≠ n → g.At m i (.awaiting own children) →
      after.registry.get? i = some own.version)
    (absent : ∀ {i}, g.registry.get? i = none → after.registry.get? i = none)
    (commits : ∀ cs, r = .ok cs → ∀ c ∈ cs, (c.WellFormed ∧ young ≤ c.version.stamp) ∧
      (∀ v, c.Mentions v → g.Known base v) ∧
      ∀ {m i own children}, m ≠ n → g.At m i (.awaiting own children) → c.version ≠ own.version)
    (below : ∀ own children, stage = .awaiting own children → ∀ c ∈ children, ∃ r, g.outcome? c = some r) :
    (after.setStage n (.done r)).Orderly base young roots outside := by
  have at_iff := @at_setStage_after σ g n after id stage (.done r) here tasks
  have late : base ≤ n := (orderly.listed (orderly.opened ⟨stage,here,going⟩)).1
  have waiting : ∀ {m i own children}, (after.setStage n (.done r)).At m i (.awaiting own children) →
      m ≠ n ∧ g.At m i (.awaiting own children) := (awaiting_finish here tasks).mp
  have ended : ∀ {m cs}, (after.setStage n (.done r)).outcome? m = some (.ok cs) →
      (m = n ∧ r = .ok cs) ∨ g.outcome? m = some (.ok cs) := fun found =>
    ((outcome?_finish here tasks).mp found).imp (And.imp_right Eq.symm) And.right
  have opened : ∀ {m i}, (after.setStage n (.done r)).Open m i ↔ m ≠ n ∧ g.Open m i := open_finish here tasks
  have known : ∀ {v}, (after.setStage n (.done r)).Known base v → g.Known base v := by
    intro v known
    refine known.of_setStage here tasks registered fun bears => ?_
    cases r with
    | ok cs =>
      obtain ⟨c,member,mentions⟩ := bears
      exact (commits cs rfl c member).2.1 v mentions
    | error => exact bears.elim
  constructor
  case start =>
    rw [length_setStage,tasks]
    exact orderly.start
  case listed =>
    intro m i member
    obtain ⟨before,other⟩ := (mem_inFlight_finish inFlight).mp member
    obtain ⟨late,open_⟩ := orderly.listed before
    exact ⟨late,opened.mpr ⟨other,open_⟩⟩
  case opened =>
    intro m i open_
    obtain ⟨other,before⟩ := opened.mp open_
    exact (mem_inFlight_finish inFlight).mpr ⟨orderly.opened before,other⟩
  case once =>
    intro i m k one other
    exact orderly.once ((mem_inFlight_finish inFlight).mp one).1 ((mem_inFlight_finish inFlight).mp other).1
  case clock =>
    rw [stamps_setStage,stamps]
    exact orderly.clock
  case bounded =>
    intro v mentioned
    rw [stamps_setStage,stamps]
    exact orderly.bounded (known mentioned)
  case apart => exact fun one other => orderly.apart (known one) (known other)
  case replaced =>
    intro m i s v there replaces
    rcases at_iff.mp there with ⟨-,-,rfl⟩ | ⟨-,before⟩
    · exact replaces.elim
    · exact orderly.replaced before replaces
  case waiting =>
    intro m i own children there
    obtain ⟨other,before⟩ := waiting there
    obtain ⟨same,new,formed,-⟩ := orderly.waiting before
    rw [registry_setStage]
    exact ⟨same,new,formed,waits other before⟩
  case formed =>
    intro m cs late' outcome c member
    rcases ended outcome with ⟨-,equal⟩ | before
    · exact (commits _ equal c member).1
    · exact orderly.formed late' before c member
  case pending =>
    intro m cs k i own children late' outcome there c member
    obtain ⟨other,waits⟩ := waiting there
    rcases ended outcome with ⟨-,equal⟩ | before
    · exact (commits _ equal c member).2.2 other waits
    · exact orderly.pending late' before waits c member
  case new =>
    intro m i s there early asked
    rcases at_iff.mp there with ⟨-,-,rfl⟩ | ⟨-,before⟩
    · exact early.elim
    · obtain ⟨missing,fresh⟩ := orderly.new before early asked
      rw [registry_setStage]
      exact ⟨absent missing,fresh⟩
  case renewed => exact fun there => orderly.renewed (waiting there).2
  case children => exact fun there _ child => orderly.children_turned (turned_setStage here tasks) (waiting there).2 child
  case later =>
    intro m i own children there c child j own' children' deeper
    exact orderly.later (waiting there).2 c child (waiting deeper).2
  case asked => exact fun open_ => orderly.asked_finish (turned_setStage here tasks) below (opened.mp open_).2

/-- Two tasks that have not come to their ends are of different modules. -/
theorem Orderly.alone (orderly : g.Orderly base young roots outside) {m k : Nat} {i : ModuleId}
    (one : g.Open m i) (other : g.Open k i) : m = k :=
  orderly.once (orderly.opened one) (orderly.opened other)

section

variable {own : Commit} {children : List Nat}

/-- A task that is not the one that registers its module is of another module, if it is under way. -/
theorem Orderly.lone (orderly : g.Orderly base young roots outside) (opened : g.Open n id) {m : Nat} {i : ModuleId}
    {s : Stage σ} (ne : m ≠ n) (there : g.At m i s) (unfinished : ¬ s.Finished) : i ≠ id := by
  rintro rfl
  exact ne (orderly.alone ⟨s,there,unfinished⟩ opened)

/-- What is listed once a module is registered. -/
theorem Orderly.listed_entered (orderly : g.Orderly base young roots outside) (here : g.At n own.version.id stage)
    (entered : Entered g after n own children) {m : Nat} {i : ModuleId} (member : (i,m) ∈ after.inFlight) :
    base ≤ m ∧ after.Open m i := by
  refine ⟨?_,entered.open_of_listed here (fun old => (orderly.listed old).2) member⟩
  rcases entered.listed member with old | ⟨beyond,-⟩
  · exact (orderly.listed old).1
  · exact Nat.le_trans orderly.start beyond

/-- Other modules that wait are registered as before. -/
theorem Orderly.get?_entered (orderly : g.Orderly base young roots outside) (here : g.At n own.version.id stage)
    (start : stage.Early) (entered : Entered g after n own children) {m : Nat} {i : ModuleId} {s : Stage σ}
    (ne : m ≠ n) (there : g.At m i s) (unfinished : ¬ s.Finished) : after.registry.get? i = g.registry.get? i :=
  entered.get?_of_ne (orderly.lone ⟨stage,here,start.unfinished⟩ ne there unfinished)

/-- What waits once a module is registered is registered. -/
theorem Orderly.waiting_entered (orderly : g.Orderly base young roots outside) (here : g.At n own.version.id stage)
    (start : stage.Early) (entered : Entered g after n own children) {m : Nat} {i : ModuleId} {own' : Commit}
    {children' : List Nat} (there : after.At m i (.awaiting own' children')) :
    after.registry.get? i = some own'.version := by
  rcases entered.awaiting there with ⟨-,rfl,rfl,-⟩ | ⟨ne,old⟩
  · exact entered.get?_self
  · rw [orderly.get?_entered here start entered ne old fun finished => finished]
    exact (orderly.waiting old).2.2.2

/-- Whoever is waited for once a module is registered reads an import of the module that waits. -/
theorem Orderly.children_entered (orderly : g.Orderly base young roots outside) (here : g.At n own.version.id stage)
    (entered : Entered g after n own children) {m : Nat} {i : ModuleId} {own' : Commit} {children' : List Nat}
    (there : after.At m i (.awaiting own' children')) {c : Nat} (child : c ∈ children') :
    base ≤ c ∧ ∃ j s, after.At c j s ∧ j ∈ own'.version.body.imports := by
  rcases entered.awaiting there with ⟨-,-,rfl,rfl⟩ | ⟨-,old⟩
  · obtain ⟨j,imported,-,member⟩ := entered.below c child
    obtain ⟨late,s,found,-⟩ := orderly.listed_entered here entered member
    exact ⟨late,j,s,found,imported⟩
  · obtain ⟨late,j,s,found,imported⟩ := orderly.children old c child
    by_cases equal : c = n
    · subst equal
      obtain ⟨rfl,-⟩ := found.unique here
      exact ⟨late,_,_,entered.here,imported⟩
    · exact ⟨late,j,s,entered.old equal found,imported⟩

/-- Who is waited for once a module is registered registers its module later: nobody waits for a module that is
registered. -/
theorem Orderly.later_entered (orderly : g.Orderly base young roots outside) (here : g.At n own.version.id stage)
    (start : stage.Early) (stamp : own.version.stamp = g.stamps) (entered : Entered g after n own children)
    {m c : Nat} {i j : ModuleId} {own' own'' : Commit} {children' children'' : List Nat}
    (there : after.At m i (.awaiting own' children')) (child : c ∈ children')
    (deeper : after.At c j (.awaiting own'' children'')) : own'.version.stamp < own''.version.stamp := by
  rcases entered.awaiting there with ⟨-,-,rfl,rfl⟩ | ⟨-,old⟩
  · obtain ⟨j',-,absent,member⟩ := entered.below c child
    obtain ⟨-,s,found,-⟩ := orderly.listed_entered here entered member
    rw [(found.unique deeper).1,orderly.waiting_entered here start entered deeper] at absent
    cases absent
  · rcases entered.awaiting deeper with ⟨-,-,rfl,-⟩ | ⟨-,deeper⟩
    · rw [stamp]
      exact orderly.bounded (.waiting old (.inl rfl))
    · exact orderly.later old c child deeper

/-- Young versions are told apart by their stamps once a module is registered: its own stamp is new. -/
theorem Orderly.apart_entered (orderly : g.Orderly base young roots outside) (stamp : own.version.stamp = g.stamps)
    {v w : Version} (one : g.Known base v ∨ v = own.version) (other : g.Known base w ∨ w = own.version)
    (new : young ≤ v.stamp) (equal : v.stamp = w.stamp) : v = w := by
  rcases one with one | rfl
  · rcases other with other | rfl
    · exact orderly.apart one other new equal
    · have := orderly.bounded one
      omega
  · rcases other with other | rfl
    · have := orderly.bounded other
      omega
    · rfl

/-- A module is registered. -/
theorem Orderly.enter (orderly : g.Orderly base young roots outside) (here : g.At n id stage)
    (start : stage.Early) (stamp : own.version.stamp = g.stamps) (same : own.version.id = id)
    (previous : stage.Replaces own.previous) (entered : Entered g after n own children) :
    after.Orderly base young roots outside := by
  subst same
  have opened : g.Open n own.version.id := ⟨stage,here,start.unfinished⟩
  have known : ∀ {v}, after.Known base v → g.Known base v ∨ v = own.version :=
    fun known => known.of_entered here previous entered
  constructor
  case start => exact Nat.le_trans orderly.start entered.longer
  case listed => exact orderly.listed_entered here entered
  case opened =>
    intro m i open_
    rcases entered.open_cases opened open_ with old | ⟨-,-,member,-⟩
    · exact entered.kept (orderly.opened old)
    · exact member
  case once => exact fun one other => entered.listed_once orderly.once one other
  case clock =>
    rw [entered.stamps]
    exact Nat.le_succ_of_le orderly.clock
  case bounded =>
    intro v mentioned
    rw [entered.stamps]
    rcases known mentioned with old | rfl
    · have := orderly.bounded old
      omega
    · omega
  case apart => exact fun one other => orderly.apart_entered stamp (known one) (known other)
  case replaced =>
    intro m i s v there replaces
    rcases entered.new (entered.ne_of_early replaces.early there) there with old | ⟨-,rfl,-⟩
    · exact orderly.replaced old replaces
    · exact replaces.elim
  case waiting =>
    intro m i own' children' there
    have found := orderly.waiting_entered here start entered there
    rcases entered.awaiting there with ⟨-,rfl,rfl,-⟩ | ⟨ne,old⟩
    · exact ⟨rfl,stamp ▸ orderly.clock,fun v before => orderly.replaced here (before ▸ previous),found⟩
    · obtain ⟨ids,new,formed,-⟩ := orderly.waiting old
      exact ⟨ids,new,formed,found⟩
  case formed => exact fun late outcome => orderly.formed late (entered.outcome? outcome)
  case pending =>
    intro m cs k i own' children' late outcome there c member
    rcases entered.awaiting there with ⟨-,-,rfl,-⟩ | ⟨-,old⟩
    · intro equal
      have := orderly.bounded (.committed late (entered.outcome? outcome) member (.inl rfl))
      rw [equal] at this
      omega
    · exact orderly.pending late (entered.outcome? outcome) old c member
  case new =>
    intro m i s there early asked
    have ne := entered.ne_of_early early there
    rcases entered.new ne there with old | ⟨-,rfl,-,-,-,absent⟩
    · obtain ⟨missing,fresh⟩ := orderly.new old early asked
      exact ⟨(orderly.get?_entered here start entered ne old early.unfinished).trans missing,fresh⟩
    · exact ⟨absent,fun v replaces => replaces.elim⟩
  case renewed =>
    intro m i own' children' there asked
    rcases entered.awaiting there with ⟨-,rfl,rfl,-⟩ | ⟨-,old⟩
    · cases before : own'.previous with
      | none => rfl
      | some v => exact absurd (before ▸ previous) ((orderly.new here start asked).2 v)
    · exact orderly.renewed old asked
  case children => exact fun there c child => orderly.children_entered here entered there child
  case later => exact fun there c child => orderly.later_entered here start stamp entered there child
  case asked =>
    intro m i open_
    rcases entered.open_cases opened open_ with old | ⟨beyond,child,-,imported,-⟩
    · rcases orderly.asked old with root | ⟨k,less,j,own',children',waits,child⟩
      · exact .inl root
      · exact .inr ⟨k,less,j,own',children',(entered.at_late here start waits fun early => early).2,child⟩
    · exact .inr ⟨n,Nat.lt_of_lt_of_le here.lt beyond,_,own,children,entered.here,child,imported⟩

end

/-- A read is asked for from outside. -/
theorem Orderly.join (orderly : g.Orderly base young roots outside) {root : ModuleId} (asked : root ∈ roots) :
    (g.join root).2.Orderly base young roots ((g.join root).1 :: outside) := by
  obtain ⟨grown,mine⟩ := grown_join g (List.mem_singleton.mpr rfl : root ∈ [root])
  generalize (g.join root).2 = after at grown mine
  generalize (g.join root).1 = number at mine
  have registry : after.registry = g.registry := by rw [grown.same]
  have stamps : after.stamps = g.stamps := by rw [grown.same]
  have old : ∀ {m i s}, after.At m i s → s ≠ .reading → g.At m i s := fun there other => grown.at_old other there
  have ended : ∀ {m r}, after.outcome? m = some r → g.outcome? m = some r := grown.outcome?_iff.mp
  have known : ∀ {v}, after.Known base v → g.Known base v := by
    intro v known
    refine known.of_tasks (fun found => registry ▸ found) fun there => ?_
    rcases grown.new there with before | ⟨-,rfl,-⟩
    · exact .inl before
    · exact .inr fun bears => bears
  constructor
  case start => exact Nat.le_trans orderly.start grown.longer
  case listed =>
    intro m i member
    rcases grown.listed member with before | ⟨beyond,reading,-⟩
    · obtain ⟨late,s,there,unfinished⟩ := orderly.listed before
      exact ⟨late,s,grown.old there,unfinished⟩
    · exact ⟨Nat.le_trans orderly.start beyond,.reading,reading,fun finished => finished⟩
  case opened =>
    rintro m i ⟨s,there,unfinished⟩
    rcases grown.new there with before | ⟨-,-,-,member,-⟩
    · exact grown.kept (orderly.opened ⟨s,before,unfinished⟩)
    · exact member
  case once =>
    intro i m k one other
    rcases grown.both_or_eq one other with ⟨before,before'⟩ | equal
    · exact orderly.once before before'
    · exact equal
  case clock => exact stamps ▸ orderly.clock
  case bounded => exact fun mentioned => stamps ▸ orderly.bounded (known mentioned)
  case apart => exact fun one other => orderly.apart (known one) (known other)
  case replaced =>
    exact fun there replaces => orderly.replaced (old there fun reading => (reading ▸ replaces).elim) replaces
  case waiting => exact fun there => registry ▸ orderly.waiting (old there nofun)
  case formed => exact fun late outcome => orderly.formed late (ended outcome)
  case pending => exact fun late outcome there => orderly.pending late (ended outcome) (old there nofun)
  case new =>
    intro m i s there early other
    rcases grown.new there with before | ⟨-,-,member,-⟩
    · exact registry ▸ orderly.new before early other
    · exact absurd (List.mem_singleton.mp member ▸ asked) other
  case renewed => exact fun there => orderly.renewed (old there nofun)
  case children =>
    intro m i own children there c child
    obtain ⟨late,j,s,before,imported⟩ := orderly.children (old there nofun) c child
    exact ⟨late,j,s,grown.old before,imported⟩
  case later =>
    intro m i own children there c child j own' children' deeper
    exact orderly.later (old there nofun) c child (old deeper nofun)
  case asked =>
    rintro m i ⟨s,there,unfinished⟩
    rcases grown.new there with before | ⟨-,-,member,listed,absent⟩
    · rcases orderly.asked ⟨s,before,unfinished⟩ with ⟨known,root'⟩ | ⟨k,less,j,own,children,waits,child⟩
      · exact .inl ⟨List.mem_cons_of_mem _ known,root'⟩
      · exact .inr ⟨k,less,j,own,children,grown.old waits,child⟩
    · obtain rfl := List.mem_singleton.mp member
      refine .inl ⟨?_,asked⟩
      rcases grown.both_or_eq mine listed with ⟨before,-⟩ | equal
      · exact absurd before (absent number)
      · exact equal ▸ List.mem_cons_self

/-- What a task gets to know from those it waited for are commits as they should be. -/
theorem Orderly.commits (orderly : g.Orderly base young roots outside) {own : Commit} {children : List Nat}
    (here : g.At n id (.awaiting own children)) {outcomes : List Compiled}
    (all : children.mapM g.outcome? = some outcomes) {c : Commit} (member : c ∈ commits outcomes) :
    (c.WellFormed ∧ young ≤ c.version.stamp) ∧ (∀ v, c.Mentions v → g.Known base v) ∧
      ∀ {m i own' children'}, g.At m i (.awaiting own' children') → c.version ≠ own'.version := by
  obtain ⟨cs,ok,inside⟩ := mem_commits_iff.mp member
  obtain ⟨k,child,outcome⟩ := (mem_outcomes_iff all).mp ok
  have late := (orderly.children here k child).1
  exact ⟨orderly.formed late outcome c inside,fun v mentions => .committed late outcome inside mentions,
    fun waits => orderly.pending late outcome waits c inside⟩

/-- A rollback leaves what other tasks wait with. -/
theorem Orderly.rollback_waiting (orderly : g.Orderly base young roots outside) {own : Commit}
    {children : List Nat} (here : g.At n id (.awaiting own children)) {outcomes : List Compiled}
    (all : children.mapM g.outcome? = some outcomes) {m : Nat} {i : ModuleId} {own' : Commit}
    {children' : List Nat} (other : m ≠ n) (there : g.At m i (.awaiting own' children')) :
    (own.rollback (Graph.commits outcomes) g.registry).get? i = some own'.version := by
  obtain ⟨same,-,formed,current⟩ := orderly.waiting here
  obtain ⟨-,young',-,registered⟩ := orderly.waiting there
  have ne : i ≠ id := by
    rintro rfl
    exact other (orderly.alone ⟨_,there,fun finished => finished⟩ ⟨_,here,fun finished => finished⟩)
  refine Commit.rollback_keeps formed (fun c member => (orderly.commits here all member).1.1)
    (same ▸ current) ?_ (.inr ⟨same ▸ ne,registered⟩)
  intro c member equal
  obtain ⟨-,known,unlike⟩ := orderly.commits here all member
  exact unlike there (orderly.apart (known _ (.inl rfl)) (.registered registered) (equal ▸ young') equal)

/-- A step keeps order, if tidying up leaves what still waits. -/
theorem Orderly.step (orderly : g.Orderly base young roots outside) (tools : Toolchain σ) (n : Nat)
    (tidies : ∀ {id own children}, g.At n id (.awaiting own children) →
      (∀ c ∈ children, ∃ cs, g.outcome? c = some (.ok cs)) → ∀ {m i own' children'}, m ≠ n →
      g.At m i (.awaiting own' children') → (g.tidied own).get? i = some own'.version) :
    (g.step tools n).Orderly base young roots outside := by
  by_cases bound : n < g.tasks.length
  · obtain ⟨id,stage,here⟩ := exists_at bound
    have turn := step_turn tools here
    generalize g.step tools n = after at turn
    cases turn with
    | @early _ next layer start goes drafted _ => exact orderly.advance here start goes layer drafted.replaces
    | @failed _ e layer start _ =>
      refine orderly.finish here start.unfinished { g with layer } rfl rfl rfl _
        (fun found => .registered found) (fun _ there => (orderly.waiting there).2.2.2)
        (fun absent => absent) nofun ?_
      rintro own children rfl
      exact start.elim
    | @kept _ v layer start _ _ =>
      refine orderly.finish here start.unfinished { g with layer } rfl rfl rfl _
        (fun found => .registered found) (fun _ there => (orderly.waiting there).2.2.2)
        (fun absent => absent) ?_ ?_
      · intro cs equal c member
        cases equal
        cases member
      · rintro own children rfl
        exact start.elim
    | @registered _ draft layer own start drafts stamp same previous =>
      obtain ⟨children,entered⟩ := entered_spec here same layer
      exact orderly.enter here start stamp same (Stage.replaces_iff.mpr ⟨draft,drafts,previous.symm⟩) entered
    | waiting _ => exact orderly
    | @settled own children outcomes all good =>
      have well : ∀ c ∈ children, ∃ cs, g.outcome? c = some (.ok cs) := by
        intro c child
        obtain ⟨r,inside,found⟩ := exists_outcome all child
        obtain ⟨cs,rfl⟩ := firstError_eq_none_iff.mp good r inside
        exact ⟨cs,found⟩
      refine orderly.finish here (fun finished => finished) { g with registry := g.tidied own }
        rfl rfl rfl _ (fun found => .registered (get?_of_tidied found))
        (fun other there => tidies here well other there) (fun absent => get?_tidied_eq_none absent) ?_ ?_
      · intro cs equal c member
        cases equal
        rcases List.mem_cons.mp member with rfl | inside
        · refine ⟨⟨(orderly.waiting here).2.2.1,(orderly.waiting here).2.1⟩,fun v mentions => .waiting here mentions,?_⟩
          intro m i own' children' other there equal
          have one := (orderly.waiting here).1
          rw [equal,(orderly.waiting there).1] at one
          subst one
          exact other (orderly.alone ⟨_,there,fun finished => finished⟩ ⟨_,here,fun finished => finished⟩)
        · obtain ⟨formed,known,unlike⟩ := orderly.commits here all inside
          exact ⟨formed,known,fun _ there => unlike there⟩
      · intro own' children' equal c child
        cases equal
        obtain ⟨r,-,found⟩ := exists_outcome all child
        exact ⟨r,found⟩
    | @rolledBack own children outcomes e all bad =>
      obtain ⟨same,-,formed,current⟩ := orderly.waiting here
      have formedBelow : ∀ c ∈ Graph.commits outcomes, c.WellFormed :=
        fun c member => (orderly.commits here all member).1.1
      refine orderly.finish here (fun finished => finished)
        { g with registry := own.rollback (Graph.commits outcomes) g.registry } rfl rfl rfl _ ?_
        (fun other there => orderly.rollback_waiting here all other there)
        (fun absent => Commit.rollback_absent formed formedBelow absent) nofun ?_
      · intro i v found
        rcases Commit.rollback_origin found with before | before | ⟨c,member,before⟩
        · exact .registered before
        · exact .waiting here (.inr before)
        · exact (orderly.commits here all member).2.1 v (.inr before)
      · intro own' children' equal c child
        cases equal
        obtain ⟨r,-,found⟩ := exists_outcome all child
        exact ⟨r,found⟩
    | @ended r =>
      have finished : ∀ {i}, (i,n) ∉ g.inFlight := by
        intro i member
        obtain ⟨-,s,there,unfinished⟩ := orderly.listed member
        rw [(there.unique here).2] at unfinished
        exact unfinished trivial
      refine orderly.congr (tasks_setStage_same here) ?_ registry_setStage stamps_setStage
      rw [inFlight_setStage_done]
      refine List.filter_eq_self.mpr ?_
      rintro ⟨i,m⟩ member
      simp only [bne_iff_ne,ne_eq]
      rintro rfl
      exact finished member
  · rw [step_none tools (List.getElem?_eq_none (Nat.le_of_not_lt bound))]
    exact orderly

/-! ## Tidying up -/

/-- What waits can be reached from the roots. -/
theorem Orderly.reaches (orderly : g.Orderly base young roots outside) {own : Commit} {children : List Nat}
    (here : g.At n id (.awaiting own children)) : g.registry.Reaches roots id := by
  induction n using Nat.strongRecOn generalizing id own children with
  | ind n ih =>
    rcases orderly.asked ⟨_,here,fun finished => finished⟩ with ⟨-,root⟩ | ⟨m,less,i,own',children',there,-,imported⟩
    · exact .root root
    · exact .step (ih m less there) (orderly.waiting there).2.2.2 imported

/-- Where all roots are entries, tidying up leaves what waits. -/
theorem Orderly.tidied_of_entries (orderly : g.Orderly base young roots outside)
    (entries : ∀ root ∈ roots, root ∈ g.entries) {own own' : Commit} {children : List Nat}
    (there : g.At n id (.awaiting own' children)) : (g.tidied own).get? id = some own'.version := by
  have widen : ∀ {i}, g.registry.Reaches roots i → g.registry.Reaches g.entries i := by
    intro i reached
    induction reached with
    | root member => exact .root (entries _ member)
    | step _ found member ih => exact .step ih found member
  exact get?_tidied_of_reaches (orderly.waiting there).2.2.2 (widen (orderly.reaches there))

/-- While the read of a module that was asked for from outside ends, nothing else is under way. -/
theorem Orderly.last (orderly : g.Orderly base young [id] outside) {own : Commit} {children : List Nat}
    (here : g.At n id (.awaiting own children)) (ended : ∀ c ∈ children, ∃ r, g.outcome? c = some r)
    {m : Nat} {i : ModuleId} (opened : g.Open m i) : m = n := by
  induction m using Nat.strongRecOn generalizing i with
  | ind m ih =>
    rcases orderly.asked opened with ⟨-,root⟩ | ⟨k,less,j,own',children',there,child,-⟩
    · exact orderly.alone (List.mem_singleton.mp root ▸ opened) ⟨_,here,fun finished => finished⟩
    · obtain rfl := ih k less ⟨_,there,fun finished => finished⟩
      obtain ⟨-,equal⟩ := there.unique here
      cases equal
      obtain ⟨r,found⟩ := ended m child
      obtain ⟨s,there',unfinished⟩ := opened
      rw [there'.outcome?_eq_none unfinished] at found
      cases found

/-- Tidying up after a read that was asked for alone leaves what waits. -/
theorem Orderly.tidied_of_single {root : ModuleId} (orderly : g.Orderly base young [root] outside)
    {own own' : Commit} {children children' : List Nat} (here : g.At n id (.awaiting own children))
    (ended : ∀ c ∈ children, ∃ r, g.outcome? c = some r) {m : Nat} {i : ModuleId} (other : m ≠ n)
    (there : g.At m i (.awaiting own' children')) : (g.tidied own).get? i = some own'.version := by
  by_cases asked : id = root
  · subst asked
    exact absurd (orderly.last here ended ⟨_,there,fun finished => finished⟩) other
  · have new := orderly.renewed here (by simpa using asked)
    rw [tidied,new]
    exact (orderly.waiting there).2.2.2

/-- Where all that was asked for from outside has come to its end, everything has. -/
theorem Orderly.all_finished (orderly : g.Orderly base young roots outside)
    (ended : ∀ n ∈ outside, ∃ r, g.outcome? n = some r) {m : Nat} {i : ModuleId} : ¬ g.Open m i := by
  induction m using Nat.strongRecOn generalizing i with
  | ind m ih =>
    intro opened
    rcases orderly.asked opened with ⟨known,-⟩ | ⟨k,less,j,own,children,there,-⟩
    · obtain ⟨s,there,unfinished⟩ := opened
      obtain ⟨r,found⟩ := ended m known
      rw [there.outcome?_eq_none unfinished] at found
      cases found
    · exact ih k less ⟨_,there,fun finished => finished⟩

/-- Then nothing is under way. -/
theorem Orderly.resting (orderly : g.Orderly base young roots outside)
    (ended : ∀ n ∈ outside, ∃ r, g.outcome? n = some r) : g.Resting := by
  refine ⟨fun found => orderly.bounded (.registered found),?_,?_⟩
  · intro m i s there
    cases s with
    | done r => exact trivial
    | _ => exact absurd ⟨_,there,fun finished => finished⟩ (orderly.all_finished ended)
  · cases listed : g.inFlight with
    | nil => rfl
    | cons p rest =>
      have member : (p.1,p.2) ∈ g.inFlight := listed ▸ List.mem_cons_self
      exact absurd (orderly.listed member).2 (orderly.all_finished ended)

/-- Where nothing is under way, everything is in order. -/
theorem Resting.orderly (resting : g.Resting) (roots : List ModuleId) :
    g.Orderly g.tasks.length g.stamps roots [] := by
  have none : ∀ {m i s}, g.At m i s → ¬ s.Finished → False :=
    fun there unfinished => unfinished (resting.finished there)
  have past : ∀ {m r}, g.tasks.length ≤ m → g.outcome? m = some r → False := by
    intro m r late found
    obtain ⟨i,there⟩ := outcome?_iff.mp found
    have := there.lt
    omega
  have known : ∀ {v}, g.Known g.tasks.length v → v.stamp < g.stamps := by
    intro v known
    cases known with
    | registered found => exact resting.stamped found
    | replaced there replaces => exact (none there replaces.early.unfinished).elim
    | waiting there => exact (none there fun finished => finished).elim
    | committed late outcome => exact (past late outcome).elim
  constructor
  case start => exact Nat.le_refl _
  case listed =>
    intro m i member
    rw [resting.idle] at member
    cases member
  case opened =>
    rintro m i ⟨s,there,unfinished⟩
    exact (none there unfinished).elim
  case once =>
    intro i m k member
    rw [resting.idle] at member
    cases member
  case clock => exact Nat.le_refl _
  case bounded => exact known
  case apart =>
    intro v w one _ new
    have := known one
    omega
  case replaced => exact fun there replaces => (none there replaces.early.unfinished).elim
  case waiting => exact fun there => (none there fun finished => finished).elim
  case formed => exact fun late outcome => (past late outcome).elim
  case pending => exact fun late outcome => (past late outcome).elim
  case new => exact fun there early => (none there early.unfinished).elim
  case renewed => exact fun there => (none there fun finished => finished).elim
  case children => exact fun there => (none there fun finished => finished).elim
  case later => exact fun there => (none there fun finished => finished).elim
  case asked =>
    rintro m i ⟨s,there,unfinished⟩
    exact (none there unfinished).elim

end

end Graph

end Bundling
