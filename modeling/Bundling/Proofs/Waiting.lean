import Mathlib.Logic.Relation
import Bundling.Proofs.Functions
import Bundling.Proofs.Histories

/-!
# Who waits for whom

A push that waits for the read of another module was registered before that one, if that one waits too:
nobody waits for what is registered. The stamps of those that wait therefore grow along whoever waits
for whom, so that no read waits for itself, not even in a circle of imports, and all that is under way
waits in the end for a read that can go on (`no_deadlock`).
-/

namespace Bundling

/-- The tasks that are waited for. -/
def Stage.awaited {σ : Type} : Stage σ → List Nat
  | .awaiting _ children => children
  | _ => []

namespace Graph

variable {σ : Type} {tools : Toolchain σ} {g : Graph σ} {base young : Nat} {roots : List ModuleId}
  {outside : List Nat}

/-- The push of one module waits for the read of another one, which is on its way. -/
def WaitsFor (g : Graph σ) (waiting awaited : ModuleId) : Prop :=
  ∃ t ∈ g.tasks, t.id = waiting ∧ ∃ c ∈ t.stage.awaited, (awaited,c) ∈ g.inFlight

instance (g : Graph σ) (waiting awaited : ModuleId) : Decidable (g.WaitsFor waiting awaited) :=
  inferInstanceAs (Decidable (∃ t ∈ g.tasks, t.id = waiting ∧ ∃ c ∈ t.stage.awaited, (awaited,c) ∈ g.inFlight))

theorem waitsFor_iff {waiting awaited : ModuleId} :
    g.WaitsFor waiting awaited ↔ ∃ n own children c, g.At n waiting (.awaiting own children) ∧
      c ∈ children ∧ (awaited,c) ∈ g.inFlight := by
  constructor
  · rintro ⟨⟨_,s⟩,member,rfl,c,child,listed⟩
    obtain ⟨n,here⟩ := List.getElem?_of_mem member
    cases s with
    | awaiting own children => exact ⟨n,own,children,c,here,child,listed⟩
    | _ => cases child
  · rintro ⟨n,own,children,c,here,child,listed⟩
    exact ⟨_,List.mem_of_getElem? here,rfl,c,child,listed⟩

/-- The task of a module waits for no read and has not come to its end: a step takes it to another stage,
as long as neither its transformers nor its resolvers nor hooks are at work. -/
def Ready (tools : Toolchain σ) (g : Graph σ) (n : Nat) (id : ModuleId) : Prop :=
  (∀ other, ¬ g.WaitsFor id other) ∧ ∃ s, g.At n id s ∧ ¬ s.Finished ∧
    (s.Suspended ∨ ∃ next, (g.step tools n).At n id next ∧ next ≠ s)

/-- Whoever waits for a module that waits too was registered before it. -/
theorem Orderly.stamp_lt (orderly : g.Orderly base young roots outside) {waiting awaited : ModuleId}
    (waits : Relation.TransGen g.WaitsFor waiting awaited) {m n : Nat} {own own' : Commit}
    {children children' : List Nat} (here : g.At n waiting (.awaiting own children))
    (there : g.At m awaited (.awaiting own' children')) : own.version.stamp < own'.version.stamp := by
  have direct : ∀ {i j : ModuleId} {k l : Nat} {c d : Commit} {cs ds : List Nat}, g.WaitsFor i j →
      g.At k i (.awaiting c cs) → g.At l j (.awaiting d ds) → c.version.stamp < d.version.stamp := by
    intro i j k l c d cs ds waits one other
    obtain ⟨k',c',cs',child,at',member,listed⟩ := waitsFor_iff.mp waits
    have same := orderly.alone ⟨_,at',fun finished => finished⟩ ⟨_,one,fun finished => finished⟩
    subst same
    cases (at'.unique one).2
    have same := orderly.alone (orderly.listed listed).2 ⟨_,other,fun finished => finished⟩
    subst same
    exact orderly.later one _ member other
  induction waits generalizing m own' children' with
  | single waits => exact direct waits here there
  | tail _ last ih =>
    obtain ⟨k,own'',children'',_,middle,_⟩ := waitsFor_iff.mp last
    exact Nat.lt_trans (ih middle) (direct last middle there)

/-- No module waits for itself, however long the way round. -/
theorem Orderly.acyclic (orderly : g.Orderly base young roots outside) (id : ModuleId) :
    ¬ Relation.TransGen g.WaitsFor id id := by
  intro circle
  obtain ⟨_,first,-⟩ := Relation.TransGen.head'_iff.mp circle
  obtain ⟨n,own,children,_,here,_⟩ := waitsFor_iff.mp first
  exact Nat.lt_irrefl _ (orderly.stamp_lt circle here here)

/-- What has been taken up is not waited for any longer. -/
theorem accept_ne (g : Graph σ) (id : ModuleId) (contents : String) {s : Stage σ}
    (start : s = .reading ∨ ∃ text, s = .given text) : (g.accept id contents).1 ≠ s := by
  rcases accept_cases g id contents with ⟨_,-,-,same⟩ | ⟨_,_,-,same,-⟩
  · rw [same]
    rcases start with rfl | ⟨_,rfl⟩ <;> exact fun equal => by cases equal
  · rw [same]
    rcases start with rfl | ⟨_,rfl⟩ <;> exact fun equal => by cases equal

theorem advance_ne (tools : Toolchain σ) (g : Graph σ) (id : ModuleId) {s : Stage σ} (start : s.Early)
    (free : ¬ s.Suspended) : (g.advance tools id s).1 ≠ s := by
  cases s with
  | reading =>
    rcases read_cases tools g id with ⟨_,_,-,-,same⟩ | ⟨_,_,-,-,same⟩
    · rw [advance,same]
      exact fun equal => by cases equal
    · rw [advance,same]
      exact accept_ne _ _ _ (.inl rfl)
  | given contents => exact accept_ne _ _ _ (.inr ⟨_,rfl⟩)
  | transforming draft =>
    rcases transform_cases g id draft (transformation tools id draft.event.contents) with
      ⟨_,_,_,-,-,same⟩ | ⟨_,_,-,-,same⟩ | ⟨_,_,-,-,same⟩
    all_goals
      rw [advance,same]
      exact fun equal => by cases equal
  | paused | resolving | announcing => exact absurd trivial free
  | awaiting | done => exact start.elim

/-- A step takes a task on that waits for nothing, unless its transformers, its resolvers or hooks are at work. -/
theorem Orderly.ready (orderly : g.Orderly base young roots outside) {n : Nat} {id : ModuleId}
    {s : Stage σ} (here : g.At n id s) (going : ¬ s.Finished) (free : ∀ other, ¬ g.WaitsFor id other) :
    g.Ready tools n id := by
  refine ⟨free,s,here,going,?_⟩
  have turn := step_turn tools here
  generalize g.step tools n = after at turn
  cases turn with
  | @early _ next layer start _ _ eq =>
    by_cases suspended : s.Suspended
    · exact .inl suspended
    · refine .inr ⟨next,at_setStage_self (g := { g with layer }) here,?_⟩
      rintro rfl
      exact advance_ne tools g id start suspended (congrArg Prod.fst eq)
  | @failed _ _ layer start | @kept _ _ layer start =>
    refine .inr ⟨_,at_setStage_self (g := { g with layer }) here,?_⟩
    rintro rfl
    exact start.elim
  | @registered _ _ layer _ start _ _ same =>
    obtain ⟨children,entered⟩ := entered_spec here same layer
    refine .inr ⟨_,same ▸ entered.here,?_⟩
    rintro rfl
    exact start.elim
  | @waiting own children waits =>
    obtain ⟨c,child,pending⟩ := outcomes_eq_none_iff.mp waits
    obtain ⟨-,i,s,there,-⟩ := orderly.children here c child
    have unfinished : ¬ s.Finished := by
      intro finished
      cases s with
      | done r =>
        rw [outcome?_iff.mpr ⟨i,there⟩] at pending
        cases pending
      | _ => exact finished
    exact absurd (waitsFor_iff.mpr ⟨n,own,children,c,here,child,orderly.opened ⟨s,there,unfinished⟩⟩) (free i)
  | @settled own => exact .inr ⟨_,at_setStage_self (g := { g with registry := g.tidied own }) here,nofun⟩
  | @rolledBack own _ outcomes =>
    exact .inr ⟨_,at_setStage_self (g := { g with registry := own.rollback (Graph.commits outcomes) g.registry }) here,
      nofun⟩
  | ended => exact absurd trivial going

/-- All that is under way waits in the end for a read that can go on. -/
theorem Orderly.exists_ready (orderly : g.Orderly base young roots outside) {n : Nat} {id : ModuleId}
    (opened : g.Open n id) : ∃ m other, Relation.ReflTransGen g.WaitsFor id other ∧ g.Ready tools m other := by
  -- Along the chain the stamps grow, and none is as great as the number of versions made so far.
  have waiting : ∀ (left : Nat) {n : Nat} {id : ModuleId} {own : Commit} {children : List Nat},
      g.At n id (.awaiting own children) → g.stamps - own.version.stamp ≤ left →
      ∃ m other, Relation.ReflTransGen g.WaitsFor id other ∧ g.Ready tools m other := by
    intro left
    induction left with
    | zero =>
      intro n id own children here few
      have := orderly.bounded (.waiting here (.inl rfl))
      omega
    | succ left ih =>
      intro n id own children here few
      by_cases free : ∀ other, ¬ g.WaitsFor id other
      · exact ⟨n,id,.refl,orderly.ready here (fun finished => finished) free⟩
      · obtain ⟨other,waits⟩ : ∃ other, g.WaitsFor id other := by simpa using free
        obtain ⟨_,_,_,c,_,_,listed⟩ := waitsFor_iff.mp waits
        obtain ⟨s,there,unfinished⟩ := (orderly.listed listed).2
        by_cases deeper : ∃ own' children', s = .awaiting own' children'
        · obtain ⟨own',children',rfl⟩ := deeper
          have less := orderly.stamp_lt (.single waits) here there
          obtain ⟨m,last,chain,ready⟩ := ih there (by omega)
          exact ⟨m,last,.head waits chain,ready⟩
        · refine ⟨c,other,.single waits,orderly.ready there unfinished fun next waits' => ?_⟩
          obtain ⟨k,own',children',_,at',_⟩ := waitsFor_iff.mp waits'
          obtain rfl := orderly.alone ⟨_,at',fun finished => finished⟩ ⟨s,there,unfinished⟩
          exact deeper ⟨own',children',(there.unique at').2⟩
  obtain ⟨s,here,unfinished⟩ := opened
  by_cases waits : ∃ own children, s = .awaiting own children
  · obtain ⟨own,children,rfl⟩ := waits
    exact waiting _ here (Nat.le_refl _)
  · refine ⟨n,id,.refl,orderly.ready here unfinished fun next waits' => ?_⟩
    obtain ⟨k,own,children,_,at',_⟩ := waitsFor_iff.mp waits'
    obtain rfl := orderly.alone ⟨_,at',fun finished => finished⟩ ⟨s,here,unfinished⟩
    exact waits ⟨own,children,(here.unique at').2⟩

/-- Where the reads of the roots have come to their ends, no read is listed. -/
theorem Orderly.idle (orderly : g.Orderly base young roots outside)
    (ended : ∀ {n id}, id ∈ roots → ¬ g.Open n id) : g.inFlight = [] := by
  have none : ∀ (n : Nat) {id : ModuleId}, ¬ g.Open n id := by
    intro n
    induction n using Nat.strongRecOn with
    | ind n ih =>
      intro id opened
      rcases orderly.asked opened with ⟨-,root⟩ | ⟨k,less,j,own,children,there,-⟩
      · exact ended root opened
      · exact ih k less ⟨_,there,fun finished => finished⟩
  refine List.eq_nil_iff_forall_not_mem.mpr ?_
  rintro ⟨id,n⟩ listed
  exact none n (orderly.listed listed).2

/-- Whatever is imported and in whatever order tasks go on: while nothing but one compilation or one read
is under way, the pushes that wait for reads never wait in a circle, and each of them waits in the end for
a read that can go on. No read is listed once those that were asked for have come to their ends, and that
is so where the rounds of the operation have led to a result. -/
theorem no_deadlock (resting : g.Resting) {r : Request} (reads : r.IsRead) :
    (∀ events : List Event, (∀ e ∈ events, e.Within (r.roots tools g)) →
      (∀ id, ¬ Relation.TransGen (history tools g events).WaitsFor id id) ∧
      (∀ {n id}, (history tools g events).Open n id →
        ∃ m other, Relation.ReflTransGen (history tools g events).WaitsFor id other ∧
          (history tools g events).Ready tools m other) ∧
      ((∀ {n id}, id ∈ r.roots tools g → ¬ (history tools g events).Open n id) →
        (history tools g events).inFlight = [])) ∧
    ∀ {limit c g'}, rounds tools limit g [.asked r] = ([c],g') →
      (∃ events, (∀ e ∈ events, Event.Within (r.roots tools g) e) ∧ history tools g events = g') ∧
      ((g'.result? c).isSome → g'.inFlight = []) := by
  have lasting := @lasting_orderly σ tools g g.tasks.length g.stamps _ (r.roots_few tools g)
  have now : g.entries = g.entries ∧ g.Orderly g.tasks.length g.stamps (r.roots tools g) [] :=
    ⟨rfl,resting.orderly (r.roots tools g)⟩
  constructor
  · intro events within
    obtain ⟨outside,-,-,orderly⟩ := lasting.history now within
    exact ⟨orderly.acyclic,orderly.exists_ready,orderly.idle⟩
  · intro limit c g' ran
    obtain ⟨outside,c',same,carried⟩ := lasting.request reads now limit
    rw [ran] at same carried
    cases same
    obtain ⟨events,within,led,-⟩ := carried.traced
    refine ⟨⟨events,within,led⟩,fun returned => ?_⟩
    obtain ⟨result,returned⟩ := Option.isSome_iff_exists.mp returned
    exact (carried.now.2.resting (carried.ended returned)).idle

/-- Two entries that import each other: one waits for the other, which does not wait for it. -/
theorem no_deadlock_ring :
    let start : Graph (List (ModuleId × String)) := { layer := { env := ring }, entries := [Letter.a,Letter.b] }
    let now := history (letterTools slowly 20) start
      [.join Letter.a,.join Letter.b,.step 0,.step 0,.step 0,.step 0,.step 1]
    now.WaitsFor Letter.a Letter.b ∧ ¬ Relation.TransGen now.WaitsFor Letter.a Letter.a ∧
      (∃ m other, Relation.ReflTransGen now.WaitsFor Letter.a other ∧ now.Ready (letterTools slowly 20) m other) ∧
      ∃ g', rounds (letterTools slowly 20) 10 start [.asked .compile] = ([.under [.task 0,.task 1]],g') ∧
        (g'.result? (.under [.task 0,.task 1])).isSome = true ∧ g'.inFlight = [] := by
  intro start now
  have resting : start.Resting := ⟨fun found => by simp [start] at found,fun there => by simp [start,At] at there,rfl⟩
  obtain ⟨always,ends⟩ := @no_deadlock _ (letterTools slowly 20) start resting .compile trivial
  obtain ⟨acyclic,ready,-⟩ := always
    [.join Letter.a,.join Letter.b,.step 0,.step 0,.step 0,.step 0,.step 1] (by decide)
  have waits : now.WaitsFor Letter.a Letter.b := by decide +kernel
  obtain ⟨n,own,children,_,here,_⟩ := waitsFor_iff.mp waits
  obtain ⟨g',ran,returned⟩ : ∃ g', rounds (letterTools slowly 20) 10 start [.asked .compile] =
      ([.under [.task 0,.task 1]],g') ∧ (g'.result? (.under [.task 0,.task 1])).isSome = true :=
    exists_snd (by decide +kernel) (by decide +kernel)
  exact ⟨waits,acyclic Letter.a,ready ⟨_,here,fun finished => finished⟩,g',ran,returned,(ends ran).2 returned⟩

end Graph

end Bundling
