import Bundling.Proofs.Current

/-!
# What a full compile leaves

All entries are read into an empty registry. If that goes well, everything below the entries compiles
in the world that the toolchain follows, and the registry holds just that (`exact_of_ok`); if not, there
is something below the entries that does not compile (`compiles_of_returned`).
-/

namespace Bundling.Graph

variable {σ : Type}

/-- The modules of a graph are those that are below some roots in a world, and each is what the world
makes of it. -/
def Exact (w : World) (roots : List ModuleId) (g : Graph σ) : Prop :=
  ∀ id m, g.get? id = some m ↔ w.Reaches roots id ∧ w.compile? id = some m

theorem get?_iff {g : Graph σ} {id : ModuleId} {m : Module} :
    g.get? id = some m ↔ ∃ v, g.registry.get? id = some v ∧ v.body = m := by
  simp [Graph.get?]

/-- While all that is below some roots is read for the first time. -/
structure Complete (w : World) (base : Nat) (roots : List ModuleId) (g : Graph σ) : Prop where
  present : ∀ {n id cs}, base ≤ n → g.At n id (.done (.ok cs)) → ∃ v, g.registry.get? id = some v
  reached : ∀ {id v}, g.registry.get? id = some v → w.Reaches roots id
  fresh : ∀ {n id s draft}, g.At n id s → s.draft? = some draft → g.registry.get? id = none

section

variable {tools : Toolchain σ} {P : σ → Prop} {w : World} {base young n : Nat} {roots : List ModuleId}
  {outside : List Nat} {g after : Graph σ} {id : ModuleId} {stage : Stage σ}

/-- Nothing has changed that matters here. -/
theorem Complete.congr (complete : g.Complete w base roots) (tasks : after.tasks = g.tasks)
    (registry : after.registry = g.registry) : after.Complete w base roots := by
  have at_iff : ∀ {m i s}, after.At m i s ↔ g.At m i s := at_congr tasks
  refine ⟨?_,?_,?_⟩
  · exact fun late there => registry ▸ complete.present late (at_iff.mp there)
  · exact fun found => complete.reached (registry ▸ found)
  · exact fun there known => registry ▸ complete.fresh (at_iff.mp there) known

/-- A read is asked for from outside. -/
theorem Complete.join (complete : g.Complete w base roots) (root : ModuleId) :
    (g.join root).2.Complete w base roots := by
  have grown := (grown_join g (List.mem_singleton.mpr rfl : root ∈ [root])).1
  generalize (g.join root).2 = after at grown
  have registry : after.registry = g.registry := by rw [grown.same]
  refine ⟨?_,?_,?_⟩
  · exact fun late there => registry ▸ complete.present late (grown.at_old (by simp) there)
  · exact fun found => complete.reached (registry ▸ found)
  · intro m i s draft there known
    rcases grown.new there with before | ⟨-,rfl,-⟩
    · exact registry ▸ complete.fresh before known
    · cases known

/-- A task goes on, and the registry stays. -/
theorem Complete.setStage (complete : g.Complete w base roots) (here : g.At n id stage) (after : Graph σ)
    (tasks : after.tasks = g.tasks) (registry : after.registry = g.registry) (next : Stage σ)
    (ends : ∀ cs, next = .done (.ok cs) → ∃ v, g.registry.get? id = some v)
    (drafts : ∀ draft, next.draft? = some draft → g.registry.get? id = none) :
    (after.setStage n next).Complete w base roots := by
  refine ⟨?_,?_,?_⟩
  · intro m i cs late there
    rw [registry_setStage,registry]
    rcases (at_setStage_after here tasks).mp there with ⟨-,rfl,equal⟩ | ⟨-,before⟩
    · exact ends cs equal.symm
    · exact complete.present late before
  · intro i v found
    rw [registry_setStage,registry] at found
    exact complete.reached found
  · intro m i s draft there known
    rw [registry_setStage,registry]
    rcases (at_setStage_after here tasks).mp there with ⟨-,rfl,rfl⟩ | ⟨-,before⟩
    · exact drafts draft known
    · exact complete.fresh before known

/-- Where nothing is replaced, there is nothing to tidy up. -/
theorem Current.tidied (current : g.Current w base .empty) {own : Commit} {children : List Nat}
    (here : g.At n id (.awaiting own children)) : g.tidied own = g.registry := by
  have none : own.previous = none := by
    cases previous : own.previous with
    | none => rfl
    | some v => cases current.waiting here previous
  simp only [Graph.tidied,none]

/-- Every step that does not fail keeps what was read. -/
theorem Complete.step (complete : g.Complete w base roots) (current : g.Current w base .empty)
    (faithful : g.Faithful tools P w base roots) (orderly : g.Orderly base young roots outside) (n : Nat)
    (current' : (g.step tools n).Current w base .empty) (well : (g.step tools n).Unfailed base) :
    (g.step tools n).Complete w base roots := by
  by_cases bound : n < g.tasks.length
  · obtain ⟨id,stage,here⟩ := exists_at bound
    have turn := step_turn tools here
    have late : ¬ stage.Finished → base ≤ n := fun going => (orderly.listed (orderly.opened ⟨_,here,going⟩)).1
    generalize g.step tools n = after at turn current' well
    cases turn with
    | @early _ next layer start goes drafted =>
      refine complete.setStage here { g with layer } rfl rfl _ ?_ ?_
      · rintro cs rfl
        exact goes.elim
      · intro draft known
        rcases drafted draft known with before | ⟨registered,-⟩
        · exact complete.fresh here before
        · -- What would be replaced would be an old version, and there are none.
          cases found : g.registry.get? id with
          | none => rfl
          | some v =>
            have there := @at_setStage_self σ { g with layer } n next id _ here
            cases current'.drafted there (Stage.replaces_iff.mpr ⟨draft,known,registered.trans found⟩)
    | @failed _ _ layer start =>
      exact (well n id _ (late start.unfinished) (at_setStage_self (g := { g with layer }) here)).elim
    | @kept _ v layer start found =>
      exact complete.setStage here { g with layer } rfl rfl (.done (.ok [])) (fun _ _ => ⟨v,found⟩)
        (fun _ known => by cases known)
    | @registered _ _ layer own start _ _ same =>
      obtain ⟨children,entered⟩ := entered_spec here same layer
      refine ⟨?_,?_,?_⟩
      · intro m i cs late' there
        have before := entered.at_old (entered.ne (by simp) there) (by simp) there
        exact entered.exists_get?_iff.mpr (.inl (complete.present late' before))
      · intro i v found
        rcases entered.of_get? found with ⟨mine,-⟩ | ⟨-,found⟩
        · exact mine.trans same ▸ faithful.below (late start.unfinished) here
        · exact complete.reached found
      · intro m i s draft there known
        have early : s.Early := (Stage.replaces_iff.mpr ⟨draft,known,rfl⟩ : s.Replaces draft.previous).early
        have other := entered.ne_of_early early there
        rcases entered.new other there with before | ⟨-,rfl,-⟩
        · have ne : i ≠ own.version.id := by
            rintro rfl
            have opened : g.Open n own.version.id := by
              rw [same]
              exact ⟨_,here,start.unfinished⟩
            exact other (orderly.alone ⟨s,before,early.unfinished⟩ opened)
          rw [entered.get?_of_ne ne]
          exact complete.fresh before known
        · cases known
    | waiting => exact complete
    | @settled own children outcomes =>
      exact complete.setStage here { g with registry := g.tidied own } rfl (current.tidied here)
        (.done (.ok (own :: commits outcomes))) (fun _ _ => ⟨_,(orderly.waiting here).2.2.2⟩)
        (fun _ known => by cases known)
    | @rolledBack own _ outcomes =>
      exact (well n id _ (late fun finished => finished)
        (at_setStage_self (g := { g with registry := own.rollback (commits outcomes) g.registry }) here)).elim
    | ended => exact complete.congr (tasks_setStage_same here) registry_setStage
  · rw [step_none tools (List.getElem?_eq_none (Nat.le_of_not_lt bound))]
    exact complete

end

/-! ## All entries -/

/-- What lasts while all entries of a graph with nothing compiled are read. -/
structure Compiling (tools : Toolchain σ) (P : σ → Prop) (w : World) (start : Graph σ) (outside : List Nat)
    (g : Graph σ) : Prop extends Reading tools P w start.entries start outside g where
  empty : start.registry = .empty
  complete : g.Unfailed start.tasks.length → g.Complete w start.tasks.length start.entries

section

variable {tools : Toolchain σ} {P : σ → Prop} {w : World} {start g : Graph σ} {outside : List Nat}

theorem Compiling.current_empty (now : Compiling tools P w start outside g) (well : g.Unfailed start.tasks.length) :
    g.Current w start.tasks.length .empty := now.empty ▸ now.current well

theorem Compiling.step (now : Compiling tools P w start outside g) (follows : tools.Follows P w) (n : Nat) :
    Compiling tools P w start outside (g.step tools n) := by
  have renewable : Renewable w start.registry := by
    intro id v found
    rw [now.empty] at found
    cases found
  have reading := now.toReading.step follows renewable n fun _ _ _ _ _ _ _ there =>
    now.orderly.tidied_of_entries (fun root member => now.entries ▸ member) there
  refine ⟨reading,now.empty,fun well => ?_⟩
  have before := unfailed_of_step tools n well
  exact (now.complete before).step (now.current_empty before) now.faithful now.orderly n
    (now.empty ▸ reading.current well) well

theorem Compiling.tick (now : Compiling tools P w start outside g) : Compiling tools P w start outside g.tick :=
  ⟨now.toReading.tick,now.empty,fun well => (now.complete well).congr rfl rfl⟩

theorem lasting_compiling (follows : tools.Follows P w) (start : Graph σ) :
    Lasting tools start.entries (Compiling tools P w start) where
  listed now member := (now.orderly.listed member).2
  tick now := now.tick
  join {_ _ id} asked now :=
    ⟨now.toReading.join asked,now.empty,fun well => (now.complete (unfailed_of_join id well)).join id⟩
  step n now := now.step follows n

/-- Before anything is read. -/
theorem Resting.compiling (resting : start.Resting) (empty : start.registry = .empty)
    (unhooked : start.hooks.registered = []) (fine : P start.layer.env) : Compiling tools P w start [] start := by
  refine ⟨resting.reading (empty ▸ Registry.closed_empty) unhooked fine start.entries,empty,fun _ => ⟨?_,?_,?_⟩⟩
  · intro n id cs late there
    have := there.lt
    omega
  · intro id v found
    rw [empty] at found
    cases found
  · intro n id s draft there known
    have early : s.Early := (Stage.replaces_iff.mpr ⟨draft,known,rfl⟩ : s.Replaces draft.previous).early
    exact absurd (resting.finished there) early.unfinished

/-- How a compile ends. -/
theorem Compiling.ended (now : Compiling tools P w start outside g) {items : List Item}
    (reads : Call.Reads tools outside g start.entries (.under items)) {result : Except CompileError Unit}
    (returned : g.result? (.under items) = some result) :
    (result = .ok () → g.Exact w start.entries ∧ w.Compiles start.entries) ∧
      (result ≠ .ok () → ¬ w.Compiles start.entries) := by
  obtain ⟨ended,entries,ok⟩ := result?_under reads returned
  constructor
  · rintro rfl
    obtain ⟨idle,well,-⟩ := now.toReading.well (ok.mp rfl)
    have current := now.current_empty well
    have complete := now.complete well
    have compiled : ∀ {id v}, g.registry.get? id = some v → w.compile? id = some v.body :=
      fun found => (current.origin found).resolve_left nofun
    have present : ∀ {id}, w.Reaches start.entries id → ∃ v, g.registry.get? id = some v := by
      intro id reached
      induction reached with
      | root member =>
        obtain ⟨n,r,known,⟨s,there⟩,outcome⟩ := entries _ member
        obtain ⟨cs,fine⟩ := ok.mp rfl n known
        obtain ⟨i,done⟩ := outcome?_iff.mp fine
        obtain ⟨rfl,-⟩ := there.unique done
        exact complete.present (now.late n known) done
      | @step id i m _ below member ih =>
        obtain ⟨v,found⟩ := ih
        obtain rfl := Option.some.inj (below.symm.trans (compiled found))
        exact (current.imports found i member).resolve_right fun ⟨_,opened⟩ => idle opened
    refine ⟨fun id m => ?_,fun id reached => ?_⟩
    · rw [get?_iff]
      constructor
      · rintro ⟨v,found,rfl⟩
        exact ⟨complete.reached found,compiled found⟩
      · rintro ⟨reached,below⟩
        obtain ⟨v,found⟩ := present reached
        exact ⟨v,found,Option.some.inj ((compiled found).symm.trans below)⟩
    · obtain ⟨v,found⟩ := present reached
      exact ⟨v.body,compiled found⟩
  · intro failed compiles
    refine failed (ok.mpr fun n known => ?_)
    obtain ⟨r,outcome⟩ := ended n known
    cases r with
    | ok cs => exact ⟨cs,outcome⟩
    | error e =>
      obtain ⟨i,there⟩ := outcome?_iff.mp outcome
      exact absurd compiles (now.toReading.bad (now.late n known) there)

end

end Bundling.Graph
