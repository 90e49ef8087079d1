import Bundling.Proofs.Endings

/-!
# Operations on a graph at rest

A read or a push sets out from a graph at rest (`Setout`), and one read after the other is carried on to its end.
What is then registered lacks an import only where it was lacking before, or where a rollback let a commit stand
that nobody who waits knows of (`Performed`).
-/

namespace Bundling.Graph

variable {σ : Type} {g : Graph σ} {n : Nat} {id : ModuleId} {stage : Stage σ}

/-- Nothing but one task is under way, which has not registered its module. -/
structure Setout (g : Graph σ) (n : Nat) (id : ModuleId) (stage : Stage σ) : Prop where
  stamped : ∀ {i v}, g.registry.get? i = some v → v.stamp < g.stamps
  here : g.At n id stage
  start : stage.Early
  others : ∀ {m i s}, m ≠ n → g.At m i s → s.Finished
  listed : ∀ {m i}, (i,m) ∈ g.inFlight → m = n ∧ i = id
  drafted : ∀ previous, stage.Replaces previous → previous = g.registry.get? id

theorem Setout.poised (setout : g.Setout n id stage) : g.Poised (some n) := by
  refine ⟨setout.stamped,?_,?_,?_,?_⟩
  · intro m i s there early other
    have finished := setout.others (fun equal => other (congrArg some equal.symm)) there
    exact absurd finished early.unfinished
  · intro m i own children there
    by_cases equal : m = n
    · subst equal
      have start := setout.start
      rw [← (there.unique setout.here).2] at start
      exact start.elim
    · exact (setout.others equal there).elim
  · intro m i member
    obtain ⟨rfl,rfl⟩ := setout.listed member
    exact ⟨stage,setout.here,setout.start.unfinished⟩
  · intro i m k one other
    rw [(setout.listed one).1,(setout.listed other).1]

theorem Setout.alone (setout : g.Setout n id stage) {m : Nat} {i : ModuleId} (opened : g.Open m i) : m = n := by
  obtain ⟨s,there,unfinished⟩ := opened
  exact Classical.byContradiction fun other => unfinished (setout.others other there)

/-- What an operation without suspension has made of a graph. -/
structure Performed (g : Graph σ) (p : Passage σ) : Prop where
  resting : p.graph.Resting
  /-- An import that is missing was missing before, or its importer is known to nobody. -/
  dangling : ∀ {i v k}, p.graph.registry.get? i = some v → k ∈ v.body.imports →
    p.graph.registry.get? k = none →
    (g.registry.get? i = some v ∧ g.registry.get? k = none) ∨ ∃ c ∈ p.strays, c.version = v

theorem Performed.of_registry {g' : Graph σ} {p : Passage σ} (performed : Performed g' p)
    (same : g'.registry = g.registry) : Performed g p :=
  ⟨performed.resting,same ▸ performed.dangling⟩

theorem Performed.andThen {p q : Passage σ} (first : Performed g p) (others : Performed p.graph q) :
    Performed g (p.andThen q) := by
  refine ⟨others.resting,?_⟩
  intro i v k found member absent
  rcases others.dangling found member absent with ⟨before,gone⟩ | ⟨c,stray,same⟩
  · rcases first.dangling before member gone with old | ⟨c,stray,same⟩
    · exact .inl old
    · exact .inr ⟨c,List.mem_append_left _ stray,same⟩
  · exact .inr ⟨c,List.mem_append_right _ stray,same⟩

/-- The last task comes to its end. -/
theorem Resting.finish (here : g.At n id stage) (after : Graph σ) (tasks : after.tasks = g.tasks)
    (inFlight : after.inFlight = g.inFlight) (r : Compiled)
    (stamped : ∀ {i v}, after.registry.get? i = some v → v.stamp < after.stamps)
    (others : ∀ {m i s}, m ≠ n → g.At m i s → s.Finished)
    (listed : ∀ {m i}, (i,m) ∈ g.inFlight → g.Open m i) : (after.setStage n (.done r)).Resting := by
  have at_eq : ∀ {m i s}, after.At m i s ↔ g.At m i s := by simp [At,tasks]
  refine ⟨?_,?_,?_⟩
  · intro i v found
    rw [registry_setStage] at found
    rw [stamps_setStage]
    exact stamped found
  · intro m i s there
    rcases (at_setStage (at_eq.mpr here)).mp there with ⟨-,-,rfl⟩ | ⟨ne,before⟩
    · trivial
    · exact others ne (at_eq.mp before)
  · rw [inFlight_setStage_done,inFlight]
    refine List.eq_nil_iff_forall_not_mem.mpr ?_
    rintro ⟨i,m⟩ member
    obtain ⟨before,ne⟩ := List.mem_filter.mp member
    obtain ⟨s,there,unfinished⟩ := listed before
    exact unfinished (others (by simpa using ne) there)

section

variable {middle : Graph σ} {own : Commit} {children : List Nat} {q : Passage σ}

theorem Ending.others (ending : Ending g middle n own children q) (setout : g.Setout n id stage)
    {m : Nat} {i : ModuleId} {s : Stage σ} (other : m ≠ n) (there : q.graph.At m i s) : s.Finished :=
  Classical.byContradiction fun going => going (setout.others other (ending.unfinished other there going))

theorem Ending.performed_settled (ending : Ending g middle n own children q) (setout : g.Setout n id stage)
    {outcomes : List Compiled} (all : children.mapM q.graph.outcome? = some outcomes)
    (good : firstError outcomes = none) :
    Performed g { graph := ({ q.graph with registry := q.graph.tidied own }).setStage n
                    (.done (.ok (own :: commits outcomes)))
                  strays := q.strays ++ q.spared } := by
  obtain ⟨well,imports⟩ := ending.covered all good
  obtain ⟨spared,strays,-⟩ := ending.below.good well
  constructor
  · exact Resting.finish ending.here { q.graph with registry := q.graph.tidied own } rfl rfl _
      (fun found => ending.below.poised.stamped (get?_of_tidied found))
      (ending.others setout) ending.below.poised.listed
  · intro i v k found member absent
    rw [registry_setStage] at found absent
    have gone := get?_import_of_tidied found member absent
    rcases ending.below.dangling (get?_of_tidied found) member gone with
      ⟨before,gone'⟩ | ⟨c,stray,-⟩
    · by_cases equal : i = own.version.id
      · subst equal
        rw [ending.entered.get?_self] at before
        cases before
        obtain ⟨w,there⟩ := imports k member
        rw [gone] at there
        cases there
      · refine .inl ⟨ending.entered.get?_of_ne equal ▸ before,?_⟩
        have other : k ≠ own.version.id := by
          rintro rfl
          rw [ending.entered.get?_self] at gone'
          cases gone'
        exact ending.entered.get?_of_ne other ▸ gone'
    · rw [strays] at stray
      cases stray

theorem Ending.performed_rolledBack (ending : Ending g middle n own children q)
    (setout : g.Setout n id stage) {outcomes : List Compiled}
    (all : children.mapM q.graph.outcome? = some outcomes) (e : CompileError) :
    let registry := own.rollback (commits outcomes) q.graph.registry
    Performed g { graph := ({ q.graph with registry }).setStage n (.done (.error e))
                  spared := (commits outcomes).filter fun c => registry.isCurrent c.version
                  strays := q.strays ++ q.spared } := by
  intro registry
  have new : ∀ c ∈ commits outcomes, c.previous = none := fun c member => (ending.fresh all member).2
  constructor
  · refine Resting.finish ending.here { q.graph with registry } rfl rfl _ ?_ (ending.others setout)
      ending.below.poised.listed
    intro i v found
    rcases Commit.get?_of_rollback ending.formed new ending.current found with ⟨-,previous⟩ | ⟨-,before⟩
    · have old := setout.stamped (ending.previous ▸ previous)
      have := ending.entered.stamps
      have := ending.below.stamps
      show v.stamp < q.graph.stamps
      omega
    · exact ending.below.poised.stamped before
  · intro i v k found member absent
    rw [registry_setStage] at found absent
    exact ending.rollback_dangling all found member absent

end

/-- Carrying on the only task. -/
theorem performed_through {tools : Toolchain σ} {fuel : Nat} {p : Passage σ} (setout : g.Setout n id stage)
    (found : through tools fuel g n = some p) : Performed g p := by
  induction fuel generalizing g stage with
  | zero => simp [through] at found
  | succ fuel ih =>
    have here := setout.here
    have start := setout.start
    -- The task ends here, with the registry as it was.
    have ended : ∀ layer r, Performed g { graph := ({ g with layer }).setStage n (.done r) } := by
      intro layer r
      constructor
      · exact Resting.finish here { g with layer } rfl rfl r setout.stamped setout.others
          setout.poised.listed
      · intro i v k found _ absent
        rw [registry_setStage] at found absent
        exact .inl ⟨found,absent⟩
    obtain ⟨next,after,-,rest⟩ := through_early here start found
    have turn := step_turn tools here
    generalize g.step tools n = g' at turn after rest
    cases turn with
    | @early _ next' layer _ goes keeps _ =>
      have here' : ({ g with layer } : Graph σ).At n id stage := here
      obtain ⟨-,rfl⟩ := after.unique (at_setStage_self here')
      have setout' : (({ g with layer } : Graph σ).setStage n next).Setout n id next := by
        refine ⟨?_,after,goes,?_,?_,?_⟩
        · intro i v found
          rw [registry_setStage] at found
          rw [stamps_setStage]
          exact setout.stamped found
        · intro m i s ne there
          exact setout.others ne ((at_setStage_of_ne (g := { g with layer }) ne).mp there)
        · intro m i member
          rw [inFlight_setStage goes.unfinished] at member
          exact setout.listed member
        · intro previous replaces
          rw [registry_setStage]
          exact (keeps.replaces previous replaces).elim (setout.drafted previous) fun equal => equal
      exact (ih setout' rest).of_registry registry_setStage
    | @failed _ e layer _ _ =>
      have here' : ({ g with layer } : Graph σ).At n id stage := here
      rw [through_done (at_setStage_self here') rest]
      exact ended layer _
    | @kept _ v layer _ _ _ =>
      have here' : ({ g with layer } : Graph σ).At n id stage := here
      rw [through_done (at_setStage_self here') rest]
      exact ended layer _
    | @registered _ draft layer own _ drafts stamp same previous =>
      cases fuel with
      | zero => simp [through] at rest
      | succ fuel =>
        obtain ⟨children,entered⟩ := entered_spec here same layer
        obtain ⟨q,all,ends⟩ := through_awaiting entered.here rest
        have poised := setout.poised.enter here (fun m equal => (Option.some.inj equal).symm)
          (fun m opened => setout.alone opened) stamp same entered
        have begun : ∀ m ∈ children, ∃ i s, (g.entered layer n own).At m i s ∧ (s.Early ∨ s.Finished) := by
          intro m child
          obtain ⟨i,s,there,early⟩ := entered.child_early poised child
          exact ⟨i,s,there,.inl early⟩
        subst same
        have ending : Ending g _ n own children q :=
          ⟨entered,poised,stamp,previous.trans (setout.drafted _ (Stage.replaces_iff.mpr ⟨draft,drafts,rfl⟩)),setout.stamped,
            walked_throughAll poised begun all⟩
        obtain ⟨outcomes,known,⟨good,rfl⟩ | ⟨e,bad,rfl⟩⟩ := conclude_cases ending.here ends
        · exact ending.performed_settled setout known good
        · exact ending.performed_rolledBack setout known e
    | waiting | settled | rolledBack | ended => exact start.elim

theorem Resting.setout_join (resting : g.Resting) (id : ModuleId) :
    (g.join id).2.Setout (g.join id).1 id .reading := by
  have absent : g.inFlight.lookup id = none := by rw [resting.idle]; rfl
  have same : g.join id = (g.tasks.length,
      { g with tasks := g.tasks ++ [⟨id,.reading⟩], inFlight := g.inFlight ++ [(id,g.tasks.length)] }) := by
    rw [join,absent]
    rfl
  rw [same]
  refine ⟨resting.stamped,by simp [At],trivial,?_,?_,fun _ replaces => replaces.elim⟩
  · intro m i s ne there
    have bound : m < g.tasks.length := by
      have := there.lt
      simp at this
      omega
    rw [At,List.getElem?_append_left bound] at there
    exact resting.finished (show g.At m i s from there)
  · intro m i member
    simp [resting.idle] at member
    exact ⟨member.2,member.1⟩

theorem Resting.setout_start (resting : g.Resting) (id : ModuleId) (contents : String) :
    (g.start id (.given contents)).2.Setout (g.start id (.given contents)).1 id (.given contents) := by
  refine ⟨resting.stamped,by simp [At,start],trivial,?_,?_,fun _ replaces => replaces.elim⟩
  · intro m i s ne there
    have bound : m < g.tasks.length := by
      have := there.lt
      simp [start] at this ne
      omega
    rw [At,start,List.getElem?_append_left bound] at there
    exact resting.finished (show g.At m i s from there)
  · intro m i member
    simp [start,resting.idle] at member

/-- Carrying on one read after the other. -/
theorem performed_throughItems {tools : Toolchain σ} {ids : List ModuleId} {after : List Item}
    {p : Passage σ} (resting : g.Resting)
    (found : throughItems tools g (ids.map .wanted) = some (after,p)) : Performed g p := by
  induction ids generalizing g after p with
  | nil =>
    cases found
    exact ⟨resting,fun found _ absent => .inl ⟨found,absent⟩⟩
  | cons id ids ih =>
    rw [List.map_cons,throughItems] at found
    obtain ⟨q,first,rest⟩ := Option.bind_eq_some_iff.mp found
    obtain ⟨⟨others,r⟩,later,equal⟩ := Option.map_eq_some_iff.mp rest
    cases equal
    have performed := performed_through (resting.setout_join id) first
    have same : (g.join id).2.registry = g.registry := by
      have grown := (grown_join g (List.mem_singleton.mpr rfl : id ∈ [id])).1
      rw [grown.same]
    exact (performed.of_registry same).andThen (ih performed.resting later)

end Bundling.Graph
