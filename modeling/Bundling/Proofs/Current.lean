import Bundling.Proofs.Faithful
import Bundling.Proofs.Rounds

/-!
# Registries that keep up with a world

As long as no read has failed, what is registered is an old version or what the world makes of the
module, and an import is missing only while it is being read (`Current`). Old versions are those of the
registry that the reads began with.
-/

namespace Bundling.Graph

variable {σ : Type}

/-- How the registry is while reads bring it up to date. -/
structure Current (w : World) (base : Nat) (old : Registry) (g : Graph σ) : Prop where
  origin : ∀ {id v}, g.registry.get? id = some v → old.get? id = some v ∨ w.compile? id = some v.body
  imports : ∀ {id v}, g.registry.get? id = some v → ∀ i ∈ v.body.imports,
    (∃ v', g.registry.get? i = some v') ∨ ∃ n, g.Open n i
  drafted : ∀ {n id s v}, g.At n id s → s.Replaces (some v) → old.get? id = some v
  waiting : ∀ {n id own children v}, g.At n id (.awaiting own children) → own.previous = some v →
    old.get? id = some v
  /-- What has been read is not an old version any more. -/
  ended : ∀ {n id cs v}, base ≤ n → g.At n id (.done (.ok cs)) → g.registry.get? id = some v →
    w.compile? id = some v.body

/-- An old version of a text that is still there is what the world makes of the module. -/
def Renewable (w : World) (old : Registry) : Prop :=
  ∀ id v, old.get? id = some v → w.text? id = some v.body.sources → w.compile? id = some v.body

section

variable {tools : Toolchain σ} {P : σ → Prop} {w : World} {base young n : Nat} {roots : List ModuleId}
  {outside : List Nat} {old : Registry} {g after : Graph σ} {id : ModuleId} {stage : Stage σ}

/-- Nothing has changed that matters here. -/
theorem Current.congr (current : g.Current w base old) (tasks : after.tasks = g.tasks)
    (registry : after.registry = g.registry) : after.Current w base old := by
  have at_iff : ∀ {m i s}, after.At m i s ↔ g.At m i s := at_congr tasks
  constructor
  case origin => exact fun found => current.origin (registry ▸ found)
  case imports =>
    intro i v found k imported
    rw [registry] at found ⊢
    refine (current.imports found k imported).imp_right ?_
    rintro ⟨m,s,there,going⟩
    exact ⟨m,s,at_iff.mpr there,going⟩
  case drafted => exact fun there => current.drafted (at_iff.mp there)
  case waiting => exact fun there => current.waiting (at_iff.mp there)
  case ended => exact fun late there found => current.ended late (at_iff.mp there) (registry ▸ found)

/-- A task goes on before its module is registered, or finds its text unchanged. -/
theorem Current.advance (current : g.Current w base old) (renewable : Renewable w old) (here : g.At n id stage)
    (layer : Resolution.State σ) {next : Stage σ}
    (grounded : next.Grounded tools P w g.registry roots id)
    (leads : (next.Early ∧ Drafted g id stage next) ∨ ∃ cs, next = .done (.ok cs)) :
    (({ g with layer }).setStage n next).Current w base old := by
  have at_iff : ∀ {m i s}, (({ g with layer } : Graph σ).setStage n next).At m i s ↔
      (m = n ∧ i = id ∧ s = next) ∨ (m ≠ n ∧ g.At m i s) := at_setStage_after here (by rfl)
  constructor
  case origin =>
    intro i v found
    rw [registry_setStage] at found
    exact current.origin found
  case imports =>
    intro i v found k imported
    rw [registry_setStage] at found ⊢
    rcases current.imports found k imported with present | ⟨m,s,there,going⟩
    · exact .inl present
    · by_cases equal : m = n
      · subst equal
        obtain ⟨rfl,-⟩ := there.unique here
        rcases leads with ⟨early,-⟩ | ⟨cs,rfl⟩
        · exact .inr ⟨m,next,at_iff.mpr (.inl ⟨rfl,rfl,rfl⟩),early.unfinished⟩
        · obtain ⟨v',found',-⟩ := grounded
          exact .inl ⟨v',found'⟩
      · exact .inr ⟨m,s,at_iff.mpr (.inr ⟨equal,there⟩),going⟩
  case drafted =>
    intro m i s v there replaces
    rcases at_iff.mp there with ⟨-,rfl,rfl⟩ | ⟨-,before⟩
    · obtain ⟨draft,known,previous⟩ := Stage.replaces_iff.mp replaces
      rcases leads with ⟨-,drafted⟩ | ⟨cs,rfl⟩
      · rcases drafted draft known with before | ⟨registered,new⟩
        · exact current.drafted here (Stage.replaces_iff.mpr ⟨draft,before,previous⟩)
        · -- The text is another one than that of the registered version, which therefore is an old one.
          have found : g.registry.get? i = some v := registered.symm.trans previous
          refine (current.origin found).resolve_right fun compiled => ?_
          have text := Stage.Grounded.text grounded known
          rw [World.sources_of_compile? compiled,Option.some.injEq] at text
          exact new v found text
      · cases known
    · exact current.drafted before replaces
  case waiting =>
    intro m i own children v there
    rcases at_iff.mp there with ⟨-,-,equal⟩ | ⟨-,before⟩
    · rcases leads with ⟨early,-⟩ | ⟨cs,rfl⟩
      · exact (equal ▸ early : (Stage.awaiting own children : Stage σ).Early).elim
      · cases equal
    · exact current.waiting before
  case ended =>
    intro m i cs v late there found
    rw [registry_setStage] at found
    rcases at_iff.mp there with ⟨-,rfl,equal⟩ | ⟨-,before⟩
    · subst equal
      obtain ⟨v',found',text⟩ := grounded
      obtain rfl := Option.some.inj (found.symm.trans found')
      exact (current.origin found).elim (fun before => renewable _ _ before text) fun compiled => compiled
    · exact current.ended late before found

/-- A module is registered, and what it is missing is being read. -/
theorem Current.enter (current : g.Current w base old) (here : g.At n id stage)
    {own : Commit} (same : own.version.id = id) (compiled : w.compile? id = some own.version.body)
    (previous : stage.Replaces own.previous) {children : List Nat} (entered : Entered g after n own children)
    (orderly : after.Orderly base young roots outside) : after.Current w base old := by
  have registry : ∀ {i v}, after.registry.get? i = some v →
      (i = id ∧ v = own.version) ∨ (i ≠ id ∧ g.registry.get? i = some v) := same ▸ entered.of_get?
  have mine : after.At n id (.awaiting own children) := same ▸ entered.here
  have before : ∀ {m i s}, after.At m i s → s ≠ .reading → (m = n ∧ i = id ∧ s = .awaiting own children) ∨
      (m ≠ n ∧ g.At m i s) := fun there other => same ▸ entered.at_cases other there
  constructor
  case origin =>
    intro i v found
    rcases registry found with ⟨rfl,rfl⟩ | ⟨-,found⟩
    · exact .inr compiled
    · exact current.origin found
  case imports =>
    intro i v found k imported
    cases missing : after.registry.get? k with
    | some v' => exact .inl ⟨v',rfl⟩
    | none =>
      refine .inr ?_
      rcases registry found with ⟨rfl,rfl⟩ | ⟨-,found⟩
      · obtain ⟨c,-,listed⟩ := entered.covered k imported missing
        exact ⟨c,(orderly.listed listed).2⟩
      · rcases current.imports found k imported with ⟨v',present⟩ | ⟨m,s,there,going⟩
        · rw [(entered.absent missing).2] at present
          cases present
        · exact ⟨m,entered.opened (same ▸ here) ⟨s,there,going⟩⟩
  case drafted =>
    intro m i s v there replaces
    rcases before there (fun reading => (reading ▸ replaces).elim) with ⟨-,-,rfl⟩ | ⟨-,there⟩
    · exact replaces.elim
    · exact current.drafted there replaces
  case waiting =>
    intro m i own' children' v there
    rcases before there nofun with ⟨-,rfl,equal⟩ | ⟨-,there⟩
    · cases equal
      exact fun registered => current.drafted here (registered ▸ previous)
    · exact current.waiting there
  case ended =>
    intro m i cs v late there found
    rcases before there nofun with ⟨-,-,equal⟩ | ⟨-,there⟩
    · cases equal
    · rcases registry found with ⟨rfl,rfl⟩ | ⟨-,found⟩
      · exact compiled
      · exact current.ended late there found

/-- A read ends well. -/
theorem Current.settle (current : g.Current w base old) (orderly : g.Orderly base young roots outside)
    {own : Commit} {children : List Nat} (here : g.At n id (.awaiting own children))
    (compiled : w.compile? id = some own.version.body) (r : List Commit) :
    (({ g with registry := g.tidied own }).setStage n (.done (.ok r))).Current w base old := by
  have at_iff : ∀ {m i s}, (({ g with registry := g.tidied own } : Graph σ).setStage n (.done (.ok r))).At m i s ↔
      (m = n ∧ i = id ∧ s = .done (.ok r)) ∨ (m ≠ n ∧ g.At m i s) := at_setStage_after here (by rfl)
  have registered := (orderly.waiting here).2.2.2
  constructor
  case origin =>
    intro i v found
    rw [registry_setStage] at found
    exact current.origin (get?_of_tidied found)
  case imports =>
    intro i v found k imported
    rw [registry_setStage] at found ⊢
    cases missing : (g.tidied own).get? k with
    | some v' => exact .inl ⟨v',rfl⟩
    | none =>
      have absent := get?_import_of_tidied found imported missing
      rcases current.imports (get?_of_tidied found) k imported with ⟨v',present⟩ | ⟨m,s,there,going⟩
      · rw [absent] at present
        cases present
      · refine .inr ⟨m,s,at_iff.mpr (.inr ⟨?_,there⟩),going⟩
        rintro rfl
        rw [(there.unique here).1,registered] at absent
        cases absent
  case drafted =>
    intro m i s v there replaces
    rcases at_iff.mp there with ⟨-,-,rfl⟩ | ⟨-,before⟩
    · exact replaces.elim
    · exact current.drafted before replaces
  case waiting =>
    intro m i own' children' v there
    rcases at_iff.mp there with ⟨-,-,equal⟩ | ⟨-,before⟩
    · cases equal
    · exact current.waiting before
  case ended =>
    intro m i cs v late there found
    rw [registry_setStage] at found
    have found := get?_of_tidied found
    rcases at_iff.mp there with ⟨-,rfl,-⟩ | ⟨-,before⟩
    · obtain rfl := Option.some.inj (registered.symm.trans found)
      exact compiled
    · exact current.ended late before found

/-- A read is asked for from outside. -/
theorem Current.join (current : g.Current w base old) (root : ModuleId) : (g.join root).2.Current w base old := by
  have grown := (grown_join g (List.mem_singleton.mpr rfl : root ∈ [root])).1
  generalize (g.join root).2 = after at grown
  have before : ∀ {m i s}, after.At m i s → s ≠ .reading → g.At m i s := fun there other => grown.at_old other there
  have registry : after.registry = g.registry := by rw [grown.same]
  constructor
  case origin => exact fun found => current.origin (registry ▸ found)
  case imports =>
    intro i v found k imported
    rw [registry] at found ⊢
    refine (current.imports found k imported).imp_right ?_
    rintro ⟨m,s,there,going⟩
    exact ⟨m,s,grown.old there,going⟩
  case drafted => exact fun there replaces => current.drafted (before there fun reading => (reading ▸ replaces).elim) replaces
  case waiting => exact fun there => current.waiting (before there nofun)
  case ended => exact fun late there found => current.ended late (before there nofun) (registry ▸ found)

/-- Every step that does not fail keeps the registry up to date. -/
theorem Current.step (current : g.Current w base old) (renewable : Renewable w old) (follows : tools.Follows P w)
    (faithful : g.Faithful tools P w base roots) (orderly : g.Orderly base young roots outside) (n : Nat)
    (orderly' : (g.step tools n).Orderly base young roots outside) (well : (g.step tools n).Unfailed base) :
    (g.step tools n).Current w base old := by
  by_cases bound : n < g.tasks.length
  · obtain ⟨id,stage,here⟩ := exists_at bound
    have turn := step_turn tools here
    have late : ¬ stage.Finished → base ≤ n := fun going => (orderly.listed (orderly.opened ⟨_,here,going⟩)).1
    generalize g.step tools n = after at turn orderly' well
    cases turn with
    | early start goes drafted eq =>
      have grounded := (fits_of_advance follows faithful.unhooked faithful.fine
        (faithful.fits (late start.unfinished) here) start eq goes.ne_awaiting).2
      exact current.advance renewable here _ grounded (.inl ⟨goes,drafted⟩)
    | @failed _ _ layer start eq =>
      exact (well n id _ (late start.unfinished) (at_setStage_self (g := { g with layer }) here)).elim
    | kept start _ eq =>
      have grounded := (fits_of_advance follows faithful.unhooked faithful.fine
        (faithful.fits (late start.unfinished) here) start eq (Stage.done_ne_awaiting _)).2
      exact current.advance renewable here _ grounded (.inr ⟨[],rfl⟩)
    | @registered _ draft layer own start drafts _ same previous _ unhooked =>
      obtain ⟨children,entered⟩ := entered_spec here same layer
      have fits := faithful.fits (late start.unfinished) here
      have compiled := (compiled_of_resolved faithful.fine fits
        (unhooked faithful.unhooked (Stage.Fits.not_announcing fits))).2
      exact current.enter here same compiled (Stage.replaces_iff.mpr ⟨draft,drafts,previous.symm⟩) entered orderly'
    | waiting => exact current
    | settled =>
      exact current.settle orderly here (faithful.fits (late fun finished => finished) here) _
    | @rolledBack own _ outcomes =>
      exact (well n id _ (late fun finished => finished)
        (at_setStage_self (g := { g with registry := own.rollback (commits outcomes) g.registry }) here)).elim
    | ended => exact current.congr (tasks_setStage_same here) registry_setStage
  · rw [step_none tools (List.getElem?_eq_none (Nat.le_of_not_lt bound))]
    exact current

theorem unfailed_of_step (tools : Toolchain σ) (n : Nat) (well : (g.step tools n).Unfailed base) :
    g.Unfailed base := fun m i e late there => well m i e late (at_done_step tools n there)

end

/-! ## Reads on their way -/

/-- What lasts while modules are read, from some graph on. -/
structure Reading (tools : Toolchain σ) (P : σ → Prop) (w : World) (roots : List ModuleId) (start : Graph σ)
    (outside : List Nat) (g : Graph σ) : Prop where
  orderly : g.Orderly start.tasks.length start.stamps roots outside
  entries : g.entries = start.entries
  late : ∀ n ∈ outside, start.tasks.length ≤ n
  faithful : g.Faithful tools P w start.tasks.length roots
  blamed : g.Blamed start.tasks.length outside
  current : g.Unfailed start.tasks.length → g.Current w start.tasks.length start.registry

section

variable {tools : Toolchain σ} {P : σ → Prop} {w : World} {roots : List ModuleId} {outside : List Nat}
  {start g : Graph σ}

theorem Reading.step (now : Reading tools P w roots start outside g) (follows : tools.Follows P w)
    (renewable : Renewable w start.registry) (n : Nat)
    (tidies : ∀ {id own children}, g.At n id (.awaiting own children) →
      (∀ c ∈ children, ∃ cs, g.outcome? c = some (.ok cs)) → ∀ {m i own' children'}, m ≠ n →
      g.At m i (.awaiting own' children') → (g.tidied own).get? i = some own'.version) :
    Reading tools P w roots start outside (g.step tools n) := by
  have orderly := now.orderly.step tools n tidies
  exact ⟨orderly,(entries_step tools g n).trans now.entries,now.late,now.faithful.step follows now.orderly n,
    now.blamed.step now.orderly tools n,fun well => (now.current (unfailed_of_step tools n well)).step renewable
      follows now.faithful now.orderly n orderly well⟩

theorem Reading.tick (now : Reading tools P w roots start outside g) : Reading tools P w roots start outside g.tick :=
  ⟨now.orderly.congr rfl rfl rfl rfl,now.entries,now.late,now.faithful.congr rfl rfl rfl,now.blamed.congr rfl,
    fun well => (now.current well).congr rfl rfl⟩

theorem unfailed_of_join {base : Nat} (id : ModuleId) (well : (g.join id).2.Unfailed base) : g.Unfailed base :=
  fun n i e late there => well n i e late ((grown_join g (List.mem_singleton.mpr rfl : id ∈ [id])).1.old there)

theorem Reading.join (now : Reading tools P w roots start outside g) {id : ModuleId} (asked : id ∈ roots) :
    Reading tools P w roots start ((g.join id).1 :: outside) (g.join id).2 := by
  obtain ⟨grown,mine⟩ := grown_join g (List.mem_singleton.mpr rfl : id ∈ [id])
  have orderly := now.orderly.join asked
  refine ⟨orderly,?_,?_,now.faithful.join asked,now.blamed.join id,fun well =>
    (now.current (unfailed_of_join id well)).join id⟩
  · rw [grown.same]
    exact now.entries
  · intro n member
    rcases List.mem_cons.mp member with rfl | before
    · exact (orderly.listed mine).1
    · exact now.late n before

/-- Before anything is read. -/
theorem Resting.reading (resting : start.Resting) (closed : start.registry.Closed)
    (unhooked : start.hooks.registered = []) (fine : P start.layer.env) (roots : List ModuleId) :
    Reading tools P w roots start [] start := by
  have none : ∀ {m i s}, start.At m i s → ¬ s.Finished → False :=
    fun there unfinished => unfinished (resting.finished there)
  have bounded : ∀ {m i s}, start.tasks.length ≤ m → start.At m i s → False := by
    intro m i s late there
    have := there.lt
    omega
  refine ⟨resting.orderly roots,rfl,by simp,Resting.faithful unhooked fine,?_,fun _ => ⟨?_,?_,?_,?_,?_⟩⟩
  · exact fun n id e late there => (bounded late there).elim
  · exact fun found => .inl found
  · exact fun found i imported => .inl (Registry.contains_iff.mp (closed _ _ found i imported))
  · exact fun there replaces => (none there replaces.early.unfinished).elim
  · exact fun there => (none there fun finished => finished).elim
  · exact fun late there => (bounded late there).elim

/-- Reads that all went well. -/
theorem Reading.well (now : Reading tools P w roots start outside g)
    (well : ∀ n ∈ outside, ∃ cs, g.outcome? n = some (.ok cs)) :
    (∀ {m i}, ¬ g.Open m i) ∧ g.Unfailed start.tasks.length ∧ g.Current w start.tasks.length start.registry := by
  have idle : ∀ {m i}, ¬ g.Open m i := now.orderly.all_finished fun n known => by
    obtain ⟨cs,outcome⟩ := well n known
    exact ⟨_,outcome⟩
  have unfailed := now.blamed.unfailed well idle
  exact ⟨idle,unfailed,now.current unfailed⟩

/-- A read that failed. -/
theorem Reading.bad (now : Reading tools P w roots start outside g) {n : Nat} {id : ModuleId} {e : CompileError}
    (late : start.tasks.length ≤ n) (failed : g.At n id (.done (.error e))) : ¬ w.Compiles roots := by
  intro compiles
  obtain ⟨bad,reached,missing⟩ := (show ∃ bad, w.Reaches roots bad ∧ w.compile? bad = none from
    now.faithful.fits late failed)
  obtain ⟨m,compiled⟩ := compiles bad reached
  rw [missing] at compiled
  cases compiled

end

end Bundling.Graph
