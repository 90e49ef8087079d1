import Bundling.Proofs.Functions
import Bundling.Proofs.Histories

/-!
# Entries that compiled

An entry whose read went well is registered when all entries have been read, with everything below it,
unless the registration of something that it depends on was taken back. The invariant speaks of sets of
modules that are closed under dependence and of which none has been taken back: rollbacks do not touch such a
set, and a missing import of one of its modules is one whose read is not over, or has failed (`Covered`).
-/

namespace Bundling.Graph

variable {σ : Type}

/-- A version was registered when the reads began, or has been committed since. -/
def Recorded (g g' : Graph σ) (v : Version) : Prop :=
  g.registry.get? v.id = some v ∨
    ∃ n cs c, g.tasks.length ≤ n ∧ g'.outcome? n = some (.ok cs) ∧ c ∈ cs ∧ c.version = v

/-- What a module depends on, by the imports of all versions that were recorded. -/
inductive DependsOn (g g' : Graph σ) (entry : ModuleId) : ModuleId → Prop where
  | self : DependsOn g g' entry entry
  | imports {id i : ModuleId} {v : Version} (depends : DependsOn g g' entry id)
      (recorded : Recorded g g' v) (same : v.id = id) (member : i ∈ v.body.imports) :
      DependsOn g g' entry i

/-- The module whose registration an event takes back: a read that waited for others fails with one of them. -/
def Event.takenBack (tools : Toolchain σ) (g : Graph σ) : Event → List ModuleId
  | .step n =>
    match g.tasks[n]?, (g.step tools n).outcome? n with
    | some ⟨id,.awaiting ..⟩, some (.error _) => [id]
    | _, _ => []
  | .join _ | .tick => []

/-- The modules that were registered and have been taken back along a history. A read that fails before its module is
registered takes nothing back. -/
def takenBack (tools : Toolchain σ) (g : Graph σ) (events : List Event) : List ModuleId :=
  log tools (Event.takenBack tools) g events

/-- A set of modules that is closed under imports. -/
structure Safe (before : Registry) (base : Nat) (D : ModuleId → Prop) (g : Graph σ) : Prop where
  before : ∀ {id v}, before.get? id = some v → D id → ∀ i ∈ v.body.imports, D i
  waiting : ∀ {n id own children}, g.At n id (.awaiting own children) → D id →
    ∀ i ∈ own.version.body.imports, D i
  committed : ∀ {n cs}, base ≤ n → g.outcome? n = some (.ok cs) → ∀ c ∈ cs, D c.version.id →
    ∀ i ∈ c.version.body.imports, D i

/-- A read has not come to a good end: it is under way, or has failed. -/
def Unmet (g : Graph σ) (n : Nat) (id : ModuleId) : Prop := g.Open n id ∨ ∃ e, g.At n id (.done (.error e))

/-- How the modules of a safe set are registered. -/
structure Covered (before : Registry) (base : Nat) (roots : List ModuleId) (D : ModuleId → Prop)
    (g : Graph σ) : Prop where
  origin : ∀ {id v}, D id → g.registry.get? id = some v → before.get? id = some v ∨
    (∃ n own children, g.At n id (.awaiting own children) ∧ own.version = v) ∨
    ∃ n cs c, base ≤ n ∧ g.outcome? n = some (.ok cs) ∧ c ∈ cs ∧ c.version = v
  /-- An import that is missing is waited for. -/
  imports : ∀ {id v}, D id → g.registry.get? id = some v → ∀ i ∈ v.body.imports,
    (∃ w, g.registry.get? i = some w) ∨
    ∃ n own children c, g.At n id (.awaiting own children) ∧ own.version = v ∧ c ∈ children ∧ g.Unmet c i
  /-- A root whose read went well is there. -/
  ended : ∀ {n id cs}, base ≤ n → g.At n id (.done (.ok cs)) → D id → id ∈ roots →
    ∃ v, g.registry.get? id = some v

section

variable {before : Registry} {base young : Nat} {roots : List ModuleId} {outside : List Nat}
  {D gone gone' : ModuleId → Prop} {g after : Graph σ} {n m : Nat} {id i : ModuleId} {stage next : Stage σ}

theorem Event.mem_takenBack_step {tools : Toolchain σ} : id ∈ (Event.step n).takenBack tools g ↔
    ∃ own children e, g.At n id (.awaiting own children) ∧ (g.step tools n).outcome? n = some (.error e) := by
  rw [Event.takenBack]
  split
  · next id' own children e here failed =>
    rw [List.mem_singleton]
    constructor
    · rintro rfl
      exact ⟨own,children,e,here,failed⟩
    · rintro ⟨own',children',e',there,-⟩
      exact (At.unique there here).1
  · next no =>
    refine iff_of_false List.not_mem_nil ?_
    rintro ⟨own,children,e,here,failed⟩
    exact no id own children e here failed

/-- A read that has not come to a good end has not after a step, unless it is the one that comes to it. -/
theorem Turned.unmet (turned : Turned g after n id stage next) (going : ¬ stage.Finished) (before : g.Unmet m i) :
    after.Unmet m i ∨ (m = n ∧ i = id ∧ ∃ cs, next = .done (.ok cs)) := by
  rcases before with opened | ⟨e,failed⟩
  · rcases turned.opened opened with still | ⟨rfl,rfl,finished⟩
    · exact .inl (.inl still)
    · cases next with
      | done r =>
        cases r with
        | error e => exact .inl (.inr ⟨e,turned.there⟩)
        | ok cs => exact .inr ⟨rfl,rfl,cs,rfl⟩
      | _ => exact finished.elim
  · exact .inl (.inr ⟨e,turned.ended going failed⟩)

/-- The imports of what is registered are in the set too. -/
theorem Covered.closed (covered : g.Covered before base roots D) (safe : g.Safe before base D)
    {v : Version} (member : D id) (found : g.registry.get? id = some v) : ∀ i ∈ v.body.imports, D i := by
  rcases covered.origin member found with old | ⟨n,own,children,there,rfl⟩ | ⟨n,cs,c,late,outcome,inside,rfl⟩
  · exact safe.before old member
  · exact safe.waiting there member
  · have same := Registry.get?_id found
    exact safe.committed late outcome c inside (same ▸ member)

/-- Nothing has changed in what waits, in the registry and in what has ended well, but for one task
that has come to an end. -/
theorem Covered.frame (covered : g.Covered before base roots D)
    (registry : ∀ {i}, D i → after.registry.get? i = g.registry.get? i)
    (closed : ∀ {i v}, D i → g.registry.get? i = some v → ∀ k ∈ v.body.imports, D k)
    (waiting : ∀ {m i own children}, D i → g.At m i (.awaiting own children) →
      after.At m i (.awaiting own children))
    (ended : ∀ {m cs}, g.outcome? m = some (.ok cs) → after.outcome? m = some (.ok cs))
    (unmet : ∀ {m i}, g.Unmet m i → after.Unmet m i ∨ ∃ w, g.registry.get? i = some w)
    (fresh : ∀ {m i cs}, after.At m i (.done (.ok cs)) → D i → g.At m i (.done (.ok cs)) ∨ ∃ w, g.registry.get? i = some w) :
    after.Covered before base roots D := by
  refine ⟨?_,?_,?_⟩
  · intro i v member found
    rw [registry member] at found
    rcases covered.origin member found with old | ⟨m,own,children,there,same⟩ | ⟨m,cs,c,late,outcome,inside⟩
    · exact .inl old
    · exact .inr (.inl ⟨m,own,children,waiting member there,same⟩)
    · exact .inr (.inr ⟨m,cs,c,late,ended outcome,inside⟩)
  · intro i v member found k imported
    rw [registry member] at found
    rw [registry (closed member found k imported)]
    rcases covered.imports member found k imported with present | ⟨m,own,children,c,there,same,child,missing⟩
    · exact .inl present
    · rcases unmet missing with still | present
      · exact .inr ⟨m,own,children,c,waiting member there,same,child,still⟩
      · exact .inl present
  · intro m i cs late there member root
    rw [registry member]
    rcases fresh there member with old | present
    · exact covered.ended late old member root
    · exact present

/-- A set that is safe after a step was so before. -/
theorem Safe.earlier (safe : after.Safe before base D)
    (waiting : ∀ {m i own children}, g.At m i (.awaiting own children) → D i →
      after.At m i (.awaiting own children) ∨
        ∃ cs, base ≤ m ∧ after.outcome? m = some (.ok cs) ∧ own ∈ cs ∧ own.version.id = i)
    (ended : ∀ {m cs}, g.outcome? m = some (.ok cs) → after.outcome? m = some (.ok cs)) : g.Safe before base D := by
  refine ⟨safe.before,?_,fun late outcome => safe.committed late (ended outcome)⟩
  intro m i own children there member
  rcases waiting there member with still | ⟨cs,late,outcome,inside,same⟩
  · exact safe.waiting still member
  · exact safe.committed late outcome own inside (same ▸ member)

/-- What holds of all safe sets of which nothing has been taken back. -/
def Sheltered (before : Registry) (base : Nat) (roots : List ModuleId) (gone : ModuleId → Prop) (g : Graph σ) : Prop :=
  ∀ D, g.Safe before base D → (∀ id, gone id → ¬ D id) → g.Covered before base roots D

theorem Sheltered.mono (sheltered : g.Sheltered before base roots gone) (more : ∀ id, gone id → gone' id) :
    g.Sheltered before base roots gone' :=
  fun D safe spared => sheltered D safe fun id lost => spared id (more id lost)

/-- A task before its registration goes on, fails, or finds its module unchanged. -/
theorem Sheltered.early (sheltered : g.Sheltered before base roots gone) (turned : Turned g after n id stage next)
    (registry : after.registry = g.registry) (start : stage.Early)
    (ended : ∀ cs, next = .done (.ok cs) → ∃ w, g.registry.get? id = some w) :
    after.Sheltered before base roots gone := by
  intro D safe spared
  have waiting : ∀ {m i own children}, g.At m i (.awaiting own children) → after.At m i (.awaiting own children) :=
    turned.kept (start.ne_awaiting _ _).symm
  have past : g.Safe before base D := safe.earlier (fun there _ => .inl (waiting there)) (turned.outcome start.unfinished)
  refine (sheltered D past spared).frame (fun _ => by rw [registry]) ((sheltered D past spared).closed past)
    (fun _ => waiting) (turned.outcome start.unfinished) ?_ ?_
  · intro m i missing
    rcases turned.unmet start.unfinished missing with still | ⟨-,rfl,cs,last⟩
    · exact .inl still
    · exact .inr (ended cs last)
  · intro m i cs there _
    rcases turned.of_done there with ⟨rfl,last⟩ | old
    · exact .inr (ended cs last)
    · exact .inl old

/-- A module is registered, and what it is missing is being read. -/
theorem Sheltered.enter (sheltered : g.Sheltered before base roots gone) (here : g.At n id stage) (start : stage.Early)
    {own : Commit} (same : own.version.id = id) {children : List Nat}
    (entered : Entered g after n own children) (orderly' : after.Orderly base young roots outside) :
    after.Sheltered before base roots gone := by
  intro D safe spared
  have others : ∀ {m i s}, ¬ s.Early → g.At m i s → after.At m i s :=
    fun other there => (entered.at_late here start there other).2
  have outcomes : ∀ {m cs}, g.outcome? m = some (.ok cs) → after.outcome? m = some (.ok cs) := by
    intro m cs outcome
    obtain ⟨j,there⟩ := outcome?_iff.mp outcome
    exact outcome?_iff.mpr ⟨j,others (fun early => early) there⟩
  have past : g.Safe before base D := safe.earlier (fun there _ => .inl (others (fun early => early) there)) outcomes
  have covered := sheltered D past spared
  have still : ∀ {m i}, g.Unmet m i → after.Unmet m i := by
    rintro m i (opened | ⟨e,failed⟩)
    · exact .inl (entered.opened (same ▸ here) opened)
    · exact .inr ⟨e,others (fun early => early) failed⟩
  have present : ∀ {i w}, g.registry.get? i = some w → ∃ w', after.registry.get? i = some w' :=
    fun found => entered.exists_get?_iff.mpr (.inl ⟨_,found⟩)
  have registry : ∀ {i v}, after.registry.get? i = some v →
      (i = id ∧ v = own.version) ∨ (i ≠ id ∧ g.registry.get? i = some v) := same ▸ entered.of_get?
  refine ⟨?_,?_,?_⟩
  · intro i v member found
    rcases registry found with ⟨rfl,rfl⟩ | ⟨-,old⟩
    · exact .inr (.inl ⟨n,own,children,same ▸ entered.here,rfl⟩)
    · rcases covered.origin member old with old | ⟨m,own',children',there,same'⟩ | ⟨m,cs,c,late,outcome,inside⟩
      · exact .inl old
      · exact .inr (.inl ⟨m,own',children',others (fun early => early) there,same'⟩)
      · exact .inr (.inr ⟨m,cs,c,late,outcomes outcome,inside⟩)
  · intro i v member found k imported
    rcases registry found with ⟨rfl,rfl⟩ | ⟨-,old⟩
    · cases missing : after.registry.get? k with
      | some w => exact .inl ⟨w,rfl⟩
      | none =>
        obtain ⟨c,child,listed⟩ := entered.covered k imported missing
        exact .inr ⟨n,own,children,c,same ▸ entered.here,rfl,child,.inl (orderly'.listed listed).2⟩
    · rcases covered.imports member old k imported with ⟨w,found⟩ | ⟨m,own',children',c,there,same',child,missing⟩
      · exact .inl (present found)
      · exact .inr ⟨m,own',children',c,others (fun early => early) there,same',child,still missing⟩
  · intro m i cs late there member root
    have old := entered.at_old (entered.ne (by simp) there) (by simp) there
    obtain ⟨w,found⟩ := covered.ended late old member root
    exact present found

/-- A read ends well. What is tidied up then cannot be reached from the entries. -/
theorem Sheltered.settle (sheltered : g.Sheltered before base roots gone)
    (orderly : g.Orderly base young roots outside) (entries : ∀ root ∈ roots, root ∈ g.entries)
    {own : Commit} {children : List Nat} {outcomes : List Compiled}
    (turned : Turned g after n id (.awaiting own children) (.done (.ok (own :: commits outcomes))))
    (registry : after.registry = g.tidied own) (all : children.mapM g.outcome? = some outcomes)
    (good : firstError outcomes = none) : after.Sheltered before base roots gone := by
  intro D safe spared
  have going : ¬ (Stage.awaiting own children : Stage σ).Finished := fun finished => finished
  have late : base ≤ n := (orderly.listed (orderly.opened ⟨_,turned.here,going⟩)).1
  obtain ⟨same,-,-,current⟩ := orderly.waiting turned.here
  have mine : after.outcome? n = some (.ok (own :: commits outcomes)) := outcome?_iff.mpr ⟨id,turned.there⟩
  -- A task that waited still waits, or is the one that has ended.
  have waiting : ∀ {m i own' children'}, g.At m i (.awaiting own' children') →
      after.At m i (.awaiting own' children') ∨ (m = n ∧ i = id ∧ own' = own ∧ children' = children) := by
    intro m i own' children' there
    by_cases equal : m = n
    · subst equal
      obtain ⟨rfl,equal⟩ := there.unique turned.here
      cases equal
      exact .inr ⟨rfl,rfl,rfl,rfl⟩
    · exact .inl (turned.of_ne equal there)
  have past : g.Safe before base D := by
    refine safe.earlier (fun there _ => ?_) (turned.outcome going)
    rcases waiting there with still | ⟨rfl,rfl,rfl,rfl⟩
    · exact .inl still
    · exact .inr ⟨_,late,mine,List.mem_cons_self,same⟩
  have covered := sheltered D past spared
  have present : ∀ {i v k w}, (g.tidied own).get? i = some v → k ∈ v.body.imports → g.registry.get? k = some w →
      ∃ w', (g.tidied own).get? k = some w' := by
    intro i v k w found imported there
    cases missing : (g.tidied own).get? k with
    | some w' => exact ⟨w',rfl⟩
    | none =>
      rw [get?_import_of_tidied found imported missing] at there
      cases there
  refine ⟨?_,?_,?_⟩
  · intro i v member found
    rw [registry] at found
    rcases covered.origin member (get?_of_tidied found) with old | ⟨m,own',children',there,rfl⟩ | ⟨m,cs,c,late',outcome,inside⟩
    · exact .inl old
    · rcases waiting there with still | ⟨rfl,rfl,rfl,rfl⟩
      · exact .inr (.inl ⟨m,own',children',still,rfl⟩)
      · exact .inr (.inr ⟨m,_,own',late,mine,List.mem_cons_self,rfl⟩)
    · exact .inr (.inr ⟨m,cs,c,late',turned.outcome going outcome,inside⟩)
  · intro i v member found k imported
    rw [registry] at found ⊢
    rcases covered.imports member (get?_of_tidied found) k imported with ⟨w,old⟩ | ⟨m,own',children',c,there,same',child,missing⟩
    · exact .inl (present found imported old)
    · rcases waiting there with still | ⟨rfl,rfl,rfl,rfl⟩
      · rcases turned.unmet going missing with missing | ⟨-,rfl,-⟩
        · exact .inr ⟨m,own',children',c,still,same',child,missing⟩
        · exact .inl (present found imported current)
      · -- All that this task has waited for is done, and has gone well.
        obtain ⟨r,inside,outcome⟩ := exists_outcome all child
        obtain ⟨cs,rfl⟩ := firstError_eq_none_iff.mp good r inside
        rcases missing with ⟨s,there',unfinished⟩ | ⟨e,failed⟩
        · rw [there'.outcome?_eq_none unfinished] at outcome
          cases outcome
        · rw [outcome?_iff.mpr ⟨k,failed⟩] at outcome
          cases outcome
  · intro m i cs late' there member root
    rw [registry]
    have found : ∃ v, g.registry.get? i = some v := by
      rcases turned.of_done there with ⟨rfl,-⟩ | old
      · exact ⟨_,current⟩
      · exact covered.ended late' old member root
    obtain ⟨v,found⟩ := found
    exact ⟨v,get?_tidied_of_reaches found (.root (entries i root))⟩

/-- A rollback does not touch a safe set: no commit of a module of it can dangle. -/
theorem Covered.rollback (covered : g.Covered before base roots D) (safe : g.Safe before base D)
    (orderly : g.Orderly base young roots outside) {own : Commit} {children : List Nat}
    (here : g.At n id (.awaiting own children)) (failed : ¬ D id) {outcomes : List Compiled}
    (all : children.mapM g.outcome? = some outcomes) (member : D i) :
    (own.rollback (commits outcomes) g.registry).get? i = g.registry.get? i := by
  obtain ⟨same,-,formed,-⟩ := orderly.waiting here
  refine Commit.rollback_induction (Q := fun r => ∀ i, D i → r.get? i = g.registry.get? i) ?_ ?_ i member
  · intro i member
    rw [Commit.get?_revert formed,if_neg]
    rintro ⟨-,rfl⟩
    exact failed (same ▸ member)
  · intro c inside r agree i member
    obtain ⟨⟨formed,new⟩,known,unlike⟩ := orderly.commits here all inside
    rw [Commit.get?_prune formed,if_neg]
    · exact agree i member
    · rintro ⟨⟨current,dangling⟩,rfl⟩
      obtain ⟨w,found,stamp⟩ := Registry.isCurrent_iff.mp current
      rw [agree _ member] at found
      obtain rfl := orderly.apart (known _ (.inl rfl)) (.registered found) new stamp.symm
      obtain ⟨k,imported,absent⟩ := Commit.isDangling_iff.mp dangling
      rw [agree _ (covered.closed safe member found k imported)] at absent
      rcases covered.imports member found k imported with ⟨w',there⟩ | ⟨m,own',children',c',there,same',-⟩
      · rw [absent] at there
        cases there
      · exact unlike there same'.symm

/-- A read fails, and its module is taken back. -/
theorem Sheltered.rollback (sheltered : g.Sheltered before base roots gone)
    (orderly : g.Orderly base young roots outside) {own : Commit} {children : List Nat} {e : CompileError}
    (turned : Turned g after n id (.awaiting own children) (.done (.error e))) {outcomes : List Compiled}
    (registry : after.registry = own.rollback (commits outcomes) g.registry)
    (all : children.mapM g.outcome? = some outcomes) (lost : gone id) : after.Sheltered before base roots gone := by
  intro D safe spared
  have going : ¬ (Stage.awaiting own children : Stage σ).Finished := fun finished => finished
  have waiting : ∀ {m i own' children'}, D i → g.At m i (.awaiting own' children') → after.At m i (.awaiting own' children') := by
    intro m i own' children' member there
    refine turned.of_ne ?_ there
    rintro rfl
    exact spared id lost ((there.unique turned.here).1 ▸ member)
  have past : g.Safe before base D := safe.earlier (fun there member => .inl (waiting member there)) (turned.outcome going)
  have covered := sheltered D past spared
  refine covered.frame (fun member => ?_) (covered.closed past) waiting (turned.outcome going) ?_ ?_
  · rw [registry]
    exact covered.rollback past orderly turned.here (spared id lost) all member
  · intro m i missing
    rcases turned.unmet going missing with still | ⟨-,-,cs,last⟩
    · exact .inl still
    · cases last
  · intro m i cs there _
    rcases turned.of_done there with ⟨-,last⟩ | old
    · cases last
    · exact .inl old

/-- Nothing has changed that matters here. -/
theorem Sheltered.congr (sheltered : g.Sheltered before base roots gone) (tasks : after.tasks = g.tasks)
    (registry : after.registry = g.registry) : after.Sheltered before base roots gone := by
  obtain ⟨layer,entries,registry',stamps,hooks,tasks',inFlight⟩ := after
  cases tasks
  cases registry
  intro D safe spared
  obtain ⟨origin,imports,ended⟩ := sheltered D ⟨safe.before,safe.waiting,safe.committed⟩ spared
  exact ⟨origin,imports,ended⟩

/-- A read is asked for. -/
theorem Sheltered.join (sheltered : g.Sheltered before base roots gone) (root : ModuleId) :
    (g.join root).2.Sheltered before base roots gone := by
  have grown := (grown_join g (List.mem_singleton.mpr rfl : root ∈ [root])).1
  generalize (g.join root).2 = after at grown
  intro D safe spared
  have past : g.Safe before base D :=
    safe.earlier (fun there _ => .inl (grown.old there)) grown.outcome?_iff.mpr
  have covered := sheltered D past spared
  refine covered.frame (fun _ => by rw [grown.same]) (covered.closed past) (fun _ there => grown.old there)
    grown.outcome?_iff.mpr ?_ fun there _ => .inl (grown.at_old (by simp) there)
  rintro m i (⟨s,there,unfinished⟩ | ⟨e,failed⟩)
  · exact .inl (.inl ⟨s,grown.old there,unfinished⟩)
  · exact .inl (.inr ⟨e,grown.old failed⟩)

/-- Every step keeps what holds of safe sets, if what it takes back is known to be gone. -/
theorem Sheltered.step (sheltered : g.Sheltered before base roots gone)
    (orderly : g.Orderly base young roots outside) (entries : ∀ root ∈ roots, root ∈ g.entries)
    (tools : Toolchain σ) (n : Nat) (orderly' : (g.step tools n).Orderly base young roots outside)
    (lost : ∀ id ∈ (Event.step n).takenBack tools g, gone id) : (g.step tools n).Sheltered before base roots gone := by
  by_cases bound : n < g.tasks.length
  · obtain ⟨id,stage,here⟩ := exists_at bound
    have turn := step_turn tools here
    have mine : ∀ {own children e}, stage = .awaiting own children → (g.step tools n).At n id (.done (.error e)) → gone id := by
      rintro own children e rfl failed
      exact lost id (Event.mem_takenBack_step.mpr ⟨own,children,e,here,outcome?_iff.mpr ⟨id,failed⟩⟩)
    generalize g.step tools n = after at turn orderly' mine
    cases turn with
    | early start goes =>
      refine sheltered.early (turned_setStage here rfl) registry_setStage start ?_
      rintro cs rfl
      exact goes.elim
    | failed start => exact sheltered.early (turned_setStage here rfl) registry_setStage start nofun
    | kept start found => exact sheltered.early (turned_setStage here rfl) registry_setStage start fun _ _ => ⟨_,found⟩
    | @registered _ _ layer _ start _ _ same =>
      obtain ⟨children,entered⟩ := entered_spec here same layer
      exact sheltered.enter here start same entered orderly'
    | waiting => exact sheltered
    | settled all good => exact sheltered.settle orderly entries (turned_setStage here rfl) registry_setStage all good
    | rolledBack all =>
      exact sheltered.rollback orderly (turned_setStage here (by rfl)) registry_setStage all (mine rfl (at_setStage_self here))
    | ended => exact sheltered.congr (tasks_setStage_same here) registry_setStage
  · rw [step_none tools (List.getElem?_eq_none (Nat.le_of_not_lt bound))]
    exact sheltered

/-- Before anything is read, what holds of safe sets is that no import is missing. -/
theorem sheltered_of_closed (closed : g.registry.Closed) (roots : List ModuleId) (gone : ModuleId → Prop) :
    g.Sheltered g.registry g.tasks.length roots gone := by
  intro D _ _
  refine ⟨fun _ found => .inl found,?_,?_⟩
  · intro i v _ found k imported
    exact .inl (Registry.contains_iff.mp (closed i v found k imported))
  · intro m i cs late there
    have := there.lt
    omega

/-- What holds of safe sets after a history, where all reads that are asked for are those of entries. -/
theorem Sheltered.history (sheltered : g.Sheltered before base roots gone)
    (orderly : g.Orderly base young roots outside) (tools : Toolchain σ) (entries : g.entries = roots)
    {events : List Event} (within : ∀ e ∈ events, e.Within roots) (lost : ∀ id ∈ takenBack tools g events, gone id) :
    (history tools g events).Sheltered before base roots gone := by
  induction events generalizing g outside with
  | nil => exact sheltered
  | cons e events ih =>
    have lasting := @lasting_orderly σ tools g base young roots (.inl fun _ member => entries ▸ member)
    obtain ⟨same,next⟩ := lasting.apply ⟨rfl,orderly⟩ (within e List.mem_cons_self)
    have first : ∀ id ∈ e.takenBack tools g, gone id := fun id member => lost id (List.mem_append_left _ member)
    refine ih ?_ next (same.trans entries) (fun e' member => within e' (List.mem_cons_of_mem _ member))
      fun id member => lost id (List.mem_append_right _ member)
    cases e with
    | tick => exact sheltered.congr rfl rfl
    | join id => exact sheltered.join id
    | step n => exact sheltered.step orderly (fun _ member => entries ▸ member) tools n next first

end

/-! ## All entries -/

/-- An entry whose read has gone well in a history is registered with everything that it reaches, unless something that
it depends on has been taken back. -/
def Kept (tools : Toolchain σ) (g : Graph σ) (events : List Event) (n : Nat) : Prop :=
  ∀ {entry cs}, entry ∈ g.entries → (history tools g events).At n entry (.done (.ok cs)) →
    (∀ id, DependsOn g (history tools g events) entry id → id ∉ takenBack tools g events) →
    ∀ id, (history tools g events).registry.Reaches [entry] id → (history tools g events).registry.contains id = true

/-- Every entry is kept however the reads of all entries come to their ends, and the rounds of a compilation with a result
are one way to that. Each of its items is the task of the entry in its place. -/
theorem entry_kept {tools : Toolchain σ} {g : Graph σ} (resting : g.Resting) (closed : g.registry.Closed) :
    (∀ events, Ended tools g events → ∀ n ∈ joined tools g events, Kept tools g events n) ∧
    ∀ {limit : Nat} {items : List Item} {g' result}, rounds tools limit g [.asked .compile] = ([.under items],g') →
      g'.result? (.under items) = some result →
      ∃ events, Ended tools g events ∧ history tools g events = g' ∧
        ∀ {i n : Nat} {entry : ModuleId}, g.entries[i]? = some entry → items[i]? = some (.task n) →
          n ∈ joined tools g events ∧ ∃ s, g'.At n entry s := by
  have now : (g.entries = g.entries ∧ g.Orderly g.tasks.length g.stamps g.entries []) ∧ ∀ n ∈ [], g.tasks.length ≤ n :=
    ⟨⟨rfl,resting.orderly g.entries⟩,nofun⟩
  constructor
  · intro events ended n asked entry cs inEntries there spared id reached
    obtain ⟨outside,same,⟨-,orderly⟩,late⟩ := (lasting_late tools g).history now ended.within
    have mine : ∀ m ∈ outside, m ∈ joined tools g events := fun m member => ((same m).mp member).resolve_left List.not_mem_nil
    have idle : ∀ {m i own children}, ¬ (history tools g events).At m i (.awaiting own children) := fun there =>
      orderly.all_finished (fun m member => ended.ended m (mine m member)) ⟨_,there,fun finished => finished⟩
    -- The modules that the entry depends on are a safe set.
    have safe : (history tools g events).Safe g.registry g.tasks.length (DependsOn g (history tools g events) entry) := by
      refine ⟨?_,fun there => (idle there).elim,?_⟩
      · exact fun found depends i imported => .imports depends (.inl (Registry.get?_id found ▸ found)) (Registry.get?_id found) imported
      · exact fun late outcome c inside depends i imported =>
          .imports depends (.inr ⟨_,_,c,late,outcome,inside,rfl⟩) rfl imported
    have sheltered := (sheltered_of_closed closed g.entries (· ∈ takenBack tools g events)).history now.1.2 tools rfl
      ended.within fun _ member => member
    have covered := sheltered _ safe fun id lost depends => spared id depends lost
    have present : DependsOn g (history tools g events) entry id ∧
        ∃ v, (history tools g events).registry.get? id = some v := by
      induction reached with
      | root member =>
        obtain rfl := List.mem_singleton.mp member
        exact ⟨.self,covered.ended (late n ((same n).mpr (.inr asked))) there .self inEntries⟩
      | step _ found imported ih =>
        refine ⟨covered.closed safe ih.1 found _ imported,?_⟩
        rcases covered.imports ih.1 found _ imported with there | ⟨_,_,_,_,waits,-⟩
        · exact there
        · exact (idle waits).elim
    exact Registry.contains_iff.mpr present.2
  · intro limit items g' result ran returned
    obtain ⟨outside,c,same,⟨-,events,within,led,mine⟩,reads⟩ := ((lasting_late tools g).and_traced g).rounds
      (fun id (member : id ∈ g.entries) => member)
      (show Call.Reads tools [] g g.entries (.asked .compile) from ⟨rfl,.inl ⟨rfl,rfl⟩⟩) ⟨now,.refl⟩ limit
    rw [ran] at same led reads
    obtain rfl : Call.under items = c := by simpa using same
    obtain ⟨ended,asked,-⟩ := result?_under reads returned
    refine ⟨events,⟨within,fun id member => ?_,fun n member => led ▸ ended n ((mine n).mpr member)⟩,led,?_⟩
    · obtain ⟨n,-,known,there,-⟩ := asked id member
      exact ⟨n,(mine n).mp known,led ▸ there⟩
    · intro i n entry listed read
      obtain ⟨inEntries,first⟩ := List.getElem?_eq_some_iff.mp listed
      obtain ⟨inItems,task⟩ := List.getElem?_eq_some_iff.mp read
      obtain ⟨known,there⟩ : Item.Reads outside g' entry (.task n) := by
        have reads := reads.1.get inEntries inItems
        rwa [List.get_eq_getElem,List.get_eq_getElem,first,task] at reads
      exact ⟨(mine n).mp known,there⟩

/-- The versions that a task has committed. -/
private def committed (t : Task σ) : List Version :=
  match t.stage with
  | .done (.ok cs) => cs.map Commit.version
  | _ => []

/-- An entry depends on some modules only, if all that was recorded of these modules imports none but these. -/
private theorem mem_of_dependsOn {g g' : Graph σ} {D : List ModuleId}
    (within : (g.registry.versions ++ g'.tasks.flatMap committed).all
      (fun v => D.contains v.id → v.body.imports.all D.contains) = true)
    {entry : ModuleId} (inside : entry ∈ D) {id : ModuleId} (depends : DependsOn g g' entry id) : id ∈ D := by
  induction depends with
  | self => exact inside
  | @imports id i v _ recorded same imported ih =>
    have member : v ∈ g.registry.versions ++ g'.tasks.flatMap committed := by
      rcases recorded with before | ⟨n,cs,c,-,ended,commit,rfl⟩
      · exact List.mem_append_left _ (List.mem_of_find?_eq_some before)
      · obtain ⟨k,there⟩ := outcome?_iff.mp ended
        exact List.mem_append_right _ (List.mem_flatMap.mpr ⟨_,List.mem_of_getElem? there,List.mem_map_of_mem commit⟩)
    have all := List.all_eq_true.mp within v member
    simp_all

/-- Registered are `a`, which needs `d`, and `d`, whose file has come to need what is no name. The entry `e` needs `c`,
which there is not. -/
def stale : Graph (List (ModuleId × String)) where
  layer := { env := [(Letter.a,"d"),(Letter.d,"/"),(Letter.e,"c")] }
  entries := [Letter.a,Letter.d,Letter.e]
  registry := {
    versions := [⟨0,{ id := Letter.a, sources := "d", contents := "d", imports := [Letter.d] }⟩,
      ⟨1,{ id := Letter.d, sources := "", contents := "" }⟩]
    nodup := by decide }
  stamps := 2

/-- Of three entries two fail. What is taken back is `e`; all that `a` reaches is there, the old version of `d` too. -/
theorem entry_kept_stale :
    (∃ events, Ended (letterTools slowly 20) stale events ∧
      takenBack (letterTools slowly 20) stale events = [Letter.e] ∧
      (joined (letterTools slowly 20) stale events).map
        (fun n => ((history (letterTools slowly 20) stale events).outcome? n).map Except.isOk) =
          [some true,some false,some false] ∧
      ∀ id, (history (letterTools slowly 20) stale events).registry.Reaches [Letter.a] id →
        (history (letterTools slowly 20) stale events).registry.contains id = true) ∧
    ∃ g', rounds (letterTools slowly 20) 10 stale [.asked .compile] = ([.under [.task 0,.task 1,.task 2]],g') ∧
      ∃ events, Ended (letterTools slowly 20) stale events ∧ history (letterTools slowly 20) stale events = g' := by
  have resting : stale.Resting := by
    refine ⟨fun {i v} found => ?_,fun there => by simp [stale,At] at there,rfl⟩
    have young : ∀ v ∈ stale.registry.versions, v.stamp < stale.stamps := by decide
    exact young v (List.mem_of_find?_eq_some found)
  have closed : stale.registry.Closed := by
    intro i v found k imported
    have all : ∀ v ∈ stale.registry.versions, ∀ k ∈ v.body.imports, stale.registry.contains k = true := by decide
    exact all v (List.mem_of_find?_eq_some found) k imported
  obtain ⟨schedules,ends⟩ := @entry_kept _ (letterTools slowly 20) stale resting closed
  constructor
  · let events : List Event := [.join Letter.a,.step 0,.join Letter.e,.step 1,.step 0,.step 1,.join Letter.d,.step 1,.step 1,
      .step 2,.step 2,.step 2,.step 1,.step 3,.step 3,.step 1,.step 2]
    let g' := history (letterTools slowly 20) stale events
    have asked : joined (letterTools slowly 20) stale events = [0,1,2] := by decide +kernel
    have tasks : g'.tasks.map Task.id = [Letter.a,Letter.e,Letter.d,Letter.c] := by decide +kernel
    have results : ([0,1,2] : List Nat).map (fun n => (g'.outcome? n).map Except.isOk) =
        [some true,some false,some false] := by decide +kernel
    have lost : takenBack (letterTools slowly 20) stale events = [Letter.e] := by decide +kernel
    have there : ∀ {n id}, (g'.tasks.map Task.id)[n]? = some id → ∃ s, g'.At n id s := by
      intro n id found
      rw [List.getElem?_map] at found
      obtain ⟨t,here,rfl⟩ := Option.map_eq_some_iff.mp found
      exact ⟨t.stage,here⟩
    have places : ∀ id ∈ stale.entries, ∃ n ∈ [0,1,2], [Letter.a,Letter.e,Letter.d,Letter.c][n]? = some id := by decide
    have finished : ∀ n ∈ [0,1,2], (g'.outcome? n).isSome = true := by decide +kernel
    have ended : Ended (letterTools slowly 20) stale events := by
      refine ⟨by decide,fun id member => ?_,fun n member => Option.isSome_iff_exists.mp (finished n (asked ▸ member))⟩
      obtain ⟨n,known,place⟩ := places id member
      exact ⟨n,asked ▸ known,there (tasks ▸ place)⟩
    have well : (g'.outcome? 0).map Except.isOk = some true := by simpa using congrArg List.head? results
    obtain ⟨r,outcome,good⟩ := Option.map_eq_some_iff.mp well
    obtain ⟨s,first⟩ : ∃ s, g'.At 0 Letter.a s := there (by rw [tasks]; rfl)
    obtain ⟨i,done⟩ := outcome?_iff.mp outcome
    obtain ⟨rfl,-⟩ := first.unique done
    cases r with
    | error e => cases good
    | ok cs =>
      refine ⟨events,ended,lost,by rw [asked]; exact results,fun id => ?_⟩
      -- What `a` depends on are `a` and `d`.
      have apart : ∀ i ∈ [Letter.a,Letter.d], i ∉ [Letter.e] := by decide
      exact schedules events ended 0 (asked ▸ List.mem_cons_self) List.mem_cons_self done
        (fun i depends => lost ▸ apart i (mem_of_dependsOn (by decide +kernel) List.mem_cons_self depends)) id
  · obtain ⟨g',ran,returned⟩ : ∃ g', rounds (letterTools slowly 20) 10 stale [.asked .compile] =
        ([.under [.task 0,.task 1,.task 2]],g') ∧ (g'.result? (.under [.task 0,.task 1,.task 2])).isSome = true :=
      exists_snd (by decide +kernel) (by decide +kernel)
    obtain ⟨result,returned⟩ := Option.isSome_iff_exists.mp returned
    obtain ⟨events,ended,led,-⟩ := ends ran returned
    exact ⟨g',ran,events,ended,led⟩

/-- Where `a` needs `b` and `c`, `b` needs `a`, and `c` fails a round later, the read of the entry `b` goes
well, since `a` is there, and then `b` is taken back with `a`. -/
theorem entry_taken_back :
    ∃ g', rounds (letterTools (fun text => if text = "x" then 1 else 0) 20) 10
        { layer := { env := [(Letter.a,"bc"),(Letter.b,"a"),(Letter.c,"x")] }, entries := [Letter.a,Letter.b] }
        [.asked .compile] = ([.under [.task 0,.task 3]],g') ∧
      (g'.result? (.under [.task 0,.task 3])).isSome = true ∧ g'.outcome? 3 = some (.ok []) ∧
      g'.registry.contains Letter.b = false :=
  exists_snd (by decide +kernel) (by decide +kernel)

end Bundling.Graph
