import Bundling.Proofs.Failure
import Bundling.Proofs.Heeding

/-!
# Files that are read anew

While a file keeps its text, everything that is made of it is made of this text. So a read that begins after
the last edit of the file registers its text, unless it fails, and a registry in which the file is up to date
stays so whatever is read and whatever fails (`Refreshing.step`).
-/

namespace Bundling

variable {σ : Type} {id : ModuleId} {text : Except StoreError String}

/-- What there is to read in the file of a module. -/
def FileStore.textOf (store : FileStore σ) (s : σ) (id : ModuleId) : Except StoreError String :=
  (store.read id.path s).1

namespace Registry

/-- If a module is registered, then with this text. -/
def UpToDate (r : Registry) (id : ModuleId) (text : Except StoreError String) : Prop :=
  ∀ v, r.get? id = some v → text = .ok v.body.sources

variable {r r' : Registry}

theorem UpToDate.shrinks (now : r.UpToDate id text) (shrinks : ∀ v, r'.get? id = some v → r.get? id = some v) :
    r'.UpToDate id text :=
  fun v found => now v (shrinks v found)

theorem UpToDate.insert (now : r.UpToDate id text) {v : Version} (new : v.id = id → text = .ok v.body.sources) :
    (r.insert v).UpToDate id text := by
  intro w found
  rw [get?_insert] at found
  split at found
  · rename_i same
    cases found
    exact new same
  · exact now w found

theorem upToDate_insert {v : Version} (same : v.id = id) (new : text = .ok v.body.sources) :
    (r.insert v).UpToDate id text := by
  intro w found
  rw [get?_insert,if_pos same] at found
  cases found
  exact new

end Registry

namespace Graph

variable {tools : Toolchain σ} {g after : Graph σ} {base n : Nat} {x : ModuleId} {before : Registry}
  {stage next : Stage σ}

/-- What a task that reads its file goes on to: what it makes is made of the text that is there, and it leaves the
module alone only if this is the text that the module is registered with. -/
structure Draws (tools : Toolchain σ) (g : Graph σ) (id : ModuleId) (stage next : Stage σ) : Prop where
  read : ∀ contents, next ≠ .given contents
  drafted : ∀ draft, next.draft? = some draft →
    stage.draft? = some draft ∨ tools.store.textOf g.layer.env id = .ok draft.sources
  kept : next = .done (.ok []) →
    ∃ v, g.registry.get? id = some v ∧ tools.store.textOf g.layer.env id = .ok v.body.sources

theorem draws_advance (eq : g.advance tools id stage = (next,after)) (start : stage.Early)
    (read : ∀ contents, stage ≠ .given contents) : Draws tools g id stage next := by
  have known : ∀ {draft}, stage.draft? = some draft → Draws tools g id stage next := by
    intro draft known
    obtain ⟨kept,going⟩ := draft_advance known eq
    refine ⟨?_,fun draft' known' => .inl ?_,fun ended => absurd ended going⟩
    · rintro contents rfl
      cases kept trivial
    · rw [known,← kept (Stage.replaces_iff.mpr ⟨draft',known',rfl⟩).early,known']
  cases stage with
  | reading =>
    rcases read_cases tools g id with ⟨e,layer,-,-,same⟩ | ⟨contents,layer,there,-,same⟩
    · obtain ⟨rfl,-⟩ := Prod.mk.inj (eq.symm.trans same)
      exact ⟨nofun,(fun _ known => nomatch known),nofun⟩
    · rcases accept_cases { g with layer } id contents with ⟨v,found,equal,same'⟩ | ⟨event,layer',-,same',-⟩
      · obtain ⟨rfl,-⟩ := Prod.mk.inj (eq.symm.trans (same.trans same'))
        exact ⟨nofun,(fun _ known => nomatch known),fun _ => ⟨v,found,equal ▸ there⟩⟩
      · obtain ⟨rfl,-⟩ := Prod.mk.inj (eq.symm.trans (same.trans same'))
        refine ⟨nofun,fun draft known => ?_,nofun⟩
        cases known
        exact .inr there
  | given contents => exact absurd rfl (read contents)
  | transforming | paused | resolving | announcing => exact known rfl
  | awaiting own children => exact start.elim
  | done r => exact start.elim

/-- How a graph is while files are read for one task, since before a file got the text that it has. -/
structure Refreshing (base : Nat) (before : Registry) (id : ModuleId) (text : Except StoreError String) (g : Graph σ) :
    Prop where
  read : ∀ {n contents}, ¬ g.At n id (.given contents)
  drafted : ∀ {n s draft}, g.At n id s → s.draft? = some draft → text = .ok draft.sources
  steady : before.UpToDate id text → g.registry.UpToDate id text
  /-- The task is that of the file itself. -/
  renewed : ∀ {s}, g.At base id s → ¬ s.Early → (∀ e, s ≠ .done (.error e)) → g.registry.UpToDate id text

/-- Nothing has changed that matters here. -/
theorem Refreshing.congr (refreshing : g.Refreshing base before id text) (tasks : after.tasks = g.tasks)
    (registry : after.registry = g.registry) : after.Refreshing base before id text := by
  obtain ⟨layer,entries,registry',stamps,hooks,tasks',inFlight⟩ := after
  cases tasks
  cases registry
  exact { refreshing with }

/-- One task has gone on to a stage. -/
theorem Refreshing.setStage (refreshing : g.Refreshing base before id text) {i : ModuleId} (here : g.At n i stage)
    (after : Graph σ) (tasks : after.tasks = g.tasks)
    (read : i = id → ∀ contents, next ≠ .given contents)
    (drafted : i = id → ∀ draft, next.draft? = some draft → text = .ok draft.sources)
    (steady : before.UpToDate id text → after.registry.UpToDate id text)
    (renewed : n ≠ base → ∀ {s}, g.At base id s → ¬ s.Early → (∀ e, s ≠ .done (.error e)) →
      after.registry.UpToDate id text)
    (mine : n = base → i = id → ¬ next.Early → (∀ e, next ≠ .done (.error e)) → after.registry.UpToDate id text) :
    (after.setStage n next).Refreshing base before id text := by
  have at_iff := @at_setStage_after σ g n after i stage next here tasks
  refine ⟨?_,?_,?_,?_⟩
  · intro m contents there
    rcases at_iff.mp there with ⟨-,same,equal⟩ | ⟨-,before⟩
    · exact read same.symm contents equal.symm
    · exact refreshing.read before
  · intro m s draft there known
    rcases at_iff.mp there with ⟨-,same,rfl⟩ | ⟨-,before⟩
    · exact drafted same.symm draft known
    · exact refreshing.drafted before known
  · rw [registry_setStage]
    exact steady
  · intro s there late well
    rw [registry_setStage]
    rcases at_iff.mp there with ⟨number,same,rfl⟩ | ⟨ne,before⟩
    · exact mine number.symm same.symm late well
    · exact renewed (Ne.symm ne) before late well

/-- One task has come to an end. -/
theorem Refreshing.finish (refreshing : g.Refreshing base before id text) {i : ModuleId} (here : g.At n i stage)
    (after : Graph σ) (tasks : after.tasks = g.tasks) {r : Compiled}
    (steady : before.UpToDate id text → after.registry.UpToDate id text)
    (renewed : n ≠ base → ∀ {s}, g.At base id s → ¬ s.Early → (∀ e, s ≠ .done (.error e)) →
      after.registry.UpToDate id text)
    (mine : n = base → i = id → (∀ e, r ≠ .error e) → after.registry.UpToDate id text) :
    (after.setStage n (.done r)).Refreshing base before id text :=
  refreshing.setStage here after tasks (fun _ => nofun) (fun _ _ known => nomatch known) steady renewed
    fun root same _ well => mine root same fun e equal => well e (congrArg Stage.done equal)

/-- A module is registered. If it is that of the file, then it is made of the text. -/
theorem Refreshing.enter (refreshing : g.Refreshing base before id text) {own : Commit} {children : List Nat}
    (entered : Entered g after n own children) (new : own.version.id = id → text = .ok own.version.body.sources) :
    after.Refreshing base before id text := by
  constructor
  case read =>
    intro m contents there
    rcases entered.at_cases (by simp) there with ⟨-,-,equal⟩ | ⟨-,before⟩
    · cases equal
    · exact refreshing.read before
  case drafted =>
    intro m s draft there known
    have reading : s ≠ .reading := by
      rintro rfl
      cases known
    rcases entered.at_cases reading there with ⟨-,-,rfl⟩ | ⟨-,before⟩
    · cases known
    · exact refreshing.drafted before known
  case steady =>
    intro fresh
    rw [entered.registry]
    exact (refreshing.steady fresh).insert new
  case renewed =>
    intro s there late well
    rw [entered.registry]
    have reading : s ≠ .reading := by
      rintro rfl
      exact late trivial
    rcases entered.at_cases reading there with ⟨-,equal,-⟩ | ⟨-,before⟩
    · exact Registry.upToDate_insert equal.symm (new equal.symm)
    · exact (refreshing.renewed before late well).insert new

/-- A read fails. What comes back is what was there before the whole push, and none but its own task brings it back. -/
theorem Refreshing.rollback (refreshing : g.Refreshing base before id text) (pushing : g.Pushing base x before)
    {i : ModuleId} {own : Commit} {children : List Nat} (here : g.At n i (.awaiting own children))
    {outcomes : List Compiled} (all : children.mapM g.outcome? = some outcomes) (e : CompileError) :
    (({ g with registry := own.rollback (commits outcomes) g.registry }).setStage n (.done (.error e))).Refreshing
      base before id text := by
  have back : ∀ {v}, (own.rollback (commits outcomes) g.registry).get? id = some v →
      g.registry.get? id = some v ∨ n = base ∧ before.get? id = some v := by
    intro v found
    rcases Commit.rollback_origin found with kept | returned | ⟨c,member,returned⟩
    · exact .inl kept
    · rw [(pushing.waiting here).2] at returned
      split at returned
      · rename_i root
        obtain rfl : id = x := (Registry.get?_id found).symm.trans (Registry.get?_id returned)
        exact .inr ⟨root,returned⟩
      · cases returned
    · rw [(pushing.below here all member).1] at returned
      cases returned
  refine refreshing.finish here { g with registry := own.rollback (commits outcomes) g.registry } (by rfl) ?_ ?_
    fun _ _ well => absurd rfl (well e)
  · intro fresh v found
    rcases back found with kept | ⟨-,returned⟩
    · exact refreshing.steady fresh v kept
    · exact fresh v returned
  · intro below s there late well v found
    rcases back found with kept | ⟨root,-⟩
    · exact refreshing.renewed there late well v kept
    · exact absurd root below

/-- Every step, as long as the file keeps its text. -/
theorem Refreshing.step (refreshing : g.Refreshing base before id text) (pushing : g.Pushing base x before)
    (now : tools.store.textOf g.layer.env id = text) (n : Nat) : (g.step tools n).Refreshing base before id text := by
  by_cases bound : n < g.tasks.length
  · obtain ⟨i,stage,here⟩ := exists_at bound
    have turn := step_turn tools here
    have read : i = id → ∀ contents, stage ≠ .given contents := by
      rintro rfl contents rfl
      exact refreshing.read here
    generalize g.step tools n = after at turn
    cases turn with
    | @early _ next layer start goes drafted eq =>
      refine refreshing.setStage here { g with layer } (by rfl) ?_ ?_ refreshing.steady (fun _ => refreshing.renewed)
        fun _ _ late => absurd goes late
      · rintro rfl
        exact (draws_advance eq start (read rfl)).read
      · rintro rfl draft known
        rcases (draws_advance eq start (read rfl)).drafted draft known with before | fresh
        · exact refreshing.drafted here before
        · exact now.symm.trans fresh
    | @failed _ e layer start eq =>
      exact refreshing.finish here { g with layer } (by rfl) refreshing.steady (fun _ => refreshing.renewed)
        fun _ _ well => absurd rfl (well e)
    | @kept _ v layer start found eq =>
      refine refreshing.finish here { g with layer } (by rfl) refreshing.steady (fun _ => refreshing.renewed) ?_
      rintro - rfl - w found'
      obtain ⟨v',found,same⟩ := (draws_advance eq start (read rfl)).kept rfl
      cases found.symm.trans found'
      exact now.symm.trans same
    | @registered _ draft layer own _ drafts _ same _ sources =>
      obtain ⟨children,entered⟩ := entered_spec here same layer
      refine refreshing.enter entered fun equal => ?_
      obtain rfl := same.symm.trans equal
      rw [sources]
      exact refreshing.drafted here drafts
    | waiting => exact refreshing
    | @settled own children outcomes all good =>
      have tidied : g.registry.UpToDate id text → (g.tidied own).UpToDate id text :=
        fun fresh => fresh.shrinks fun v => get?_of_tidied
      refine refreshing.finish here { g with registry := g.tidied own } (by rfl)
        (fun fresh => tidied (refreshing.steady fresh))
        (fun _ _ there late well => tidied (refreshing.renewed there late well)) ?_
      rintro rfl rfl -
      exact tidied (refreshing.renewed here (fun early => early) nofun)
    | rolledBack all => exact refreshing.rollback pushing here all _
    | ended => exact refreshing.congr (tasks_setStage_same here) registry_setStage
  · rw [step_none tools (List.getElem?_eq_none (Nat.le_of_not_lt bound))]
    exact refreshing

/-- A read begins while nothing else is under way. -/
theorem Resting.refreshing (resting : g.Resting) (x id : ModuleId) (text : Except StoreError String) :
    (g.join x).2.Refreshing (g.join x).1 g.registry id text := by
  have setout := resting.setout_join x
  have grown := (grown_join g (List.mem_singleton.mpr rfl : x ∈ [x])).1
  have finished : ∀ {m i s}, (g.join x).2.At m i s → s.Finished ∨ s = .reading := by
    intro m i s there
    by_cases mine : m = (g.join x).1
    · subst mine
      exact .inr (there.unique setout.here).2
    · exact .inl (setout.others mine there)
  refine ⟨?_,?_,?_,?_⟩
  · intro m contents there
    rcases finished there with ended | reading
    · exact ended
    · cases reading
  · intro m s draft there known
    rcases finished there with ended | rfl
    · cases s with
      | done r => cases known
      | _ => exact ended.elim
    · cases known
  · rw [grown.same]
    exact fun fresh => fresh
  · intro s there late
    obtain ⟨-,rfl⟩ := there.unique setout.here
    exact absurd trivial late

/-- Once the task of the file itself has come to a good end. -/
theorem Refreshing.ended (refreshing : g.Refreshing base before id text) (pushing : g.Pushing base id before)
    {cs : List Commit} (outcome : g.outcome? base = some (.ok cs)) : g.registry.UpToDate id text :=
  refreshing.renewed (pushing.at_ended outcome) (fun early => early) nofun

/-! ## One read at a time -/

/-- Tasks and modules are what they were; only the state of the plugins and the clock may have changed. -/
structure Unmoved (g after : Graph σ) : Prop where
  tasks : after.tasks = g.tasks
  inFlight : after.inFlight = g.inFlight
  registry : after.registry = g.registry
  stamps : after.stamps = g.stamps
  hooks : after.hooks = g.hooks
  attempts : after.layer.attempts = g.layer.attempts

theorem Resting.unmoved (resting : g.Resting) (unmoved : Unmoved g after) : after.Resting := by
  refine ⟨fun {i v} found => ?_,fun {m i s} there => ?_,unmoved.inFlight.trans resting.idle⟩
  · rw [unmoved.registry] at found
    rw [unmoved.stamps]
    exact resting.stamped found
  · exact resting.finished ((at_congr unmoved.tasks).mp there)

theorem Heeds.unmoved {R : σ → σ → Prop} (heeds : g.Heeds R) (unmoved : Unmoved g after) : after.Heeds R :=
  heeds.congr unmoved.hooks unmoved.attempts unmoved.tasks

/-- Nothing is under way, or has been since some registry, but the read of one file and what it waits for. -/
structure Alone (n : Nat) (x : ModuleId) (before : Registry) (g : Graph σ) : Prop where
  orderly : ∃ base young, g.Orderly base young [x] [n]
  pushing : g.Pushing n x before

/-- A read begins. -/
theorem Resting.alone (resting : g.Resting) {path : Path} (found : tools.root.toId path = .ok x) :
    (g.join x).2.Alone (g.join x).1 x g.registry := by
  refine ⟨⟨_,_,(resting.orderly [x]).join (List.mem_singleton.mpr rfl)⟩,?_⟩
  have starts : Request.task? tools g (.read path) = some ((g.join x).1,(g.join x).2) := by
    simp [Request.task?,found,Except.toOption]
  obtain ⟨i,found',pushing⟩ := resting.pushing (.inl rfl) starts
  cases found.symm.trans found'
  exact pushing

theorem Alone.step (alone : g.Alone n x before) (tools : Toolchain σ) (m : Nat) :
    (g.step tools m).Alone n x before := by
  obtain ⟨⟨base,young,orderly⟩,pushing⟩ := alone
  have lasts := @lasting_orderly σ tools g base young [x] (.inr ⟨x,rfl⟩)
  exact ⟨⟨base,young,(lasts.step m ⟨rfl,orderly⟩).2⟩,pushing.step tools m⟩

theorem Alone.unmoved (alone : g.Alone n x before) (unmoved : Unmoved g after) : after.Alone n x before := by
  obtain ⟨⟨base,young,orderly⟩,pushing⟩ := alone
  exact ⟨⟨base,young,orderly.congr unmoved.tasks unmoved.inFlight unmoved.registry unmoved.stamps⟩,
    pushing.congr unmoved.tasks unmoved.inFlight unmoved.registry⟩

theorem Alone.resting (alone : g.Alone n x before) {r : Compiled} (outcome : g.outcome? n = some r) : g.Resting := by
  obtain ⟨⟨base,young,orderly⟩,-⟩ := alone
  refine orderly.resting fun m member => ?_
  rw [List.mem_singleton.mp member]
  exact ⟨r,outcome⟩

/-- What a call that is one task comes to. -/
theorem result?_task (g : Graph σ) (n : Nat) :
    g.result? (.under [.task n]) = (g.outcome? n).map fun
      | .error e => .error e
      | .ok _ => .ok () := by
  rw [result?_under_eq]
  cases outcome : g.outcome? n with
  | none => simp [Item.outcome?,outcome]
  | some r => cases r <;> simp [Item.outcome?,outcome,firstError]

theorem poll_read (g : Graph σ) {path : Path} (found : tools.root.toId path = .ok x) :
    g.poll tools (.asked (.read path)) =
      (.under [.task (g.join x).1],carry tools tools.fuel (g.join x).2 (g.join x).1) := by
  simp only [poll,begin,found]
  rfl

end Graph

end Bundling
