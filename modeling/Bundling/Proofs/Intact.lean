import Bundling.Proofs.Entries
import Bundling.Proofs.Full
import Bundling.Proofs.Histories

/-!
# What a failure does not touch

A compile of a graph with nothing compiled may fail. Still every module below the entries that compiles in the
world that the toolchain follows, together with everything below it, is registered in the end, as the world makes
it (`intact_kept`). Such modules are a safe set, so no rollback touches them; and since a module is registered
before its imports are read, the failure of one import does not keep the others from being read.
-/

namespace Bundling

/-- A module compiles, and so does everything below it. -/
def World.Intact (w : World) (id : ModuleId) : Prop := w.Compiles [id]

section

variable {w : World} {id i : ModuleId} {m : Module}

theorem World.Intact.compiled (intact : w.Intact id) : ∃ m, w.compile? id = some m :=
  intact id (.root (List.mem_singleton.mpr rfl))

theorem World.Intact.import (intact : w.Intact id) (compiled : w.compile? id = some m) (member : i ∈ m.imports) :
    w.Intact i := by
  intro k reached
  refine intact k (reached.trans fun i' same => ?_)
  rw [List.mem_singleton.mp same]
  exact .step (.root (List.mem_singleton.mpr rfl)) compiled member

/-- Modules of which each one compiles and imports none but these. -/
theorem World.compiles_of_closed {ids roots : List ModuleId} (inside : ∀ id ∈ roots, id ∈ ids)
    (closed : (ids.all fun id => (w.compile? id).any fun m => m.imports.all ids.contains) = true) : w.Compiles roots := by
  have each : ∀ id ∈ ids, ∃ m, w.compile? id = some m ∧ ∀ i ∈ m.imports, i ∈ ids := by
    intro id member
    obtain ⟨m,compiled,all⟩ := Option.any_eq_true _ _ |>.mp (List.all_eq_true.mp closed id member)
    exact ⟨m,compiled,fun i imported => List.contains_iff_mem.mp (List.all_eq_true.mp all i imported)⟩
  intro id reached
  have member : id ∈ ids := by
    induction reached with
    | root member => exact inside _ member
    | @step id i m _ compiled imported ih =>
      obtain ⟨m',compiled',below⟩ := each id ih
      obtain rfl := Option.some.inj (compiled.symm.trans compiled')
      exact below i imported
  obtain ⟨m,compiled,-⟩ := each id member
  exact ⟨m,compiled⟩

end

/-- What a stage of a task of a module says of the module, while modules are compiled for the first time. -/
def Stage.Keeps {σ : Type} (w : World) (tried : ModuleId → Prop) (r : Registry) (id : ModuleId) : Stage σ → Prop
  | .awaiting own _ => own.previous = none
  | .done outcome => ((∃ e, outcome = .error e) → ¬ w.Intact id) ∧ (w.Intact id → ∃ v, r.get? id = some v) ∧
      ∀ m, w.compile? id = some m → ∀ i ∈ m.imports, tried i
  | s => ∀ v, ¬ s.Replaces (some v)

theorem Stage.keeps_early {σ : Type} {w : World} {tried : ModuleId → Prop} {r : Registry} {id : ModuleId}
    {s : Stage σ} (early : s.Early) : s.Keeps w tried r id ↔ ∀ v, ¬ s.Replaces (some v) := by
  cases s with
  | awaiting | done => exact early.elim
  | _ => exact Iff.rfl

namespace Graph

variable {σ : Type} {tools : Toolchain σ} {P : σ → Prop} {w : World} {base young n : Nat} {roots : List ModuleId}
  {outside : List Nat} {g after : Graph σ} {id : ModuleId} {stage : Stage σ}

/-- A read of the module has begun since. -/
def Tried (base : Nat) (g : Graph σ) (id : ModuleId) : Prop := ∃ n s, base ≤ n ∧ g.At n id s

theorem Tried.grows (tried : g.Tried base id) (grows : Grows g after) : after.Tried base id := by
  obtain ⟨n,s,late,there⟩ := tried
  obtain ⟨s',there'⟩ := grows n id s there
  exact ⟨n,s',late,there'⟩

/-- Intact modules that are registered in one registry are so in another one. -/
def Spared (w : World) (r r' : Registry) : Prop :=
  ∀ id, w.Intact id → (∃ v, r.get? id = some v) → ∃ v, r'.get? id = some v

theorem Stage.Keeps.mono {tried tried' : ModuleId → Prop} {r r' : Registry} (keeps : stage.Keeps w tried r id)
    (more : ∀ i, tried i → tried' i) (spared : Spared w r r') : stage.Keeps w tried' r' id := by
  cases stage with
  | done outcome =>
    obtain ⟨failed,present,below⟩ := keeps
    exact ⟨failed,fun intact => spared id intact (present intact),fun m compiled i member => more i (below m compiled i member)⟩
  | _ => exact keeps

/-- How a graph is while modules are compiled for the first time, whatever fails. -/
structure Keeping (w : World) (base : Nat) (g : Graph σ) : Prop where
  made : ∀ {v}, g.Known base v → w.compile? v.id = some v.body ∧ g.Tried base v.id ∧
    ∀ i ∈ v.body.imports, g.Tried base i
  keeps : ∀ {n id s}, base ≤ n → g.At n id s → s.Keeps w (g.Tried base) g.registry id

/-- Intact modules are a safe set. -/
theorem Keeping.safe (keeping : g.Keeping w base) (orderly : g.Orderly base young roots outside) :
    g.Safe .empty base w.Intact where
  before found := nomatch found
  waiting there intact i member := by
    have compiled := (keeping.made (.waiting there (.inl rfl))).1
    rw [(orderly.waiting there).1] at compiled
    exact intact.import compiled member
  committed late outcome c inside intact i member :=
    intact.import (keeping.made (.committed late outcome inside (.inl rfl))).1 member

/-- What is known after a step is what the world makes of a module, and has been tried with its imports. -/
theorem Keeping.made_step (keeping : g.Keeping w base) (orderly : g.Orderly base young roots outside)
    (orderly' : (g.step tools n).Orderly base young roots outside)
    (faithful' : (g.step tools n).Faithful tools P w base roots) {v : Version}
    (known : (g.step tools n).Known base v) : w.compile? v.id = some v.body ∧ (g.step tools n).Tried base v.id ∧
      ∀ i ∈ v.body.imports, (g.step tools n).Tried base i := by
  have grows := grows_step tools g n
  rcases known.of_step fun there c child => (orderly.children there c child).1 with
    old | ⟨stage,draft,own,children,here,drafts,-,entered,rfl⟩
  · obtain ⟨compiled,tried,below⟩ := keeping.made old
    exact ⟨compiled,tried.grows grows,fun i member => (below i member).grows grows⟩
  · have early := (Stage.replaces_iff.mpr ⟨draft,drafts,rfl⟩).early
    have late : base ≤ n := (orderly.listed (orderly.opened ⟨_,here,early.unfinished⟩)).1
    have mine : (g.step tools n).Tried base own.version.id := ⟨n,_,late,entered.here⟩
    refine ⟨faithful'.fits late entered.here,mine,fun i member => ?_⟩
    cases found : (g.step tools n).registry.get? i with
    | some w' =>
      rcases entered.of_get? found with ⟨rfl,-⟩ | ⟨-,before⟩
      · exact mine
      · exact Registry.get?_id before ▸ ((keeping.made (.registered before)).2.1.grows grows)
    | none =>
      -- What is missing is being read.
      obtain ⟨c,-,listed⟩ := entered.covered i member found
      obtain ⟨late',s,there,-⟩ := orderly'.listed listed
      exact ⟨c,s,late',there⟩

theorem Spared.refl (w : World) (r : Registry) : Spared w r r := fun _ _ present => present

/-- One task has gone on to a stage. -/
theorem Keeping.setStage (keeping : g.Keeping w base) (here : g.At n id stage) (after : Graph σ)
    (tasks : after.tasks = g.tasks) (spared : Spared w g.registry after.registry) {next : Stage σ}
    (mine : base ≤ n → next.Keeps w (g.Tried base) g.registry id) {m : Nat} {i : ModuleId} {s : Stage σ}
    (late : base ≤ m) (there : (after.setStage n next).At m i s) :
    s.Keeps w ((after.setStage n next).Tried base) (after.setStage n next).registry i := by
  have more : ∀ j, g.Tried base j → (after.setStage n next).Tried base j := by
    rintro j ⟨k,s',late',before⟩
    obtain ⟨s'',now⟩ := grows_setStage (g := after) ((at_congr tasks).mpr here) k j s' ((at_congr tasks).mpr before)
    exact ⟨k,s'',late',now⟩
  rw [registry_setStage]
  rcases (at_setStage_after here tasks).mp there with ⟨rfl,rfl,rfl⟩ | ⟨-,before⟩
  · exact Stage.Keeps.mono (mine late) more spared
  · exact Stage.Keeps.mono (keeping.keeps late before) more spared

/-- A task before its registration goes on as the world has it. -/
theorem Keeping.early (keeping : g.Keeping w base) (faithful : g.Faithful tools P w base roots)
    (follows : tools.Follows P w) (here : g.At n id stage) (late : base ≤ n) (start : stage.Early) {next : Stage σ}
    {layer : Resolution.State σ} (eq : g.advance tools id stage = (next,{ g with layer }))
    (drafted : next.Early → Drafted g id stage next) (other : ∀ own children, next ≠ .awaiting own children) :
    next.Keeps w (g.Tried base) g.registry id := by
  have grounded := (fits_of_advance follows faithful.unhooked faithful.fine (faithful.fits late here) start eq other).2
  have compiled : ∀ {v}, g.registry.get? id = some v → w.compile? id = some v.body := fun found =>
    Registry.get?_id found ▸ (keeping.made (.registered found)).1
  by_cases goes : next.Early
  · refine (Stage.keeps_early goes).mpr fun v replaces => ?_
    obtain ⟨draft,known,same⟩ := Stage.replaces_iff.mp replaces
    rcases drafted goes draft known with before | ⟨registered,differs⟩
    · exact (Stage.keeps_early start).mp (keeping.keeps late here) v (Stage.replaces_iff.mpr ⟨draft,before,same⟩)
    · -- What is registered has the text that there is, and no other one is taken up.
      have found := registered.symm.trans same
      have text := Stage.Grounded.text grounded known
      exact differs v found (Option.some.inj ((World.sources_of_compile? (compiled found)).symm.trans text))
  · cases next with
    | awaiting own children => exact absurd rfl (other own children)
    | done outcome =>
      cases outcome with
      | error e =>
        have none : w.compile? id = none := grounded
        have broken : ¬ w.Intact id := fun intact => by
          obtain ⟨m,some⟩ := intact.compiled
          cases none.symm.trans some
        exact ⟨fun _ => broken,fun intact => absurd intact broken,fun m some => nomatch none.symm.trans some⟩
      | ok cs =>
        obtain ⟨v,found,-⟩ := (show ∃ v, g.registry.get? id = some v ∧ _ from grounded)
        refine ⟨nofun,fun _ => ⟨v,found⟩,fun m some i member => ?_⟩
        obtain rfl := Option.some.inj (some.symm.trans (compiled found))
        exact (keeping.made (.registered found)).2.2 i member
    | _ => exact absurd trivial goes

/-- What the stages of all tasks say after a step. -/
theorem Keeping.keeps_step (keeping : g.Keeping w base) (orderly : g.Orderly base young roots outside)
    (sheltered : g.Sheltered .empty base roots (¬ w.Intact ·)) (faithful : g.Faithful tools P w base roots)
    (follows : tools.Follows P w) (n : Nat) {m : Nat} {i : ModuleId} {s : Stage σ} (inside : base ≤ m)
    (there : (g.step tools n).At m i s) :
    s.Keeps w ((g.step tools n).Tried base) (g.step tools n).registry i := by
  by_cases bound : n < g.tasks.length
  · obtain ⟨id,stage,here⟩ := exists_at bound
    have turn := step_turn tools here
    have late : ¬ stage.Finished → base ≤ n := fun going => (orderly.listed (orderly.opened ⟨_,here,going⟩)).1
    have grows := grows_step tools g n
    generalize g.step tools n = after at turn grows there
    -- What a task that waited has made is what the world makes of its module.
    have awaited : ∀ {own children}, stage = .awaiting own children → own.previous = none ∧
        w.compile? id = some own.version.body ∧ g.registry.get? id = some own.version ∧
        ∀ i ∈ own.version.body.imports, g.Tried base i := by
      rintro own children rfl
      obtain ⟨same,-,-,current⟩ := orderly.waiting here
      obtain ⟨compiled,-,below⟩ := keeping.made (.waiting here (.inl rfl))
      exact ⟨keeping.keeps (late fun finished => finished) here,same ▸ compiled,current,below⟩
    cases turn with
    | @early _ next layer start goes drafted eq =>
      exact keeping.setStage here { g with layer } rfl (.refl w _) (fun late =>
        keeping.early faithful follows here late start eq (fun _ => drafted) goes.ne_awaiting) inside there
    | @failed _ e layer start eq =>
      exact keeping.setStage here { g with layer } rfl (.refl w _) (fun late =>
        keeping.early faithful follows here late start eq False.elim (Stage.done_ne_awaiting _)) inside there
    | @kept _ v layer start _ eq =>
      exact keeping.setStage here { g with layer } rfl (.refl w _) (fun late =>
        keeping.early faithful follows here late start eq False.elim (Stage.done_ne_awaiting _)) inside there
    | @registered _ draft layer own start drafts _ same previous =>
      obtain ⟨children,entered⟩ := entered_spec here same layer
      by_cases equal : m = n
      · subst equal
        obtain ⟨-,rfl⟩ := there.unique entered.here
        refine Option.eq_none_iff_forall_ne_some.mpr fun v replaced => ?_
        exact (Stage.keeps_early start).mp (keeping.keeps inside here) v
          (Stage.replaces_iff.mpr ⟨draft,drafts,previous.symm.trans replaced⟩)
      · rcases entered.new equal there with before | ⟨-,rfl,-⟩
        · exact Stage.Keeps.mono (keeping.keeps inside before) (fun _ tried => tried.grows grows) fun _ _ present =>
            entered.exists_get?_iff.mpr (.inl present)
        · exact fun _ replaces => replaces
    | waiting => exact keeping.keeps inside there
    | @settled own children outcomes all good =>
      obtain ⟨new,compiled,current,below⟩ := awaited rfl
      have untouched : g.tidied own = g.registry := by rw [tidied,new]
      have keeps : (.done (.ok (own :: commits outcomes)) : Stage σ).Keeps w (g.Tried base) g.registry id := by
        refine ⟨fun failed => ?_,fun _ => ⟨own.version,current⟩,fun m same i member => ?_⟩
        · obtain ⟨e,eq⟩ := failed
          cases eq
        · obtain rfl := Option.some.inj (same.symm.trans compiled)
          exact below i member
      exact keeping.setStage here { g with registry := g.tidied own } rfl (untouched.symm ▸ .refl w _)
        (fun _ => keeps) inside there
    | @rolledBack own children outcomes e all bad =>
      obtain ⟨new,compiled,current,below⟩ := awaited rfl
      -- One of the imports is not intact, so neither is the module.
      have broken : ¬ w.Intact id := by
        intro intact
        obtain ⟨c,child,outcome⟩ := (mem_outcomes_iff all).mp (mem_of_firstError bad)
        obtain ⟨i,there⟩ := outcome?_iff.mp outcome
        obtain ⟨late',i',s,there',imported⟩ := orderly.children here c child
        obtain ⟨rfl,rfl⟩ := there.unique there'
        exact (keeping.keeps late' there).1 ⟨e,rfl⟩ (intact.import compiled imported)
      have spared : Spared w g.registry (own.rollback (commits outcomes) g.registry) := by
        intro i intact present
        rwa [(sheltered w.Intact (keeping.safe orderly) fun _ broken => broken).rollback (keeping.safe orderly) orderly here broken all intact]
      have keeps : (.done (.error e) : Stage σ).Keeps w (g.Tried base) g.registry id := by
        refine ⟨fun _ => broken,fun intact => absurd intact broken,fun m same i member => ?_⟩
        obtain rfl := Option.some.inj (same.symm.trans compiled)
        exact below i member
      exact keeping.setStage here { g with registry := own.rollback (commits outcomes) g.registry } rfl spared
        (fun _ => keeps) inside there
    | ended =>
      exact keeping.setStage here g rfl (.refl w _) (fun late => keeping.keeps late here) inside there
  · rw [step_none tools (List.getElem?_eq_none (Nat.le_of_not_lt bound))] at there ⊢
    exact keeping.keeps inside there

/-! ## All entries -/

/-- What lasts while all entries of a graph with nothing compiled are read. -/
structure Salvaging (tools : Toolchain σ) (P : σ → Prop) (w : World) (start : Graph σ) (outside : List Nat)
    (g : Graph σ) : Prop where
  entries : g.entries = start.entries
  orderly : g.Orderly start.tasks.length start.stamps start.entries outside
  late : ∀ n ∈ outside, start.tasks.length ≤ n
  sheltered : g.Sheltered .empty start.tasks.length start.entries (¬ w.Intact ·)
  faithful : g.Faithful tools P w start.tasks.length start.entries
  keeping : g.Keeping w start.tasks.length

theorem Keeping.congr (keeping : g.Keeping w base) (tasks : after.tasks = g.tasks)
    (registry : after.registry = g.registry) : after.Keeping w base := by
  obtain ⟨layer,entries,registry',stamps,hooks,tasks',inFlight⟩ := after
  cases tasks
  cases registry
  exact ⟨fun known => keeping.made (known.of_tasks (fun found => found) .inl),keeping.keeps⟩

theorem Keeping.join (keeping : g.Keeping w base) (root : ModuleId) : (g.join root).2.Keeping w base := by
  have grown := (grown_join g (List.mem_singleton.mpr rfl : root ∈ [root])).1
  have grows := grows_join g root
  have registry : (g.join root).2.registry = g.registry := by rw [grown.same]
  generalize (g.join root).2 = after at grown grows registry
  constructor
  · intro v known
    have old : g.Known base v := known.of_tasks (fun found => registry ▸ found) fun there => by
      rcases grown.new there with before | ⟨-,rfl,-⟩
      · exact .inl before
      · exact .inr fun bears => bears
    obtain ⟨compiled,tried,below⟩ := keeping.made old
    exact ⟨compiled,tried.grows grows,fun i member => (below i member).grows grows⟩
  · intro m i s late there
    rcases grown.new there with before | ⟨-,rfl,-⟩
    · exact Stage.Keeps.mono (keeping.keeps late before) (fun _ tried => tried.grows grows) (registry ▸ .refl w _)
    · exact fun _ replaces => replaces

theorem lasting_salvaging (follows : tools.Follows P w) (start : Graph σ) :
    Lasting tools start.entries (Salvaging tools P w start) where
  listed now member := (now.orderly.listed member).2
  tick now := ⟨now.entries,now.orderly.congr rfl rfl rfl rfl,now.late,now.sheltered.congr rfl rfl,
    now.faithful.congr rfl rfl rfl,now.keeping.congr rfl rfl⟩
  join {_ g id} asked now := by
    obtain ⟨grown,mine⟩ := grown_join g (List.mem_singleton.mpr rfl : id ∈ [id])
    have orderly := now.orderly.join asked
    refine ⟨?_,orderly,?_,now.sheltered.join id,now.faithful.join asked,now.keeping.join id⟩
    · rw [grown.same]
      exact now.entries
    · intro n member
      rcases List.mem_cons.mp member with rfl | before
      · exact (orderly.listed mine).1
      · exact now.late n before
  step {_ g} n now := by
    have entries : ∀ root ∈ start.entries, root ∈ g.entries := fun root member => now.entries ▸ member
    have orderly := now.orderly.step tools n fun _ _ _ _ _ _ _ there =>
      now.orderly.tidied_of_entries entries there
    have faithful := now.faithful.step follows now.orderly n
    have keeping : (g.step tools n).Keeping w start.tasks.length :=
      ⟨now.keeping.made_step now.orderly orderly faithful,
        now.keeping.keeps_step now.orderly now.sheltered now.faithful follows n⟩
    -- What is taken back has failed, so it is not intact.
    have lost : ∀ id ∈ (Event.step n).takenBack tools g, ¬ w.Intact id := by
      intro id member
      obtain ⟨own,children,e,here,failed⟩ := Event.mem_takenBack_step.mp member
      obtain ⟨s,there⟩ := grows_step tools g n _ _ _ here
      obtain ⟨i,done⟩ := outcome?_iff.mp failed
      obtain ⟨rfl,-⟩ := done.unique there
      have late := (now.orderly.listed (now.orderly.opened ⟨_,here,fun finished => finished⟩)).1
      exact (keeping.keeps late done).1 ⟨e,rfl⟩
    exact ⟨(entries_step tools g n).trans now.entries,orderly,now.late,
      now.sheltered.step now.orderly entries tools n orderly lost,faithful,keeping⟩

/-- Before anything is read. -/
theorem Resting.salvaging {start : Graph σ} (resting : start.Resting) (empty : start.registry = .empty)
    (unhooked : start.hooks.registered = []) (fine : P start.layer.env) : Salvaging tools P w start [] start := by
  have sheltered := sheltered_of_closed (empty ▸ Registry.closed_empty : start.registry.Closed) start.entries (¬ w.Intact ·)
  rw [empty] at sheltered
  refine ⟨rfl,resting.orderly start.entries,nofun,sheltered,Resting.faithful unhooked fine,?_,?_⟩
  · intro v known
    rcases known_iff.mp known with ⟨i,found⟩ | ⟨n,i,s,there,-,late⟩
    · rw [empty] at found
      cases found
    · exact absurd there.lt (Nat.not_lt.mpr (late (resting.finished there)))
  · exact fun late there => absurd there.lt (Nat.not_lt.mpr late)

/-- Every intact module below some roots is registered, as the world makes it. -/
def Salvaged (w : World) (roots : List ModuleId) (g : Graph σ) : Prop :=
  ∀ id, w.Reaches roots id → w.Intact id → ∃ m, w.compile? id = some m ∧ g.get? id = some m

/-- Once all reads have ended. -/
theorem Salvaging.salvaged {start : Graph σ} (now : Salvaging tools P w start outside g)
    (asked : ∀ id ∈ start.entries, ∃ n ∈ outside, ∃ s, g.At n id s)
    (ended : ∀ n ∈ outside, ∃ r, g.outcome? n = some r) : g.Salvaged w start.entries := by
  have done : ∀ {id}, g.Tried start.tasks.length id → ∃ n r, start.tasks.length ≤ n ∧ g.At n id (.done r) := by
    rintro id ⟨n,s,late,there⟩
    cases s with
    | done r => exact ⟨n,r,late,there⟩
    | _ => exact absurd ⟨_,there,fun finished => finished⟩ (now.orderly.all_finished ended)
  have tried : ∀ {id}, w.Reaches start.entries id → g.Tried start.tasks.length id := by
    intro id reached
    induction reached with
    | root member =>
      obtain ⟨n,known,s,there⟩ := asked _ member
      exact ⟨n,s,now.late n known,there⟩
    | step _ compiled member ih =>
      obtain ⟨n,r,late,there⟩ := done ih
      exact (now.keeping.keeps late there).2.2 _ compiled _ member
  intro id reached intact
  obtain ⟨n,r,late,there⟩ := done (tried reached)
  obtain ⟨v,found⟩ := (now.keeping.keeps late there).2.1 intact
  have compiled := (now.keeping.made (.registered found)).1
  rw [Registry.get?_id found] at compiled
  exact ⟨v.body,compiled,get?_iff.mpr ⟨v,found,rfl⟩⟩

/-- Nothing is registered, and a compilation comes to an end, by rounds or in a history of any order, whatever fails
in it. Then every module that is below the entries and compiles, with everything that is below it, is registered
as the world makes it. -/
theorem intact_kept {start : Graph σ} (follows : tools.Follows P w) (resting : start.Resting)
    (empty : start.registry = .empty) (unhooked : start.hooks.registered = []) (fine : P start.layer.env) :
    (∀ {limit c g result}, rounds tools limit start [.asked .compile] = ([c],g) → g.result? c = some result →
      g.Salvaged w start.entries) ∧
    ∀ {events}, Ended tools start events → (history tools start events).Salvaged w start.entries := by
  have lasting := lasting_salvaging follows start
  have now : Salvaging tools P w start [] start := resting.salvaging empty unhooked fine
  constructor
  · intro limit c g result ran returned
    obtain ⟨outside,c',same,carried⟩ := @Lasting.request σ tools start _ .compile trivial lasting now limit
    rw [ran] at same carried
    cases same
    exact carried.now.salvaged (carried.asked returned) (carried.ended returned)
  · intro events ended
    obtain ⟨outside,same,now⟩ := lasting.history now ended.within
    have mine : ∀ n, n ∈ outside ↔ n ∈ joined tools start events := fun n => by simp [same n]
    refine now.salvaged (fun id member => ?_) fun n known => ended.ended n ((mine n).mp known)
    obtain ⟨n,known,there⟩ := ended.asked id member
    exact ⟨n,(mine n).mpr known,there⟩

/-- What `a` needs are `b` and a file that there is not, and `b` needs `c`. -/
def broken : Graph (List (ModuleId × String)) where
  layer := { env := [(Letter.a,"bx"),(Letter.b,"c"),(Letter.c,"")] }
  entries := [Letter.a]

/-- The entry fails, before `b` has been read in the second course of events, and `b` is there in the end. -/
theorem intact_kept_broken :
    (∃ g, rounds (letterTools slowly 20) 10 broken [.asked .compile] = ([.under [.task 0]],g) ∧
      (g.result? (.under [.task 0])).map Except.isOk = some false ∧
      ∃ m, (letterWorld broken.layer.env).compile? Letter.b = some m ∧ g.get? Letter.b = some m) ∧
    ∃ events, Ended (letterTools slowly 20) broken events ∧
      ∃ m, (letterWorld broken.layer.env).compile? Letter.b = some m ∧
        (history (letterTools slowly 20) broken events).get? Letter.b = some m := by
  have resting : broken.Resting :=
    ⟨fun found => by simp [broken] at found,fun there => by simp [broken,At] at there,rfl⟩
  obtain ⟨ends,schedules⟩ := intact_kept (letterTools_follows slowly 20 broken.layer.env) resting rfl rfl rfl
  have entry : (letterWorld broken.layer.env).Reaches broken.entries Letter.a := .root List.mem_cons_self
  have imported : ((letterWorld broken.layer.env).compile? Letter.a).map Module.imports =
      some [Letter.b,letterFile "x" (by decide)] := by decide +kernel
  obtain ⟨m,compiled,imports⟩ := Option.map_eq_some_iff.mp imported
  have reached : (letterWorld broken.layer.env).Reaches broken.entries Letter.b :=
    .step entry compiled (imports ▸ List.mem_cons_self)
  have intact : (letterWorld broken.layer.env).Intact Letter.b :=
    @World.compiles_of_closed _ [Letter.b,Letter.c] _ (by simp) (by decide +kernel)
  constructor
  · obtain ⟨g,ran,failed⟩ : ∃ g, rounds (letterTools slowly 20) 10 broken [.asked .compile] = ([.under [.task 0]],g) ∧
        (g.result? (.under [.task 0])).map Except.isOk = some false :=
      exists_snd (by decide +kernel) (by decide +kernel)
    obtain ⟨result,returned,-⟩ := Option.map_eq_some_iff.mp failed
    exact ⟨g,ran,failed,ends ran returned _ reached intact⟩
  · let events : List Event := [.join Letter.a,.step 0,.step 0,.step 0,.step 2,.step 0,.step 1,.step 1,.step 1,.step 3,
      .step 3,.step 3,.step 3,.step 1,.step 0]
    have asked : joined (letterTools slowly 20) broken events = [0] := by decide +kernel
    have first : ((history (letterTools slowly 20) broken events).tasks[0]?).map Task.id = some Letter.a := by
      decide +kernel
    have finished : ((history (letterTools slowly 20) broken events).outcome? 0).isSome = true := by decide +kernel
    have ended : Ended (letterTools slowly 20) broken events := by
      refine ⟨by decide,fun id member => ?_,fun n member => ?_⟩
      · obtain rfl := List.mem_singleton.mp member
        obtain ⟨t,found,same⟩ := Option.map_eq_some_iff.mp first
        exact ⟨0,asked ▸ List.mem_cons_self,t.stage,same ▸ found⟩
      · rw [asked] at member
        obtain rfl := List.mem_singleton.mp member
        exact Option.isSome_iff_exists.mp finished
    exact ⟨events,ended,schedules ended _ reached intact⟩

end Graph

end Bundling
