import Bundling.Proofs.Current
import Bundling.Proofs.Histories

/-!
# Compiling for the first time

Modules are compiled into an empty registry, and nothing fails. A module that several others want is
read by one task as long as it is on its way (`Orderly.alone`), is registered from then on until the end
(`FirstTime`), and is left alone where it is read again, since its text is the one that is registered: `FirstTurn`
lists what a step can be then.
-/

namespace Bundling.Graph

variable {σ : Type}

/-! ## Histories that go well -/

/-- The file that a step reads, by its module, and what is in it. -/
def read? (tools : Toolchain σ) (g : Graph σ) (n : Nat) : Option (ModuleId × String) :=
  match g.tasks[n]? with
  | some ⟨id,.reading⟩ => (tools.store.read id.path g.layer.env).1.toOption.map (id,·)
  | _ => none

/-- What an event reads, if it reads a file, is the text of the module. -/
def Event.Steady (tools : Toolchain σ) (text : ModuleId → String) (g : Graph σ) : Event → Prop
  | .step n => ∀ f ∈ g.read? tools n, f.2 = text f.1
  | .tick | .join _ => True

instance (tools : Toolchain σ) (text : ModuleId → String) (g : Graph σ) : (e : Event) → Decidable (e.Steady tools text g)
  | .step n => inferInstanceAs (Decidable (∀ f ∈ g.read? tools n, f.2 = text f.1))
  | .tick | .join _ => .isTrue trivial

/-- Whenever a file is read in the course of a history, it holds the same text. -/
def Steady (tools : Toolchain σ) (text : ModuleId → String) : Graph σ → List Event → Prop
  | _, [] => True
  | g, e :: events => e.Steady tools text g ∧ Steady tools text (e.apply tools g) events

instance decidableSteady (tools : Toolchain σ) (text : ModuleId → String) : (g : Graph σ) → (events : List Event) →
    Decidable (Steady tools text g events)
  | _, [] => .isTrue trivial
  | g, e :: events =>
    have := decidableSteady tools text (e.apply tools g) events
    inferInstanceAs (Decidable (e.Steady tools text g ∧ Steady tools text (e.apply tools g) events))

/-- A compilation has gone well in a history: all entries have been asked for, and every read that was
asked for has ended well. -/
structure Succeeded (tools : Toolchain σ) (g : Graph σ) (events : List Event) : Prop where
  within : ∀ e ∈ events, e.Within g.entries
  asked : ∀ id ∈ g.entries, ∃ n ∈ joined tools g events, ∃ s, (history tools g events).At n id s
  well : ∀ n ∈ joined tools g events, ∃ cs, (history tools g events).outcome? n = some (.ok cs)

/-! ## Compiling for the first time -/

/-- What holds while modules are compiled into an empty registry and no task from some number on has
failed. -/
structure FirstTime (text : ModuleId → String) (base : Nat) (g : Graph σ) : Prop where
  read : ∀ {n id contents}, ¬ g.At n id (.given contents)
  drafted : ∀ {n id s draft}, g.At n id s → s.draft? = some draft →
    draft.previous = none ∧ draft.sources = text id ∧ g.registry.get? id = none
  waiting : ∀ {n id own children}, g.At n id (.awaiting own children) → own.previous = none
  sources : ∀ {id v}, g.registry.get? id = some v → v.body.sources = text id
  imports : ∀ {id v i}, g.registry.get? id = some v → i ∈ v.body.imports →
    (∃ w, g.registry.get? i = some w) ∨ ∃ m, g.Open m i
  present : ∀ {n id cs}, base ≤ n → g.At n id (.done (.ok cs)) → ∃ v, g.registry.get? id = some v

/-- What a step of a task of a module can be then. -/
inductive FirstTurn (text : ModuleId → String) (g : Graph σ) (n : Nat) (id : ModuleId) :
    Stage σ → Graph σ → Prop where
  /-- The text is taken up. -/
  | takes {draft : Draft} {layer : Resolution.State σ} (absent : g.registry.get? id = none)
      (previous : draft.previous = none) (sources : draft.sources = text id) :
      FirstTurn text g n id .reading ({ g with layer }.setStage n (.transforming draft))
  /-- The making of the module goes on. -/
  | goes {stage next : Stage σ} {draft : Draft} {layer : Resolution.State σ} (mine : stage.draft? = some draft)
      (known : next.draft? = some draft) : FirstTurn text g n id stage ({ g with layer }.setStage n next)
  | registers {stage : Stage σ} {draft : Draft} {own : Commit} {children : List Nat} {after : Graph σ}
      (mine : stage.draft? = some draft) (same : own.version.id = id) (previous : own.previous = none)
      (sources : own.version.body.sources = text id) (entered : Entered g after n own children) :
      FirstTurn text g n id stage after
  /-- The module is there already. -/
  | kept {v : Version} {layer : Resolution.State σ} (found : g.registry.get? id = some v) :
      FirstTurn text g n id .reading ({ g with layer }.setStage n (.done (.ok [])))
  | waits {own : Commit} {children : List Nat} : FirstTurn text g n id (.awaiting own children) g
  | settles {own : Commit} {children : List Nat} {cs : List Commit} :
      FirstTurn text g n id (.awaiting own children) (g.setStage n (.done (.ok (own :: cs))))
  | ended {r : Compiled} : FirstTurn text g n id (.done r) (g.setStage n (.done r))

section

variable {tools : Toolchain σ} {text : ModuleId → String} {base young n : Nat} {roots : List ModuleId}
  {outside : List Nat} {g after : Graph σ} {id : ModuleId} {stage : Stage σ}

theorem read?_eq (here : g.At n id .reading) {contents : String}
    (answer : (tools.store.read id.path g.layer.env).1 = .ok contents) : g.read? tools n = some (id,contents) := by
  rw [read?,show g.tasks[n]? = some ⟨id,.reading⟩ from here]
  simp only [answer]
  rfl

/-- Every step that does not fail is one of these cases. -/
theorem FirstTime.turn (first : g.FirstTime text base) (orderly : g.Orderly base young roots outside)
    (here : g.At n id stage) (steady : (Event.step n).Steady tools text g)
    (well : (g.step tools n).Unfailed base) : FirstTurn text g n id stage (g.step tools n) := by
  have late : ¬ stage.Finished → base ≤ n := fun going => (orderly.listed (orderly.opened ⟨_,here,going⟩)).1
  have turn := step_turn tools here
  generalize g.step tools n = after at turn well
  cases turn with
  | @early _ next layer start goes drafted eq =>
    have reached : (g.advance tools id stage).1 = next := congrArg Prod.fst eq
    cases stage with
    | reading =>
      rcases read_cases tools g id with ⟨e,_,-,-,same⟩ | ⟨contents,layer',answer,-,same⟩
      · rw [advance,same] at reached
        subst reached
        exact goes.elim
      · rcases accept_cases { g with layer := layer' } id contents with ⟨_,-,-,taken⟩ | ⟨event,_,new,taken,-⟩
        · rw [advance,same,taken] at reached
          subst reached
          exact goes.elim
        · rw [advance,same,taken] at reached
          subst reached
          obtain rfl : contents = text id := steady (id,contents) (read?_eq here answer)
          have absent : g.registry.get? id = none := by
            cases found : g.registry.get? id with
            | none => rfl
            | some v => exact absurd (first.sources found) (new v found)
          exact .takes absent absent rfl
    | given contents => exact absurd here first.read
    | awaiting | done => exact start.elim
    | transforming | paused | resolving | announcing => exact .goes rfl ((draft_advance rfl eq).1 goes)
  | @failed _ _ layer start =>
    exact (well n id _ (late start.unfinished) (at_setStage_self (g := { g with layer }) here)).elim
  | @kept _ v layer start found =>
    have fresh : stage.draft? = none := by
      cases known : stage.draft? with
      | none => rfl
      | some draft =>
        rw [(first.drafted here known).2.2] at found
        cases found
    cases stage with
    | reading => exact .kept found
    | given contents => exact absurd here first.read
    | awaiting | done => exact start.elim
    | _ => cases fresh
  | @registered _ draft layer own _ drafts _ same previous sources =>
    obtain ⟨children,entered⟩ := entered_spec here same layer
    obtain ⟨new,text',-⟩ := first.drafted here drafts
    exact .registers drafts same (previous.trans new) (sources.trans text') entered
  | waiting => exact .waits
  | @settled own children outcomes =>
    have untouched : g.tidied own = g.registry := by rw [tidied,first.waiting here]
    rw [untouched]
    exact .settles
  | @rolledBack own _ outcomes =>
    exact (well n id _ (late fun finished => finished)
      (at_setStage_self (g := { g with registry := own.rollback (commits outcomes) g.registry }) here)).elim
  | ended => exact .ended

/-- Nothing has changed that matters here. -/
theorem FirstTime.congr (first : g.FirstTime text base) (tasks : after.tasks = g.tasks)
    (registry : after.registry = g.registry) : after.FirstTime text base := by
  obtain ⟨layer,entries,registry',stamps,hooks,tasks',inFlight⟩ := after
  cases tasks
  cases registry
  exact { first with }

/-- A task goes on with the making of a new module, or ends with a module that is there. -/
theorem FirstTime.setStage (first : g.FirstTime text base) (here : g.At n id stage) (after : Graph σ)
    (tasks : after.tasks = g.tasks) (registry : after.registry = g.registry) {next : Stage σ}
    (goes : (∃ draft, next.draft? = some draft ∧ draft.previous = none ∧ draft.sources = text id ∧
        g.registry.get? id = none) ∨
      ((∃ cs, next = .done (.ok cs)) ∧ ∃ v, g.registry.get? id = some v)) :
    (after.setStage n next).FirstTime text base := by
  have at_iff := @at_setStage_after σ g n after id stage next here tasks
  constructor
  case read =>
    intro m i contents there
    rcases at_iff.mp there with ⟨-,-,rfl⟩ | ⟨-,before⟩
    · rcases goes with ⟨draft,known,-⟩ | ⟨⟨cs,ended⟩,-⟩
      · cases known
      · cases ended
    · exact first.read before
  case drafted =>
    intro m i s draft there known
    rw [registry_setStage,registry]
    rcases at_iff.mp there with ⟨-,rfl,rfl⟩ | ⟨-,before⟩
    · rcases goes with ⟨draft',known',new⟩ | ⟨⟨cs,rfl⟩,-⟩
      · rw [known] at known'
        exact Option.some.inj known' ▸ new
      · cases known
    · exact first.drafted before known
  case waiting =>
    intro m i own children there
    rcases at_iff.mp there with ⟨-,-,rfl⟩ | ⟨-,before⟩
    · rcases goes with ⟨draft,known,-⟩ | ⟨⟨cs,ended⟩,-⟩
      · cases known
      · cases ended
    · exact first.waiting before
  case sources =>
    intro i v found
    rw [registry_setStage,registry] at found
    exact first.sources found
  case imports =>
    intro i v j found member
    rw [registry_setStage,registry] at found ⊢
    rcases first.imports found member with there | ⟨m,s,before,unfinished⟩
    · exact .inl there
    · by_cases equal : m = n
      · subst equal
        obtain ⟨rfl,rfl⟩ := before.unique here
        rcases goes with ⟨draft,known,-⟩ | ⟨-,there⟩
        · have early : next.Early := (Stage.replaces_iff.mpr ⟨draft,known,rfl⟩ : next.Replaces draft.previous).early
          exact .inr ⟨m,next,at_iff.mpr (.inl ⟨rfl,rfl,rfl⟩),early.unfinished⟩
        · exact .inl there
      · exact .inr ⟨m,s,at_iff.mpr (.inr ⟨equal,before⟩),unfinished⟩
  case present =>
    intro m i cs late there
    rw [registry_setStage,registry]
    rcases at_iff.mp there with ⟨-,rfl,rfl⟩ | ⟨-,before⟩
    · rcases goes with ⟨draft,known,-⟩ | ⟨-,present⟩
      · cases known
      · exact present
    · exact first.present late before

/-- A module is registered. -/
theorem FirstTime.enter (first : g.FirstTime text base) (orderly : g.Orderly base young roots outside)
    (here : g.At n id stage) (start : stage.Early) {own : Commit} {children : List Nat} (same : own.version.id = id)
    (previous : own.previous = none) (sources : own.version.body.sources = text id)
    (entered : Entered g after n own children) : after.FirstTime text base := by
  have stays : ∀ {i}, (∃ v, g.registry.get? i = some v) → ∃ v, after.registry.get? i = some v :=
    fun there => entered.exists_get?_iff.mpr (.inl there)
  have old : ∀ {m i s}, after.At m i s → s ≠ .reading → m ≠ n → g.At m i s :=
    fun there other ne => entered.at_old ne other there
  constructor
  case read =>
    intro m i contents there
    exact first.read (old there nofun (entered.ne (by simp) there))
  case drafted =>
    intro m i s draft there known
    have early : s.Early := (Stage.replaces_iff.mpr ⟨draft,known,rfl⟩ : s.Replaces draft.previous).early
    have ne := entered.ne_of_early early there
    have before := old there (fun reading => by rw [reading] at known; cases known) ne
    obtain ⟨new,text',absent⟩ := first.drafted before known
    refine ⟨new,text',?_⟩
    rw [entered.get?_of_ne]
    · exact absent
    · rintro rfl
      exact ne (orderly.alone ⟨s,before,early.unfinished⟩ ⟨stage,same ▸ here,start.unfinished⟩)
  case waiting =>
    intro m i own' children' there
    rcases entered.awaiting there with ⟨-,-,rfl,-⟩ | ⟨-,before⟩
    · exact previous
    · exact first.waiting before
  case sources =>
    intro i v found
    rcases entered.of_get? found with ⟨rfl,rfl⟩ | ⟨-,before⟩
    · exact same ▸ sources
    · exact first.sources before
  case imports =>
    intro i v j found member
    have importing : (∃ v, g.registry.get? i = some v ∧ j ∈ v.body.imports) ∨ j ∈ own.version.body.imports := by
      rcases entered.of_get? found with ⟨-,rfl⟩ | ⟨-,before⟩
      · exact .inr member
      · exact .inl ⟨v,before,member⟩
    rcases importing with ⟨w,before,member⟩ | new
    · rcases first.imports before member with there | ⟨m,s,there,unfinished⟩
      · exact .inl (stays there)
      · exact .inr ⟨m,entered.opened (same ▸ here) ⟨s,there,unfinished⟩⟩
    · cases there : after.registry.get? j with
      | some w => exact .inl ⟨w,rfl⟩
      | none =>
        obtain ⟨c,-,listed⟩ := entered.covered j new there
        exact .inr ⟨c,entered.open_of_listed (same ▸ here) (fun old => (orderly.listed old).2) listed⟩
  case present => exact fun late there => stays (first.present late (old there nofun (entered.ne (by simp) there)))

/-- Every step that does not fail. -/
theorem FirstTime.step (first : g.FirstTime text base) (orderly : g.Orderly base young roots outside) (n : Nat)
    (steady : (Event.step n).Steady tools text g) (well : (g.step tools n).Unfailed base) :
    (g.step tools n).FirstTime text base := by
  by_cases bound : n < g.tasks.length
  · obtain ⟨id,stage,here⟩ := exists_at bound
    have turn := first.turn orderly here steady well
    generalize g.step tools n = after at turn
    cases turn with
    | @takes draft layer absent previous sources =>
      exact first.setStage here { g with layer } rfl rfl (.inl ⟨draft,rfl,previous,sources,absent⟩)
    | @goes _ next draft layer mine known =>
      exact first.setStage here { g with layer } rfl rfl (.inl ⟨draft,known,first.drafted here mine⟩)
    | registers mine same previous sources entered =>
      exact first.enter orderly here (Stage.replaces_iff.mpr ⟨_,mine,rfl⟩).early same previous sources entered
    | @kept v layer found => exact first.setStage here { g with layer } rfl rfl (.inr ⟨⟨_,rfl⟩,v,found⟩)
    | waits => exact first
    | settles => exact first.setStage here g rfl rfl (.inr ⟨⟨_,rfl⟩,_,(orderly.waiting here).2.2.2⟩)
    | ended => exact first.congr (tasks_setStage_same here) registry_setStage
  · rw [step_none tools (List.getElem?_eq_none (Nat.le_of_not_lt bound))]
    exact first

/-- A read is asked for from outside. -/
theorem FirstTime.join (first : g.FirstTime text base) (root : ModuleId) :
    (g.join root).2.FirstTime text base := by
  have grown := (grown_join g (List.mem_singleton.mpr rfl : root ∈ [root])).1
  generalize (g.join root).2 = after at grown
  have registry : after.registry = g.registry := by rw [grown.same]
  have old : ∀ {m i s}, after.At m i s → s ≠ .reading → g.At m i s := fun there other => grown.at_old other there
  constructor
  case read => exact fun there => first.read (old there nofun)
  case drafted =>
    intro m i s draft there known
    rw [registry]
    exact first.drafted (old there fun reading => by rw [reading] at known; cases known) known
  case waiting => exact fun there => first.waiting (old there nofun)
  case sources => exact fun found => first.sources (registry ▸ found)
  case imports =>
    intro i v j found member
    rw [registry] at found ⊢
    rcases first.imports found member with there | ⟨m,s,there,unfinished⟩
    · exact .inl there
    · exact .inr ⟨m,s,grown.old there,unfinished⟩
  case present => exact fun late there => registry ▸ first.present late (old there nofun)

theorem FirstTime.event (first : g.FirstTime text base) (orderly : g.Orderly base young roots outside) (e : Event)
    (steady : e.Steady tools text g) (well : (e.apply tools g).Unfailed base) : (e.apply tools g).FirstTime text base := by
  cases e with
  | tick => exact first.congr rfl rfl
  | join root => exact first.join root
  | step n => exact first.step orderly n steady well

theorem unfailed_of_event (e : Event) (well : (e.apply tools g).Unfailed base) : g.Unfailed base := by
  cases e with
  | tick => exact well
  | join id => exact unfailed_of_join id well
  | step n => exact unfailed_of_step tools n well

theorem unfailed_of_history {events : List Event} (well : (history tools g events).Unfailed base) :
    g.Unfailed base := by
  induction events generalizing g with
  | nil => exact well
  | cons e events ih => exact unfailed_of_event e (ih well)

/-- Where nothing is registered and nothing is under way. -/
theorem Resting.firstTime (resting : g.Resting) (empty : g.registry = .empty) : g.FirstTime text g.tasks.length := by
  have none : ∀ {id v}, g.registry.get? id ≠ some v := fun {id v} found => by
    rw [empty] at found
    cases found
  refine ⟨fun there => resting.finished there,fun there known => ?_,fun there => (resting.finished there).elim,
    fun found => (none found).elim,fun found => (none found).elim,fun late there => ?_⟩
  · exact absurd (resting.finished there) (Stage.replaces_iff.mpr ⟨_,known,rfl⟩).early.unfinished
  · exact absurd there.lt (Nat.not_lt.mpr late)

end

end Bundling.Graph
