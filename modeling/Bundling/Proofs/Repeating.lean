import Bundling.Proofs.Freshness
import Bundling.Proofs.Incremental

/-!
# A text that is pushed again

A push that has ended well has either found its text registered, or has registered it and then, if the imports of
the module are not what they were, collected the garbage (`Came`). So the text is there for a second push to pass
over unless the first one has collected its own module, which happens if and only if a version with other imports
was replaced and the module cannot be reached from the entries (`push_again`).
-/

namespace Bundling

variable {σ : Type}

/-- The task of a push goes on with the text that was pushed. -/
def Stage.Brings (contents : String) : Stage σ → Prop
  | .reading => False
  | .given text => text = contents
  | .transforming draft | .paused draft .. | .resolving draft .. | .announcing draft .. => draft.sources = contents
  | .awaiting own _ => own.version.body.sources = contents
  | .done _ => True

theorem Stage.brings_of_draft {s : Stage σ} {draft : Draft} {contents : String} (known : s.draft? = some draft) :
    s.Brings contents ↔ draft.sources = contents := by
  cases s <;> cases known <;> exact Iff.rfl

namespace Graph

variable {tools : Toolchain σ} {g g' after : Graph σ} {base n : Nat} {x id : ModuleId} {before : Registry}
  {contents : String} {stage next : Stage σ} {cs : List Commit} {path : Path}

/-! ## What a push makes of the registry -/

/-- What a push that has ended well has made of the registry that was there before. -/
inductive Came (before : Registry) (x : ModuleId) (contents : String) (g : Graph σ) : List Commit → Prop where
  /-- The text was the registered one. -/
  | same {v : Version} (found : before.get? x = some v) (text : v.body.sources = contents)
      (untouched : g.registry = before) : Came before x contents g []
  /-- A version was registered, and the graph tidied at the end. -/
  | put {own : Commit} {rest : List Commit} {r : Registry} (current : r.get? x = some own.version)
      (text : own.version.body.sources = contents) (previous : own.previous = before.get? x)
      (tidied : g.registry = ({ g with registry := r }).tidied own) : Came before x contents g (own :: rest)

theorem Came.congr (came : g.Came before x contents cs) (registry : after.registry = g.registry)
    (entries : after.entries = g.entries) : after.Came before x contents cs := by
  cases came with
  | same found text untouched => exact .same found text (registry.trans untouched)
  | @put own rest r current text previous tidied =>
    refine .put current text previous (registry.trans (tidied.trans ?_))
    simp only [Graph.tidied,entries]

/-- The module is registered with the text that was pushed, unless it has been collected. -/
theorem Came.registered_iff (came : g.Came before x contents cs) :
    (∃ v, g.registry.get? x = some v ∧ v.body.sources = contents) ↔
      ∀ old own rest, before.get? x = some old → cs = own :: rest →
        old.body.importsChanged own.version.body = true → g.registry.Reaches g.entries x := by
  cases came with
  | @same v found text untouched =>
    rw [untouched]
    exact ⟨fun _ _ _ _ _ => nofun,fun _ => ⟨v,found,text⟩⟩
  | @put own rest r current text previous tidied =>
    have collected : Changes own → g.registry = r.collect g.entries := fun changes =>
      tidied.trans (tidied_of_changes (g := { g with registry := r }) changes)
    constructor
    · rintro ⟨v,found,-⟩ old own' rest' was equal changed
      cases equal
      rw [collected ⟨old,previous.trans was,changed⟩] at found ⊢
      exact Registry.reaches_collect (Registry.get?_collect_iff.mp found).2
    · intro kept
      refine ⟨own.version,?_,text⟩
      by_cases changes : Changes own
      · obtain ⟨old,was,changed⟩ := id changes
        have reached := kept old own rest (previous.symm.trans was) rfl changed
        rw [collected changes] at reached ⊢
        refine Registry.get?_collect_iff.mpr ⟨current,?_⟩
        exact reached.mono fun id v found => (Registry.get?_collect_iff.mp found).1
      · rw [tidied,tidied_of_not_changes (g := { g with registry := r }) changes]
        exact current

/-! ## The course of a push -/

/-- What the task of a push takes up is the text that was pushed, and it leaves the module alone only if that is
the registered one. -/
theorem brings_advance (eq : g.advance tools id stage = (next,after)) (start : stage.Early)
    (brings : stage.Brings contents) : (next.Early → next.Brings contents) ∧
      (next = .done (.ok []) → ∃ v, g.registry.get? id = some v ∧ v.body.sources = contents) := by
  have known : ∀ {draft}, stage.draft? = some draft → (next.Early → next.Brings contents) ∧
      (next = .done (.ok []) → ∃ v, g.registry.get? id = some v ∧ v.body.sources = contents) := by
    intro draft known
    obtain ⟨kept,going⟩ := draft_advance known eq
    have text := (Stage.brings_of_draft known).mp brings
    exact ⟨fun early => (Stage.brings_of_draft (kept early)).mpr text,fun ended => absurd ended going⟩
  cases stage with
  | reading => exact brings.elim
  | given text =>
    obtain rfl : text = contents := brings
    rcases accept_cases g id text with ⟨v,found,same,skips⟩ | ⟨event,layer,-,takes,-⟩
    · obtain ⟨rfl,-⟩ := Prod.mk.inj (eq.symm.trans skips)
      exact ⟨fun early => early.elim,fun _ => ⟨v,found,same⟩⟩
    · obtain ⟨rfl,-⟩ := Prod.mk.inj (eq.symm.trans takes)
      exact ⟨fun _ => rfl,nofun⟩
  | transforming | paused | resolving | announcing => exact known rfl
  | awaiting | done => exact start.elim

/-- How a graph is while nothing is under way but the push of a text and the reads below it, or after that. -/
structure Bringing (base : Nat) (x : ModuleId) (before : Registry) (contents : String) (g : Graph σ) : Prop where
  pushing : g.Pushing base x before
  brings : ∀ {s}, g.At base x s → s.Brings contents
  came : ∀ {cs}, g.outcome? base = some (.ok cs) → g.Came before x contents cs

/-- Nothing that matters here has changed. -/
theorem Bringing.congr (bringing : g.Bringing base x before contents) (tasks : after.tasks = g.tasks)
    (inFlight : after.inFlight = g.inFlight) (registry : after.registry = g.registry)
    (entries : after.entries = g.entries) : after.Bringing base x before contents where
  pushing := bringing.pushing.congr tasks inFlight registry
  brings there := bringing.brings ((at_congr tasks).mp there)
  came outcome := by
    rw [outcome?_iff] at outcome
    obtain ⟨i,there⟩ := outcome
    exact (bringing.came (outcome?_iff.mpr ⟨i,(at_congr tasks).mp there⟩)).congr registry entries

/-- Once the push has ended, so has everything below it. -/
theorem Pushing.not_open (pushing : g.Pushing base x before) {r : Compiled} (outcome : g.outcome? base = some r) :
    ¬ g.Open n id := by
  intro opened
  have there := pushing.at_ended outcome
  obtain rfl := pushing.alone there (Stage.done_ne_awaiting r) opened
  obtain ⟨s,here,unfinished⟩ := opened
  exact unfinished ((here.unique there).2 ▸ trivial)

theorem Pushing.step_ended (pushing : g.Pushing base x before) {r : Compiled} (outcome : g.outcome? base = some r)
    (tools : Toolchain σ) (n : Nat) : (g.step tools n).registry = g.registry := by
  by_cases bound : n < g.tasks.length
  · obtain ⟨id,stage,here⟩ := exists_at bound
    cases stage with
    | done r' => rw [step_done tools here,registry_setStage]
    | _ => exact absurd ⟨_,here,fun finished => finished⟩ (pushing.not_open outcome)
  · rw [step_none tools (List.getElem?_eq_none (Nat.le_of_not_lt bound))]

/-- Once the push has ended nothing is on its way. -/
theorem Pushing.idle (pushing : g.Pushing base x before) {r : Compiled} (outcome : g.outcome? base = some r) :
    g.inFlight = [] :=
  List.eq_nil_iff_forall_not_mem.mpr fun _ member => pushing.not_open outcome (pushing.listed member)

/-- A step of the push itself. -/
theorem Bringing.turn (bringing : g.Bringing base x before contents) (tools : Toolchain σ) (here : g.At base x stage) :
    (g.step tools base).Bringing base x before contents := by
  have pushing := bringing.pushing.step tools base
  have brings := bringing.brings here
  have turn := step_turn tools here
  generalize g.step tools base = after at pushing turn
  -- While the task goes on there is nothing to say of its end.
  have onwards : ∀ {s}, after.At base x s → s.Brings contents →
      (∀ cs, s = .done (.ok cs) → after.Came before x contents cs) → after.Bringing base x before contents := by
    intro s there brings came
    refine ⟨pushing,fun there' => (there.unique there').2 ▸ brings,fun outcome => ?_⟩
    obtain ⟨i,there'⟩ := outcome?_iff.mp outcome
    exact came _ (there.unique there').2
  cases turn with
  | early start goes _ eq =>
    refine onwards (at_setStage_self here) ((brings_advance eq start brings).1 goes) ?_
    rintro cs rfl
    exact goes.elim
  | failed => exact onwards (at_setStage_self here) trivial nofun
  | kept start _ eq =>
    obtain ⟨v,found,same⟩ := (brings_advance eq start brings).2 rfl
    have untouched := (Stage.leaves_early start).mp (bringing.pushing.leaves here)
    refine onwards (at_setStage_self here) trivial ?_
    rintro cs equal
    cases equal
    rw [untouched] at found
    exact .same found same (registry_setStage.trans untouched)
  | @registered _ draft layer own _ drafts _ same _ sources =>
    obtain ⟨children,entered⟩ := entered_spec here same layer
    have there := entered.here
    rw [same] at there
    exact onwards there (sources.trans ((Stage.brings_of_draft drafts).mp brings)) nofun
  | waiting => exact bringing
  | @settled own children outcomes all good =>
    have leads : (before.insert own.version).Leads g.registry := bringing.pushing.leaves here
    obtain ⟨same,previous⟩ := bringing.pushing.waiting here
    refine onwards (at_setStage_self here) trivial ?_
    rintro cs equal
    cases equal
    refine .put (same ▸ leads.get? (Registry.get?_insert_self before own.version)) brings
      (previous.trans (if_pos rfl)) ?_
    simp only [tidied,registry_setStage,entries_setStage]
  | rolledBack => exact onwards (at_setStage_self here) trivial nofun
  | @ended r =>
    refine onwards (at_setStage_self here) trivial ?_
    rintro cs equal
    cases equal
    exact (bringing.came (outcome?_iff.mpr ⟨x,here⟩)).congr registry_setStage entries_setStage

/-- Every step. -/
theorem Bringing.step (bringing : g.Bringing base x before contents) (tools : Toolchain σ) (n : Nat) :
    (g.step tools n).Bringing base x before contents := by
  obtain ⟨stage,here⟩ := bringing.pushing.root
  by_cases mine : n = base
  · subst mine
    exact bringing.turn tools here
  · have same : ∀ {s}, (g.step tools n).At base x s ↔ g.At base x s := at_step_of_ne tools (Ne.symm mine) here.lt
    refine ⟨bringing.pushing.step tools n,fun there => bringing.brings (same.mp there),fun outcome => ?_⟩
    have before := outcome?_iff.mpr ⟨x,same.mp ((bringing.pushing.step tools n).at_ended outcome)⟩
    exact (bringing.came before).congr (bringing.pushing.step_ended before tools n) (entries_step tools g n)

/-- A push begins while nothing else is under way. -/
theorem Resting.bringing (resting : g.Resting) (found : tools.root.toId path = .ok id) (contents : String) :
    (g.start id (.given contents)).2.Bringing g.tasks.length id g.registry contents := by
  have starts : Request.task? tools g (.push path contents) = some (g.start id (.given contents)) := by
    simp [Request.task?,found,Except.toOption]
  obtain ⟨i,found',pushing⟩ := resting.pushing (.inr ⟨contents,rfl⟩) starts
  cases found.symm.trans found'
  have there : (g.start id (.given contents)).2.At g.tasks.length id (.given contents) :=
    List.getElem?_concat_length
  refine ⟨pushing,fun there' => (there.unique there').2 ▸ rfl,fun outcome => ?_⟩
  rw [there.outcome?_eq_none fun finished => finished] at outcome
  cases outcome

/-! ## The second push -/

/-- A push of a text, made while nothing else goes on, has ended well: carried out by rounds, or by any history in
which nothing is read that it does not ask for. -/
inductive Pushed (tools : Toolchain σ) (path : Path) (contents : String) (g g' : Graph σ) : Prop where
  | rounds {limit : Nat} {c : Call} (ran : rounds tools limit g [.asked (.push path contents)] = ([c],g'))
      (well : g'.result? c = some (.ok ()))
  | history {id : ModuleId} {events : List Event} {cs : List Commit} (found : tools.root.toId path = .ok id)
      (within : ∀ event ∈ events, event.Within []) (ran : history tools (g.start id (.given contents)).2 events = g')
      (well : g'.outcome? g.tasks.length = some (.ok cs))

/-- The first round of a push. -/
theorem rounds_push (found : tools.root.toId path = .ok id) (contents : String) (limit : Nat) (g : Graph σ) :
    Graph.rounds tools (limit + 1) g [.asked (.push path contents)] = Graph.rounds tools limit
      (carry tools tools.fuel (g.tick.start id (.given contents)).2 g.tasks.length) [.under [.task g.tasks.length]] := by
  rw [Graph.rounds,if_neg (by simp [result?])]
  simp only [pollAll,poll,begin,found,pollItems]
  rfl

theorem Pushed.bringing (pushed : Pushed tools path contents g g') (resting : g.Resting) :
    ∃ id cs, tools.root.toId path = .ok id ∧ g'.Bringing g.tasks.length id g.registry contents ∧
      g'.outcome? g.tasks.length = some (.ok cs) := by
  cases pushed with
  | @rounds limit c ran well =>
    cases limit with
    | zero =>
      cases ran
      cases well
    | succ limit =>
      cases found : tools.root.toId path with
      | error e =>
        rcases @rounds_asked σ tools path _ (.inr ⟨contents,rfl⟩) limit g with ⟨n,start,starts,-⟩ | ⟨e',same⟩
        · simp [Request.task?,found,Except.toOption] at starts
        · cases same.symm.trans ran
          cases well
      | ok id =>
        have ticked : g.tick.Resting := ⟨resting.stamped,resting.finished,resting.idle⟩
        have step : ∀ {g' : Graph σ} (m : Nat), g'.Bringing g.tasks.length id g.registry contents →
            (g'.step tools m).Bringing g.tasks.length id g.registry contents := fun m now => now.step tools m
        rw [rounds_push found] at ran
        obtain ⟨call,now⟩ := rounds_task (n := g.tasks.length) (fun now => now.congr rfl rfl rfl rfl) step limit
          (carry_of_step step tools.fuel g.tasks.length (ticked.bringing found contents))
        rw [ran] at call now
        cases call
        rw [result?_task] at well
        obtain ⟨r,outcome,good⟩ := Option.map_eq_some_iff.mp well
        cases r with
        | error e => cases good
        | ok cs => exact ⟨id,cs,rfl,now,outcome⟩
  | @history id events cs found within ran well =>
    have through : ∀ {events : List Event} {g' : Graph σ}, (∀ event ∈ events, event.Within []) →
        g'.Bringing g.tasks.length id g.registry contents →
        (Graph.history tools g' events).Bringing g.tasks.length id g.registry contents := by
      intro events
      induction events with
      | nil => exact fun _ now => now
      | cons event events ih =>
        intro g' within now
        refine ih (fun event' member => within event' (List.mem_cons_of_mem _ member)) ?_
        cases event with
        | tick => exact now.congr rfl rfl rfl rfl
        | step m => exact now.step tools m
        | join i => exact absurd (within (.join i) List.mem_cons_self) List.not_mem_nil
    exact ⟨id,cs,found,ran ▸ through within (resting.bringing found contents),well⟩

/-- A graph with other hooks. -/
def rehook (g : Graph σ) (h : Hooks σ) : Graph σ := { g with hooks := h }

/-- The graph after a push that there was nothing to do for: a round has started, the next number was given to the
task, and all else is as it was. -/
def passedOver (g : Graph σ) (id : ModuleId) : Graph σ := { g.tick with tasks := g.tasks ++ [⟨id,.done (.ok [])⟩] }

/-- A push comes to Ok at once and does nothing, whatever plugins and hooks there are. -/
def PassesOver (g : Graph σ) (root : ProjectRoot) (path : Path) (contents : String) : Prop :=
  ∀ (tools : Toolchain σ) (hooks : Hooks σ) (limit : Nat), tools.root = root → 0 < tools.fuel →
    ∃ id, Graph.rounds tools (limit + 1) (g.rehook hooks) [.asked (.push path contents)] =
        ([.under [.task g.tasks.length]],(g.rehook hooks).passedOver id) ∧
      ((g.rehook hooks).passedOver id).result? (.under [.task g.tasks.length]) = some (.ok ())

theorem at_passedOver (g : Graph σ) (id : ModuleId) : (g.passedOver id).At g.tasks.length id (.done (.ok [])) :=
  List.getElem?_concat_length

theorem result?_passedOver (g : Graph σ) (id : ModuleId) :
    (g.passedOver id).result? (.under [.task g.tasks.length]) = some (.ok ()) := by
  rw [result?_task,outcome?_iff.mpr ⟨id,g.at_passedOver id⟩]
  rfl

theorem at_start_given (g : Graph σ) (id : ModuleId) (contents : String) :
    (g.tick.start id (.given contents)).2.At g.tasks.length id (.given contents) := List.getElem?_concat_length

theorem step_given (tools : Toolchain σ) (here : g.At n id (.given contents)) :
    g.step tools n = (g.accept id contents).2.setStage n (g.accept id contents).1 := by
  rw [step,show g.tasks[n]? = some ⟨id,.given contents⟩ from here]
  rfl

/-- Calls that have come to an end are not carried on. -/
theorem rounds_ended {c : Call} {r : Except CompileError Unit} (ended : g.result? c = some r) (limit : Nat) :
    Graph.rounds tools limit g [c] = ([c],g) := by
  cases limit with
  | zero => rfl
  | succ limit => rw [Graph.rounds,if_pos (by simp [ended])]

/-- The first step of a push of what is registered is all that there is to do. -/
theorem rounds_registered (idle : g.inFlight = []) (found : tools.root.toId path = .ok id) {v : Version}
    (registered : g.registry.get? id = some v) (text : v.body.sources = contents) (fuel : 0 < tools.fuel) (limit : Nat) :
    Graph.rounds tools (limit + 1) g [.asked (.push path contents)] =
      ([.under [.task g.tasks.length]],g.passedOver id) := by
  have here := at_start_given g id contents
  have stepped : (g.tick.start id (.given contents)).2.step tools g.tasks.length = g.passedOver id := by
    rw [step_given tools here]
    rcases accept_cases (g.tick.start id (.given contents)).2 id contents with ⟨-,-,-,skips⟩ | ⟨-,-,new,-⟩
    · rw [skips]
      simp [start,setStage,tick,passedOver,idle,List.modify_eq_take_drop]
    · exact absurd text (new v registered)
  have there := g.at_passedOver id
  have carried : carry tools tools.fuel (g.tick.start id (.given contents)).2 g.tasks.length = g.passedOver id := by
    obtain ⟨fuel',positive⟩ := Nat.exists_eq_succ_of_ne_zero (Nat.ne_of_gt fuel)
    rw [positive,carry_early tools fuel' here trivial (stepped ▸ there),if_neg (by exact Bool.false_ne_true),stepped]
    refine carry_idle fuel' fun i opened => ?_
    obtain ⟨s,there',unfinished⟩ := opened
    exact unfinished ((there'.unique there).2 ▸ trivial)
  rw [rounds_push found,carried]
  exact rounds_ended (g.result?_passedOver id) limit

/-- A push of anything else is not over after its first step. -/
theorem pending_of_differs (differs : ∀ v, g.registry.get? id = some v → v.body.sources ≠ contents) :
    (carry tools 1 (g.tick.start id (.given contents)).2 g.tasks.length).result? (.under [.task g.tasks.length]) = none := by
  have here := at_start_given g id contents
  rcases accept_cases (g.tick.start id (.given contents)).2 id contents with ⟨v,found,same,-⟩ | ⟨event,layer,-,takes,-⟩
  · exact absurd same (differs v found)
  · have there : ((g.tick.start id (.given contents)).2.step tools g.tasks.length).At g.tasks.length id
        (.transforming ⟨contents,event,g.registry.get? id⟩) := by
      rw [step_given tools here,takes]
      exact at_setStage_self (g := { (g.tick.start id (.given contents)).2 with layer }) here
    have stays : carry tools 1 (g.tick.start id (.given contents)).2 g.tasks.length =
        (g.tick.start id (.given contents)).2.step tools g.tasks.length := carry_early tools 0 here trivial there
    rw [result?_task,stays,there.outcome?_eq_none fun finished => finished]
    rfl

/-- A push passes over the text that its module is registered with, and over no other one. -/
theorem passesOver_iff (idle : g.inFlight = []) (found : tools.root.toId path = .ok id) :
    g.PassesOver tools.root path contents ↔ ∃ v, g.registry.get? id = some v ∧ v.body.sources = contents := by
  constructor
  · -- A round that carries no task further than one step tells the two apart.
    intro passes
    obtain ⟨id',ran,well⟩ := passes { tools with fuel := 1 } g.hooks 0 rfl Nat.one_pos
    rw [@rounds_push σ { tools with fuel := 1 } id path found] at ran
    by_contra unregistered
    have pending := @pending_of_differs σ { tools with fuel := 1 } g id contents fun v registered text =>
      unregistered ⟨v,registered,text⟩
    rw [show carry { tools with fuel := 1 } 1 (g.tick.start id (.given contents)).2 g.tasks.length =
      g.passedOver id' from congrArg Prod.snd ran] at pending
    cases pending.symm.trans well
  · rintro ⟨v,registered,text⟩ tools' hooks limit root fuel
    exact ⟨id,rounds_registered (g := g.rehook hooks) idle (root ▸ found) registered text fuel limit,
      (g.rehook hooks).result?_passedOver id⟩

/-- A second push of the text comes to Ok at once and does nothing, if and only if the first one has not replaced a
version with other imports while the module cannot be reached from the entries. -/
theorem push_again (resting : g.Resting) (pushed : Pushed tools path contents g g') :
    ∃ id cs, tools.root.toId path = .ok id ∧ g'.outcome? g.tasks.length = some (.ok cs) ∧
      (g'.PassesOver tools.root path contents ↔
        ∀ old own rest, g.registry.get? id = some old → cs = own :: rest →
          old.body.importsChanged own.version.body = true → g'.registry.Reaches g'.entries id) := by
  obtain ⟨id,cs,found,bringing,outcome⟩ := pushed.bringing resting
  refine ⟨id,cs,found,outcome,?_⟩
  rw [passesOver_iff (bringing.pushing.idle outcome) found]
  exact (bringing.came outcome).registered_iff

/-- The new version of `a` needs `b` in the place of `c`, which is collected; `a` itself is an entry. -/
theorem push_again_paired : ∃ g', rounds (letterTools slowly 20) 10 paired [.asked (.push ⟨"a"⟩ "b")] =
      ([.under [.task 0]],g') ∧ g'.result? (.under [.task 0]) = some (.ok ()) ∧
    g'.registry.contains Letter.c = false ∧ g'.PassesOver (letterTools slowly 20).root ⟨"a"⟩ "b" := by
  obtain ⟨g',ran,well,entries,gone⟩ : ∃ g', rounds (letterTools slowly 20) 10 paired [.asked (.push ⟨"a"⟩ "b")] =
      ([.under [.task 0]],g') ∧ g'.result? (.under [.task 0]) = some (.ok ()) ∧ g'.entries = [Letter.a] ∧
        g'.registry.contains Letter.c = false :=
    exists_snd (by decide +kernel) ⟨by decide +kernel,by decide +kernel,by decide +kernel⟩
  obtain ⟨id,cs,found,-,passes⟩ := push_again resting_paired (.rounds ran well)
  obtain rfl : Letter.a = id := Except.ok.inj (show .ok Letter.a = Except.ok id from found)
  exact ⟨g',ran,well,gone,passes.mpr fun _ _ _ _ _ _ => .root (entries ▸ List.mem_singleton.mpr rfl)⟩

/-- Of the files there is only `a`, which is the entry and compiled. A first text of `b` has been pushed, too. -/
def beside : Graph (List (ModuleId × String)) :=
  let tools := letterTools (fun _ => 0) 20
  let compiled := run tools { layer := { env := [(Letter.a,"")] }, entries := [Letter.a] } .compile
  (run tools compiled.2 (.push ⟨"b"⟩ "")).2

/-- Nothing needs `b`. The push of a text with another import registers it and collects it, so the same push registers
it once more; this time nothing is replaced, and it stays. -/
theorem push_again_beside : beside.registry.ids = [Letter.a,Letter.b] ∧
    ∃ g₁, run (letterTools (fun _ => 0) 20) beside (.push ⟨"b"⟩ "a") = (some (.ok ()),g₁) ∧
      g₁.registry.ids = [Letter.a] ∧
      ∃ g₂, run (letterTools (fun _ => 0) 20) g₁ (.push ⟨"b"⟩ "a") = (some (.ok ()),g₂) ∧
        g₂.registry.ids = [Letter.a,Letter.b] :=
  ⟨by decide +kernel,exists_snd (by decide +kernel)
    ⟨by decide +kernel,exists_snd (by decide +kernel) (by decide +kernel)⟩⟩

end Graph

end Bundling
