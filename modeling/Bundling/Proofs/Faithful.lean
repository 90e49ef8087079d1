import Bundling.Proofs.Orderly
import Bundling.Proofs.World

/-!
# Reads that follow a world

While modules are read with a toolchain that follows a world, every task holds what the world makes of
its module, and where a task fails there is a module that the world does not compile (`Faithful`). A
failure goes up to whoever asked from outside (`Blamed`). As long as there is none, all that is
registered is an old version or what the world makes of the module, and no import is missing but those
that are being read (`Current`).
-/

namespace Bundling

variable {σ : Type}

/-- A stage of a task of a module is as the world has it. -/
def Stage.Fits (tools : Toolchain σ) (P : σ → Prop) (w : World) (roots : List ModuleId) (id : ModuleId) :
    Stage σ → Prop
  | .reading | .done (.ok _) => True
  | .given _ | .announcing .. => False
  | .transforming draft => w.text? id = some draft.sources ∧ draft.event.contents = draft.sources
  | .paused draft _ rest => w.text? id = some draft.sources ∧ rest.Gives P (w.transform id draft.sources)
  | .resolving draft made callers => w.text? id = some draft.sources ∧ w.transform id draft.sources = .ok made ∧
      List.Forall₂ (Resolution.Thread.Gives tools.resolvers P) callers
        (made.imports.map fun request => w.resolve request id)
  | .awaiting own _ => w.compile? id = some own.version.body
  | .done (.error _) => ∃ bad, w.Reaches roots bad ∧ w.compile? bad = none

/-- A stage before the registration of a module goes on to is as the world has it, and there is a reason
where it is the last. -/
def Stage.Grounded (tools : Toolchain σ) (P : σ → Prop) (w : World) (r : Registry) (roots : List ModuleId)
    (id : ModuleId) : Stage σ → Prop
  | .done (.error _) => w.compile? id = none
  | .done (.ok _) => ∃ v, r.get? id = some v ∧ w.text? id = some v.body.sources
  | next => next.Fits tools P w roots id

namespace Graph

/-- How a graph is while modules below some roots are read as a world has them. -/
structure Faithful (tools : Toolchain σ) (P : σ → Prop) (w : World) (base : Nat) (roots : List ModuleId)
    (g : Graph σ) : Prop where
  unhooked : g.hooks.registered = []
  fine : P g.layer.env
  fits : ∀ {n id s}, base ≤ n → g.At n id s → s.Fits tools P w roots id
  below : ∀ {n id s}, base ≤ n → g.At n id s → w.Reaches roots id

section

variable {tools : Toolchain σ} {P : σ → Prop} {w : World} {base young n : Nat} {roots : List ModuleId}
  {outside : List Nat} {g after : Graph σ} {id : ModuleId} {stage : Stage σ}

/-- What going from one stage to the next means in a world. -/
theorem fits_of_advance (follows : tools.Follows P w) (unhooked : g.hooks.registered = [])
    (fine : P g.layer.env) (fits : stage.Fits tools P w roots id) (start : stage.Early) {next : Stage σ}
    {layer : Resolution.State σ} (eq : g.advance tools id stage = (next,{ g with layer }))
    (other : ∀ own children, next ≠ .awaiting own children) :
    P layer.env ∧ next.Grounded tools P w g.registry roots id := by
  -- The text has been read, or the transformers go on.
  have carried : ∀ (draft : Draft) (work : Work σ (Except TransformFault Transformed)),
      w.text? id = some draft.sources → work.Gives P (w.transform id draft.sources) →
      g.advance tools id stage = g.transform id draft work →
      P layer.env ∧ next.Grounded tools P w g.registry roots id := by
    intro draft work text gives carried
    obtain ⟨fine',halts⟩ := gives.go fine
    rcases transform_cases g id draft work with ⟨rounds,rest,layer',halt,-,same⟩ | ⟨fault,layer',halt,-,same⟩ |
        ⟨made,layer',halt,-,same⟩
    all_goals
      rw [halt] at fine' halts
      obtain ⟨rfl,equal⟩ := Prod.mk.inj (eq.symm.trans (carried.trans same))
      obtain rfl : layer = layer' := congrArg Graph.layer equal
      refine ⟨fine',?_⟩
    · rcases halts with ended | ⟨_,_,paused,gives',-⟩
      · cases ended
      · cases paused
        exact ⟨text,gives'⟩
    · rcases halts with ended | ⟨_,_,paused,-⟩
      · simp [Stage.Grounded,World.compile?,text,← Work.Halt.done.inj ended]
      · cases paused
    · rcases halts with ended | ⟨_,_,paused,-⟩
      · refine ⟨text,(Work.Halt.done.inj ended).symm,?_⟩
        rw [List.forall₂_map_left_iff,List.forall₂_map_right_iff]
        exact List.forall₂_same.mpr fun request _ => follows.resolves request id
      · cases paused
  cases stage with
  | reading =>
    obtain ⟨fine',text⟩ := follows.reads id fine
    rcases read_cases tools g id with ⟨e,layer',answer,env,same⟩ | ⟨contents,layer',answer,env,same⟩
    · obtain ⟨rfl,equal⟩ := Prod.mk.inj (eq.symm.trans same)
      obtain rfl : layer = layer' := congrArg Graph.layer equal
      refine ⟨by rw [env]; exact fine',?_⟩
      rw [answer] at text
      simp [Stage.Grounded,World.compile?,← text,Except.toOption]
    · rw [answer] at text
      rcases accept_cases { g with layer := layer' } id contents with ⟨v,found,equal,taken⟩ |
          ⟨event,layer'',-,taken,ran,still⟩
      · obtain ⟨rfl,equal'⟩ := Prod.mk.inj (eq.symm.trans (same.trans taken))
        obtain rfl : layer = layer' := congrArg Graph.layer equal'
        exact ⟨by rw [env]; exact fine',v,found,by rw [← text,equal]; rfl⟩
      · obtain ⟨rfl,equal'⟩ := Prod.mk.inj (eq.symm.trans (same.trans taken))
        obtain rfl : layer = layer'' := congrArg Graph.layer equal'
        obtain ⟨rfl,rfl⟩ := eq_of_runBefore (by exact unhooked) ran still
        exact ⟨by rw [env]; exact fine',text.symm,rfl⟩
  | given contents => exact fits.elim
  | transforming draft =>
    obtain ⟨text,same⟩ := fits
    exact carried draft _ text (same ▸ follows.transforms id draft.event.contents) rfl
  | paused draft wake rest =>
    by_cases due : wake ≤ g.layer.clock
    · exact carried draft rest fits.1 fits.2 (if_pos due)
    · have same : g.advance tools id (.paused draft wake rest) = (.paused draft wake rest,g) := if_neg due
      obtain ⟨rfl,equal⟩ := Prod.mk.inj (eq.symm.trans same)
      obtain rfl : layer = g.layer := congrArg Graph.layer equal
      exact ⟨fine,fits⟩
  | resolving draft made callers =>
    obtain ⟨text,transformed,gives⟩ := fits
    obtain ⟨fine',-,gives',-⟩ := Resolution.pollAll_gives gives tools.fuel fine
    rcases resolve_cases tools g id draft made callers with ⟨-,same⟩ | ⟨results,answered,all⟩
    · obtain ⟨rfl,equal⟩ := Prod.mk.inj (eq.symm.trans same)
      obtain rfl := congrArg Graph.layer equal
      exact ⟨fine',text,transformed,gives'⟩
    · obtain rfl := Resolution.answers_of_results gives' _ fine' answered
      rcases all with ⟨e,bad,same⟩ | ⟨imports,good,same⟩
      · obtain ⟨rfl,equal⟩ := Prod.mk.inj (eq.symm.trans same)
        obtain rfl := congrArg Graph.layer equal
        refine ⟨fine',?_⟩
        have failed : (made.imports.mapM fun request => w.resolve request id) = .error e := by
          rw [List.mapM_map] at bad
          exact bad
        simp [Stage.Grounded,World.compile?,text,transformed,failed]
      · have registered := same.trans (finish_unhooked (by exact unhooked) id draft made imports)
        exact absurd (Prod.mk.inj (eq.symm.trans registered)).1 (other _ _)
  | announcing draft event requests wake rest => exact fits.elim
  | awaiting own children => exact start.elim
  | done r => exact start.elim

/-- What is registered is what the world makes of the module. -/
theorem compiled_of_resolved (fine : P g.layer.env) {draft : Draft} (fits : stage.Fits tools P w roots id)
    {layer : Resolution.State σ} {body : Module} (resolved : Resolved tools g id draft stage layer body) :
    P layer.env ∧ w.compile? id = some body := by
  obtain ⟨poll,answered,good⟩ := resolved
  rename_i made callers polled results imports
  obtain ⟨text,transformed,gives⟩ := fits
  obtain ⟨fine',-,gives',-⟩ := Resolution.pollAll_gives gives tools.fuel fine
  rw [poll] at fine' gives'
  obtain rfl := Resolution.answers_of_results gives' _ fine' answered
  refine ⟨fine',World.compile?_eq_some_iff.mpr ⟨draft.sources,made,imports,text,transformed,?_,rfl⟩⟩
  rw [List.mapM_map] at good
  exact good

/-- What is being made is made of the text that the world has. -/
theorem Stage.Grounded.text {r : Registry} (grounded : stage.Grounded tools P w r roots id) {draft : Draft}
    (known : stage.draft? = some draft) : w.text? id = some draft.sources := by
  cases stage with
  | transforming | paused | resolving =>
    cases known
    exact grounded.1
  | announcing => exact grounded.elim
  | _ => cases known

theorem Stage.Fits.not_announcing (fits : stage.Fits tools P w roots id) : ¬ stage.Announcing := by
  cases stage <;> first | exact fits.elim | exact fun announcing => announcing

theorem Stage.Grounded.fits {r : Registry} (grounded : stage.Grounded tools P w r roots id)
    (reached : w.Reaches roots id) : stage.Fits tools P w roots id := by
  cases stage with
  | done r =>
    cases r with
    | ok cs => exact trivial
    | error e => exact ⟨id,reached,grounded⟩
  | _ => exact grounded

/-- One task has gone on to a stage as the world has it, and nothing else has changed that matters here. -/
theorem Faithful.setStage (faithful : g.Faithful tools P w base roots) (here : g.At n id stage)
    (after : Graph σ) (tasks : after.tasks = g.tasks) (hooks : after.hooks = g.hooks) (fine : P after.layer.env)
    {next : Stage σ} (fits : base ≤ n → next.Fits tools P w roots id) :
    (after.setStage n next).Faithful tools P w base roots := by
  refine ⟨?_,?_,?_,?_⟩
  · rw [hooks_setStage,hooks]
    exact faithful.unhooked
  · rw [layer_setStage]
    exact fine
  · intro m i s late there
    rcases (at_setStage_after here tasks).mp there with ⟨rfl,rfl,rfl⟩ | ⟨-,before⟩
    · exact fits late
    · exact faithful.fits late before
  · intro m i s late there
    rcases (at_setStage_after here tasks).mp there with ⟨rfl,rfl,-⟩ | ⟨-,before⟩
    · exact faithful.below late here
    · exact faithful.below late before

/-- Every step is as the world has it. -/
theorem Faithful.step (faithful : g.Faithful tools P w base roots) (follows : tools.Follows P w)
    (orderly : g.Orderly base young roots outside) (n : Nat) :
    (g.step tools n).Faithful tools P w base roots := by
  by_cases bound : n < g.tasks.length
  · obtain ⟨id,stage,here⟩ := exists_at bound
    have turn := step_turn tools here
    have late : ¬ stage.Finished → base ≤ n := fun going => (orderly.listed (orderly.opened ⟨_,here,going⟩)).1
    generalize g.step tools n = after at turn
    have advanced : ∀ {next : Stage σ} {layer}, stage.Early → (∀ own children, next ≠ .awaiting own children) →
        g.advance tools id stage = (next,{ g with layer }) →
        (({ g with layer }).setStage n next).Faithful tools P w base roots := by
      intro next layer start other eq
      have late := late start.unfinished
      obtain ⟨fine,grounded⟩ := fits_of_advance follows faithful.unhooked faithful.fine (faithful.fits late here)
        start eq other
      exact faithful.setStage here { g with layer } rfl rfl fine fun _ => Stage.Grounded.fits grounded (faithful.below late here)
    cases turn with
    | early start goes _ eq => exact advanced start goes.ne_awaiting eq
    | failed start eq => exact advanced start (Stage.done_ne_awaiting _) eq
    | kept start _ eq => exact advanced start (Stage.done_ne_awaiting _) eq
    | @registered _ draft layer own start _ _ same _ _ unhooked =>
      obtain ⟨children,entered⟩ := entered_spec here same layer
      have late := late start.unfinished
      have fits := faithful.fits late here
      obtain ⟨fine,compiled⟩ := compiled_of_resolved faithful.fine fits
        (unhooked faithful.unhooked (Stage.Fits.not_announcing fits))
      refine ⟨?_,?_,?_,?_⟩
      · rw [entered.hooks]
        exact faithful.unhooked
      · rw [layer_entered]
        exact fine
      · intro m i s late' there
        by_cases equal : m = n
        · subst equal
          obtain ⟨rfl,rfl⟩ := there.unique (same ▸ entered.here)
          exact compiled
        · rcases entered.new equal there with before | ⟨-,rfl,-⟩
          · exact faithful.fits late' before
          · exact trivial
      · intro m i s late' there
        by_cases equal : m = n
        · subst equal
          obtain ⟨rfl,-⟩ := there.unique (same ▸ entered.here)
          exact faithful.below late here
        · rcases entered.new equal there with before | ⟨-,-,-,-,imported,-⟩
          · exact faithful.below late' before
          · exact .step (faithful.below late here) compiled imported
    | waiting => exact faithful
    | @settled own => exact faithful.setStage here { g with registry := g.tidied own } rfl rfl faithful.fine fun _ => trivial
    | @rolledBack own children outcomes e all bad =>
      refine faithful.setStage here { g with registry := own.rollback (commits outcomes) g.registry } rfl rfl
        faithful.fine fun _ => ?_
      obtain ⟨c,child,outcome⟩ := (mem_outcomes_iff all).mp (mem_of_firstError bad)
      obtain ⟨i,there⟩ := outcome?_iff.mp outcome
      exact (show ∃ bad, w.Reaches roots bad ∧ w.compile? bad = none from
        faithful.fits (orderly.children here c child).1 there)
    | ended => exact faithful.setStage here _ rfl rfl faithful.fine fun late => faithful.fits late here
  · rw [step_none tools (List.getElem?_eq_none (Nat.le_of_not_lt bound))]
    exact faithful

/-- Nothing has changed that matters here. -/
theorem Faithful.congr (faithful : g.Faithful tools P w base roots) (hooks : after.hooks = g.hooks)
    (env : after.layer.env = g.layer.env) (tasks : after.tasks = g.tasks) :
    after.Faithful tools P w base roots := by
  have at_iff : ∀ {m i s}, after.At m i s ↔ g.At m i s := at_congr tasks
  exact ⟨hooks ▸ faithful.unhooked,env ▸ faithful.fine,fun late there => faithful.fits late (at_iff.mp there),
    fun late there => faithful.below late (at_iff.mp there)⟩

/-- A read is asked for from outside. -/
theorem Faithful.join (faithful : g.Faithful tools P w base roots) {root : ModuleId} (asked : root ∈ roots) :
    (g.join root).2.Faithful tools P w base roots := by
  have grown := (grown_join g (List.mem_singleton.mpr rfl : root ∈ [root])).1
  generalize (g.join root).2 = after at grown
  refine ⟨?_,?_,?_,?_⟩
  · rw [grown.same]
    exact faithful.unhooked
  · rw [grown.same]
    exact faithful.fine
  · intro m i s late there
    rcases grown.new there with before | ⟨-,rfl,-⟩
    · exact faithful.fits late before
    · exact trivial
  · intro m i s late there
    rcases grown.new there with before | ⟨-,-,member,-⟩
    · exact faithful.below late before
    · exact .root (List.mem_singleton.mp member ▸ asked)

/-- Before anything is read. -/
theorem Resting.faithful (unhooked : g.hooks.registered = []) (fine : P g.layer.env) :
    g.Faithful tools P w g.tasks.length roots := by
  refine ⟨unhooked,fine,fun late there => ?_,fun late there => ?_⟩
  all_goals
    have := there.lt
    omega

/-! ## Failures -/

/-- No task has failed. -/
def Unfailed (base : Nat) (g : Graph σ) : Prop :=
  ∀ n id e, base ≤ n → ¬ g.At n id (.done (.error e))

/-- Who has failed was asked for from outside, or by a task that still waits or has failed too. -/
def Blamed (base : Nat) (outside : List Nat) (g : Graph σ) : Prop :=
  ∀ n id e, base ≤ n → g.At n id (.done (.error e)) → n ∈ outside ∨ ∃ m < n, base ≤ m ∧
    ((∃ i own children, g.At m i (.awaiting own children) ∧ n ∈ children) ∨ ∃ i e, g.At m i (.done (.error e)))

theorem Blamed.congr (blamed : g.Blamed base outside) (tasks : after.tasks = g.tasks) :
    after.Blamed base outside := by
  intro n id e late there
  simpa [At,tasks] using blamed n id e late (by simpa [At,tasks] using there)

/-- Where all reads that were asked for from outside went well and nothing waits, no task has failed. -/
theorem Blamed.unfailed (blamed : g.Blamed base outside)
    (well : ∀ n ∈ outside, ∃ cs, g.outcome? n = some (.ok cs)) (idle : ∀ {m i}, ¬ g.Open m i) :
    g.Unfailed base := by
  intro n
  induction n using Nat.strongRecOn with
  | ind n ih =>
    intro id e late failed
    rcases blamed n id e late failed with known | ⟨m,less,late',⟨i,own,children,there,-⟩ | ⟨i,e',there⟩⟩
    · obtain ⟨cs,outcome⟩ := well n known
      rw [outcome?_iff.mpr ⟨id,failed⟩] at outcome
      cases outcome
    · exact idle ⟨_,there,fun finished => finished⟩
    · exact ih m less i e' late' there

/-- A read is asked for from outside. -/
theorem Blamed.join (blamed : g.Blamed base outside) (root : ModuleId) :
    (g.join root).2.Blamed base ((g.join root).1 :: outside) := by
  have grown := (grown_join g (List.mem_singleton.mpr rfl : root ∈ [root])).1
  intro n id e late failed
  rcases blamed n id e late (grown.at_old (by simp) failed) with
    known | ⟨m,less,late',⟨i,own,children,there,child⟩ | ⟨i,e',there⟩⟩
  · exact .inl (List.mem_cons_of_mem _ known)
  · exact .inr ⟨m,less,late',.inl ⟨i,own,children,grown.old there,child⟩⟩
  · exact .inr ⟨m,less,late',.inr ⟨i,e',grown.old there⟩⟩

/-- One task has gone on to a stage. If it had waited, it has failed, or none that it waited for has. -/
theorem Blamed.setStage (blamed : g.Blamed base outside) (orderly : g.Orderly base young roots outside)
    (here : g.At n id stage) (going : ¬ stage.Finished) (after : Graph σ) (tasks : after.tasks = g.tasks)
    (next : Stage σ) (waited : ∀ own children, stage = .awaiting own children →
      (∃ e, next = .done (.error e)) ∨ ∀ c ∈ children, ∀ i e, ¬ g.At c i (.done (.error e))) :
    (after.setStage n next).Blamed base outside := by
  have at_iff : ∀ {m i s}, (after.setStage n next).At m i s ↔ (m = n ∧ i = id ∧ s = next) ∨ (m ≠ n ∧ g.At m i s) :=
    at_setStage_after here tasks
  have keeps : ∀ {m k j e}, m ≠ n → g.At m j (.done (.error e)) → base ≤ k →
      ((∃ i own children, g.At k i (.awaiting own children) ∧ m ∈ children) ∨ ∃ i e, g.At k i (.done (.error e))) →
      (∃ i own children, (after.setStage n next).At k i (.awaiting own children) ∧ m ∈ children) ∨
        ∃ i e, (after.setStage n next).At k i (.done (.error e)) := by
    intro m k j e other failed late blame
    by_cases equal : k = n
    · subst equal
      rcases blame with ⟨i,own,children,there,child⟩ | ⟨i,e',there⟩
      · obtain ⟨rfl,rfl⟩ := there.unique here
        rcases waited own children rfl with ⟨e',rfl⟩ | well
        · exact .inr ⟨i,e',at_iff.mpr (.inl ⟨rfl,rfl,rfl⟩)⟩
        · exact absurd failed (well m child j e)
      · obtain ⟨rfl,rfl⟩ := there.unique here
        exact absurd trivial going
    · rcases blame with ⟨i,own,children,there,child⟩ | ⟨i,e',there⟩
      · exact .inl ⟨i,own,children,at_iff.mpr (.inr ⟨equal,there⟩),child⟩
      · exact .inr ⟨i,e',at_iff.mpr (.inr ⟨equal,there⟩)⟩
  intro m i e late failed
  rcases at_iff.mp failed with ⟨rfl,rfl,-⟩ | ⟨other,before⟩
  · rcases orderly.asked ⟨stage,here,going⟩ with ⟨known,-⟩ | ⟨k,less,j,own,children,there,child,-⟩
    · exact .inl known
    · refine .inr ⟨k,less,(orderly.listed (orderly.opened ⟨_,there,fun finished => finished⟩)).1,.inl ⟨j,own,children,?_,child⟩⟩
      exact at_iff.mpr (.inr ⟨Nat.ne_of_lt less,there⟩)
  · rcases blamed m i e late before with known | ⟨k,less,late',blame⟩
    · exact .inl known
    · exact .inr ⟨k,less,late',keeps other before late' blame⟩

theorem Blamed.step (blamed : g.Blamed base outside) (orderly : g.Orderly base young roots outside)
    (tools : Toolchain σ) (n : Nat) : (g.step tools n).Blamed base outside := by
  by_cases bound : n < g.tasks.length
  · obtain ⟨id,stage,here⟩ := exists_at bound
    have turn := step_turn tools here
    generalize g.step tools n = after at turn
    cases turn with
    | @early _ next layer start =>
      refine blamed.setStage orderly here start.unfinished { g with layer } rfl _ ?_
      rintro own children rfl
      exact start.elim
    | @failed _ _ layer start =>
      exact blamed.setStage orderly here start.unfinished { g with layer } rfl _ fun _ _ _ => .inl ⟨_,rfl⟩
    | @kept _ _ layer start =>
      refine blamed.setStage orderly here start.unfinished { g with layer } rfl _ ?_
      rintro own children rfl
      exact start.elim
    | @registered _ _ layer own start _ _ same =>
      obtain ⟨children,entered⟩ := entered_spec here same layer
      intro m i e late failed
      have before := entered.at_old (entered.ne (by simp) failed) (by simp) failed
      have kept : ∀ {k j s}, ¬ s.Early → g.At k j s → (g.entered layer n own).At k j s :=
        fun late there => (entered.at_late here start there late).2
      rcases blamed m i e late before with known | ⟨k,less,late',⟨j,own',children',there,child⟩ | ⟨j,e',there⟩⟩
      · exact .inl known
      · exact .inr ⟨k,less,late',.inl ⟨j,own',children',kept (fun early => early) there,child⟩⟩
      · exact .inr ⟨k,less,late',.inr ⟨j,e',kept (fun early => early) there⟩⟩
    | waiting => exact blamed
    | @settled own children outcomes all good =>
      refine blamed.setStage orderly here (fun finished => finished) { g with registry := g.tidied own } rfl _ ?_
      rintro _ _ equal
      cases equal
      refine .inr fun c child i e there => ?_
      obtain ⟨r,inside,outcome⟩ := exists_outcome all child
      obtain ⟨cs,rfl⟩ := firstError_eq_none_iff.mp good r inside
      rw [outcome?_iff.mpr ⟨i,there⟩] at outcome
      cases outcome
    | @rolledBack own children outcomes =>
      exact blamed.setStage orderly here (fun finished => finished)
        { g with registry := own.rollback (commits outcomes) g.registry } rfl _ fun _ _ _ => .inl ⟨_,rfl⟩
    | ended => exact blamed.congr (tasks_setStage_same here)
  · rw [step_none tools (List.getElem?_eq_none (Nat.le_of_not_lt bound))]
    exact blamed

end

end Graph

end Bundling
