import Bundling.Proofs.Carrying
import Bundling.Proofs.Step

/-!
# What plugins may do to their state

A rule is a relation `R` between states of the plugins. Work and activities heed it if each of their steps
is one that it allows, whatever they are told and whatever the state is. If the plugins of a toolchain heed a
rule, and what is under way in a graph does, a step of the graph is made of allowed steps, and what is under
way after it heeds the rule again (`Graph.Heeds.step`).
-/

namespace Bundling

open Relation (ReflTransGen)

variable {σ : Type} {R : σ → σ → Prop}

namespace Work

variable {α β : Type}

/-- Each step is allowed by a rule. -/
def Heeds (R : σ → σ → Prop) : Work σ α → Prop
  | .done _ => True
  | .step f next => ∀ s, R s (f s) ∧ (next s).Heeds R
  | .pause _ next => next.Heeds R

theorem Heeds.bind {work : Work σ α} (heeds : work.Heeds R) {k : α → Work σ β} (rest : ∀ a, (k a).Heeds R) :
    (work.bind k).Heeds R := by
  induction work with
  | done a => exact rest a
  | step f next ih => exact fun s => ⟨(heeds s).1,ih s (heeds s).2⟩
  | pause rounds next ih => exact ih heeds

theorem Heeds.go {work : Work σ α} (heeds : work.Heeds R) (s : σ) :
    ReflTransGen R s (work.go s).2 ∧ ∀ rounds rest, (work.go s).1 = .paused rounds rest → rest.Heeds R := by
  induction work generalizing s with
  | done a => exact ⟨.refl,nofun⟩
  | step f next ih =>
    obtain ⟨allowed,left⟩ := heeds s
    obtain ⟨further,halted⟩ := ih s left (f s)
    exact ⟨.head allowed further,halted⟩
  | pause rounds next ih =>
    unfold Work.go
    split
    · exact ih heeds s
    · refine ⟨.refl,fun rounds' rest same => ?_⟩
      cases same
      exact heeds

end Work

theorem Pipeline.heeds_steps {ts : List (Transformer σ)} (each : ∀ t ∈ ts, ∀ file, (t.transform file).Heeds R)
    (path : Path) (publicPath : String) (p : Progress) : (steps path publicPath ts p).Heeds R := by
  induction ts generalizing p with
  | nil => trivial
  | cons t ts ih =>
    have others := ih fun t' member => each t' (List.mem_cons_of_mem _ member)
    refine Work.Heeds.bind (each t List.mem_cons_self ⟨path,p.contents,publicPath⟩) fun made => ?_
    cases made with
    | error message => trivial
    | ok output =>
      cases output with
      | none => exact others p
      | some o => exact others (p.add o)

theorem Pipeline.heeds_run {ts : List (Transformer σ)} (each : ∀ t ∈ ts, ∀ file, (t.transform file).Heeds R)
    (path : Path) (contents publicPath : String) : (run ts path contents publicPath).Heeds R :=
  Work.Heeds.bind (heeds_steps each path publicPath { contents }) fun _ => trivial

/-- Each step is allowed by a rule, and so are those of the attempts that are shared. -/
inductive Activity.Heeds (R : σ → σ → Prop) : Activity σ → Prop where
  | answer (r : Resolved) : Heeds R (.answer r)
  | defer : Heeds R .defer
  | step {f : σ → Activity σ × σ} (allowed : ∀ s, R s (f s).2) (leads : ∀ s, Heeds R (f s).1) : Heeds R (.step f)
  | pause {rounds : Nat} {next : Activity σ} (leads : Heeds R next) : Heeds R (.pause rounds next)
  | ask {request : String} {importer : Option ModuleId} {next : Resolved → Activity σ}
      (leads : ∀ r, Heeds R (next r)) : Heeds R (.ask request importer next)
  | share {key : String} {a : Activity σ} {next : Resolved → Activity σ} (this : Heeds R a)
      (leads : ∀ r, Heeds R (next r)) : Heeds R (.share key a next)
  | pending {next : List String → Activity σ} (leads : ∀ keys, Heeds R (next keys)) : Heeds R (.pending next)

/-- The plugins heed a rule. -/
structure Toolchain.Heeds (R : σ → σ → Prop) (tools : Toolchain σ) : Prop where
  store : ∀ path s, R s (tools.store.read path s).2
  transformers : ∀ t ∈ tools.transformers, ∀ file, (t.transform file).Heeds R
  resolvers : ∀ r ∈ tools.resolvers, ∀ request importer, (r.resolve request importer).Heeds R

/-! ## Resolutions -/

namespace Resolution

variable {chain : List (Resolver σ)} {s s' : State σ} {t t' : Thread σ}

theorem lasts_heeds : Lasts (Activity.Heeds R) where
  step | .step _ leads => leads
  pause | .pause leads => leads
  ask | .ask leads => leads
  share | .share _ leads => leads
  pending | .pending leads => leads

abbrev Thread.Heeds (R : σ → σ → Prop) (t : Thread σ) : Prop := t.Holds (Activity.Heeds R)

theorem Thread.heeds_resolving (request : String) (importer : Option ModuleId) :
    (Thread.resolving request importer : Thread σ).Heeds R :=
  ⟨trivial,fun member => absurd member List.not_mem_nil⟩

/-- The attempts on their way heed a rule. -/
def State.Heeds (R : σ → σ → Prop) (s : State σ) : Prop :=
  ∀ (n : Nat) (key : String) (t : Thread σ), s.attempts[n]? = some ⟨key,.running t⟩ → t.Heeds R

theorem State.Heeds.setProgress (heeds : s.Heeds R) (n : Nat) {p : Progress σ}
    (this : ∀ t, p = .running t → t.Heeds R) : (s.setProgress n p).Heeds R := by
  intro m key t here
  rcases attempts_setProgress_cases here with ⟨-,same,-⟩ | ⟨-,before⟩
  · exact this t same.symm
  · exact heeds m key t before

/-- The layer after steps of the plugins that are allowed. -/
structure Led (R : σ → σ → Prop) (s s' : State σ) : Prop where
  attempts : s'.Heeds R
  steps : ReflTransGen R s.env s'.env

theorem Led.trans {s'' : State σ} (first : Led R s s') (second : Led R s' s'') : Led R s s'' :=
  ⟨second.attempts,first.steps.trans second.steps⟩

/-- The state of the plugins changes only where an activity makes a step. -/
theorem steps_of_advance? (mine : t.Heeds R) (advanced : t.advance? chain s = some (s',t')) :
    ReflTransGen R s.env s'.env := by
  obtain ⟨control,stack,home⟩ := t
  obtain ⟨left,-⟩ := mine
  cases control with
  | act a =>
    cases a with
    | step f =>
      cases advanced
      cases left with
      | step allowed => exact .single (allowed s.env)
    | share key a next =>
      simp only [Thread.advance?,Option.some.injEq,Prod.mk.injEq] at advanced
      rw [← advanced.1,State.env_lock]
    | answer | defer =>
      simp only [Thread.advance?] at advanced
      split at advanced <;> cases advanced <;> exact .refl
    | pause | ask | pending =>
      cases advanced
      exact .refl
  | chain q i =>
    simp only [Thread.advance?] at advanced
    split at advanced
    · cases advanced
      exact .refl
    · split at advanced <;> cases advanced <;> exact .refl
  | answered r =>
    simp only [Thread.advance?] at advanced
    split at advanced <;> cases advanced <;> exact .refl
  | paused wake next | settling others r next =>
    simp only [Thread.advance?] at advanced
    split at advanced <;> cases advanced
    exact .refl
  | joined n next =>
    obtain ⟨r,-,equal⟩ := Option.map_eq_some_iff.mp advanced
    cases equal
    exact .refl
  | finished r => simp [Thread.advance?] at advanced

theorem Led.of_advance? (heeds : s.Heeds R) (mine : t.Heeds R) (advanced : t.advance? chain s = some (s',t')) :
    Led R s s' := by
  refine ⟨?_,steps_of_advance? mine advanced⟩
  cases turn_of_advance? advanced with
  | works | learns | returns => exact heeds
  | @shares key a next control =>
    have shared := mine.control
    rw [control] at shared
    intro n key' u here
    rcases State.attempts_lock_cases here with before | ⟨-,new⟩
    · exact heeds n key' u before
    · cases new
      cases shared with
      | share this => exact ⟨this,fun member => absurd member List.not_mem_nil⟩

section

variable (resolvers : ∀ r ∈ chain, ∀ request importer, (r.resolve request importer).Heeds R)
include resolvers

/-- Carrying a thread on, and carrying attempts on for it. -/
theorem led_poll (fuel : Nat) :
    (∀ {s : State σ} {t : Thread σ}, s.Heeds R → t.Heeds R →
      Led R s (poll chain fuel s t).1 ∧ (poll chain fuel s t).2.Heeds R) ∧
    ∀ {s : State σ} (ns : List Nat), s.Heeds R → Led R s (pollAttempts chain fuel s ns) := by
  induction fuel with
  | zero => exact ⟨fun heeds mine => ⟨⟨heeds,.refl⟩,mine⟩,fun _ heeds => ⟨heeds,.refl⟩⟩
  | succ fuel ih =>
    obtain ⟨polls,carries⟩ := ih
    have goes : ∀ {s s' : State σ} {t t' : Thread σ}, s.Heeds R → t.Heeds R → t.advance? chain s = some (s',t') →
        Led R s (poll chain fuel s' t').1 ∧ (poll chain fuel s' t').2.Heeds R := by
      intro s s' t t' heeds mine advanced
      have first := Led.of_advance? heeds mine advanced
      obtain ⟨further,left⟩ := polls first.attempts (mine.advance lasts_heeds resolvers advanced)
      exact ⟨first.trans further,left⟩
    refine ⟨?_,?_⟩
    · intro s t heeds mine
      rw [poll]
      cases advanced : t.advance? chain s with
      | some next => exact goes heeds mine advanced
      | none =>
        have first := carries (t.awaited s) heeds
        simp only
        cases advanced' : t.advance? chain (pollAttempts chain fuel s (t.awaited s)) with
        | none => exact ⟨first,mine⟩
        | some next =>
          obtain ⟨further,left⟩ := goes first.attempts mine advanced'
          exact ⟨first.trans further,left⟩
    · intro s ns heeds
      cases ns with
      | nil => exact ⟨heeds,.refl⟩
      | cons n ns =>
        rw [pollAttempts]
        split
        · rename_i key u here
          obtain ⟨⟨attempts,steps⟩,left⟩ := polls (heeds.setProgress n (p := .busy) fun _ same => by cases same) (heeds n key u here)
          generalize poll chain fuel (s.setProgress n .busy) u = polled at attempts steps left
          obtain ⟨s₁,u₁⟩ := polled
          have put : ∀ {p : Progress σ} {s₂ : State σ}, (∀ t, p = .running t → t.Heeds R) →
              s₂.attempts = (s₁.setProgress n p).attempts → s₂.env = s₁.env →
              Led R s (pollAttempts chain fuel s₂ ns) := by
            intro p s₂ this same env
            have now : s₂.Heeds R := fun m key t there => attempts.setProgress n this m key t (same ▸ there)
            exact Led.trans ⟨now,env ▸ steps⟩ (carries ns now)
          simp only
          split
          · exact put (p := .settled _) (fun _ same => by cases same) rfl rfl
          · refine put (p := .running u₁) (fun t same => ?_) rfl rfl
            cases same
            exact left
        · exact carries ns heeds

theorem led_pollAll (fuel : Nat) {ts : List (Thread σ)} (heeds : s.Heeds R) (all : ∀ t ∈ ts, t.Heeds R) :
    Led R s (pollAll chain fuel s ts).1 ∧ ∀ t ∈ (pollAll chain fuel s ts).2, t.Heeds R := by
  induction ts generalizing s with
  | nil => exact ⟨⟨heeds,.refl⟩,fun t member => absurd member List.not_mem_nil⟩
  | cons t ts ih =>
    obtain ⟨first,left⟩ := (led_poll resolvers fuel).1 heeds (all t List.mem_cons_self)
    obtain ⟨further,others⟩ := ih first.attempts fun t' member => all t' (List.mem_cons_of_mem _ member)
    rw [pollAll_cons]
    refine ⟨first.trans further,fun t' member => ?_⟩
    rcases List.mem_cons.mp member with rfl | later
    · exact left
    · exact others t' later

end

end Resolution

/-! ## Tasks -/

/-- What a task has still to do before its module is registered heeds a rule. -/
def Stage.Heeds (R : σ → σ → Prop) : Stage σ → Prop
  | .paused _ _ rest => rest.Heeds R
  | .resolving _ _ callers => ∀ t ∈ callers, t.Heeds R
  | .announcing _ _ _ _ rest => rest.Heeds R
  | _ => True

namespace Graph

/-- What is under way in a graph heeds a rule, and there are no hooks. -/
structure Heeds (R : σ → σ → Prop) (g : Graph σ) : Prop where
  unhooked : g.hooks.registered = []
  attempts : g.layer.Heeds R
  stages : ∀ {n id s}, g.At n id s → s.Heeds R

variable {tools : Toolchain σ} {g after : Graph σ} {n : Nat} {id : ModuleId} {stage next : Stage σ}
  {layer : Resolution.State σ}

theorem led_accept (heeds : g.Heeds R) (id : ModuleId) (contents : String) :
    (g.accept id contents).1.Heeds R ∧ Resolution.Led R g.layer (g.accept id contents).2.layer := by
  rcases accept_cases g id contents with ⟨v,-,-,same⟩ | ⟨event,layer,-,same,ran,still⟩
  · rw [same]
    exact ⟨trivial,heeds.attempts,.refl⟩
  · rw [same,(eq_of_runBefore heeds.unhooked ran still).2]
    exact ⟨trivial,heeds.attempts,.refl⟩

theorem led_transform (heeds : g.Heeds R) (id : ModuleId) (draft : Draft)
    {work : Work σ (Except TransformFault Transformed)} (left : work.Heeds R) :
    (g.transform id draft work).1.Heeds R ∧ Resolution.Led R g.layer (g.transform id draft work).2.layer := by
  obtain ⟨steps,halted⟩ := left.go g.layer.env
  rcases transform_cases g id draft work with ⟨rounds,rest,layer,went,equal,same⟩ | ⟨fault,layer,went,equal,same⟩ |
    ⟨made,layer,went,equal,same⟩
  all_goals
    rw [went] at steps halted
    have led : Resolution.Led R g.layer layer := ⟨by rw [equal]; exact heeds.attempts,steps⟩
    rw [same]
  · exact ⟨halted rounds rest rfl,led⟩
  · exact ⟨trivial,led⟩
  · refine ⟨fun t member => ?_,led⟩
    obtain ⟨request,-,rfl⟩ := List.mem_map.mp member
    exact Resolution.Thread.heeds_resolving request (some id)

theorem led_announce (heeds : g.Heeds R) (id : ModuleId) (draft : Draft) (event : CompileEvent)
    (requests : List (String × ModuleId)) {work : Work σ Unit} (left : work.Heeds R) :
    (g.announce id draft event requests work).1.Heeds R ∧
      Resolution.Led R g.layer (g.announce id draft event requests work).2.layer := by
  obtain ⟨steps,halted⟩ := left.go g.layer.env
  rcases announce_cases g id draft event requests work with ⟨rounds,rest,layer,went,equal,same⟩ | ⟨layer,went,equal,same⟩
  all_goals
    rw [went] at steps halted
    have led : Resolution.Led R g.layer layer := ⟨by rw [equal]; exact heeds.attempts,steps⟩
    rw [same]
  · exact ⟨halted rounds rest rfl,led⟩
  · rw [layer_enters]
    exact ⟨trivial,led⟩

theorem led_resolve (obeys : tools.Heeds R) (heeds : g.Heeds R) (id : ModuleId) (draft : Draft) (made : Transformed)
    {callers : List (Resolution.Thread σ)} (left : ∀ t ∈ callers, t.Heeds R) :
    (g.resolve tools id draft made callers).1.Heeds R ∧
      Resolution.Led R g.layer (g.resolve tools id draft made callers).2.layer := by
  obtain ⟨led,left'⟩ := Resolution.led_pollAll obeys.resolvers tools.fuel heeds.attempts left
  rcases resolve_cases tools g id draft made callers with ⟨-,same⟩ | ⟨results,-,⟨e,-,same⟩ | ⟨imports,-,same⟩⟩
  · rw [same]
    exact ⟨left',led⟩
  · rw [same]
    exact ⟨trivial,led⟩
  · rw [same,finish_unhooked (by exact heeds.unhooked),layer_enters]
    exact ⟨trivial,led⟩

/-- A task goes on by allowed steps, to a stage that heeds the rule. -/
theorem led_advance (obeys : tools.Heeds R) (heeds : g.Heeds R) (id : ModuleId) (left : stage.Heeds R) :
    (g.advance tools id stage).1.Heeds R ∧ Resolution.Led R g.layer (g.advance tools id stage).2.layer := by
  have still : Resolution.Led R g.layer g.layer := ⟨heeds.attempts,.refl⟩
  cases stage with
  | reading =>
    have read : Resolution.Led R g.layer { g.layer with env := (tools.store.read id.path g.layer.env).2 } :=
      ⟨heeds.attempts,.single (obeys.store id.path g.layer.env)⟩
    rcases read_cases tools g id with ⟨e,layer,-,equal,same⟩ | ⟨contents,layer,-,equal,same⟩
    · rw [advance,same]
      exact ⟨trivial,equal ▸ read⟩
    · have led : Resolution.Led R g.layer layer := equal ▸ read
      have heeds' : ({ g with layer } : Graph σ).Heeds R := ⟨heeds.unhooked,led.attempts,heeds.stages⟩
      obtain ⟨next,further⟩ := led_accept heeds' id contents
      rw [advance,same]
      exact ⟨next,led.trans further⟩
  | given contents => exact led_accept heeds id contents
  | transforming draft =>
    exact led_transform heeds id draft (Pipeline.heeds_run obeys.transformers _ _ _)
  | paused draft wake rest =>
    rw [advance]
    split
    · exact led_transform heeds id draft left
    · exact ⟨left,still⟩
  | resolving draft made callers => exact led_resolve obeys heeds id draft made left
  | announcing draft event requests wake rest =>
    rw [advance]
    split
    · exact led_announce heeds id draft event requests left
    · exact ⟨left,still⟩
  | awaiting own children =>
    rw [advance]
    split
    · rename_i outcomes all
      cases bad : firstError outcomes with
      | none =>
        rw [settle_eq g own bad]
        exact ⟨trivial,still⟩
      | some e =>
        rw [settle_eq_rollback g own bad]
        exact ⟨trivial,still⟩
    · exact ⟨trivial,still⟩
  | done r => exact ⟨trivial,still⟩

theorem Heeds.setStage (heeds : g.Heeds R) (here : g.At n id stage) (tasks : after.tasks = g.tasks)
    (hooks : after.hooks = g.hooks) (attempts : after.layer.Heeds R) (left : next.Heeds R) :
    (after.setStage n next).Heeds R := by
  refine ⟨by rw [hooks_setStage,hooks]; exact heeds.unhooked,by rwa [layer_setStage],fun {m i s} there => ?_⟩
  rcases (at_setStage_after here tasks).mp there with ⟨-,-,rfl⟩ | ⟨-,before⟩
  · exact left
  · exact heeds.stages before

/-- A step of a task is made of allowed steps of the plugins. -/
theorem Heeds.step (obeys : tools.Heeds R) (heeds : g.Heeds R) (n : Nat) :
    (g.step tools n).Heeds R ∧ ReflTransGen R g.layer.env (g.step tools n).layer.env := by
  by_cases bound : n < g.tasks.length
  · obtain ⟨id,stage,here⟩ := exists_at bound
    obtain ⟨left,led⟩ := led_advance obeys heeds id (heeds.stages here)
    have steps : ReflTransGen R g.layer.env (g.step tools n).layer.env := by
      rw [Graph.step,show g.tasks[n]? = some ⟨id,stage⟩ from here]
      simp only [layer_setStage]
      exact led.steps
    refine ⟨?_,steps⟩
    have turn := step_turn tools here
    generalize g.step tools n = after at turn
    cases turn with
    | @early _ next layer start goes drafted eq =>
      rw [eq] at left led
      exact heeds.setStage here (by rfl) (by rfl) led.attempts left
    | @failed _ e layer start eq =>
      rw [eq] at led
      exact heeds.setStage here (by rfl) (by rfl) led.attempts trivial
    | @kept _ v layer start found eq =>
      rw [eq] at led
      exact heeds.setStage here (by rfl) (by rfl) led.attempts trivial
    | @registered _ _ layer own _ _ _ same _ _ _ eq =>
      obtain ⟨children,entered⟩ := entered_spec here same layer
      rw [eq,layer_enters] at led
      refine ⟨entered.hooks ▸ heeds.unhooked,?_,fun {m i s} there => ?_⟩
      · rw [layer_entered]
        exact led.attempts
      · by_cases reading : s = .reading
        · exact reading ▸ trivial
        · rcases entered.at_cases reading there with ⟨-,-,rfl⟩ | ⟨-,before⟩
          · trivial
          · exact heeds.stages before
    | waiting => exact heeds
    | settled => exact heeds.setStage here (by rfl) (by rfl) heeds.attempts trivial
    | rolledBack => exact heeds.setStage here (by rfl) (by rfl) heeds.attempts trivial
    | ended => exact heeds.setStage here (by rfl) (by rfl) heeds.attempts trivial
  · rw [step_none tools (List.getElem?_eq_none (Nat.le_of_not_lt bound))]
    exact ⟨heeds,.refl⟩

/-- A read is asked for. -/
theorem Heeds.join (heeds : g.Heeds R) (id : ModuleId) : (g.join id).2.Heeds R := by
  have grown := (grown_join g (List.mem_singleton.mpr rfl : id ∈ [id])).1
  generalize (g.join id).2 = after at grown
  refine ⟨by rw [grown.same]; exact heeds.unhooked,by rw [grown.same]; exact heeds.attempts,fun {m i s} there => ?_⟩
  rcases grown.new there with before | ⟨-,rfl,-⟩
  · exact heeds.stages before
  · trivial

/-- The state of the plugins has been acted on from outside, or the clock has ticked. -/
theorem Heeds.congr (heeds : g.Heeds R) (hooks : after.hooks = g.hooks)
    (attempts : after.layer.attempts = g.layer.attempts) (tasks : after.tasks = g.tasks) : after.Heeds R := by
  refine ⟨hooks ▸ heeds.unhooked,fun n key t here => heeds.attempts n key t (attempts ▸ here),fun {m i s} there => ?_⟩
  exact heeds.stages ((at_congr tasks).mp there)

end Graph

end Bundling
