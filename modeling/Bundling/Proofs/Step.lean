import Bundling.Proofs.Entering

/-!
# What a step does

`Graph.Turn` says all that a step can make of a graph, one case for each way through the stages. Whoever
wants to know what a step keeps goes by these cases and opens no stage.
-/

namespace Bundling

namespace Graph

variable {σ : Type}

/-- The registry once a push has ended well. -/
def tidied (g : Graph σ) (own : Commit) : Registry :=
  match own.previous with
  | some old =>
    if old.body.importsChanged own.version.body then g.registry.collect g.entries else g.registry
  | none => g.registry

theorem get?_of_tidied {g : Graph σ} {own : Commit} {id : ModuleId} {v : Version}
    (found : (g.tidied own).get? id = some v) : g.registry.get? id = some v := by
  unfold tidied at found
  split at found
  · split at found
    · exact (Registry.get?_collect_iff.mp found).1
    · exact found
  · exact found

theorem get?_tidied_eq_none {g : Graph σ} {own : Commit} {id : ModuleId} (absent : g.registry.get? id = none) :
    (g.tidied own).get? id = none := by
  rw [Option.eq_none_iff_forall_ne_some] at absent ⊢
  exact fun v found => absent v (get?_of_tidied found)

/-- Tidying takes away no import of what it leaves. -/
theorem get?_import_of_tidied {g : Graph σ} {own : Commit} {id i : ModuleId} {v : Version}
    (found : (g.tidied own).get? id = some v) (member : i ∈ v.body.imports)
    (absent : (g.tidied own).get? i = none) : g.registry.get? i = none := by
  unfold tidied at found absent
  split at found
  · split at found
    · exact Registry.get?_import_of_collect found member (by simp_all)
    · simp_all
  · simp_all

/-- Tidying keeps what can be reached from the entries. -/
theorem get?_tidied_of_reaches {g : Graph σ} {own : Commit} {id : ModuleId} {v : Version}
    (found : g.registry.get? id = some v) (reached : g.registry.Reaches g.entries id) :
    (g.tidied own).get? id = some v := by
  unfold tidied
  split
  · split
    · exact Registry.get?_collect_iff.mpr ⟨found,reached⟩
    · exact found
  · exact found

/-- What is being made after a step was being made before, or it takes the place of what is registered,
with another text. -/
def Drafted (g : Graph σ) (id : ModuleId) (stage next : Stage σ) : Prop :=
  ∀ draft, next.draft? = some draft → stage.draft? = some draft ∨
    (draft.previous = g.registry.get? id ∧ ∀ v, g.registry.get? id = some v → v.body.sources ≠ draft.sources)

theorem Drafted.replaces {g : Graph σ} {id : ModuleId} {stage next : Stage σ} (drafted : Drafted g id stage next)
    (previous : Option Version) (replaces : next.Replaces previous) :
    stage.Replaces previous ∨ previous = g.registry.get? id := by
  obtain ⟨draft,here,rfl⟩ := Stage.replaces_iff.mp replaces
  rcases drafted draft here with before | ⟨registered,-⟩
  · exact .inl (Stage.replaces_iff.mpr ⟨draft,before,rfl⟩)
  · exact .inr registered

/-- All imports of a module have been resolved, and the module is what its text has been made into. -/
inductive Resolved (tools : Toolchain σ) (g : Graph σ) (id : ModuleId) (draft : Draft) :
    Stage σ → Resolution.State σ → Module → Prop where
  | intro {made : Transformed} {callers : List (Resolution.Thread σ)} {polled : Resolution.State σ × List (Resolution.Thread σ)}
      {results : List Bundling.Resolved} {imports : List ModuleId}
      (poll : Resolution.pollAll tools.resolvers tools.fuel g.layer callers = polled)
      (answered : polled.2.mapM Resolution.Thread.result? = some results)
      (good : results.mapM (fun r => r) = .ok imports) :
      Resolved tools g id draft (.resolving draft made callers) polled.1
        (moduleOf id draft.sources
          { draft.event with contents := made.contents, sourceMap := made.sourceMap, imports }
          (made.imports.zip imports))

/-- What a step of a task of a module makes of a graph. -/
inductive Turn (tools : Toolchain σ) (g : Graph σ) (n : Nat) (id : ModuleId) : Stage σ → Graph σ → Prop where
  | early {stage next : Stage σ} {layer : Resolution.State σ} (start : stage.Early) (goes : next.Early)
      (drafted : Drafted g id stage next)
      (eq : g.advance tools id stage = (next,{ g with layer })) :
      Turn tools g n id stage ({ g with layer }.setStage n next)
  /-- It fails before the module is registered. -/
  | failed {stage : Stage σ} {e : CompileError} {layer : Resolution.State σ} (start : stage.Early)
      (eq : g.advance tools id stage = (.done (.error e),{ g with layer })) :
      Turn tools g n id stage ({ g with layer }.setStage n (.done (.error e)))
  /-- The text is the one that is registered. -/
  | kept {stage : Stage σ} {v : Version} {layer : Resolution.State σ} (start : stage.Early)
      (found : g.registry.get? id = some v)
      (eq : g.advance tools id stage = (.done (.ok []),{ g with layer })) :
      Turn tools g n id stage ({ g with layer }.setStage n (.done (.ok [])))
  | registered {stage : Stage σ} {draft : Draft} {layer : Resolution.State σ} {own : Commit} (start : stage.Early)
      (drafts : stage.draft? = some draft) (stamp : own.version.stamp = g.stamps) (same : own.version.id = id)
      (previous : own.previous = draft.previous) (sources : own.version.body.sources = draft.sources)
      (unhooked : g.hooks.registered = [] → ¬ stage.Announcing → Resolved tools g id draft stage layer own.version.body)
      (eq : g.advance tools id stage = g.enters layer own) :
      Turn tools g n id stage (g.entered layer n own)
  | waiting {own : Commit} {children : List Nat} (going : children.mapM g.outcome? = none) :
      Turn tools g n id (.awaiting own children) g
  | settled {own : Commit} {children : List Nat} {outcomes : List Compiled}
      (all : children.mapM g.outcome? = some outcomes) (good : firstError outcomes = none) :
      Turn tools g n id (.awaiting own children)
        ({ g with registry := g.tidied own }.setStage n (.done (.ok (own :: commits outcomes))))
  | rolledBack {own : Commit} {children : List Nat} {outcomes : List Compiled} {e : CompileError}
      (all : children.mapM g.outcome? = some outcomes) (bad : firstError outcomes = some e) :
      Turn tools g n id (.awaiting own children)
        ({ g with registry := own.rollback (commits outcomes) g.registry }.setStage n (.done (.error e)))
  | ended {r : Compiled} : Turn tools g n id (.done r) (g.setStage n (.done r))

theorem step_eq {tools : Toolchain σ} {g : Graph σ} {n : Nat} {id : ModuleId} {stage : Stage σ} (here : g.At n id stage) :
    g.step tools n = (g.advance tools id stage).2.setStage n (g.advance tools id stage).1 := by
  rw [step,show g.tasks[n]? = some ⟨id,stage⟩ from here]

theorem tasks_setStage_same {g : Graph σ} {n : Nat} {id : ModuleId} {stage : Stage σ}
    (here : g.At n id stage) : (g.setStage n stage).tasks = g.tasks := by
  rw [tasks_setStage]
  apply List.ext_getElem?
  intro m
  by_cases same : n = m
  · subst same
    rw [List.getElem?_modify_eq,show g.tasks[n]? = some ⟨id,stage⟩ from here]
    rfl
  · rw [List.getElem?_modify_ne _ _ same]

theorem setStage_same {g : Graph σ} {n : Nat} {id : ModuleId} {stage : Stage σ} (here : g.At n id stage)
    (going : ¬ stage.Finished) : g.setStage n stage = g := by
  have tasks := tasks_setStage_same here
  rw [tasks_setStage] at tasks
  cases stage with
  | done r => exact absurd trivial going
  | _ => simp only [setStage,tasks]

theorem runBefore_nil {h : Hooks σ} (none : h.registered = []) (e : CompileEvent) (s : σ) :
    h.runBefore e s = (e,s) := by
  obtain ⟨next,registered⟩ := h
  subst none
  rfl

/-- Where there are no hooks, an event and the state of the plugins are left as they are. -/
theorem eq_of_runBefore {g : Graph σ} (none : g.hooks.registered = []) {asked event : CompileEvent} {layer : Resolution.State σ}
    (ran : g.hooks.runBefore asked g.layer.env = (event,layer.env)) (still : layer = { g.layer with env := layer.env }) :
    event = asked ∧ layer = g.layer := by
  rw [runBefore_nil none] at ran
  obtain ⟨rfl,env⟩ := Prod.mk.inj ran
  rw [← env] at still
  exact ⟨rfl,still⟩

theorem runAfter_nil {h : Hooks σ} (none : h.registered = []) (e : CompileEvent) (s : σ) :
    h.runAfter e s = (e,s) := by
  obtain ⟨next,registered⟩ := h
  subst none
  rfl

theorem runCompiled_nil {h : Hooks σ} (none : h.registered = []) (e : CompileEvent) : h.runCompiled e = .done () := by
  obtain ⟨next,registered⟩ := h
  subst none
  rfl

theorem accept_cases (g : Graph σ) (id : ModuleId) (contents : String) :
    (∃ v, g.registry.get? id = some v ∧ v.body.sources = contents ∧ g.accept id contents = (.done (.ok []),g)) ∨
      ∃ event layer, (∀ v, g.registry.get? id = some v → v.body.sources ≠ contents) ∧
        g.accept id contents = (.transforming ⟨contents,event,g.registry.get? id⟩,{ g with layer }) ∧
        g.hooks.runBefore { id, contents, old := (g.registry.get? id).map Version.body } g.layer.env = (event,layer.env) ∧
        layer = { g.layer with env := layer.env } := by
  let asked : CompileEvent := { id, contents, old := (g.registry.get? id).map Version.body }
  have skipped : ∀ p : Bool, p = ((g.registry.get? id).any fun v => v.body.sources = contents) →
      g.accept id contents = if p then (.done (.ok []),g) else
        (.transforming ⟨contents,(g.hooks.runBefore asked g.layer.env).1,g.registry.get? id⟩,
          { g with layer := { g.layer with env := (g.hooks.runBefore asked g.layer.env).2 } }) := by
    rintro p rfl
    rfl
  by_cases same : ∃ v, g.registry.get? id = some v ∧ v.body.sources = contents
  · obtain ⟨v,found,equal⟩ := same
    exact .inl ⟨v,found,equal,by rw [skipped true (by simp [found,equal])]; rfl⟩
  · have new : ∀ v, g.registry.get? id = some v → v.body.sources ≠ contents :=
      fun v found equal => same ⟨v,found,equal⟩
    have differs : false = (g.registry.get? id).any fun v => v.body.sources = contents := by
      cases found : g.registry.get? id with
      | none => rfl
      | some v => simp [new v found]
    exact .inr ⟨_,_,new,by rw [skipped false differs]; rfl,rfl,rfl⟩

theorem read_cases (tools : Toolchain σ) (g : Graph σ) (id : ModuleId) :
    (∃ e layer, (tools.store.read id.path g.layer.env).1 = .error e ∧
        layer = { g.layer with env := (tools.store.read id.path g.layer.env).2 } ∧
        g.read tools id = (.done (.error (.read id.path e.message)),{ g with layer })) ∨
      ∃ contents layer, (tools.store.read id.path g.layer.env).1 = .ok contents ∧
        layer = { g.layer with env := (tools.store.read id.path g.layer.env).2 } ∧
        g.read tools id = ({ g with layer }).accept id contents := by
  cases answer : tools.store.read id.path g.layer.env with
  | mk r env =>
    cases r with
    | error e => exact .inl ⟨e,{ g.layer with env },rfl,rfl,by simp only [read,act,answer]⟩
    | ok contents =>
      exact .inr ⟨contents,{ g.layer with env },rfl,rfl,by simp only [read,act,answer]⟩

theorem transform_cases (g : Graph σ) (id : ModuleId) (draft : Draft)
    (work : Work σ (Except TransformFault Transformed)) :
    (∃ rounds rest layer, work.go g.layer.env = (.paused rounds rest,layer.env) ∧
        layer = { g.layer with env := layer.env } ∧
        g.transform id draft work = (.paused draft (g.layer.clock + rounds) rest,{ g with layer })) ∨
      (∃ fault layer, work.go g.layer.env = (.done (.error fault),layer.env) ∧
        layer = { g.layer with env := layer.env } ∧
        g.transform id draft work = (.done (.error (.ofFault id.path fault)),{ g with layer })) ∨
      ∃ made layer, work.go g.layer.env = (.done (.ok made),layer.env) ∧
        layer = { g.layer with env := layer.env } ∧
        g.transform id draft work =
          (.resolving draft made (made.imports.map fun r => .resolving r (some id)),{ g with layer }) := by
  cases halt : work.go g.layer.env with
  | mk h env =>
    cases h with
    | paused rounds rest =>
      exact .inl ⟨rounds,rest,{ g.layer with env },rfl,rfl,by simp only [transform,act,halt]⟩
    | done r =>
      cases r with
      | error fault => exact .inr (.inl ⟨fault,{ g.layer with env },rfl,rfl,by simp only [transform,act,halt]⟩)
      | ok made => exact .inr (.inr ⟨made,{ g.layer with env },rfl,rfl,by simp only [transform,act,halt]⟩)

theorem resolve_cases (tools : Toolchain σ) (g : Graph σ) (id : ModuleId) (draft : Draft)
    (made : Transformed) (callers : List (Resolution.Thread σ)) :
    let polled := Resolution.pollAll tools.resolvers tools.fuel g.layer callers
    (polled.2.mapM Resolution.Thread.result? = none ∧
        g.resolve tools id draft made callers =
          (.resolving draft made polled.2,{ g with layer := polled.1 })) ∨
      ∃ results, polled.2.mapM Resolution.Thread.result? = some results ∧
        ((∃ e, results.mapM (fun r => r) = .error e ∧
            g.resolve tools id draft made callers =
              (.done (.error (.resolve e)),{ g with layer := polled.1 })) ∨
          ∃ imports, results.mapM (fun r => r) = .ok imports ∧
            g.resolve tools id draft made callers =
              ({ g with layer := polled.1 }).finish id draft made imports) := by
  intro polled
  cases results : polled.2.mapM Resolution.Thread.result? with
  | none => exact .inl ⟨rfl,by simp only [resolve,show Resolution.pollAll _ _ _ _ = polled from rfl,results]⟩
  | some rs =>
    refine .inr ⟨rs,rfl,?_⟩
    cases all : rs.mapM (fun r => r) with
    | error e => exact .inl ⟨e,rfl,by simp only [resolve,show Resolution.pollAll _ _ _ _ = polled from rfl,results,all]⟩
    | ok imports =>
      exact .inr ⟨imports,rfl,by simp only [resolve,show Resolution.pollAll _ _ _ _ = polled from rfl,results,all]⟩

/-- The commit of a module as an event has come to be. -/
def commitOf (g : Graph σ) (id : ModuleId) (draft : Draft) (event : CompileEvent)
    (requests : List (String × ModuleId)) : Commit where
  version := { stamp := g.stamps, body := moduleOf id draft.sources event requests }
  previous := draft.previous

theorem announce_cases (g : Graph σ) (id : ModuleId) (draft : Draft) (event : CompileEvent)
    (requests : List (String × ModuleId)) (work : Work σ Unit) :
    (∃ rounds rest layer, work.go g.layer.env = (.paused rounds rest,layer.env) ∧
        layer = { g.layer with env := layer.env } ∧
        g.announce id draft event requests work =
          (.announcing draft event requests (g.layer.clock + rounds) rest,{ g with layer })) ∨
      ∃ layer, work.go g.layer.env = (.done (),layer.env) ∧ layer = { g.layer with env := layer.env } ∧
        g.announce id draft event requests work = g.enters layer (g.commitOf id draft event requests) := by
  cases halt : work.go g.layer.env with
  | mk h env =>
    cases h with
    | paused rounds rest => exact .inl ⟨rounds,rest,{ g.layer with env },rfl,rfl,by simp only [announce,act,halt]⟩
    | done => exact .inr ⟨{ g.layer with env },rfl,rfl,by simp only [announce,act,halt]; rfl⟩

theorem finish_cases (g : Graph σ) (id : ModuleId) (draft : Draft) (made : Transformed) (imports : List ModuleId) :
    ∃ event layer, g.hooks.runAfter
        { draft.event with contents := made.contents, sourceMap := made.sourceMap, imports } g.layer.env = (event,layer.env) ∧
      layer = { g.layer with env := layer.env } ∧
      g.finish id draft made imports =
        ({ g with layer }).announce id draft event (made.imports.zip imports) (g.hooks.runCompiled event) :=
  ⟨_,{ g.layer with env := _ },rfl,rfl,rfl⟩

/-- Where there are no hooks the module is registered as soon as its imports are resolved. -/
theorem finish_unhooked {g : Graph σ} (none : g.hooks.registered = []) (id : ModuleId) (draft : Draft) (made : Transformed)
    (imports : List ModuleId) :
    g.finish id draft made imports = g.enters g.layer (g.commitOf id draft
      { draft.event with contents := made.contents, sourceMap := made.sourceMap, imports } (made.imports.zip imports)) := by
  obtain ⟨event,layer,ran,still,finished⟩ := finish_cases g id draft made imports
  rw [runAfter_nil none] at ran
  obtain ⟨rfl,env⟩ := Prod.mk.inj ran
  rw [← env] at still
  rw [finished,still,runCompiled_nil none]
  rfl

theorem settle_eq_rollback (g : Graph σ) (own : Commit) {outcomes : List Compiled} {e : CompileError}
    (bad : firstError outcomes = some e) :
    g.settle own outcomes =
      (.done (.error e),{ g with registry := own.rollback (commits outcomes) g.registry }) := by
  simp only [settle,bad]

theorem settle_eq (g : Graph σ) (own : Commit) {outcomes : List Compiled}
    (good : firstError outcomes = none) :
    g.settle own outcomes =
      (.done (.ok (own :: commits outcomes)),{ g with registry := g.tidied own }) := by
  unfold settle tidied
  rw [good]
  cases own.previous with
  | none => rfl
  | some old => cases changed : old.body.importsChanged own.version.body <;> simp [changed,collect]

section

variable {tools : Toolchain σ} {g : Graph σ} {n : Nat} {id : ModuleId} {stage : Stage σ}

/-- A step that takes up a text, whichever way it came. -/
theorem turn_of_accept (here : g.At n id stage) (start : stage.Early) {layer : Resolution.State σ} {contents : String}
    (taken : g.advance tools id stage = ({ g with layer }).accept id contents) : Turn tools g n id stage (g.step tools n) := by
  rw [step_eq here]
  rcases accept_cases { g with layer } id contents with ⟨v,found,-,same⟩ | ⟨event,after,new,goes,-⟩
  · rw [taken,same]
    exact .kept start found (taken.trans same)
  · rw [taken,goes]
    refine .early start trivial ?_ (taken.trans goes)
    intro draft same
    cases same
    exact .inr ⟨rfl,new⟩

/-- A step that carries the transformers on. -/
theorem turn_of_transform (here : g.At n id stage) (start : stage.Early) {draft : Draft} (known : stage.draft? = some draft)
    {work : Work σ (Except TransformFault Transformed)} (carried : g.advance tools id stage = g.transform id draft work) :
    Turn tools g n id stage (g.step tools n) := by
  rw [step_eq here]
  rcases transform_cases g id draft work with ⟨_,_,_,-,-,same⟩ | ⟨_,_,-,-,same⟩ | ⟨_,_,-,-,same⟩
  · rw [carried,same]
    exact .early start trivial (fun _ same => .inl (known.trans same)) (carried.trans same)
  · rw [carried,same]
    exact .failed start (carried.trans same)
  · rw [carried,same]
    exact .early start trivial (fun _ same => .inl (known.trans same)) (carried.trans same)

/-- A step that carries on what hooks have to do. -/
theorem turn_of_announce (here : g.At n id stage) (start : stage.Early) {draft : Draft} (known : stage.draft? = some draft)
    {layer : Resolution.State σ} {event : CompileEvent} {requests : List (String × ModuleId)} {work : Work σ Unit}
    (told : g.advance tools id stage = ({ g with layer }).announce id draft event requests work)
    (unhooked : g.hooks.registered = [] → ¬ stage.Announcing → work = .done () ∧
      Resolved tools g id draft stage layer (moduleOf id draft.sources event requests)) :
    Turn tools g n id stage (g.step tools n) := by
  rw [step_eq here]
  rcases announce_cases { g with layer } id draft event requests work with ⟨_,_,_,-,-,same⟩ | ⟨layer',went,still,same⟩
  · rw [told,same]
    exact .early start trivial (fun _ same => .inl (known.trans same)) (told.trans same)
  · rw [told,same]
    refine .registered start known rfl rfl rfl rfl (fun none quiet => ?_) (told.trans same)
    obtain ⟨rfl,resolved⟩ := unhooked none quiet
    rw [still,← (Prod.mk.inj went).2]
    exact resolved

/-- Every step is one of the cases. -/
theorem step_turn (tools : Toolchain σ) (here : g.At n id stage) : Turn tools g n id stage (g.step tools n) := by
  have eq : g.step tools n = (g.advance tools id stage).2.setStage n (g.advance tools id stage).1 := step_eq here
  cases stage with
  | reading =>
    rcases read_cases tools g id with ⟨e,layer,-,-,same⟩ | ⟨contents,layer,-,-,same⟩
    · rw [eq,show g.advance tools id .reading = g.read tools id from rfl,same]
      exact .failed trivial same
    · exact turn_of_accept here trivial same
  | given contents => exact @turn_of_accept _ _ _ _ _ _ here trivial g.layer contents rfl
  | transforming draft => exact turn_of_transform here trivial rfl rfl
  | paused draft wake rest =>
    by_cases due : wake ≤ g.layer.clock
    · exact turn_of_transform here trivial rfl (if_pos due)
    · have same : g.advance tools id (.paused draft wake rest) = (.paused draft wake rest,g) := if_neg due
      rw [eq,same]
      exact .early trivial trivial (fun _ same => .inl same) same
  | resolving draft made callers =>
    rcases resolve_cases tools g id draft made callers with ⟨-,same⟩ | ⟨results,answered,fine⟩
    · rw [eq,show g.advance tools id (.resolving draft made callers) = _ from same]
      exact .early trivial trivial (fun _ same => .inl same) same
    · rcases fine with ⟨e,-,same⟩ | ⟨imports,good,same⟩
      · rw [eq,show g.advance tools id (.resolving draft made callers) = _ from same]
        exact .failed trivial same
      · obtain ⟨event,layer,ran,still,finished⟩ := finish_cases
          { g with layer := (Resolution.pollAll tools.resolvers tools.fuel g.layer callers).1 } id draft made imports
        refine turn_of_announce here trivial rfl (same.trans finished) fun none _ => ?_
        rw [runAfter_nil none] at ran
        obtain ⟨rfl,env⟩ := Prod.mk.inj ran
        rw [still,← env]
        exact ⟨runCompiled_nil none _,.intro rfl answered good⟩
  | announcing draft event requests wake rest =>
    by_cases due : wake ≤ g.layer.clock
    · exact turn_of_announce here trivial rfl (if_pos due) fun _ quiet => absurd trivial quiet
    · have same : g.advance tools id (.announcing draft event requests wake rest) =
          (.announcing draft event requests wake rest,g) := if_neg due
      rw [eq,same]
      exact .early trivial trivial (fun _ same => .inl same) same
  | awaiting own children =>
    cases all : children.mapM g.outcome? with
    | none =>
      have same : g.advance tools id (.awaiting own children) = (.awaiting own children,g) := by
        simp only [advance,all]
      rw [eq,same,setStage_same here (fun finished => finished)]
      exact .waiting all
    | some outcomes =>
      have same : g.advance tools id (.awaiting own children) = g.settle own outcomes := by
        simp only [advance,all]
      cases bad : firstError outcomes with
      | none =>
        rw [eq,same,settle_eq g own bad]
        exact .settled all bad
      | some e =>
        rw [eq,same,settle_eq_rollback g own bad]
        exact .rolledBack all bad
  | done r =>
    rw [eq]
    exact .ended

end

/-- A task that has a draft keeps it until its module is registered or it fails. -/
theorem draft_advance {tools : Toolchain σ} {g after : Graph σ} {id : ModuleId} {stage next : Stage σ} {draft : Draft}
    (known : stage.draft? = some draft) (eq : g.advance tools id stage = (next,after)) :
    (next.Early → next.draft? = some draft) ∧ next ≠ .done (.ok []) := by
  have carried : ∀ work : Work σ (Except TransformFault Transformed), g.transform id draft work = (next,after) →
      (next.Early → next.draft? = some draft) ∧ next ≠ .done (.ok []) := by
    intro work went
    rcases transform_cases g id draft work with ⟨_,_,_,-,-,same⟩ | ⟨_,_,-,-,same⟩ | ⟨_,_,-,-,same⟩
    all_goals obtain ⟨rfl,-⟩ := Prod.mk.inj (went.symm.trans same)
    · exact ⟨fun _ => rfl,nofun⟩
    · exact ⟨False.elim,nofun⟩
    · exact ⟨fun _ => rfl,nofun⟩
  have announced : ∀ (g : Graph σ) event requests work, g.announce id draft event requests work = (next,after) →
      (next.Early → next.draft? = some draft) ∧ next ≠ .done (.ok []) := by
    intro g event requests work went
    rcases announce_cases g id draft event requests work with ⟨_,_,_,-,-,same⟩ | ⟨_,-,-,same⟩
    all_goals obtain ⟨rfl,-⟩ := Prod.mk.inj (went.symm.trans same)
    · exact ⟨fun _ => rfl,nofun⟩
    · exact ⟨False.elim,nofun⟩
  cases stage with
  | transforming =>
    cases known
    exact carried _ eq
  | paused _ wake rest =>
    cases known
    by_cases due : wake ≤ g.layer.clock
    · exact carried rest ((if_pos due).symm.trans eq)
    · obtain ⟨rfl,-⟩ := Prod.mk.inj (eq.symm.trans (if_neg due))
      exact ⟨fun _ => rfl,nofun⟩
  | resolving _ made callers =>
    cases known
    rcases resolve_cases tools g id draft made callers with ⟨-,same⟩ | ⟨results,-,⟨e,-,same⟩ | ⟨imports,-,same⟩⟩
    · obtain ⟨rfl,-⟩ := Prod.mk.inj (eq.symm.trans same)
      exact ⟨fun _ => rfl,nofun⟩
    · obtain ⟨rfl,-⟩ := Prod.mk.inj (eq.symm.trans same)
      exact ⟨False.elim,nofun⟩
    · obtain ⟨event,layer,-,-,finished⟩ := finish_cases
        { g with layer := (Resolution.pollAll tools.resolvers tools.fuel g.layer callers).1 } id draft made imports
      exact announced _ _ _ _ (finished.symm.trans (same.symm.trans eq))
  | announcing _ event requests wake rest =>
    cases known
    by_cases due : wake ≤ g.layer.clock
    · exact announced g event requests rest ((if_pos due).symm.trans eq)
    · obtain ⟨rfl,-⟩ := Prod.mk.inj (eq.symm.trans (if_neg due))
      exact ⟨fun _ => rfl,nofun⟩
  | _ => cases known

theorem Turn.exists_at {tools : Toolchain σ} {g g' : Graph σ} {n : Nat} {id : ModuleId} {stage : Stage σ}
    (turn : Turn tools g n id stage g') (here : g.At n id stage) : ∃ next, g'.At n id next := by
  cases turn with
  | waiting => exact ⟨_,here⟩
  | registered =>
    exact ⟨_,at_setStage_self ((grown_joinAll _ fun _ member => member).1.old here)⟩
  | early | failed | kept | settled | rolledBack | ended => exact ⟨_,at_setStage_self here⟩

/-- What carrying on makes of a task before it is registered. -/
theorem carry_early (tools : Toolchain σ) (fuel : Nat) {g : Graph σ} {n : Nat} {id : ModuleId}
    {stage next : Stage σ} (here : g.At n id stage) (early : stage.Early)
    (after : (g.step tools n).At n id next) :
    carry tools (fuel + 1) g n =
      if stage.stops next then g.step tools n else carry tools fuel (g.step tools n) n := by
  rw [carry,here.stage?]
  cases stage with
  | awaiting own children => exact early.elim
  | done r => exact early.elim
  | _ => simp only [after.stage?]; cases next <;> rfl

theorem step_none (tools : Toolchain σ) {g : Graph σ} {n : Nat} (absent : g.tasks[n]? = none) :
    g.step tools n = g := by
  rw [step,absent]

/-- The other tasks stay where they are, but for new ones. -/
theorem at_step_of_ne (tools : Toolchain σ) {g : Graph σ} {n m : Nat} (other : m ≠ n) (old : m < g.tasks.length)
    {i : ModuleId} {s : Stage σ} : (g.step tools n).At m i s ↔ g.At m i s := by
  by_cases bound : n < g.tasks.length
  · obtain ⟨id,stage,here⟩ := exists_at bound
    have turn := step_turn tools here
    generalize g.step tools n = after at turn
    cases turn with
    | @registered _ _ layer _ _ _ _ same =>
      obtain ⟨children,entered⟩ := entered_spec here same layer
      refine ⟨fun there => ?_,entered.old other⟩
      rcases entered.new other there with before | ⟨late,-⟩
      · exact before
      · exact absurd old (Nat.not_lt.mpr late)
    | waiting => exact Iff.rfl
    | _ => exact at_setStage_of_ne other
  · rw [step_none tools (List.getElem?_eq_none (Nat.le_of_not_lt bound))]

/-- A task that has come to its end does nothing any more. -/
theorem step_done (tools : Toolchain σ) {g : Graph σ} {n : Nat} {id : ModuleId} {r : Compiled}
    (there : g.At n id (.done r)) : g.step tools n = g.setStage n (.done r) := by
  rw [step,show g.tasks[n]? = some ⟨id,.done r⟩ from there]
  rfl

/-- What has come to its end stays so. -/
theorem at_done_step (tools : Toolchain σ) {g : Graph σ} (n : Nat) {m : Nat} {i : ModuleId} {r : Compiled}
    (there : g.At m i (.done r)) : (g.step tools n).At m i (.done r) := by
  by_cases same : m = n
  · subst same
    rw [step_done tools there]
    exact at_setStage_self there
  · exact (at_step_of_ne tools same there.lt).mpr there

theorem entries_step (tools : Toolchain σ) (g : Graph σ) (n : Nat) : (g.step tools n).entries = g.entries := by
  by_cases bound : n < g.tasks.length
  · obtain ⟨id,stage,here⟩ := exists_at bound
    have turn := step_turn tools here
    generalize g.step tools n = after at turn
    cases turn with
    | @registered _ _ layer _ _ _ _ same =>
      obtain ⟨children,entered⟩ := entered_spec here same layer
      exact entered.entries
    | waiting => rfl
    | _ => exact entries_setStage
  · rw [step_none tools (List.getElem?_eq_none (Nat.le_of_not_lt bound))]

theorem hooks_step (tools : Toolchain σ) (g : Graph σ) (n : Nat) : (g.step tools n).hooks = g.hooks := by
  by_cases bound : n < g.tasks.length
  · obtain ⟨id,stage,here⟩ := exists_at bound
    have turn := step_turn tools here
    generalize g.step tools n = after at turn
    cases turn with
    | @registered _ _ layer _ _ _ _ same =>
      obtain ⟨children,entered⟩ := entered_spec here same layer
      exact entered.hooks
    | waiting => rfl
    | _ => exact hooks_setStage
  · rw [step_none tools (List.getElem?_eq_none (Nat.le_of_not_lt bound))]

end Graph

end Bundling