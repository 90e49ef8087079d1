import Bundling.Proofs.Orderly
import Bundling.Proofs.Rounds

/-!
# Where versions come from

Whatever is done with a graph, the versions that are registered in it or may be registered again are
those that were so before, and the one that a step registers (`Known.of_step`). If no hook has a say, the
requests of that one stand for modules that it imports, or for itself (`Known.linked_of_step`). So all modules are linked in a
graph that was built and worked on without hooks (`Hookless.linked`).
-/

namespace Bundling

/-- Every request of a module stands for something that it imports, or for the module itself. -/
def Module.Linked (m : Module) : Prop := ∀ r ∈ m.requests, r.2 = m.id ∨ r.2 ∈ m.imports

namespace Graph

variable {σ : Type}

theorem linked_moduleOf {id : ModuleId} {sources : String} {event : CompileEvent}
    {requests : List (String × ModuleId)} (imported : ∀ r ∈ requests, r.2 ∈ event.imports) :
    (moduleOf id sources event requests).Linked := by
  intro r member
  obtain ⟨q,inside,same⟩ := List.mem_map.mp (value_of_assignAll member)
  by_cases self : r.2 = id
  · exact .inl self
  · refine .inr (List.mem_filter.mpr ⟨mem_firstOccurrences.mpr (same ▸ imported q inside),?_⟩)
    simpa using self

/-! ## Versions that are known -/

/-- There are no hooks, and none are being told of anything. -/
structure Unhooked (g : Graph σ) : Prop where
  empty : g.hooks.registered = []
  quiet : ∀ {n id s}, g.At n id s → ¬ s.Announcing

section

variable {tools : Toolchain σ} {g after : Graph σ} {id : ModuleId} {stage next : Stage σ}

theorem linked_of_resolved {draft : Draft} {layer : Resolution.State σ} {body : Module}
    (resolved : Resolved tools g id draft stage layer body) : body.Linked := by
  cases resolved
  exact linked_moduleOf fun r member => (List.of_mem_zip member).2

theorem not_announcing_advance (none : g.hooks.registered = []) (start : stage.Early) (quiet : ¬ stage.Announcing)
    (eq : g.advance tools id stage = (next,after)) : ¬ next.Announcing := by
  have accepted : ∀ (g : Graph σ) contents, g.accept id contents = (next,after) → ¬ next.Announcing := by
    intro g contents went
    rcases accept_cases g id contents with ⟨_,-,-,same⟩ | ⟨_,_,-,same,-⟩
    all_goals
      obtain ⟨rfl,-⟩ := Prod.mk.inj (went.symm.trans same)
      exact fun announcing => announcing
  have carried : ∀ draft work, g.transform id draft work = (next,after) → ¬ next.Announcing := by
    intro draft work went
    rcases transform_cases g id draft work with ⟨_,_,_,-,-,same⟩ | ⟨_,_,-,-,same⟩ | ⟨_,_,-,-,same⟩
    all_goals
      obtain ⟨rfl,-⟩ := Prod.mk.inj (went.symm.trans same)
      exact fun announcing => announcing
  cases stage with
  | reading =>
    rcases read_cases tools g id with ⟨_,_,-,-,same⟩ | ⟨_,_,-,-,same⟩
    · obtain ⟨rfl,-⟩ := Prod.mk.inj (eq.symm.trans same)
      exact fun announcing => announcing
    · exact accepted _ _ (same.symm.trans eq)
  | given contents => exact accepted g contents eq
  | transforming draft => exact carried _ _ eq
  | paused draft wake rest =>
    by_cases due : wake ≤ g.layer.clock
    · exact carried _ _ ((if_pos due).symm.trans eq)
    · obtain ⟨rfl,-⟩ := Prod.mk.inj (eq.symm.trans (if_neg due))
      exact quiet
  | resolving draft made callers =>
    rcases resolve_cases tools g id draft made callers with ⟨-,same⟩ | ⟨_,-,⟨_,-,same⟩ | ⟨imports,-,same⟩⟩
    · obtain ⟨rfl,-⟩ := Prod.mk.inj (eq.symm.trans same)
      exact fun announcing => announcing
    · obtain ⟨rfl,-⟩ := Prod.mk.inj (eq.symm.trans same)
      exact fun announcing => announcing
    · obtain ⟨rfl,-⟩ := Prod.mk.inj (eq.symm.trans (same.trans (finish_unhooked (by exact none) id draft made imports)))
      exact fun announcing => announcing
  | announcing => exact absurd trivial quiet
  | awaiting => exact start.elim
  | done => exact start.elim

/-- Nothing but the stage of tasks that are told of nothing has changed. -/
theorem Unhooked.congr (unhooked : g.Unhooked) (hooks : after.hooks = g.hooks)
    (quiet : ∀ n i s, after.At n i s → g.At n i s ∨ ¬ s.Announcing) : after.Unhooked where
  empty := hooks ▸ unhooked.empty
  quiet there := (quiet _ _ _ there).elim unhooked.quiet fun quiet => quiet

theorem Unhooked.step (unhooked : g.Unhooked) (tools : Toolchain σ) (n : Nat) : (g.step tools n).Unhooked := by
  by_cases bound : n < g.tasks.length
  · obtain ⟨id,stage,here⟩ := exists_at bound
    have turn := step_turn tools here
    refine unhooked.congr (hooks_step tools g n) ?_
    generalize g.step tools n = after at turn
    -- The task goes on to a stage at which nobody is told of anything.
    have goes : ∀ (g' : Graph σ) {next : Stage σ}, g'.tasks = g.tasks → ¬ next.Announcing → ∀ m i s,
        (g'.setStage n next).At m i s → g.At m i s ∨ ¬ s.Announcing := by
      intro g' next tasks quiet m i s there
      rcases (at_setStage_after here tasks).mp there with ⟨-,-,rfl⟩ | ⟨-,before⟩
      · exact .inr quiet
      · exact .inl before
    have ended : ∀ r, ¬ (.done r : Stage σ).Announcing := fun _ announcing => announcing
    cases turn with
    | @early _ _ layer start _ _ eq =>
      exact goes { g with layer } rfl (not_announcing_advance unhooked.empty start (unhooked.quiet here) eq)
    | @failed _ e layer | @kept _ v layer => exact goes { g with layer } rfl (ended _)
    | @registered _ _ layer _ _ _ _ same =>
      obtain ⟨children,entered⟩ := entered_spec here same layer
      intro m i s there
      by_cases reading : s = .reading
      · exact .inr (reading ▸ fun announcing => announcing)
      · rcases entered.at_cases reading there with ⟨-,-,rfl⟩ | ⟨-,before⟩
        · exact .inr fun announcing => announcing
        · exact .inl before
    | waiting => exact fun _ _ _ => .inl
    | @settled own => exact goes { g with registry := g.tidied own } rfl (ended _)
    | @rolledBack own _ outcomes =>
      exact goes { g with registry := own.rollback (commits outcomes) g.registry } rfl (ended _)
    | ended => exact goes g rfl (ended _)
  · rw [step_none tools (List.getElem?_eq_none (Nat.le_of_not_lt bound))]
    exact unhooked

end

section

variable {tools : Toolchain σ} {g : Graph σ} {n : Nat} {v : Version}

/-- A version that is known after a step was known before, or its requests are answered by its imports, if there
are no hooks. -/
theorem Known.linked_of_step (known : (g.step tools n).Known 0 v) (unhooked : g.Unhooked) :
    g.Known 0 v ∨ v.body.Linked := by
  rcases known.of_step fun _ _ _ => Nat.zero_le _ with old | ⟨stage,draft,own,children,here,drafts,-,registered,rfl⟩
  · exact .inl old
  · refine .inr ?_
    have early := (Stage.replaces_iff.mpr ⟨draft,drafts,rfl⟩).early
    have waits := registered.here
    have turn := step_turn tools here
    generalize g.step tools n = after at turn waits
    cases turn with
    | @early _ next layer _ goes =>
      obtain ⟨-,rfl⟩ := (at_setStage_self (g := { g with layer }) here).unique waits
      exact goes.elim
    | @failed _ e layer => cases ((at_setStage_self (g := { g with layer }) here).unique waits).2
    | @kept _ v layer => cases ((at_setStage_self (g := { g with layer }) here).unique waits).2
    | @registered _ draft layer own' _ _ _ same _ _ resolved =>
      obtain ⟨children',entered⟩ := entered_spec here same layer
      obtain ⟨rfl,-⟩ := Stage.awaiting.inj (waits.unique (same ▸ entered.here)).2
      exact linked_of_resolved (resolved unhooked.empty (unhooked.quiet here))
    | waiting | settled | rolledBack | ended => exact early.elim

end

/-! ## Graphs without hooks -/

/-- A graph that was built, and worked on in any way but by registering hooks. The tools may have been
other ones each time. -/
inductive Hookless : Graph σ → Prop where
  | build {root : ProjectRoot} {entries : List Path} {env : σ} {g : Graph σ}
      (built : Graph.build root entries env = .ok g) : Hookless g
  | event {g : Graph σ} (before : Hookless g) (tools : Toolchain σ) (e : Event) : Hookless (e.apply tools g)
  | push {g : Graph σ} (before : Hookless g) (id : ModuleId) (contents : String) :
      Hookless (g.start id (.given contents)).2
  | setEntries {g g' : Graph σ} (before : Hookless g) {root : ProjectRoot} {entries : List Path}
      (set : g.setEntries root entries = .ok g') : Hookless g'
  | collect {g : Graph σ} (before : Hookless g) : Hookless g.collect.2
  | ask {g : Graph σ} (before : Hookless g) (tools : Toolchain σ) (request : String) (importer : Option ModuleId) :
      Hookless (g.ask tools request importer).2
  | act {g : Graph σ} (before : Hookless g) {α : Type} (m : StateM σ α) : Hookless (g.act m).2
  | dispose {g : Graph σ} (before : Hookless g) : Hookless g.dispose

section

variable {tools : Toolchain σ} {g : Graph σ}

theorem Hookless.rounds (before : g.Hookless) (tools : Toolchain σ) (limit : Nat) (cs : List Call) :
    (Graph.rounds tools limit g cs).2.Hookless :=
  rounds_of_events (fun e before => before.event tools e) (fun id contents before => before.push id contents) limit
    cs before

theorem at_start {m : Nat} {id i : ModuleId} {contents : String} {s : Stage σ}
    (there : (g.start id (.given contents)).2.At m i s) : g.At m i s ∨ s = .given contents := by
  have found : (g.tasks ++ [⟨id,.given contents⟩])[m]? = some ⟨i,s⟩ := there
  by_cases old : m < g.tasks.length
  · rw [List.getElem?_append_left old] at found
    exact .inl found
  · rw [List.getElem?_append_right (Nat.le_of_not_lt old)] at found
    exact .inr (congrArg Task.stage (List.mem_singleton.mp (List.mem_of_getElem? found)))

theorem build_eq {root : ProjectRoot} {entries : List Path} {env : σ} (built : Graph.build root entries env = .ok g) :
    ∃ ids, { layer := { env }, entries := ids } = g := by
  unfold Graph.build at built
  cases known : entryIds root entries with
  | error e => simp [known,Except.map] at built
  | ok ids => exact ⟨ids,by simpa [known,Except.map] using built⟩

theorem setEntries_eq {after : Graph σ} {root : ProjectRoot} {entries : List Path}
    (set : g.setEntries root entries = .ok after) : ∃ ids, { g with entries := ids } = after := by
  unfold Graph.setEntries at set
  cases known : entryIds root entries with
  | error e => simp [known,Except.map] at set
  | ok ids => exact ⟨ids,by simpa [known,Except.map] using set⟩

theorem Hookless.unhooked (hookless : g.Hookless) : g.Unhooked := by
  induction hookless with
  | @build root entries env g built =>
    obtain ⟨ids,rfl⟩ := build_eq built
    exact ⟨rfl,fun there => by simp [At] at there⟩
  | @event g _ tools e ih =>
    cases e with
    | tick => exact ih.congr rfl fun _ _ _ => .inl
    | join id =>
      have grown := (grown_join g (List.mem_singleton.mpr rfl : id ∈ [id])).1
      refine ih.congr (by rw [Event.apply,grown.same]) fun _ _ _ there => ?_
      rcases grown.new there with before | ⟨-,rfl,-⟩
      · exact .inl before
      · exact .inr fun announcing => announcing
    | step n => exact ih.step tools n
  | push _ id contents ih =>
    refine ih.congr rfl fun _ _ _ there => ?_
    rcases at_start there with before | rfl
    · exact .inl before
    · exact .inr fun announcing => announcing
  | setEntries _ set ih =>
    obtain ⟨ids,rfl⟩ := setEntries_eq set
    exact ih.congr rfl fun _ _ _ => .inl
  | collect _ ih | ask _ _ _ _ ih | act _ _ ih => exact ih.congr rfl fun _ _ _ => .inl
  | dispose _ ih => exact ⟨rfl,ih.quiet⟩

/-- All modules of such a graph are linked, also those that may be registered again. -/
theorem Hookless.linked (hookless : g.Hookless) {v : Version} (known : g.Known 0 v) : v.body.Linked := by
  induction hookless generalizing v with
  | @build root entries env g built =>
    obtain ⟨ids,rfl⟩ := build_eq built
    rcases known_iff.mp known with ⟨i,found⟩ | ⟨m,i,s,there,-⟩
    · cases found
    · simp [At] at there
  | @event g before tools e ih =>
    cases e with
    | tick => exact ih (known.of_tasks (fun found => found) .inl)
    | join id =>
      have grown := (grown_join g (List.mem_singleton.mpr rfl : id ∈ [id])).1
      have same : (g.join id).2.registry = g.registry := by rw [grown.same]
      refine ih (known.of_tasks (fun found => same ▸ found) fun there => ?_)
      rcases grown.new there with before | ⟨-,rfl,-⟩
      · exact .inl before
      · exact .inr fun bears => bears
    | step n => exact (known.linked_of_step before.unhooked).elim ih fun new => new
  | @push g _ id contents ih =>
    refine ih (known.of_tasks (fun found => found) fun there => ?_)
    rcases at_start there with before | rfl
    · exact .inl before
    · exact .inr fun bears => bears
  | setEntries _ set ih =>
    obtain ⟨ids,rfl⟩ := setEntries_eq set
    exact ih (known.of_tasks (fun found => found) .inl)
  | collect _ ih => exact ih (known.of_tasks (fun found => (Registry.get?_collect_iff.mp found).1) .inl)
  | ask _ _ _ _ ih | act _ _ ih => exact ih (known.of_tasks (fun found => found) .inl)
  | dispose _ ih =>
    refine ih (known.of_tasks (fun found => ?_) .inl)
    cases found

end

end Graph

end Bundling
