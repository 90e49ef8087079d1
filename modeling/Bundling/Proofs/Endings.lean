import Bundling.Proofs.Poised
import Bundling.Proofs.Rollback

/-!
# The end of a read

A module has been registered, and the reads that its task waits for have come to their ends (`Ending`). Whether
its own read then ends well or is taken back, what has been made of the registry is `Walked`, and so is what
carrying on tasks to their ends makes of it (`walked_through`).
-/

namespace Bundling.Graph

variable {σ : Type} {g : Graph σ} {n : Nat} {id : ModuleId} {stage : Stage σ}

/-- A module was registered and the reads that its task waits for have come to their ends. -/
structure Ending (g middle : Graph σ) (n : Nat) (own : Commit) (children : List Nat) (q : Passage σ) :
    Prop where
  entered : Entered g middle n own children
  poised : middle.Poised none
  stamp : own.version.stamp = g.stamps
  previous : own.previous = g.registry.get? own.version.id
  stamped : ∀ {i v}, g.registry.get? i = some v → v.stamp < g.stamps
  below : Walked middle children q

section

variable {middle : Graph σ} {own : Commit} {children : List Nat} {q : Passage σ}

theorem Ending.here (ending : Ending g middle n own children q) :
    q.graph.At n own.version.id (.awaiting own children) :=
  ending.below.rest ending.entered.here fun early => early

theorem Ending.formed (ending : Ending g middle n own children q) : own.WellFormed := by
  intro v found
  exact Registry.get?_id (ending.previous ▸ found)

theorem Ending.current (ending : Ending g middle n own children q) :
    q.graph.registry.get? own.version.id = some own.version := ending.below.keeps ending.entered.get?_self

theorem Ending.keeps (ending : Ending g middle n own children q) {i : ModuleId} {v : Version}
    (other : i ≠ own.version.id) (found : g.registry.get? i = some v) :
    q.graph.registry.get? i = some v := ending.below.keeps ((ending.entered.get?_of_ne other).trans found)

/-- The commits that a task gets to know are of new modules, registered after its own. -/
theorem Ending.fresh (ending : Ending g middle n own children q) {outcomes : List Compiled}
    (all : children.mapM q.graph.outcome? = some outcomes) {c : Commit} (member : c ∈ commits outcomes) :
    g.stamps < c.version.stamp ∧ c.previous = none := by
  obtain ⟨cs,ok,inside⟩ := mem_commits_iff.mp member
  obtain ⟨m,child,found⟩ := (mem_outcomes_iff all).mp ok
  rcases ending.below.fresh found with before | new
  · obtain ⟨i,s,there,early⟩ := ending.entered.child_early ending.poised child
    rw [there.outcome?_eq_none early.unfinished] at before
    cases before
  · have := new c inside
    rw [ending.entered.stamps] at this
    exact ⟨by omega,this.2⟩

/-- What had not come to its end when the reads had had not when the module was registered. -/
theorem Ending.unfinished (ending : Ending g middle n own children q) {m : Nat} {i : ModuleId}
    {s : Stage σ} (other : m ≠ n) (there : q.graph.At m i s) (going : ¬ s.Finished) : g.At m i s := by
  rcases ending.entered.new other (ending.below.unfinished there going) with old | ⟨-,-,child,-⟩
  · exact old
  · obtain ⟨r,found⟩ := ending.below.finished m child
    rw [there.outcome?_eq_none going] at found
    cases found

/-- Where all reads have gone well, every import is there. -/
theorem Ending.covered (ending : Ending g middle n own children q) {outcomes : List Compiled}
    (all : children.mapM q.graph.outcome? = some outcomes) (good : firstError outcomes = none) :
    (∀ m ∈ children, ∃ cs, q.graph.outcome? m = some (.ok cs)) ∧
      ∀ i ∈ own.version.body.imports, ∃ v, q.graph.registry.get? i = some v := by
  have well : ∀ m ∈ children, ∃ cs, q.graph.outcome? m = some (.ok cs) := by
    intro m member
    obtain ⟨r,inside,found⟩ := exists_outcome all member
    obtain ⟨cs,rfl⟩ := firstError_eq_none_iff.mp good r inside
    exact ⟨cs,found⟩
  refine ⟨well,?_⟩
  intro i member
  cases before : middle.registry.get? i with
  | some v => exact ⟨v,ending.below.keeps before⟩
  | none =>
    obtain ⟨c,child,listed⟩ := ending.entered.covered i member before
    obtain ⟨s,there,early⟩ := ending.poised.early_of_missing listed before
    obtain ⟨cs,found⟩ := well c child
    obtain ⟨i',ended⟩ := outcome?_iff.mp found
    obtain ⟨s',after⟩ := ending.below.same there
    obtain ⟨rfl,rfl⟩ := after.unique ended
    rcases (ending.below.good well).2.2 ended with old | ⟨-,present⟩
    · have equal := (old.unique there).2
      rw [← equal] at early
      exact early.elim
    · exact present

/-- The task itself comes to its end too. -/
theorem Ending.passed (ending : Ending g middle n own children q) (here : g.At n own.version.id stage)
    (start : stage.Early) (after : Graph σ) (tasks : after.tasks = q.graph.tasks)
    (stamps : after.stamps = q.graph.stamps) (r : Compiled) :
    Passed g [n] (after.setStage n (.done r)) := by
  have at_eq : ∀ {m i s}, after.At m i s ↔ q.graph.At m i s := by simp [At,tasks]
  have there := at_eq.mpr ending.here
  constructor
  case stamps =>
    rw [stamps_setStage,stamps]
    have := ending.entered.stamps
    have := ending.below.stamps
    omega
  case rest =>
    intro m i s before late
    have ne : m ≠ n := by
      rintro rfl
      exact late ((before.unique here).2 ▸ start)
    exact (at_setStage_of_ne ne).mpr (at_eq.mpr (ending.below.rest (ending.entered.old ne before) late))
  case same =>
    intro m i s before
    by_cases ne : m = n
    · subst ne
      obtain ⟨rfl,-⟩ := before.unique here
      exact ⟨_,at_setStage_self there⟩
    · obtain ⟨s',found⟩ := ending.below.same (ending.entered.old ne before)
      exact ⟨s',(at_setStage_of_ne ne).mpr (at_eq.mpr found)⟩
  case unfinished =>
    intro m i s ended going
    rcases (at_setStage there).mp ended with ⟨-,-,rfl⟩ | ⟨ne,before⟩
    · exact absurd trivial going
    · exact ending.unfinished ne (at_eq.mp before) going
  case finished =>
    intro m member
    rw [List.mem_singleton.mp member]
    exact ⟨_,(outcome?_finish ending.here tasks).mpr (.inl ⟨rfl,rfl⟩)⟩

/-- What a task has come to it had come to before, or its commits are young. -/
theorem Ending.known_or_fresh (ending : Ending g middle n own children q) {m : Nat}
    {cs : List Commit} (found : q.graph.outcome? m = some (.ok cs)) :
    g.outcome? m = some (.ok cs) ∨ ∀ c ∈ cs, g.stamps ≤ c.version.stamp ∧ c.previous = none := by
  rcases ending.below.fresh found with old | young
  · exact .inl (ending.entered.outcome? old)
  · refine .inr fun c member => ?_
    have := young c member
    rw [ending.entered.stamps] at this
    exact ⟨by omega,this.2⟩

/-- A module that is new has been compiled, and all below it. -/
theorem Ending.settled (ending : Ending g middle n own children q) (poised : g.Poised none)
    (here : g.At n own.version.id stage) (start : stage.Early) {outcomes : List Compiled}
    (all : children.mapM q.graph.outcome? = some outcomes) (good : firstError outcomes = none) :
    Walked g [n] { graph := ({ q.graph with registry := q.graph.tidied own }).setStage n
                     (.done (.ok (own :: commits outcomes)))
                   strays := q.strays ++ q.spared } := by
  obtain ⟨-,unregistered,-⟩ := poised.early here start nofun
  have new : own.previous = none := ending.previous.trans unregistered
  have tidy : q.graph.tidied own = q.graph.registry := by rw [tidied,new]
  obtain ⟨well,imports⟩ := ending.covered all good
  obtain ⟨spared,strays,present⟩ := ending.below.good well
  have there := ending.here
  have other : ∀ {i v}, g.registry.get? i = some v → i ≠ own.version.id := by
    rintro i v found rfl
    rw [unregistered] at found
    cases found
  have known : (({ q.graph with registry := q.graph.tidied own }).setStage n
      (.done (.ok (own :: commits outcomes)))).outcome? n = some (.ok (own :: commits outcomes)) :=
    (outcome?_finish there rfl).mpr (.inl ⟨rfl,rfl⟩)
  rw [tidy] at known ⊢
  constructor
  case toPassed => exact ending.passed here start { q.graph with registry := _ } rfl rfl _
  case poised =>
    exact ending.below.poised.finish there rfl rfl ending.below.poised.stamped (fun absent => absent)
      fun _ waiting => ending.below.poised.awaiting waiting
  case keeps =>
    intro i v found
    rw [registry_setStage]
    exact ending.keeps (other found) found
  case fresh =>
    intro m cs found
    rcases (outcome?_finish there rfl).mp found with ⟨rfl,equal⟩ | ⟨ne,before⟩
    · cases equal
      refine .inr fun c member => ?_
      rcases List.mem_cons.mp member with rfl | inside
      · exact ⟨Nat.le_of_eq ending.stamp.symm,new⟩
      · exact ⟨Nat.le_of_lt (ending.fresh all inside).1,(ending.fresh all inside).2⟩
    · exact ending.known_or_fresh before
  case good =>
    refine fun _ => ⟨rfl,by simp [spared,strays],?_⟩
    intro m i r ended
    rw [registry_setStage]
    rcases (at_setStage (g := { q.graph with registry := q.graph.registry }) there).mp ended with
      ⟨-,rfl,equal⟩ | ⟨ne,before⟩
    · cases equal
      exact .inr ⟨⟨_,rfl⟩,_,ending.current⟩
    · rcases present before with old | now
      · exact .inl (ending.entered.at_old ne (by simp) old)
      · exact .inr now
  case new =>
    intro i v found
    rw [registry_setStage] at found
    rcases ending.below.new found with before | ⟨c,same,inside | inside | ⟨m,child,cs,ok,inside⟩⟩
    · by_cases equal : i = own.version.id
      · subst equal
        rw [ending.entered.get?_self] at before
        exact .inr ⟨own,Option.some.inj before,
          .inr (.inr ⟨n,List.mem_singleton.mpr rfl,_,known,List.mem_cons_self⟩)⟩
      · exact .inl (ending.entered.get?_of_ne equal ▸ before)
    · rw [spared] at inside
      cases inside
    · rw [strays] at inside
      cases inside
    · have member := mem_commits_iff.mpr ⟨cs,(mem_outcomes_iff all).mpr ⟨m,child,ok⟩,inside⟩
      exact .inr ⟨c,same,.inr (.inr ⟨n,List.mem_singleton.mpr rfl,_,known,List.mem_cons_of_mem _ member⟩)⟩
  case dangling =>
    intro i v k found member absent
    rw [registry_setStage] at found absent
    rcases ending.below.dangling found member absent with ⟨before,gone⟩ | ⟨c,stray,-⟩
    · by_cases equal : i = own.version.id
      · subst equal
        rw [ending.entered.get?_self] at before
        cases before
        obtain ⟨w,there⟩ := imports k member
        rw [show q.graph.registry.get? k = none from absent] at there
        cases there
      · refine .inl ⟨ending.entered.get?_of_ne equal ▸ before,?_⟩
        cases old : g.registry.get? k with
        | none => rfl
        | some w =>
          rw [ending.entered.get?_of_ne (other old),old] at gone
          cases gone
    · rw [strays] at stray
      cases stray

/-- A rollback puts back every version that was registered before. -/
theorem Ending.rollback_keeps (ending : Ending g middle n own children q) {outcomes : List Compiled}
    (all : children.mapM q.graph.outcome? = some outcomes) {i : ModuleId} {v : Version}
    (found : g.registry.get? i = some v) :
    (own.rollback (commits outcomes) q.graph.registry).get? i = some v := by
  refine Commit.rollback_keeps ending.formed ?_ ending.current ?_ ?_
  · exact fun c member => Commit.wellFormed_of_new (ending.fresh all member).2
  · intro c member equal
    have old := ending.stamped found
    have young := (ending.fresh all member).1
    omega
  · by_cases equal : i = own.version.id
    · exact .inl ⟨equal,by rw [ending.previous,← equal,found]⟩
    · exact .inr ⟨equal,ending.keeps equal found⟩

/-- What else a rollback leaves is a commit below that it lets stand, or is known to nobody. -/
theorem Ending.rollback_new (ending : Ending g middle n own children q) {outcomes : List Compiled}
    (all : children.mapM q.graph.outcome? = some outcomes) {i : ModuleId} {v : Version}
    (found : (own.rollback (commits outcomes) q.graph.registry).get? i = some v) :
    g.registry.get? i = some v ∨
      ∃ c, c.version = v ∧ (c ∈ commits outcomes ∨ c ∈ q.strays ++ q.spared) := by
  have new : ∀ c ∈ commits outcomes, c.previous = none := fun c member => (ending.fresh all member).2
  rcases Commit.get?_of_rollback ending.formed new ending.current found with
    ⟨equal,previous⟩ | ⟨ne,before⟩
  · rw [ending.previous,← equal] at previous
    exact .inl previous
  · rcases ending.below.new before with old | ⟨c,same,spared | strays | ⟨m,child,cs,ok,inside⟩⟩
    · exact .inl (ending.entered.get?_of_ne ne ▸ old)
    · exact .inr ⟨c,same,.inr (List.mem_append_right _ spared)⟩
    · exact .inr ⟨c,same,.inr (List.mem_append_left _ strays)⟩
    · exact .inr ⟨c,same,.inl (mem_commits_iff.mpr ⟨cs,(mem_outcomes_iff all).mpr ⟨m,child,ok⟩,inside⟩)⟩

/-- The commits that the rollback knows of do not dangle after it. -/
theorem Ending.rollback_dangling (ending : Ending g middle n own children q) {outcomes : List Compiled}
    (all : children.mapM q.graph.outcome? = some outcomes) {i k : ModuleId} {v : Version}
    (found : (own.rollback (commits outcomes) q.graph.registry).get? i = some v)
    (member : k ∈ v.body.imports)
    (absent : (own.rollback (commits outcomes) q.graph.registry).get? k = none) :
    (g.registry.get? i = some v ∧ g.registry.get? k = none) ∨
      ∃ c ∈ q.strays ++ q.spared, c.version = v := by
  have new : ∀ c ∈ commits outcomes, c.previous = none := fun c member => (ending.fresh all member).2
  rcases ending.rollback_new all found with old | ⟨c,rfl,below | stray⟩
  · refine .inl ⟨old,?_⟩
    cases present : g.registry.get? k with
    | none => rfl
    | some w =>
      rw [ending.rollback_keeps all present] at absent
      cases absent
  · have same := Registry.get?_id found
    subst same
    exact absurd (Commit.isDangling_iff.mpr ⟨k,member,absent⟩)
      (Commit.rollback_settled new c below (Registry.isCurrent_of_get? found))
  · exact .inr ⟨c,stray,rfl⟩

/-- A module that is new could not be compiled, and is taken back. -/
theorem Ending.rolledBack (ending : Ending g middle n own children q) (poised : g.Poised none)
    (here : g.At n own.version.id stage) (start : stage.Early) {outcomes : List Compiled}
    (all : children.mapM q.graph.outcome? = some outcomes) (e : CompileError) :
    let registry := own.rollback (commits outcomes) q.graph.registry
    Walked g [n] { graph := ({ q.graph with registry }).setStage n (.done (.error e))
                   spared := (commits outcomes).filter fun c => registry.isCurrent c.version
                   strays := q.strays ++ q.spared } := by
  intro registry
  have there := ending.here
  have new : ∀ c ∈ commits outcomes, c.previous = none := fun c member => (ending.fresh all member).2
  obtain ⟨-,unregistered,-⟩ := poised.early here start nofun
  have shrinks : ∀ {i v}, registry.get? i = some v → q.graph.registry.get? i = some v := by
    intro i v found
    rcases Commit.get?_of_rollback ending.formed new ending.current found with ⟨-,previous⟩ | ⟨-,before⟩
    · rw [ending.previous,unregistered] at previous
      cases previous
    · exact before
  constructor
  case toPassed => exact ending.passed here start { q.graph with registry } rfl rfl _
  case poised =>
    refine ending.below.poised.finish there rfl rfl (fun found => ending.below.poised.stamped (shrinks found)) ?_ ?_
    · intro i absent
      cases found : registry.get? i with
      | none => rfl
      | some v =>
        rw [shrinks found] at absent
        cases absent
    · -- Who still waits did so before this read began.
      intro m i own' children' ne waiting
      obtain ⟨v,found⟩ := poised.awaiting (ending.unfinished ne waiting fun finished => finished)
      exact ⟨v,ending.rollback_keeps all found⟩
  case keeps =>
    intro i v found
    rw [registry_setStage]
    exact ending.rollback_keeps all found
  case fresh =>
    intro m cs found
    rcases (outcome?_finish there rfl).mp found with ⟨-,equal⟩ | ⟨ne,before⟩
    · cases equal
    · exact ending.known_or_fresh before
  case good =>
    intro well
    obtain ⟨cs,ok⟩ := well n (List.mem_singleton.mpr rfl)
    rcases (outcome?_finish there rfl).mp ok with ⟨-,equal⟩ | ⟨ne,-⟩
    · cases equal
    · exact absurd rfl ne
  case new =>
    intro i v found
    rw [registry_setStage] at found
    rcases ending.rollback_new all found with old | ⟨c,same,below | stray⟩
    · exact .inl old
    · refine .inr ⟨c,same,.inl (List.mem_filter.mpr ⟨below,?_⟩)⟩
      have ids := Registry.get?_id found
      subst same ids
      exact Registry.isCurrent_of_get? found
    · exact .inr ⟨c,same,.inr (.inl stray)⟩
  case dangling =>
    intro i v k found member absent
    rw [registry_setStage] at found absent
    exact ending.rollback_dangling all found member absent

end

/-- A task fails before its module is registered. -/
theorem Walked.failed (poised : g.Poised none) (here : g.At n id stage) (start : stage.Early)
    (layer : Resolution.State σ) (e : CompileError) :
    Walked g [n] { graph := ({ g with layer }).setStage n (.done (.error e)) } := by
  have ended : ({ g with layer } : Graph σ).At n id stage := here
  constructor
  case toPassed =>
    refine (turned_setStage here (by rfl)).passed start (Nat.le_of_eq ?_)
    rw [stamps_setStage]
  case poised =>
    exact poised.finish here rfl rfl poised.stamped (fun absent => absent)
      fun _ waiting => poised.awaiting waiting
  case keeps =>
    intro i v found
    rwa [registry_setStage]
  case fresh =>
    intro m cs found
    rcases (outcome?_finish here rfl).mp found with ⟨-,equal⟩ | ⟨-,before⟩
    · cases equal
    · exact .inl before
  case good =>
    intro well
    obtain ⟨cs,ok⟩ := well n (List.mem_singleton.mpr rfl)
    rw [outcome?_setStage_self ended] at ok
    cases ok
  case new =>
    intro i v found
    rw [registry_setStage] at found
    exact .inl found
  case dangling =>
    intro i v k found _ absent
    rw [registry_setStage] at found absent
    exact .inl ⟨found,absent⟩

/-- No other task is under way for a module that is still to be registered. -/
theorem Poised.alone (poised : g.Poised none) {m : Nat} (opened : g.Open m id) (here : g.At n id stage)
    (start : stage.Early) : m = n := by
  obtain ⟨s,there,unfinished⟩ := opened
  obtain ⟨listed,absent,-⟩ := poised.early here start nofun
  cases s with
  | done r => exact absurd trivial unfinished
  | awaiting own children =>
    obtain ⟨v,present⟩ := poised.awaiting there
    rw [absent] at present
    cases present
  | _ => exact poised.once (poised.early there trivial nofun).1 listed

mutual

/-- Carrying on a task of a new module. -/
theorem walked_through {tools : Toolchain σ} : ∀ {fuel : Nat} {g : Graph σ} {n : Nat} {p : Passage σ},
    g.Poised none → (∃ i s, g.At n i s ∧ (s.Early ∨ s.Finished)) → through tools fuel g n = some p →
    Walked g [n] p
  | 0, g, n, p, _, _, found => by simp [through] at found
  | fuel + 1, g, n, p, poised, ⟨id,stage,here,begun⟩, found => by
    rcases begun with start | ended
    · obtain ⟨listed,unregistered,drafted⟩ := poised.early here start nofun
      obtain ⟨next,after,-,rest⟩ := through_early here start found
      have turn := step_turn tools here
      generalize g.step tools n = g' at turn after rest
      cases turn with
      | @early _ next' layer _ goes keeps _ =>
        have here' : ({ g with layer } : Graph σ).At n id stage := here
        obtain ⟨-,rfl⟩ := after.unique (at_setStage_self here')
        have poised' := poised.advance here start goes layer fun _ previous replaces =>
          (keeps.replaces previous replaces).elim (drafted previous) fun equal => equal.trans unregistered
        have walked := walked_through poised' ⟨id,next,after,.inl goes⟩ rest
        exact walked.later here start after goes registry_setStage stamps_setStage fun ne => at_setStage_of_ne ne
      | @failed _ e layer _ _ =>
        have here' : ({ g with layer } : Graph σ).At n id stage := here
        rw [through_done (at_setStage_self here') rest]
        exact .failed poised here start layer e
      | @kept _ v layer _ present _ =>
        rw [unregistered] at present
        cases present
      | @registered _ draft layer own _ drafts stamp same previous =>
        cases fuel with
        | zero => simp [through] at rest
        | succ fuel =>
          obtain ⟨children,entered⟩ := entered_spec here same layer
          obtain ⟨q,all,ends⟩ := through_awaiting entered.here rest
          have poised' := poised.enter here nofun (fun m opened => poised.alone opened here start) stamp same entered
          have begun : ∀ m ∈ children, ∃ i s, (g.entered layer n own).At m i s ∧ (s.Early ∨ s.Finished) := by
            intro m child
            obtain ⟨i,s,there,early⟩ := entered.child_early poised' child
            exact ⟨i,s,there,.inl early⟩
          subst same
          have new : own.previous = g.registry.get? own.version.id := by
            rw [previous,unregistered]
            exact drafted _ (Stage.replaces_iff.mpr ⟨draft,drafts,rfl⟩)
          have ending : Ending g _ n own children q :=
            ⟨entered,poised',stamp,new,poised.stamped,walked_throughAll poised' begun all⟩
          obtain ⟨outcomes,known,⟨good,rfl⟩ | ⟨e,bad,rfl⟩⟩ := conclude_cases ending.here ends
          · exact ending.settled poised here start known good
          · exact ending.rolledBack poised here start known e
      | waiting | settled | rolledBack | ended => exact start.elim
    · cases stage with
      | done r =>
        rw [through,here.stage?] at found
        cases found
        exact .nil poised fun m member => ⟨r,outcome?_iff.mpr ⟨id,List.mem_singleton.mp member ▸ here⟩⟩
      | _ => exact ended.elim

theorem walked_throughAll {tools : Toolchain σ} : ∀ {fuel : Nat} {g : Graph σ} {ns : List Nat} {p : Passage σ},
    g.Poised none → (∀ n ∈ ns, ∃ i s, g.At n i s ∧ (s.Early ∨ s.Finished)) →
    throughAll tools fuel g ns = some p → Walked g ns p
  | _, g, [], p, poised, _, found => by
    rw [throughAll] at found
    cases found
    exact .nil poised (by simp)
  | 0, g, n :: ns, p, _, _, found => by simp [throughAll] at found
  | fuel + 1, g, n :: ns, p, poised, begun, found => by
    rw [throughAll] at found
    obtain ⟨q,first,rest⟩ := Option.bind_eq_some_iff.mp found
    obtain ⟨r,others,rfl⟩ := Option.map_eq_some_iff.mp rest
    have walked := walked_through poised (begun n List.mem_cons_self) first
    refine walked.andThen (walked_throughAll walked.poised ?_ others)
    intro m member
    obtain ⟨i,s,there,stage⟩ := begun m (List.mem_cons_of_mem _ member)
    obtain ⟨s',after⟩ := walked.same there
    refine ⟨i,s',after,?_⟩
    by_cases ended : s'.Finished
    · exact .inr ended
    · obtain ⟨-,rfl⟩ := (walked.unfinished after ended).unique there
      exact stage

end

end Bundling.Graph
