import Bundling.Proofs.Passage

/-!
# Between two steps

While an operation goes on in which nothing suspends, the graph is `Poised` between two steps: what waits is
registered, and what is still to be registered is new. Tasks that have come to their ends one after the other
are `Passed`, and what they have made of the registry is `Walked`; both compose (`Walked.andThen`).
-/

namespace Bundling.Graph

variable {σ : Type}

/-- How a graph is between two steps of an operation in which nothing suspends. A module that is
waited for is registered, and one that is still to be registered is new; but one task may be about to
register a module again. -/
structure Poised (g : Graph σ) (except : Option Nat) : Prop where
  stamped : ∀ {id v}, g.registry.get? id = some v → v.stamp < g.stamps
  early : ∀ {n id s}, g.At n id s → s.Early → except ≠ some n →
    (id,n) ∈ g.inFlight ∧ g.registry.get? id = none ∧ ∀ previous, s.Replaces previous → previous = none
  awaiting : ∀ {n id own children}, g.At n id (.awaiting own children) → ∃ v, g.registry.get? id = some v
  listed : ∀ {n id}, (id,n) ∈ g.inFlight → g.Open n id
  once : ∀ {id n m}, (id,n) ∈ g.inFlight → (id,m) ∈ g.inFlight → n = m

variable {g : Graph σ} {n : Nat} {id : ModuleId} {stage : Stage σ} {except : Option Nat}

/-- A task goes on before its module is registered. -/
theorem Poised.advance (poised : g.Poised except) (here : g.At n id stage) (start : stage.Early)
    {next : Stage σ} (goes : next.Early) (layer : Resolution.State σ)
    (drafted : except ≠ some n → ∀ previous, next.Replaces previous → previous = none) :
    ({ g with layer }.setStage n next).Poised except := by
  have going := goes.unfinished
  have here' : ({ g with layer } : Graph σ).At n id stage := here
  constructor
  case stamped =>
    intro i v found
    rw [registry_setStage] at found
    rw [stamps_setStage]
    exact poised.stamped found
  case early =>
    intro m i s there early other
    rw [inFlight_setStage going,registry_setStage]
    rcases (at_setStage here').mp there with ⟨rfl,rfl,rfl⟩ | ⟨-,before⟩
    · obtain ⟨listed,new,-⟩ := poised.early here start other
      exact ⟨listed,new,drafted other⟩
    · exact poised.early before early other
  case awaiting =>
    intro m i own children there
    rw [registry_setStage]
    have waits : ({ g with layer }.setStage n next).At m i (.awaiting own children) ↔ g.At m i (.awaiting own children) :=
      at_setStage_early here start goes (by rfl) fun early => early
    exact poised.awaiting (waits.mp there)
  case listed =>
    intro m i member
    rw [inFlight_setStage going] at member
    exact (open_setStage here' start.unfinished going rfl).mpr (poised.listed member)
  case once =>
    intro i m k one other
    rw [inFlight_setStage going] at one other
    exact poised.once one other

/-- A task comes to its end, and the registry has lost nothing that is waited for and won nothing. -/
theorem Poised.finish (poised : g.Poised except) (here : g.At n id stage) {g' : Graph σ} {r : Compiled}
    (tasks : g'.tasks = g.tasks) (inFlight : g'.inFlight = g.inFlight)
    (stamped : ∀ {i v}, g'.registry.get? i = some v → v.stamp < g'.stamps)
    (shrinks : ∀ {i}, g.registry.get? i = none → g'.registry.get? i = none)
    (waited : ∀ {m i own children}, m ≠ n → g.At m i (.awaiting own children) →
      ∃ v, g'.registry.get? i = some v) :
    (g'.setStage n (.done r)).Poised except := by
  have at_iff := @at_setStage_after σ g n g' id stage (.done r) here tasks
  constructor
  case stamped =>
    intro i v found
    rw [registry_setStage] at found
    rw [stamps_setStage]
    exact stamped found
  case early =>
    intro m i s there early other
    rcases at_iff.mp there with ⟨-,-,rfl⟩ | ⟨ne,before⟩
    · exact early.elim
    · obtain ⟨listed,new,drafted⟩ := poised.early before early other
      rw [registry_setStage]
      exact ⟨(mem_inFlight_finish inFlight).mpr ⟨listed,ne⟩,shrinks new,drafted⟩
  case awaiting =>
    intro m i own children there
    rw [registry_setStage]
    obtain ⟨ne,before⟩ := (awaiting_finish here tasks).mp there
    exact waited ne before
  case listed =>
    intro m i member
    obtain ⟨before,ne⟩ := (mem_inFlight_finish inFlight).mp member
    exact (open_finish here tasks).mpr ⟨ne,poised.listed before⟩
  case once =>
    intro i m k one other
    exact poised.once ((mem_inFlight_finish inFlight).mp one).1 ((mem_inFlight_finish inFlight).mp other).1

/-- What is under way for a module that is missing is at an early stage, as all that waits is
registered. -/
theorem Poised.early_of_missing (poised : g.Poised except) {m : Nat} {i : ModuleId}
    (member : (i,m) ∈ g.inFlight) (absent : g.registry.get? i = none) : ∃ s, g.At m i s ∧ s.Early := by
  obtain ⟨s,there,unfinished⟩ := poised.listed member
  refine ⟨s,there,?_⟩
  cases s with
  | done r => exact unfinished trivial
  | awaiting own children =>
    obtain ⟨v,present⟩ := poised.awaiting there
    rw [absent] at present
    cases present
  | _ => trivial

/-- What a task waits for once its module is registered is at an early stage. -/
theorem Entered.child_early {after : Graph σ} {own : Commit} {children : List Nat}
    (entered : Entered g after n own children) (poised : after.Poised except) {c : Nat} (child : c ∈ children) :
    ∃ i s, after.At c i s ∧ s.Early := by
  obtain ⟨i,-,absent,listed⟩ := entered.below c child
  exact ⟨i,poised.early_of_missing listed absent⟩

/-- A module is registered by a task that no other one is under way for. -/
theorem Poised.enter (poised : g.Poised except) (here : g.At n id stage)
    (allowed : ∀ m, except = some m → m = n) (alone : ∀ m, g.Open m id → m = n)
    {own : Commit} (stamp : own.version.stamp = g.stamps) (same : own.version.id = id)
    {g' : Graph σ} {children : List Nat} (entered : Entered g g' n own children) : g'.Poised none := by
  have others : ∀ {i}, i ≠ id → g'.registry.get? i = g.registry.get? i := fun other => entered.get?_of_ne (same ▸ other)
  have present : g'.registry.get? id = some own.version := same ▸ entered.get?_self
  constructor
  case stamped =>
    intro i v found
    rw [entered.stamps]
    by_cases equal : i = id
    · rw [equal,present] at found
      rw [← Option.some.inj found,stamp]
      omega
    · rw [others equal] at found
      have := poised.stamped found
      omega
  case early =>
    intro m i s found early _
    have ne := entered.ne_of_early early found
    rcases entered.new ne found with old | ⟨-,rfl,-,member,-,absent⟩
    · obtain ⟨member,new,drafted⟩ := poised.early old early fun is => ne (allowed m is)
      have other : i ≠ id := fun equal => ne (alone m (equal ▸ ⟨s,old,early.unfinished⟩))
      exact ⟨entered.kept member,(others other).trans new,drafted⟩
    · exact ⟨member,absent,fun _ replaces => replaces.elim⟩
  case awaiting =>
    intro m i own' children' found
    by_cases equal : i = id
    · exact ⟨_,equal ▸ present⟩
    · rw [others equal]
      rcases entered.awaiting found with ⟨-,mine,-⟩ | ⟨-,old⟩
      · exact absurd (mine.trans same) equal
      · exact poised.awaiting old
  case listed => exact entered.open_of_listed (same ▸ here) poised.listed
  case once =>
    intro i m k one other
    exact entered.listed_once poised.once one other

/-! ## Reads of new modules -/

/-- Tasks have come to their ends. What still goes on is where it was. -/
structure Passed (g : Graph σ) (ns : List Nat) (g' : Graph σ) : Prop where
  stamps : g.stamps ≤ g'.stamps
  rest : ∀ {m i s}, g.At m i s → ¬ s.Early → g'.At m i s
  same : ∀ {m i s}, g.At m i s → ∃ s', g'.At m i s'
  unfinished : ∀ {m i s}, g'.At m i s → ¬ s.Finished → g.At m i s
  finished : ∀ m ∈ ns, ∃ r, g'.outcome? m = some r

theorem Passed.nil {ns : List Nat} (ended : ∀ n ∈ ns, ∃ r, g.outcome? n = some r) : Passed g ns g :=
  ⟨Nat.le_refl _,fun here _ => here,fun here => ⟨_,here⟩,fun here _ => here,ended⟩

/-- An outcome stands. -/
theorem Passed.outcome {ns : List Nat} {g' : Graph σ} (passed : Passed g ns g') {m : Nat} {r : Compiled}
    (found : g.outcome? m = some r) : g'.outcome? m = some r := by
  obtain ⟨i,there⟩ := outcome?_iff.mp found
  exact outcome?_iff.mpr ⟨i,passed.rest there fun early => early⟩

theorem Passed.andThen {ns : List Nat} {a b : Graph σ} (first : Passed g [n] a) (others : Passed a ns b) :
    Passed g (n :: ns) b := by
  refine ⟨Nat.le_trans first.stamps others.stamps,fun here late => others.rest (first.rest here late) late,
    ?_,fun here going => first.unfinished (others.unfinished here going) going,?_⟩
  · intro m i s here
    obtain ⟨s',there⟩ := first.same here
    exact others.same there
  · intro m member
    rcases List.mem_cons.mp member with rfl | later
    · obtain ⟨r,found⟩ := first.finished m List.mem_cons_self
      exact ⟨r,others.outcome found⟩
    · exact others.finished m later

/-- A task comes to its end before its module is registered. -/
theorem Turned.passed {after : Graph σ} {r : Compiled} (turned : Turned g after n id stage (.done r)) (start : stage.Early)
    (stamps : g.stamps ≤ after.stamps) : Passed g [n] after := by
  constructor
  case stamps => exact stamps
  case rest =>
    intro m i s before late
    refine turned.kept ?_ before
    rintro rfl
    exact late start
  case same =>
    intro m i s before
    by_cases ne : m = n
    · subst ne
      obtain ⟨rfl,-⟩ := before.unique turned.here
      exact ⟨_,turned.there⟩
    · exact ⟨s,turned.of_ne ne before⟩
  case unfinished =>
    intro m i s there going
    rcases turned.at_iff.mp there with ⟨-,-,rfl⟩ | ⟨-,before⟩
    · exact absurd trivial going
    · exact before
  case finished =>
    intro m member
    rw [List.mem_singleton.mp member]
    exact ⟨r,outcome?_iff.mpr ⟨id,turned.there⟩⟩

/-- What carrying on tasks of new modules to their ends has made of a graph. -/
structure Walked (g : Graph σ) (ns : List Nat) (p : Passage σ) : Prop extends Passed g ns p.graph where
  poised : p.graph.Poised none
  keeps : ∀ {i v}, g.registry.get? i = some v → p.graph.registry.get? i = some v
  /-- A commit of a task that has come to its end is of a new module. -/
  fresh : ∀ {m cs}, p.graph.outcome? m = some (.ok cs) → g.outcome? m = some (.ok cs) ∨
    ∀ c ∈ cs, g.stamps ≤ c.version.stamp ∧ c.previous = none
  /-- Where all has gone well, whatever was compiled is there. -/
  good : (∀ m ∈ ns, ∃ cs, p.graph.outcome? m = some (.ok cs)) → p.spared = [] ∧ p.strays = [] ∧
    ∀ {m i r}, p.graph.At m i (.done r) →
      g.At m i (.done r) ∨ (∃ cs, r = .ok cs) ∧ ∃ v, p.graph.registry.get? i = some v
  /-- What was registered is known to those that wait, or counts as left standing. -/
  new : ∀ {i v}, p.graph.registry.get? i = some v → g.registry.get? i = some v ∨
    ∃ c, c.version = v ∧ (c ∈ p.spared ∨ c ∈ p.strays ∨
      ∃ m ∈ ns, ∃ cs, p.graph.outcome? m = some (.ok cs) ∧ c ∈ cs)
  dangling : ∀ {i v k}, p.graph.registry.get? i = some v → k ∈ v.body.imports →
    p.graph.registry.get? k = none →
    (g.registry.get? i = some v ∧ g.registry.get? k = none) ∨ ∃ c ∈ p.strays, c.version = v

theorem Walked.nil (poised : g.Poised none) {ns : List Nat} (ended : ∀ n ∈ ns, ∃ r, g.outcome? n = some r) :
    Walked g ns { graph := g } where
  toPassed := .nil ended
  poised := poised
  keeps found := found
  fresh found := .inl found
  good _ := ⟨rfl,rfl,.inl⟩
  new found := .inl found
  dangling found _ absent := .inl ⟨found,absent⟩

theorem Walked.andThen {ns : List Nat} {p q : Passage σ} (first : Walked g [n] p)
    (others : Walked p.graph ns q) : Walked g (n :: ns) (p.andThen q) where
  toPassed := first.toPassed.andThen others.toPassed
  poised := others.poised
  keeps found := others.keeps (first.keeps found)
  fresh found := by
    rcases others.fresh found with before | new
    · exact first.fresh before
    · exact .inr fun c member => ⟨Nat.le_trans first.stamps (new c member).1,(new c member).2⟩
  good := by
    intro well
    obtain ⟨r,found⟩ := first.finished n List.mem_cons_self
    have wellFirst : ∀ m ∈ [n], ∃ cs, p.graph.outcome? m = some (.ok cs) := by
      intro m member
      obtain ⟨cs,there⟩ := well n List.mem_cons_self
      have equal : r = .ok cs := Option.some.inj ((others.outcome found).symm.trans there)
      rw [List.mem_singleton.mp member]
      exact ⟨cs,equal ▸ found⟩
    obtain ⟨spared,strays,present⟩ := first.good wellFirst
    obtain ⟨spared',strays',present'⟩ := others.good fun m member => well m (List.mem_cons_of_mem _ member)
    refine ⟨by simp [Passage.andThen,spared,spared'],by simp [Passage.andThen,strays,strays'],?_⟩
    intro m i r ended
    rcases present' ended with before | now
    · rcases present before with old | ⟨fine,v,found⟩
      · exact .inl old
      · exact .inr ⟨fine,v,others.keeps found⟩
    · exact .inr now
  new := by
    intro i v found
    rcases others.new found with before | ⟨c,same,spared | strays | ⟨m,member,known⟩⟩
    · rcases first.new before with old | ⟨c,same,spared | strays | ⟨m,member,cs,known,inside⟩⟩
      · exact .inl old
      · exact .inr ⟨c,same,.inl (List.mem_append_left _ spared)⟩
      · exact .inr ⟨c,same,.inr (.inl (List.mem_append_left _ strays))⟩
      · rw [List.mem_singleton.mp member] at known
        exact .inr ⟨c,same,.inr (.inr ⟨n,List.mem_cons_self,cs,others.outcome known,inside⟩)⟩
    · exact .inr ⟨c,same,.inl (List.mem_append_right _ spared)⟩
    · exact .inr ⟨c,same,.inr (.inl (List.mem_append_right _ strays))⟩
    · exact .inr ⟨c,same,.inr (.inr ⟨m,List.mem_cons_of_mem _ member,known⟩)⟩
  dangling := by
    intro i v k found member absent
    rcases others.dangling found member absent with ⟨found,absent⟩ | ⟨c,stray,same⟩
    · rcases first.dangling found member absent with old | ⟨c,stray,same⟩
      · exact .inl old
      · exact .inr ⟨c,List.mem_append_left _ stray,same⟩
    · exact .inr ⟨c,List.mem_append_right _ stray,same⟩

section

variable {g' : Graph σ} {next : Stage σ}

/-- A task that goes on before its module is registered passes through more than one step. -/
theorem Passed.later {after : Graph σ} (passed : Passed g' [n] after) (here : g.At n id stage)
    (start : stage.Early) (there : g'.At n id next) (stamps : g'.stamps = g.stamps)
    (others : ∀ {m i s}, m ≠ n → (g'.At m i s ↔ g.At m i s)) : Passed g [n] after := by
  refine ⟨stamps ▸ passed.stamps,?_,?_,?_,passed.finished⟩
  · intro m i s before late
    by_cases ne : m = n
    · subst ne
      exact absurd ((before.unique here).2 ▸ start) late
    · exact passed.rest ((others ne).mpr before) late
  · intro m i s before
    by_cases ne : m = n
    · subst ne
      obtain ⟨rfl,-⟩ := before.unique here
      exact passed.same there
    · exact passed.same ((others ne).mpr before)
  · intro m i s ended going
    have before := passed.unfinished ended going
    by_cases ne : m = n
    · subst ne
      obtain ⟨r,found⟩ := passed.finished m List.mem_cons_self
      rw [ended.outcome?_eq_none going] at found
      cases found
    · exact (others ne).mp before

theorem Walked.later {p : Passage σ} (walked : Walked g' [n] p) (here : g.At n id stage)
    (start : stage.Early) (there : g'.At n id next) (goes : next.Early)
    (registry : g'.registry = g.registry) (stamps : g'.stamps = g.stamps)
    (others : ∀ {m i s}, m ≠ n → (g'.At m i s ↔ g.At m i s)) : Walked g [n] p where
  toPassed := walked.toPassed.later here start there stamps others
  poised := walked.poised
  keeps found := walked.keeps (registry ▸ found)
  fresh := by
    intro m cs found
    rcases walked.fresh found with before | new
    · obtain ⟨i,ended⟩ := outcome?_iff.mp before
      by_cases ne : m = n
      · subst ne
        rw [there.outcome?_eq_none goes.unfinished] at before
        cases before
      · exact .inl (outcome?_iff.mpr ⟨i,(others ne).mp ended⟩)
    · exact .inr (stamps ▸ new)
  good := by
    intro well
    obtain ⟨spared,strays,present⟩ := walked.good well
    refine ⟨spared,strays,?_⟩
    intro m i r ended
    rcases present ended with before | now
    · by_cases ne : m = n
      · subst ne
        exact absurd trivial ((before.unique there).2 ▸ goes.unfinished : ¬ (Stage.done r).Finished)
      · exact .inl ((others ne).mp before)
    · exact .inr now
  new found := registry ▸ walked.new found
  dangling found member absent := registry ▸ walked.dangling found member absent

end

end Bundling.Graph
