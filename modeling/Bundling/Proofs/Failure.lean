import Bundling.Proofs.Functions
import Bundling.Proofs.Performing
import Bundling.Proofs.Histories

/-!
# Pushes that fail

A push or a read that nothing else goes on besides. Until its module is registered the registry is as it
was; while it waits, what was registered stands at the front of the registry with the new version in its
place; the reads below it only add modules, and what they take back are modules that they added
(`Pushing.step`). Taking the version back therefore leaves all that was registered, in its place
(`failure_keeps`).
-/

namespace Bundling

/-! ## The order of registration -/

namespace Version

theorem put_of_absent {v : Version} {vs : List Version} (absent : v.id ∉ ids vs) : put v vs = vs ++ [v] := by
  induction vs with
  | nil => rfl
  | cons w ws ih =>
    obtain ⟨other,rest⟩ : v.id ≠ w.id ∧ v.id ∉ ids ws := by simpa [ids] using absent
    rw [put,if_neg (Ne.symm other),ih rest,List.cons_append]

/-- Putting the old version back undoes putting the new one, whatever has come at the end. -/
theorem put_put {new old : Version} {vs : List Version} (same : old.id = new.id)
    (found : vs.find? (fun w => w.id = new.id) = some old) (later : List Version) :
    put old (put new vs ++ later) = vs ++ later := by
  induction vs with
  | nil => cases found
  | cons w ws ih =>
    by_cases here : w.id = new.id
    · rw [List.find?_cons_of_pos (by simpa using here)] at found
      cases found
      rw [put,if_pos here,List.cons_append,put,if_pos same.symm,List.cons_append]
    · rw [List.find?_cons_of_neg (by simpa using here)] at found
      rw [put,if_neg here,List.cons_append,put,if_neg (same ▸ here),ih found,List.cons_append]

end Version

namespace Registry

/-- What is in one registry stands at the front of the other one, in the same versions. -/
def Leads (r r' : Registry) : Prop := r.versions <+: r'.versions

variable {r r' : Registry} {id : ModuleId} {v : Version}

theorem Leads.refl (r : Registry) : r.Leads r := List.prefix_refl r.versions

theorem Leads.trans {r'' : Registry} (first : r.Leads r') (second : r'.Leads r'') : r.Leads r'' :=
  List.IsPrefix.trans first second

theorem Leads.get? (leads : r.Leads r') (found : r.get? id = some v) : r'.get? id = some v :=
  List.IsPrefix.find?_eq_some leads found

theorem Leads.absent (leads : r.Leads r') (absent : r'.get? id = none) : r.get? id = none := by
  cases found : r.get? id with
  | none => rfl
  | some v =>
    rw [leads.get? found] at absent
    cases absent

theorem leads_insert (absent : r.get? v.id = none) : r.Leads (r.insert v) := by
  have new : v.id ∉ Version.ids r.versions := by
    intro member
    obtain ⟨w,inside,same⟩ := List.mem_map.mp member
    rw [← same,mem_versions_iff.mp inside] at absent
    cases absent
  show r.versions <+: Version.put v r.versions
  rw [Version.put_of_absent new]
  exact List.prefix_append r.versions [v]

/-- Removing what was not there leaves what was there at the front. -/
theorem Leads.erase (leads : r.Leads r') (absent : r.get? id = none) : r.Leads (r'.erase id) := by
  have kept : r.versions.filter (fun v => v.id ≠ id) = r.versions := by
    refine List.filter_eq_self.mpr fun w member => ?_
    simp only [ne_eq,decide_eq_true_eq]
    rintro rfl
    rw [mem_versions_iff.mp member] at absent
    cases absent
  have filtered := List.IsPrefix.filter (fun v => v.id ≠ id) leads
  rw [kept] at filtered
  exact filtered

/-- Putting the old version back leaves what was there at the front. -/
theorem Leads.restore {old : Version} (leads : (r.insert v).Leads r') (found : r.get? v.id = some old) :
    r.Leads (r'.insert old) := by
  obtain ⟨later,equal⟩ := leads
  refine ⟨later,?_⟩
  show r.versions ++ later = Version.put old r'.versions
  rw [← equal]
  exact (Version.put_put (get?_id found) found later).symm

end Registry

/-- Pruning a commit of a new module leaves what stands at the front, if the module is not there. -/
theorem Commit.leads_prune {c : Commit} (new : c.previous = none) {r r' : Registry}
    (absent : r.get? c.version.id = none) (leads : r.Leads r') : r.Leads (c.prune r') := by
  unfold prune revert
  split
  · split
    · rw [new]
      exact leads.erase absent
    · exact leads
  · exact leads

namespace Stage

variable {σ : Type} {before : Registry} {x : ModuleId}

/-- What a push has made of the registry, by its stage. -/
def Leaves (before : Registry) (x : ModuleId) (r : Registry) : Stage σ → Prop
  | .awaiting own _ => (before.insert own.version).Leads r
  | .done (.error _) => before.Leads r ∧ (before.get? x = none → r.get? x = none)
  | .done (.ok _) => True
  | _ => r = before

theorem leaves_early {r : Registry} {s : Stage σ} (early : s.Early) :
    s.Leaves before x r ↔ r = before := by
  cases s with
  | awaiting | done => exact early.elim
  | _ => exact Iff.rfl

end Stage

namespace Graph

variable {σ : Type} {g after : Graph σ} {base n : Nat} {x id : ModuleId} {before : Registry}
  {stage : Stage σ}

/-! ## One push and the reads below it -/

/-- How a graph is while nothing is under way but the push of a module and the reads below it, or after
that. The task of the push is the first of them. -/
structure Pushing (base : Nat) (x : ModuleId) (before : Registry) (g : Graph σ) : Prop where
  root : ∃ s, g.At base x s
  listed : ∀ {m i}, (i,m) ∈ g.inFlight → g.Open m i
  once : ∀ {i m k}, (i,m) ∈ g.inFlight → (i,k) ∈ g.inFlight → m = k
  /-- Reads below the push are of modules that were not registered, and not of its own module. -/
  nested : ∀ {m i}, g.Open m i → m ≠ base → (i,m) ∈ g.inFlight ∧ i ≠ x ∧ before.get? i = none
  fresh : ∀ {m i s}, g.At m i s → s.Early → m ≠ base →
    g.registry.get? i = none ∧ ∀ v, ¬ s.Replaces (some v)
  drafted : ∀ {s previous}, g.At base x s → s.Replaces previous → previous = before.get? x
  waiting : ∀ {m i own children}, g.At m i (.awaiting own children) →
    own.version.id = i ∧ own.previous = if m = base then before.get? x else none
  committed : ∀ {m cs c}, base < m → g.outcome? m = some (.ok cs) → c ∈ cs →
    c.previous = none ∧ c.version.id ≠ x ∧ before.get? c.version.id = none
  children : ∀ {m i own children c}, g.At m i (.awaiting own children) → c ∈ children → base < c
  asked : ∀ {m i}, g.Open m i → m ≠ base → ∃ k < m, ∃ j own children,
    g.At k j (.awaiting own children) ∧ m ∈ children
  leaves : ∀ {s}, g.At base x s → s.Leaves before x g.registry

/-- Unless the push waits for reads, nothing else is under way. -/
theorem Pushing.alone (pushing : g.Pushing base x before) (here : g.At base x stage)
    (still : ∀ own children, stage ≠ .awaiting own children) (opened : g.Open n id) : n = base := by
  induction n using Nat.strongRecOn generalizing id with
  | ind n ih =>
    by_cases root : n = base
    · exact root
    · obtain ⟨k,less,j,own,children,there,-⟩ := pushing.asked opened root
      obtain rfl := ih k less ⟨_,there,fun finished => finished⟩
      exact absurd (there.unique here).2.symm (still own children)

theorem Pushing.awaits (pushing : g.Pushing base x before) (opened : g.Open n id) (below : n ≠ base) :
    ∃ own children, g.At base x (.awaiting own children) := by
  obtain ⟨s,here⟩ := pushing.root
  by_cases waits : ∃ own children, s = .awaiting own children
  · obtain ⟨own,children,rfl⟩ := waits
    exact ⟨own,children,here⟩
  · exact absurd (pushing.alone here (fun own children equal => waits ⟨own,children,equal⟩) opened) below

theorem Pushing.late (pushing : g.Pushing base x before) (opened : g.Open n id) (below : n ≠ base) :
    base < n := by
  induction n using Nat.strongRecOn generalizing id with
  | ind n ih =>
    obtain ⟨k,less,j,own,children,there,-⟩ := pushing.asked opened below
    by_cases root : k = base
    · exact root ▸ less
    · exact Nat.lt_trans (ih k less ⟨_,there,fun finished => finished⟩ root) less

/-- Nothing that matters here has changed. -/
theorem Pushing.congr (pushing : g.Pushing base x before) (tasks : after.tasks = g.tasks)
    (inFlight : after.inFlight = g.inFlight) (registry : after.registry = g.registry) :
    after.Pushing base x before := by
  obtain ⟨layer,entries,registry',stamps,hooks,tasks',inFlight'⟩ := after
  cases tasks
  cases inFlight
  cases registry
  exact { pushing with }

/-- A task goes on before its module is registered. -/
theorem Pushing.advance (pushing : g.Pushing base x before) (here : g.At n id stage) (start : stage.Early)
    {next : Stage σ} (goes : next.Early) (layer : Resolution.State σ)
    (drafted : ∀ previous, next.Replaces previous → stage.Replaces previous ∨ previous = g.registry.get? id) :
    (({ g with layer }).setStage n next).Pushing base x before := by
  have at_iff := @at_setStage_after σ g n { g with layer } id stage next here rfl
  have waits : ∀ {m i own children}, (({ g with layer } : Graph σ).setStage n next).At m i (.awaiting own children) ↔
      g.At m i (.awaiting own children) := at_setStage_early here start goes (by rfl) fun early => early
  have opened : ∀ {m i}, (({ g with layer } : Graph σ).setStage n next).Open m i ↔ g.Open m i :=
    open_setStage here start.unfinished goes.unfinished (by rfl)
  have flying : (({ g with layer } : Graph σ).setStage n next).inFlight = g.inFlight :=
    inFlight_setStage goes.unfinished
  have registry : (({ g with layer } : Graph σ).setStage n next).registry = g.registry := registry_setStage
  constructor
  case root =>
    obtain ⟨s,there⟩ := pushing.root
    by_cases same : base = n
    · subst same
      obtain ⟨rfl,-⟩ := there.unique here
      exact ⟨next,at_iff.mpr (.inl ⟨rfl,rfl,rfl⟩)⟩
    · exact ⟨s,at_iff.mpr (.inr ⟨same,there⟩)⟩
  case listed =>
    intro m i member
    exact opened.mpr (pushing.listed (flying ▸ member))
  case once =>
    intro i m k one other
    exact pushing.once (flying ▸ one) (flying ▸ other)
  case nested =>
    intro m i open_ below
    rw [flying]
    exact pushing.nested (opened.mp open_) below
  case fresh =>
    intro m i s there early below
    rw [registry]
    rcases at_iff.mp there with ⟨rfl,rfl,rfl⟩ | ⟨-,before⟩
    · obtain ⟨absent,new⟩ := pushing.fresh here start below
      refine ⟨absent,fun v replaces => ?_⟩
      rcases drafted _ replaces with old | registered
      · exact new v old
      · rw [absent] at registered
        cases registered
    · exact pushing.fresh before early below
  case drafted =>
    intro s previous there replaces
    rcases at_iff.mp there with ⟨rfl,rfl,rfl⟩ | ⟨-,before⟩
    · rcases drafted _ replaces with old | registered
      · exact pushing.drafted here old
      · rwa [(Stage.leaves_early start).mp (pushing.leaves here)] at registered
    · exact pushing.drafted before replaces
  case waiting => exact fun there => pushing.waiting (waits.mp there)
  case committed => exact fun late outcome => pushing.committed late ((outcome?_setStage_early here start goes (by rfl)).mp outcome)
  case children => exact fun there => pushing.children (waits.mp there)
  case asked =>
    intro m i open_ below
    obtain ⟨k,less,j,own,children,there,child⟩ := pushing.asked (opened.mp open_) below
    exact ⟨k,less,j,own,children,waits.mpr there,child⟩
  case leaves =>
    intro s there
    rw [registry]
    rcases at_iff.mp there with ⟨rfl,rfl,rfl⟩ | ⟨-,before⟩
    · exact (Stage.leaves_early goes).mpr ((Stage.leaves_early start).mp (pushing.leaves here))
    · exact pushing.leaves before

/-- A task comes to its end. -/
theorem Pushing.finish (pushing : g.Pushing base x before) (here : g.At n id stage) (after : Graph σ)
    (tasks : after.tasks = g.tasks) (inFlight : after.inFlight = g.inFlight) (r : Compiled)
    (absent : ∀ {i}, g.registry.get? i = none → after.registry.get? i = none)
    (commits : ∀ cs, r = .ok cs → base < n → ∀ c ∈ cs,
      c.previous = none ∧ c.version.id ≠ x ∧ before.get? c.version.id = none)
    (below : ∀ own children, stage = .awaiting own children → ∀ c ∈ children, ∃ r, g.outcome? c = some r)
    (mine : n = base → (.done r : Stage σ).Leaves before x after.registry)
    (other : n ≠ base → ∀ {s}, g.At base x s → s.Leaves before x after.registry) :
    (after.setStage n (.done r)).Pushing base x before := by
  have at_iff := @at_setStage_after σ g n after id stage (.done r) here tasks
  have waits : ∀ {m i own children}, (after.setStage n (.done r)).At m i (.awaiting own children) →
      m ≠ n ∧ g.At m i (.awaiting own children) := (awaiting_finish here tasks).mp
  have opened : ∀ {m i}, (after.setStage n (.done r)).Open m i ↔ m ≠ n ∧ g.Open m i := open_finish here tasks
  have flying : ∀ {i m}, (i,m) ∈ (after.setStage n (.done r)).inFlight ↔ (i,m) ∈ g.inFlight ∧ m ≠ n :=
    mem_inFlight_finish inFlight
  constructor
  case root =>
    obtain ⟨s,there⟩ := pushing.root
    by_cases same : base = n
    · subst same
      obtain ⟨rfl,-⟩ := there.unique here
      exact ⟨_,at_iff.mpr (.inl ⟨rfl,rfl,rfl⟩)⟩
    · exact ⟨s,at_iff.mpr (.inr ⟨same,there⟩)⟩
  case listed =>
    intro m i member
    obtain ⟨listed,ne⟩ := flying.mp member
    exact opened.mpr ⟨ne,pushing.listed listed⟩
  case once =>
    intro i m k one other
    exact pushing.once (flying.mp one).1 (flying.mp other).1
  case nested =>
    intro m i open_ root
    obtain ⟨ne,before⟩ := opened.mp open_
    obtain ⟨listed,others⟩ := pushing.nested before root
    exact ⟨flying.mpr ⟨listed,ne⟩,others⟩
  case fresh =>
    intro m i s there early root
    rw [registry_setStage]
    rcases at_iff.mp there with ⟨-,-,rfl⟩ | ⟨-,before⟩
    · exact early.elim
    · obtain ⟨missing,new⟩ := pushing.fresh before early root
      exact ⟨absent missing,new⟩
  case drafted =>
    intro s previous there replaces
    rcases at_iff.mp there with ⟨-,-,rfl⟩ | ⟨-,before⟩
    · exact replaces.elim
    · exact pushing.drafted before replaces
  case waiting => exact fun there => pushing.waiting (waits there).2
  case committed =>
    intro m cs c late outcome member
    rcases (outcome?_finish here tasks).mp outcome with ⟨rfl,equal⟩ | ⟨-,before⟩
    · exact commits cs equal.symm late c member
    · exact pushing.committed late before member
  case children => exact fun there => pushing.children (waits there).2
  case asked =>
    intro m i open_ root
    obtain ⟨-,before⟩ := opened.mp open_
    obtain ⟨k,less,j,own,children,there,child⟩ := pushing.asked before root
    refine ⟨k,less,j,own,children,at_iff.mpr (.inr ⟨?_,there⟩),child⟩
    -- Whoever asked for what is still under way cannot be the task that ends.
    rintro rfl
    obtain ⟨r',found⟩ := below own children (there.unique here).2.symm m child
    obtain ⟨s,found',unfinished⟩ := before
    rw [found'.outcome?_eq_none unfinished] at found
    cases found
  case leaves =>
    intro s there
    rw [registry_setStage]
    rcases at_iff.mp there with ⟨rfl,-,rfl⟩ | ⟨ne,before⟩
    · exact mine rfl
    · exact other (Ne.symm ne) before

/-- What stands at the front of the registry while a task of the push is under way. -/
theorem Pushing.registered (pushing : g.Pushing base x before) (opened : g.Open n id) (i : ModuleId)
    (absent : g.registry.get? i = none) : before.get? i = none ∧ (n ≠ base → i ≠ x) := by
  by_cases root : n = base
  · subst root
    obtain ⟨s,here,unfinished⟩ := opened
    obtain ⟨s',here'⟩ := pushing.root
    obtain ⟨rfl,rfl⟩ := here.unique here'
    have leaves := pushing.leaves here
    cases s with
    | awaiting own children =>
      refine ⟨?_,fun ne => absurd rfl ne⟩
      have gone := Registry.Leads.absent leaves absent
      rw [Registry.get?_insert] at gone
      split at gone
      · cases gone
      · exact gone
    | done r => exact absurd trivial unfinished
    | _ =>
      have same : g.registry = before := leaves
      exact ⟨same ▸ absent,fun ne => absurd rfl ne⟩
  · obtain ⟨own,children,here⟩ := pushing.awaits opened root
    have gone := Registry.Leads.absent (pushing.leaves here) absent
    rw [Registry.get?_insert] at gone
    split at gone
    · cases gone
    · rename_i ne
      refine ⟨gone,?_⟩
      rintro - rfl
      exact ne (pushing.waiting here).1

/-- The task of the push is of the module that is pushed. -/
theorem Pushing.same (pushing : g.Pushing base x before) (here : g.At base id stage) : id = x := by
  obtain ⟨s,there⟩ := pushing.root
  exact (here.unique there).1

section

variable {own : Commit} {children : List Nat}

/-- Another task that is under way below the push is of another module. -/
theorem Pushing.lone (pushing : g.Pushing base x before) (opened : g.Open n id) {m : Nat} {i : ModuleId} {s : Stage σ}
    (ne : m ≠ n) (below : m ≠ base) (there : g.At m i s) (unfinished : ¬ s.Finished) : i ≠ id := by
  rintro rfl
  obtain ⟨listed,other,-⟩ := pushing.nested ⟨s,there,unfinished⟩ below
  by_cases root : n = base
  · subst root
    obtain ⟨s',here,-⟩ := opened
    exact other (pushing.same here)
  · exact ne (pushing.once listed (pushing.nested opened root).1)

/-- What is missing once a module is registered is neither the pushed module nor one that was registered. -/
theorem Pushing.missing_entered (pushing : g.Pushing base x before) (opened : g.Open n own.version.id)
    (entered : Entered g after n own children) {i : ModuleId} (absent : after.registry.get? i = none) :
    i ≠ x ∧ before.get? i = none := by
  obtain ⟨ne,absent⟩ := entered.absent absent
  obtain ⟨old,other⟩ := pushing.registered opened i absent
  refine ⟨?_,old⟩
  rintro rfl
  by_cases root : n = base
  · subst root
    obtain ⟨s,here,-⟩ := opened
    exact ne (pushing.same here).symm
  · exact other root rfl

/-- Whoever is waited for once a module is registered was asked for below the push. -/
theorem Pushing.children_entered (pushing : g.Pushing base x before) (opened : g.Open n own.version.id)
    (entered : Entered g after n own children) {m : Nat} {i : ModuleId} {own' : Commit} {children' : List Nat} {c : Nat}
    (there : after.At m i (.awaiting own' children')) (child : c ∈ children') : base < c := by
  rcases entered.awaiting there with ⟨-,-,rfl,rfl⟩ | ⟨-,old⟩
  · obtain ⟨j,-,absent,member⟩ := entered.below c child
    rcases entered.listed member with before | ⟨beyond,-⟩
    · have open_ := pushing.listed before
      refine pushing.late open_ ?_
      rintro rfl
      obtain ⟨s',there',-⟩ := open_
      exact (pushing.missing_entered opened entered absent).1 (pushing.same there')
    · obtain ⟨s,mine⟩ := pushing.root
      exact Nat.lt_of_lt_of_le mine.lt beyond
  · exact pushing.children old child

/-- What a commit takes the place of, by its task. -/
theorem Pushing.previous_entered (pushing : g.Pushing base x before) (here : g.At n id stage) (start : stage.Early)
    (previous : stage.Replaces own.previous) : own.previous = if n = base then before.get? x else none := by
  split
  · rename_i root
    subst root
    obtain rfl := pushing.same here
    exact pushing.drafted here previous
  · rename_i below
    cases replaced : own.previous with
    | none => rfl
    | some v => exact absurd (replaced ▸ previous) ((pushing.fresh here start below).2 v)

/-- The new module goes behind what the push has left at the front. -/
theorem Pushing.leaves_entered (pushing : g.Pushing base x before) (here : g.At n own.version.id stage)
    (start : stage.Early) (entered : Entered g after n own children) {s : Stage σ} (there : after.At base x s)
    (old : n ≠ base → g.At base x s) : s.Leaves before x after.registry := by
  by_cases root : n = base
  · subst root
    obtain rfl := (there.unique entered.here).2
    have untouched := (Stage.leaves_early start).mp (pushing.leaves (pushing.same here ▸ here))
    show (before.insert own.version).Leads after.registry
    rw [entered.registry,untouched]
    exact .refl _
  · obtain ⟨own',children',awaits⟩ := pushing.awaits ⟨stage,here,start.unfinished⟩ root
    obtain ⟨-,rfl⟩ := (old root).unique awaits
    have leads : (before.insert own'.version).Leads g.registry := pushing.leaves awaits
    show (before.insert own'.version).Leads after.registry
    rw [entered.registry]
    exact leads.trans (Registry.leads_insert (pushing.fresh here start root).1)

/-- A module is registered. -/
theorem Pushing.enter (pushing : g.Pushing base x before) (here : g.At n id stage) (start : stage.Early)
    (same : own.version.id = id) (previous : stage.Replaces own.previous) (entered : Entered g after n own children) :
    after.Pushing base x before := by
  subst same
  have opened : g.Open n own.version.id := ⟨stage,here,start.unfinished⟩
  have mineOld : ∀ {s}, after.At base x s → n ≠ base → g.At base x s := by
    intro s there ne
    rcases entered.new (Ne.symm ne) there with old | ⟨late,-⟩
    · exact old
    · obtain ⟨s',before⟩ := pushing.root
      have := before.lt
      omega
  constructor
  case root =>
    obtain ⟨s,there⟩ := pushing.root
    by_cases root : base = n
    · subst root
      exact ⟨_,pushing.same here ▸ entered.here⟩
    · exact ⟨s,entered.old root there⟩
  case listed => exact entered.open_of_listed here pushing.listed
  case once => exact fun one other => entered.listed_once pushing.once one other
  case nested =>
    intro m i open_ below
    rcases entered.open_cases opened open_ with old | ⟨-,-,member,-,absent⟩
    · obtain ⟨listed,others⟩ := pushing.nested old below
      exact ⟨entered.kept listed,others⟩
    · exact ⟨member,pushing.missing_entered opened entered absent⟩
  case fresh =>
    intro m i s there early below
    have ne := entered.ne_of_early early there
    rcases entered.new ne there with old | ⟨-,rfl,-,-,-,absent⟩
    · obtain ⟨absent,new⟩ := pushing.fresh old early below
      exact ⟨(entered.get?_of_ne (pushing.lone opened ne below old early.unfinished)).trans absent,new⟩
    · exact ⟨absent,fun v replaces => replaces.elim⟩
  case drafted =>
    intro s previous there replaces
    by_cases root : n = base
    · subst root
      rw [(there.unique entered.here).2] at replaces
      exact replaces.elim
    · exact pushing.drafted (mineOld there root) replaces
  case waiting =>
    intro m i own' children' there
    rcases entered.awaiting there with ⟨rfl,rfl,rfl,-⟩ | ⟨-,old⟩
    · exact ⟨rfl,pushing.previous_entered here start previous⟩
    · exact pushing.waiting old
  case committed => exact fun late outcome => pushing.committed late (entered.outcome? outcome)
  case children => exact fun there child => pushing.children_entered opened entered there child
  case asked =>
    intro m i open_ below
    rcases entered.open_cases opened open_ with old | ⟨beyond,child,-⟩
    · obtain ⟨k,less,j,own',children',waits,child⟩ := pushing.asked old below
      exact ⟨k,less,j,own',children',(entered.at_late here start waits fun early => early).2,child⟩
    · exact ⟨n,Nat.lt_of_lt_of_le here.lt beyond,_,own,children,entered.here,child⟩
  case leaves => exact fun there => pushing.leaves_entered here start entered there (mineOld there)

end

/-- What a task gets to know from those it waited for are commits of modules that were not registered. -/
theorem Pushing.below (pushing : g.Pushing base x before) {own : Commit} {children : List Nat}
    (here : g.At n id (.awaiting own children)) {outcomes : List Compiled}
    (all : children.mapM g.outcome? = some outcomes) {c : Commit} (member : c ∈ commits outcomes) :
    c.previous = none ∧ c.version.id ≠ x ∧ before.get? c.version.id = none := by
  obtain ⟨cs,ok,inside⟩ := mem_commits_iff.mp member
  obtain ⟨k,child,outcome⟩ := (mem_outcomes_iff all).mp ok
  exact pushing.committed (pushing.children here child) outcome inside

/-- A version is taken back. -/
theorem Pushing.rollback (pushing : g.Pushing base x before) {own : Commit} {children : List Nat}
    (here : g.At n id (.awaiting own children)) {outcomes : List Compiled}
    (all : children.mapM g.outcome? = some outcomes) (e : CompileError) :
    ({ g with registry := own.rollback (commits outcomes) g.registry }.setStage n (.done (.error e))).Pushing
      base x before := by
  obtain ⟨same,previous⟩ := pushing.waiting here
  have opened : g.Open n id := ⟨_,here,fun finished => finished⟩
  have formed : own.WellFormed := by
    intro v found
    rw [previous] at found
    split at found
    · rename_i root
      subst root
      obtain ⟨s,there⟩ := pushing.root
      rw [same,(here.unique there).1]
      exact Registry.get?_id found
    · cases found
  have new := fun c member => (pushing.below here all (c := c) member).1
  refine pushing.finish here { g with registry := own.rollback (commits outcomes) g.registry } rfl rfl _
    (fun absent => Commit.rollback_absent formed (fun c member => Commit.wellFormed_of_new (new c member)) absent)
    nofun ?_ ?_ ?_
  · intro own' children' equal c child
    cases equal
    obtain ⟨r,-,found⟩ := exists_outcome all child
    exact ⟨r,found⟩
  · -- The version that the push made is still there, and gives its place to the one that was there before.
    rintro rfl
    obtain ⟨s,there⟩ := pushing.root
    obtain ⟨rfl,-⟩ := here.unique there
    rw [if_pos rfl] at previous
    have leads : (before.insert own.version).Leads g.registry := pushing.leaves here
    have current : g.registry.isCurrent own.version = true :=
      Registry.isCurrent_of_get? (leads.get? (Registry.get?_insert_self before own.version))
    refine Commit.rollback_induction (Q := fun r => before.Leads r ∧ (before.get? id = none → r.get? id = none)) ?_ ?_
    · rw [Commit.revert,if_pos current]
      cases old : before.get? id with
      | none =>
        rw [previous,old]
        refine ⟨((Registry.leads_insert (same ▸ old)).trans leads).erase (same ▸ old),fun _ => ?_⟩
        rw [Registry.get?_erase,if_pos same.symm]
      | some v =>
        rw [previous,old]
        exact ⟨leads.restore (same ▸ old),nofun⟩
    · intro c member r kept
      obtain ⟨new,other,absent⟩ := pushing.below here all member
      refine ⟨Commit.leads_prune new absent kept.1,fun gone => ?_⟩
      rw [Commit.get?_prune (Commit.wellFormed_of_new new),if_neg fun both => other both.2.symm]
      exact kept.2 gone
  · -- What is taken back was added by the reads below the push.
    intro ne s there
    obtain ⟨own',children',awaits⟩ := pushing.awaits opened ne
    obtain ⟨-,rfl⟩ := there.unique awaits
    obtain ⟨-,other,absent⟩ := pushing.nested opened ne
    rw [if_neg ne] at previous
    have missing : ∀ {i}, i ≠ x → before.get? i = none → (before.insert own'.version).get? i = none := by
      intro i other absent
      rw [Registry.get?_insert_of_ne]
      · exact absent
      · exact fun equal => other (equal.symm.trans (pushing.waiting there).1)
    refine Commit.rollback_induction (Q := fun r => (before.insert own'.version).Leads r) ?_ ?_
    · have leads : (before.insert own'.version).Leads g.registry := pushing.leaves there
      rw [Commit.revert]
      split
      · rw [previous]
        exact leads.erase (missing (same ▸ other) (same ▸ absent))
      · exact leads
    · intro c member r leads
      obtain ⟨new,other,absent⟩ := pushing.below here all member
      exact Commit.leads_prune new (missing other absent) leads

/-- Every step. -/
theorem Pushing.step (pushing : g.Pushing base x before) (tools : Toolchain σ) (n : Nat) :
    (g.step tools n).Pushing base x before := by
  by_cases bound : n < g.tasks.length
  · obtain ⟨id,stage,here⟩ := exists_at bound
    have turn := step_turn tools here
    have mine : n = base → g.At base x stage := by
      rintro rfl
      obtain ⟨s,there⟩ := pushing.root
      exact (there.unique here).1 ▸ here
    generalize g.step tools n = after at turn
    cases turn with
    | early start goes drafted => exact pushing.advance here start goes _ drafted.replaces
    | @failed _ e layer start =>
      refine pushing.finish here { g with layer } rfl rfl _ (fun absent => absent) nofun ?_ ?_
        fun _ _ there => pushing.leaves there
      · rintro own children rfl
        exact start.elim
      · intro root
        have untouched := (Stage.leaves_early start).mp (pushing.leaves (mine root))
        show before.Leads g.registry ∧ (before.get? x = none → g.registry.get? x = none)
        rw [untouched]
        exact ⟨.refl _,fun absent => absent⟩
    | @kept _ v layer start =>
      refine pushing.finish here { g with layer } rfl rfl _ (fun absent => absent) ?_ ?_ (fun _ => trivial)
        fun _ _ there => pushing.leaves there
      · intro cs equal _ c member
        cases equal
        cases member
      · rintro own children rfl
        exact start.elim
    | @registered _ draft layer own start drafts _ same previous =>
      obtain ⟨children,entered⟩ := entered_spec here same layer
      exact pushing.enter here start same (Stage.replaces_iff.mpr ⟨draft,drafts,previous.symm⟩) entered
    | waiting => exact pushing
    | @settled own children outcomes all good =>
      have ended : ∀ own' children', (.awaiting own children : Stage σ) = .awaiting own' children' →
          ∀ c ∈ children', ∃ r, g.outcome? c = some r := by
        intro own' children' equal c child
        cases equal
        obtain ⟨r,-,found⟩ := exists_outcome all child
        exact ⟨r,found⟩
      obtain ⟨same,previous⟩ := pushing.waiting here
      refine pushing.finish here { g with registry := g.tidied own } rfl rfl _
        (fun absent => get?_tidied_eq_none absent) ?_ ended (fun _ => trivial) ?_
      · intro cs equal late c member
        cases equal
        rcases List.mem_cons.mp member with rfl | below
        · have ne : n ≠ base := Nat.ne_of_gt late
          obtain ⟨-,other,absent⟩ := pushing.nested ⟨_,here,fun finished => finished⟩ ne
          rw [if_neg ne] at previous
          exact ⟨previous,same ▸ other,same ▸ absent⟩
        · exact pushing.below here all below
      · intro ne s there
        rw [if_neg ne] at previous
        have untouched : g.tidied own = g.registry := by rw [tidied,previous]
        show s.Leaves before x (g.tidied own)
        rw [untouched]
        exact pushing.leaves there
    | @rolledBack own children outcomes e all bad => exact pushing.rollback here all e
    | @ended r =>
      refine pushing.congr (tasks_setStage_same here) ?_ registry_setStage
      rw [inFlight_setStage_done]
      refine List.filter_eq_self.mpr ?_
      rintro ⟨i,m⟩ member
      simp only [bne_iff_ne,ne_eq]
      rintro rfl
      obtain ⟨s,there,unfinished⟩ := pushing.listed member
      exact unfinished ((there.unique here).2 ▸ trivial)
  · rw [step_none tools (List.getElem?_eq_none (Nat.le_of_not_lt bound))]
    exact pushing

/-- The stage of a push that has ended. -/
theorem Pushing.at_ended (pushing : g.Pushing base x before) {r : Compiled} (outcome : g.outcome? base = some r) :
    g.At base x (.done r) := by
  obtain ⟨i,there⟩ := outcome?_iff.mp outcome
  obtain ⟨s,mine⟩ := pushing.root
  obtain ⟨rfl,rfl⟩ := there.unique mine
  exact there

/-- Once the push has failed. -/
theorem Pushing.failed (pushing : g.Pushing base x before) {e : CompileError}
    (outcome : g.outcome? base = some (.error e)) :
    before.Leads g.registry ∧ (before.get? x = none → g.registry.get? x = none) :=
  pushing.leaves (pushing.at_ended outcome)

/-- Where one task sets out, being the last one, its push begins. -/
theorem Setout.pushing (setout : g.Setout n id stage) (last : g.tasks.length = n + 1) :
    g.Pushing n id g.registry := by
  have waits : ∀ {m i own children}, ¬ g.At m i (.awaiting own children) := by
    intro m i own children there
    by_cases mine : m = n
    · subst mine
      have start := setout.start
      rw [← (there.unique setout.here).2] at start
      exact start
    · exact setout.others mine there
  constructor
  case root => exact ⟨stage,setout.here⟩
  case listed =>
    intro m i member
    obtain ⟨rfl,rfl⟩ := setout.listed member
    exact ⟨stage,setout.here,setout.start.unfinished⟩
  case once =>
    intro i m k one other
    rw [(setout.listed one).1,(setout.listed other).1]
  case nested => exact fun opened below => absurd (setout.alone opened) below
  case fresh => exact fun there early below => absurd (setout.others below there) early.unfinished
  case drafted =>
    intro s previous there replaces
    obtain ⟨-,rfl⟩ := there.unique setout.here
    exact setout.drafted previous replaces
  case waiting => exact fun there => (waits there).elim
  case committed =>
    intro m cs c late outcome
    obtain ⟨i,there⟩ := outcome?_iff.mp outcome
    have := there.lt
    omega
  case children => exact fun there => (waits there).elim
  case asked => exact fun opened below => absurd (setout.alone opened) below
  case leaves =>
    intro s there
    obtain ⟨-,rfl⟩ := there.unique setout.here
    exact (Stage.leaves_early setout.start).mpr rfl

/-! ## Operations that fail -/

/-- The task that a push or a read of one file starts with. -/
def Request.task? (tools : Toolchain σ) (g : Graph σ) : Request → Option (Nat × Graph σ)
  | .compile => none
  | .read path => (tools.root.toId path).toOption.map g.join
  | .push path contents => (tools.root.toId path).toOption.map fun id => g.start id (.given contents)

/-- What was registered in one graph is registered in the other one, in the same versions and in the same
order, and a file is registered in it only if it was before. -/
structure Unharmed (tools : Toolchain σ) (path : Path) (g g' : Graph σ) : Prop where
  versions : ∀ {id v}, g.registry.get? id = some v → g'.registry.get? id = some v
  order : g.registry.ids <+: g'.registry.ids
  file : ∀ {id}, tools.root.toId path = .ok id → g.registry.get? id = none → g'.registry.get? id = none

variable {tools : Toolchain σ} {path : Path} {r : Request}

theorem Resting.pushing (resting : g.Resting) (asks : r = .read path ∨ ∃ contents, r = .push path contents)
    (starts : r.task? tools g = some (n,after)) :
    ∃ id, tools.root.toId path = .ok id ∧ after.Pushing n id g.registry := by
  rcases asks with rfl | ⟨contents,rfl⟩
  · cases found : tools.root.toId path with
    | error e => simp [Request.task?,found,Except.toOption] at starts
    | ok id =>
      have same : g.join id = (n,after) := by simpa [Request.task?,found,Except.toOption] using starts
      have joined : g.join id = (g.tasks.length,
          { g with tasks := g.tasks ++ [⟨id,.reading⟩], inFlight := g.inFlight ++ [(id,g.tasks.length)] }) := by
        rw [join,show g.inFlight.lookup id = none by rw [resting.idle]; rfl]
        rfl
      have setout := resting.setout_join id
      rw [joined] at same setout
      cases same
      exact ⟨id,rfl,setout.pushing List.length_append⟩
  · cases found : tools.root.toId path with
    | error e => simp [Request.task?,found,Except.toOption] at starts
    | ok id =>
      have same : g.start id (.given contents) = (n,after) := by
        simpa [Request.task?,found,Except.toOption] using starts
      have setout := resting.setout_start id contents
      rw [same] at setout
      cases same
      exact ⟨id,rfl,setout.pushing List.length_append⟩

theorem Pushing.unharmed (pushing : after.Pushing n id g.registry) (found : tools.root.toId path = .ok id)
    {e : CompileError} (outcome : after.outcome? n = some (.error e)) : Unharmed tools path g after := by
  obtain ⟨leads,absent⟩ := pushing.failed outcome
  refine ⟨leads.get?,List.IsPrefix.map Version.id leads,fun found' gone => ?_⟩
  rw [found] at found'
  cases found'
  exact absent gone

/-- The rounds of a call that is one task. -/
theorem rounds_task {Q : Graph σ → Prop} (tick : ∀ {g}, Q g → Q g.tick)
    (step : ∀ {g} n, Q g → Q (g.step tools n)) (limit : Nat) {g : Graph σ} (now : Q g) :
    (rounds tools limit g [.under [.task n]]).1 = [.under [.task n]] ∧
      Q (rounds tools limit g [.under [.task n]]).2 := by
  induction limit generalizing g with
  | zero => exact ⟨rfl,now⟩
  | succ limit ih =>
    rw [rounds]
    split
    · exact ⟨rfl,now⟩
    · exact ih (carry_of_step step tools.fuel n (tick now))

/-- The first round of a push or a read. -/
theorem rounds_asked (asks : r = .read path ∨ ∃ contents, r = .push path contents) (limit : Nat) (g : Graph σ) :
    (∃ n after, r.task? tools g.tick = some (n,after) ∧ rounds tools (limit + 1) g [.asked r] =
        rounds tools limit (carry tools tools.fuel after n) [.under [.task n]]) ∨
      ∃ e, rounds tools (limit + 1) g [.asked r] = ([.refused e],g.tick) := by
  have refused : ∀ {e}, g.tick.begin tools r = (.refused e,g.tick) →
      rounds tools (limit + 1) g [.asked r] = ([.refused e],g.tick) := by
    intro e begun
    cases limit <;> simp [rounds,result?,pollAll,poll,begun]
  rcases asks with rfl | ⟨contents,rfl⟩
  · cases found : tools.root.toId path with
    | error e => exact .inr ⟨e,refused (by simp only [begin,found])⟩
    | ok id =>
      refine .inl ⟨(g.tick.join id).1,(g.tick.join id).2,by simp [Request.task?,found,Except.toOption],?_⟩
      rw [rounds,if_neg (by simp [result?])]
      simp only [pollAll,poll,begin,found,pollItems]
  · cases found : tools.root.toId path with
    | error e => exact .inr ⟨e,refused (by simp only [begin,found])⟩
    | ok id =>
      refine .inl ⟨(g.tick.start id (.given contents)).1,(g.tick.start id (.given contents)).2,
        by simp [Request.task?,found,Except.toOption],?_⟩
      rw [rounds,if_neg (by simp [result?])]
      simp only [pollAll,poll,begin,found,pollItems]

/-- A push or a read that fails, with nothing else under way, leaves what was registered, whatever the
schedule does in its course. -/
theorem failure_keeps (resting : g.Resting) (asks : r = .read path ∨ ∃ contents, r = .push path contents) :
    (∀ {n start events e}, r.task? tools g = some (n,start) → (∀ event ∈ events, Event.Within [] event) →
      (history tools start events).outcome? n = some (.error e) →
      Unharmed tools path g (history tools start events)) ∧
    ∀ {limit c g' e}, rounds tools limit g [.asked r] = ([c],g') → g'.result? c = some (.error e) →
      Unharmed tools path g g' := by
  constructor
  · intro n start events e starts within outcome
    obtain ⟨id,found,pushing⟩ := resting.pushing asks starts
    have through : ∀ {events : List Event} {g' : Graph σ}, (∀ event ∈ events, event.Within []) →
        g'.Pushing n id g.registry → (history tools g' events).Pushing n id g.registry := by
      intro events
      induction events with
      | nil => exact fun _ now => now
      | cons event events ih =>
        intro g' within now
        refine ih (fun event' member => within event' (List.mem_cons_of_mem _ member)) ?_
        cases event with
        | tick => exact now.congr rfl rfl rfl
        | step m => exact now.step tools m
        | join i => exact absurd (within (.join i) List.mem_cons_self) List.not_mem_nil
    exact (through within pushing).unharmed found outcome
  · intro limit c g' e ran failed
    cases limit with
    | zero =>
      cases ran
      cases failed
    | succ limit =>
      rcases @rounds_asked σ tools path r asks limit g with ⟨n,start,starts,same⟩ | ⟨e',same⟩
      · have ticked : g.tick.Resting := ⟨resting.stamped,resting.finished,resting.idle⟩
        obtain ⟨id,found,pushing⟩ := ticked.pushing asks starts
        have step : ∀ {g' : Graph σ} (m : Nat), g'.Pushing n id g.registry → (g'.step tools m).Pushing n id g.registry :=
          fun m now => now.step tools m
        obtain ⟨call,now⟩ := rounds_task (n := n) (fun now => now.congr rfl rfl rfl) step limit
          (carry_of_step step tools.fuel n pushing)
        rw [← same,ran] at call now
        cases call
        refine Pushing.unharmed (g := g) (e := e) now found ?_
        rw [result?_under_eq] at failed
        obtain ⟨outcomes,all,answer⟩ := Option.bind_eq_some_iff.mp failed
        obtain ⟨r,inside,mine⟩ := exists_of_mapM all List.mem_cons_self
        cases bad : firstError outcomes with
        | none => simp [bad] at answer
        | some e' =>
          obtain ⟨item,member,there⟩ := (mem_of_mapM all).mp (mem_of_firstError bad)
          obtain rfl := List.mem_singleton.mp member
          have equal : e' = e := by simpa [bad] using answer
          exact equal ▸ there
      · rw [same] at ran
        cases ran
        exact ⟨fun found => found,List.prefix_refl _,fun _ absent => absent⟩

/-- Registered are `a`, which needs `c`, and `c`. -/
def paired : Graph (List (ModuleId × String)) where
  layer := { env := ring }
  entries := [Letter.a]
  registry := {
    versions := [⟨0,{ id := Letter.a, sources := "c", contents := "c", imports := [Letter.c] }⟩,
      ⟨1,{ id := Letter.c, sources := "", contents := "" }⟩]
    nodup := by decide }
  stamps := 2

theorem resting_paired : paired.Resting := by
  refine ⟨fun {i v} found => ?_,fun there => by simp [paired,At] at there,rfl⟩
  have young : ∀ v ∈ paired.registry.versions, v.stamp < paired.stamps := by decide
  exact young v (List.mem_of_find?_eq_some found)

/-- The new version of `a` needs `b`, which gets compiled, and `d`, which there is not. -/
theorem failure_keeps_paired :
    (∃ g' e, rounds (letterTools slowly 20) 10 paired [.asked (.push ⟨"a"⟩ "bd")] = ([.under [.task 0]],g') ∧
      g'.result? (.under [.task 0]) = some (.error e) ∧ g'.registry.contains Letter.b = true ∧
      Unharmed (letterTools slowly 20) ⟨"a"⟩ paired g') ∧
    ∃ g' e, history (letterTools slowly 20) (paired.start Letter.a (.given "bd")).2
        [.step 0,.step 0,.step 0,.step 0,.step 2,.step 1,.step 1,.tick,.tick,.step 1,.step 1,.tick,.tick,
          .step 1,.step 1,.step 0] = g' ∧ g'.outcome? 0 = some (.error e) ∧
      Unharmed (letterTools slowly 20) ⟨"a"⟩ paired g' := by
  obtain ⟨schedules,ends⟩ := @failure_keeps _ paired (letterTools slowly 20) ⟨"a"⟩
    (.push ⟨"a"⟩ "bd") resting_paired (.inr ⟨"bd",rfl⟩)
  constructor
  · obtain ⟨g',ran,failed,present⟩ : ∃ g', rounds (letterTools slowly 20) 10 paired [.asked (.push ⟨"a"⟩ "bd")] =
        ([.under [.task 0]],g') ∧ (g'.result? (.under [.task 0])).map Except.isOk = some false ∧
        g'.registry.contains Letter.b = true :=
      exists_snd (by decide +kernel) ⟨by decide +kernel,by decide +kernel⟩
    obtain ⟨result,returned,bad⟩ := Option.map_eq_some_iff.mp failed
    cases result with
    | ok => cases bad
    | error e => exact ⟨g',e,ran,returned,present,ends ran returned⟩
  · have failed : ((history (letterTools slowly 20) (paired.start Letter.a (.given "bd")).2
        [.step 0,.step 0,.step 0,.step 0,.step 2,.step 1,.step 1,.tick,.tick,.step 1,.step 1,.tick,.tick,
          .step 1,.step 1,.step 0]).outcome? 0).map Except.isOk = some false := by decide +kernel
    obtain ⟨result,returned,bad⟩ := Option.map_eq_some_iff.mp failed
    cases result with
    | ok => cases bad
    | error e => exact ⟨_,e,rfl,returned,schedules rfl (by decide) returned⟩

end Graph

end Bundling
