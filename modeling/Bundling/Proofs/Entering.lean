import Bundling.Proofs.Joining
import Bundling.Proofs.Walk

/-!
# Registering a module

When a module is registered, its task waits for the reads of what is missing, new ones or such as were under way
(`Graph.Entered`). All else stays as it was.
-/

namespace Bundling

namespace Graph

variable {σ : Type}

/-- The graph with a new version registered. -/
def staged (g : Graph σ) (layer : Resolution.State σ) (own : Commit) : Graph σ :=
  { g with layer, registry := g.registry.insert own.version, stamps := g.stamps + 1 }

/-- The imports of a version that are not registered. -/
def missing (g : Graph σ) (own : Commit) : List ModuleId :=
  own.version.body.imports.filter fun i => !g.registry.contains i

/-- Once a module has been registered, its task waits for what is missing. -/
def enters (g : Graph σ) (layer : Resolution.State σ) (own : Commit) : Stage σ × Graph σ :=
  (.awaiting own ((g.staged layer own).joinAll ((g.staged layer own).missing own)).1,
    ((g.staged layer own).joinAll ((g.staged layer own).missing own)).2)

/-- The graph in which a task has registered its module. -/
def entered (g : Graph σ) (layer : Resolution.State σ) (n : Nat) (own : Commit) : Graph σ :=
  (g.enters layer own).2.setStage n (g.enters layer own).1

/-- What registering a module has made of a graph: the task of the module waits for tasks, new ones
or such as were under way, one for each import that is not registered. -/
structure Entered (g g' : Graph σ) (n : Nat) (own : Commit) (children : List Nat) : Prop where
  registry : g'.registry = g.registry.insert own.version
  stamps : g'.stamps = g.stamps + 1
  entries : g'.entries = g.entries
  hooks : g'.hooks = g.hooks
  longer : g.tasks.length ≤ g'.tasks.length
  here : g'.At n own.version.id (.awaiting own children)
  old : ∀ {m i s}, m ≠ n → g.At m i s → g'.At m i s
  new : ∀ {m i s}, m ≠ n → g'.At m i s → g.At m i s ∨
    (g.tasks.length ≤ m ∧ s = .reading ∧ m ∈ children ∧ (i,m) ∈ g'.inFlight ∧
      i ∈ own.version.body.imports ∧ g'.registry.get? i = none)
  kept : ∀ {m i}, (i,m) ∈ g.inFlight → (i,m) ∈ g'.inFlight
  listed : ∀ {m i}, (i,m) ∈ g'.inFlight → (i,m) ∈ g.inFlight ∨
    (g.tasks.length ≤ m ∧ m ≠ n ∧ g'.At m i .reading ∧ ∀ k, (i,k) ∉ g.inFlight)
  once : ∀ {i m k}, (i,m) ∈ g'.inFlight → (i,k) ∈ g'.inFlight →
    (i,m) ∈ g.inFlight ∨ (i,k) ∈ g.inFlight ∨ m = k
  below : ∀ c ∈ children, ∃ i ∈ own.version.body.imports,
    g'.registry.get? i = none ∧ (i,c) ∈ g'.inFlight
  covered : ∀ i ∈ own.version.body.imports, g'.registry.get? i = none →
    ∃ c ∈ children, (i,c) ∈ g'.inFlight
  few : children.length ≤ own.version.body.imports.length

theorem length_joinAll (g : Graph σ) (ids : List ModuleId) : (g.joinAll ids).1.length = ids.length := by
  induction ids generalizing g with
  | nil => rfl
  | cons id ids ih => simp [joinAll,ih]

theorem layer_enters (g : Graph σ) (layer : Resolution.State σ) (own : Commit) : (g.enters layer own).2.layer = layer := by
  rw [enters,(grown_joinAll _ fun _ member => member).1.same]
  rfl

theorem layer_entered (g : Graph σ) (layer : Resolution.State σ) (n : Nat) (own : Commit) :
    (g.entered layer n own).layer = layer := by
  rw [entered,layer_setStage,layer_enters]

theorem entered_spec {g : Graph σ} {n : Nat} {id : ModuleId} {stage : Stage σ} (here : g.At n id stage)
    {own : Commit} (same : own.version.id = id) (layer : Resolution.State σ) :
    ∃ children, Entered g (g.entered layer n own) n own children := by
  let base := g.staged layer own
  have members : ∀ i ∈ base.missing own, i ∈ base.missing own := fun _ member => member
  obtain ⟨grown,children,covered⟩ := grown_joinAll base members
  generalize joined : base.joinAll (base.missing own) = result at grown children covered
  obtain ⟨ns,after⟩ := result
  have equal : g.entered layer n own = after.setStage n (.awaiting own ns) := by
    rw [entered,enters,joined]
  simp only at grown children covered
  have length : ns.length = (base.missing own).length := by
    have := length_joinAll base (base.missing own)
    rwa [joined] at this
  have going : ¬ (Stage.awaiting own ns : Stage σ).Finished := fun finished => finished
  have there : after.At n id stage := grown.old here
  have missing : ∀ i, i ∈ base.missing own ↔
      i ∈ own.version.body.imports ∧ after.registry.get? i = none := by
    intro i
    rw [show after.registry = base.registry by rw [grown.same],← Registry.not_contains_iff]
    simp [Graph.missing]
  rw [equal]
  refine ⟨ns,?_,?_,?_,?_,?_,?_,?_,?_,?_,?_,?_,?_,?_,?_⟩
  · rw [registry_setStage,grown.same]; rfl
  · rw [stamps_setStage,grown.same]; rfl
  · rw [entries_setStage,grown.same]; rfl
  · rw [hooks_setStage,grown.same]; rfl
  · rw [length_setStage]
    exact grown.longer
  · rw [same]
    exact at_setStage_self there
  · intro m i s other found
    exact (at_setStage_of_ne other).mpr (grown.old found)
  · intro m i s other found
    rcases grown.new ((at_setStage_of_ne other).mp found) with old | ⟨late,rfl,absent,member,new⟩
    · exact .inl old
    · obtain ⟨c,child,member'⟩ := covered i absent
      rcases grown.both_or_eq member member' with ⟨before,-⟩ | equal
      · exact absurd before (new m)
      · obtain ⟨imported,gone⟩ := (missing i).mp absent
        rw [inFlight_setStage going,registry_setStage]
        exact .inr ⟨late,rfl,equal ▸ child,member,imported,gone⟩
  · intro m i member
    rw [inFlight_setStage going]
    exact grown.kept member
  · intro m i member
    rw [inFlight_setStage going] at member
    rcases grown.listed member with before | ⟨late,reading,-,new⟩
    · exact .inl before
    · have other : m ≠ n := by
        have := here.lt
        have : base.tasks.length = g.tasks.length := rfl
        omega
      exact .inr ⟨late,other,(at_setStage_of_ne other).mpr reading,new⟩
  · intro i m k one other
    rw [inFlight_setStage going] at one other
    exact grown.once one other
  · intro c child
    obtain ⟨i,absent,member⟩ := children c child
    rw [registry_setStage,inFlight_setStage going]
    obtain ⟨imported,absent⟩ := (missing i).mp absent
    exact ⟨i,imported,absent,member⟩
  · intro i imported absent
    rw [registry_setStage] at absent
    obtain ⟨c,child,member⟩ := covered i ((missing i).mpr ⟨imported,absent⟩)
    exact ⟨c,child,by rwa [inFlight_setStage going]⟩
  · rw [length]
    exact List.length_filter_le _ _

section

variable {g g' : Graph σ} {n m : Nat} {id i : ModuleId} {stage s : Stage σ} {own own' : Commit}
  {children children' : List Nat} {r : Compiled}

theorem Entered.at_old (entered : Entered g g' n own children) (ne : m ≠ n) (other : s ≠ .reading)
    (there : g'.At m i s) : g.At m i s := by
  rcases entered.new ne there with before | ⟨-,reading,-⟩
  · exact before
  · exact absurd reading other

/-- The task that waits now is none of those whose modules are not registered, or that have ended. -/
theorem Entered.ne (entered : Entered g g' n own children) (other : ∀ own children, s ≠ .awaiting own children)
    (there : g'.At m i s) : m ≠ n := by
  rintro rfl
  exact other own children (there.unique entered.here).2

theorem Entered.ne_of_early (entered : Entered g g' n own children) (early : s.Early) (there : g'.At m i s) :
    m ≠ n := entered.ne early.ne_awaiting there

/-- Once a module is registered its task waits, and the others but for new reads are where they were. -/
theorem Entered.at_cases (entered : Entered g g' n own children) (other : s ≠ .reading) (there : g'.At m i s) :
    (m = n ∧ i = own.version.id ∧ s = .awaiting own children) ∨ (m ≠ n ∧ g.At m i s) := by
  by_cases ne : m = n
  · subst ne
    exact .inl ⟨rfl,there.unique entered.here⟩
  · exact .inr ⟨ne,entered.at_old ne other there⟩

theorem Entered.awaiting (entered : Entered g g' n own children) (there : g'.At m i (.awaiting own' children')) :
    (m = n ∧ i = own.version.id ∧ own' = own ∧ children' = children) ∨
      (m ≠ n ∧ g.At m i (.awaiting own' children')) := by
  rcases entered.at_cases (by simp) there with ⟨number,ids,equal⟩ | old
  · cases equal
    exact .inl ⟨number,ids,rfl,rfl⟩
  · exact .inr old

/-- Tasks whose modules were registered before, or that had ended, are where they were. -/
theorem Entered.at_late (entered : Entered g g' n own children) (here : g.At n id stage) (start : stage.Early)
    (there : g.At m i s) (late : ¬ s.Early) : m ≠ n ∧ g'.At m i s := by
  have ne : m ≠ n := by
    rintro rfl
    exact late ((there.unique here).2 ▸ start)
  exact ⟨ne,entered.old ne there⟩

theorem Entered.outcome? (entered : Entered g g' n own children) (found : g'.outcome? m = some r) :
    g.outcome? m = some r := by
  obtain ⟨i,there⟩ := outcome?_iff.mp found
  exact outcome?_iff.mpr ⟨i,entered.at_old (entered.ne (by simp) there) (by simp) there⟩

theorem Entered.get?_self (entered : Entered g g' n own children) : g'.registry.get? own.version.id = some own.version := by
  rw [entered.registry,Registry.get?_insert_self]

theorem Entered.get?_of_ne (entered : Entered g g' n own children) (other : i ≠ own.version.id) :
    g'.registry.get? i = g.registry.get? i := by
  rw [entered.registry,Registry.get?_insert_of_ne (Ne.symm other)]

theorem Entered.of_get? (entered : Entered g g' n own children) {v : Version} (found : g'.registry.get? i = some v) :
    (i = own.version.id ∧ v = own.version) ∨ (i ≠ own.version.id ∧ g.registry.get? i = some v) := by
  rw [entered.registry,Registry.get?_insert] at found
  split at found
  · rename_i equal
    exact .inl ⟨equal.symm,(Option.some.inj found).symm⟩
  · rename_i other
    exact .inr ⟨Ne.symm other,found⟩

theorem Entered.exists_get?_iff (entered : Entered g g' n own children) :
    (∃ v, g'.registry.get? i = some v) ↔ (∃ v, g.registry.get? i = some v) ∨ i = own.version.id := by
  rw [entered.registry,Registry.get?_insert]
  split
  · rename_i equal
    simp [equal]
  · rename_i other
    simp [Ne.symm other]

theorem Entered.absent (entered : Entered g g' n own children) (absent : g'.registry.get? i = none) :
    i ≠ own.version.id ∧ g.registry.get? i = none := by
  rw [entered.registry,Registry.get?_insert] at absent
  split at absent
  · cases absent
  · rename_i other
    exact ⟨Ne.symm other,absent⟩

/-- What was under way is. -/
theorem Entered.opened (entered : Entered g g' n own children) (here : g.At n own.version.id stage)
    (opened : g.Open m i) : g'.Open m i := by
  obtain ⟨s,there,unfinished⟩ := opened
  by_cases equal : m = n
  · subst equal
    obtain ⟨rfl,-⟩ := there.unique here
    exact ⟨_,entered.here,fun finished => finished⟩
  · exact ⟨s,entered.old equal there,unfinished⟩

/-- What is under way was before, or is a new read that the task waits for. -/
theorem Entered.open_cases (entered : Entered g g' n own children) (here : g.Open n own.version.id)
    (opened : g'.Open m i) : g.Open m i ∨ (g.tasks.length ≤ m ∧ m ∈ children ∧ (i,m) ∈ g'.inFlight ∧
      i ∈ own.version.body.imports ∧ g'.registry.get? i = none) := by
  obtain ⟨s,there,unfinished⟩ := opened
  by_cases equal : m = n
  · subst equal
    exact .inl ((there.unique entered.here).1 ▸ here)
  · rcases entered.new equal there with before | ⟨beyond,-,child,member,imported,absent⟩
    · exact .inl ⟨s,before,unfinished⟩
    · exact .inr ⟨beyond,child,member,imported,absent⟩

/-- Tasks that are listed are under way if they were before. -/
theorem Entered.open_of_listed (entered : Entered g g' n own children) (here : g.At n own.version.id stage)
    (before : ∀ {i m}, (i,m) ∈ g.inFlight → g.Open m i) (member : (i,m) ∈ g'.inFlight) : g'.Open m i := by
  rcases entered.listed member with old | ⟨-,-,reading,-⟩
  · exact entered.opened here (before old)
  · exact ⟨_,reading,fun finished => finished⟩

/-- No two tasks are listed for one module if none were before. -/
theorem Entered.listed_once (entered : Entered g g' n own children)
    (before : ∀ {i m k}, (i,m) ∈ g.inFlight → (i,k) ∈ g.inFlight → m = k) {k : Nat}
    (one : (i,m) ∈ g'.inFlight) (other : (i,k) ∈ g'.inFlight) : m = k := by
  rcases both_or_eq ((entered.listed one).imp_right (·.2.2.2)) ((entered.listed other).imp_right (·.2.2.2))
    (entered.once one other) with ⟨old,old'⟩ | equal
  · exact before old old'
  · exact equal

end

end Graph

end Bundling
