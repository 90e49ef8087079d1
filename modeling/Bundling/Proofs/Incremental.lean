import Bundling.Proofs.Full

/-!
# Edits and reads

Files are edited one after the other, and an edited file is read when its module is registered. If all
goes well, the graph is as if it had been compiled from nothing at the end (`Upheld`). While an edited
file is read, everything that is registered can be reached from the entries, or garbage is going to be
collected (`Renewing`): the edited module imports something else than before.
-/

namespace Bundling

namespace World

/-- The world after the text of a file has been replaced. -/
def edit (w : World) (id : ModuleId) (text : String) : World :=
  { w with files := w.files.map fun f => if f.1 = id then (id,text) else f }

theorem text?_edit_of_ne (w : World) {id i : ModuleId} (text : String) (other : i ≠ id) :
    (w.edit id text).text? i = w.text? i := by
  unfold text? edit
  induction w.files with
  | nil => rfl
  | cons f files ih =>
    obtain ⟨key,old⟩ := f
    rw [List.map_cons]
    by_cases edited : key = id
    · subst edited
      have differs : (i == key) = false := beq_eq_false_iff_ne.mpr other
      simp only [ite_true,List.lookup_cons,differs]
      exact ih
    · rw [if_neg edited]
      by_cases here : i = key
      · subst here
        simp
      · have differs : (i == key) = false := beq_eq_false_iff_ne.mpr here
        simp only [List.lookup_cons,differs]
        exact ih

/-- A module depends on no text but that of its file. -/
theorem compile?_congr {w w' : World} {id : ModuleId} (transform : w'.transform = w.transform)
    (resolve : w'.resolve = w.resolve) (text : w'.text? id = w.text? id) : w'.compile? id = w.compile? id := by
  simp only [compile?,transform,resolve,text]

theorem compile?_edit_of_ne (w : World) {id i : ModuleId} (text : String) (other : i ≠ id) :
    (w.edit id text).compile? i = w.compile? i := compile?_congr rfl rfl (text?_edit_of_ne w text other)

/-- Where a file is not below the roots, an edit of it makes no difference below them. -/
theorem reaches_edit_iff {w : World} {roots : List ModuleId} {id : ModuleId} (text : String)
    (apart : ¬ w.Reaches roots id) {i : ModuleId} : (w.edit id text).Reaches roots i ↔ w.Reaches roots i := by
  constructor
  · intro reached
    induction reached with
    | root member => exact .root member
    | @step j i m _ compiled member ih =>
      have other : j ≠ id := by
        rintro rfl
        exact apart ih
      rw [compile?_edit_of_ne w text other] at compiled
      exact .step ih compiled member
  · intro reached
    induction reached with
    | root member => exact .root member
    | @step j i m before compiled member ih =>
      have other : j ≠ id := by
        rintro rfl
        exact apart before
      rw [← compile?_edit_of_ne w text other] at compiled
      exact .step ih compiled member

end World

/-- A new module takes no way to another one away. -/
theorem Registry.reaches_insert_of_absent {r : Registry} {roots : List ModuleId} {id : ModuleId} {v : Version}
    (absent : r.get? v.id = none) (reached : r.Reaches roots id) : (r.insert v).Reaches roots id := by
  refine reached.mono fun j v' found => (get?_insert_of_ne ?_).trans found
  rintro rfl
  rw [absent] at found
  cases found

/-- A new version takes no way to its own module away. -/
theorem Registry.reaches_insert_self {r : Registry} {roots : List ModuleId} {v : Version}
    (reached : r.Reaches roots v.id) : (r.insert v).Reaches roots v.id := by
  have either : ∀ {i}, r.Reaches roots i → (r.insert v).Reaches roots i ∨ (r.insert v).Reaches roots v.id := by
    intro i reached
    induction reached with
    | root member => exact .inl (.root member)
    | @step j i v' _ found member ih =>
      rcases ih with here | there
      · by_cases equal : v.id = j
        · exact .inr (equal ▸ here)
        · exact .inl (.step here ((get?_insert_of_ne equal).trans found) member)
      · exact .inr there
  exact (either reached).elim (fun here => here) fun there => there

/-- What can be reached depends on imports only. -/
theorem Registry.reaches_insert {r : Registry} {roots : List ModuleId} {id : ModuleId} {old new : Version}
    (found : r.get? new.id = some old) (same : old.body.imports = new.body.imports) (reached : r.Reaches roots id) :
    (r.insert new).Reaches roots id := by
  induction reached with
  | root member => exact .root member
  | @step j i v _ found' member ih =>
    by_cases equal : new.id = j
    · subst equal
      obtain rfl := Option.some.inj (found.symm.trans found')
      exact .step ih (get?_insert_self r new) (same ▸ member)
    · exact .step ih ((get?_insert_of_ne equal).trans found') member

namespace Graph

variable {σ : Type}

/-- The version that is being made imports something else than the one that it replaces. -/
def Changes (own : Commit) : Prop :=
  ∃ old, own.previous = some old ∧ old.body.importsChanged own.version.body = true

/-- While the file of a registered module is read. -/
structure Renewing (base : Nat) (edited : ModuleId) (g : Graph σ) : Prop where
  entries : ∀ e ∈ g.entries, ∃ v, g.registry.get? e = some v
  /-- Garbage is collected when the read ends, or there is none. -/
  clean : (∀ id v, g.registry.get? id = some v → g.registry.Reaches g.entries id) ∨
    ∃ n own children, g.At n edited (.awaiting own children) ∧ Changes own
  drafted : ∀ {n s draft}, base ≤ n → g.At n edited s → s.draft? = some draft →
    ∃ v, draft.previous = some v ∧ g.registry.get? edited = some v
  replaces : ∀ {n own children}, base ≤ n → g.At n edited (.awaiting own children) → ∃ v, own.previous = some v
  stirred : ∀ {n own children}, base ≤ n → g.At n edited (.awaiting own children) → children ≠ [] → Changes own
  present : ∃ v, g.registry.get? edited = some v
  anchored : g.registry.Reaches g.entries edited

section

variable {tools : Toolchain σ} {P : σ → Prop} {w : World} {base young n : Nat} {outside : List Nat}
  {old : Registry} {edited : ModuleId} {g after : Graph σ} {id : ModuleId} {stage : Stage σ}

theorem tidied_of_not_changes {own : Commit} (same : ¬ Changes own) : g.tidied own = g.registry := by
  unfold tidied
  split
  · rename_i old previous
    split
    · rename_i changed
      exact absurd ⟨old,previous,changed⟩ same
    · rfl
  · rfl

theorem tidied_of_changes {own : Commit} (changes : Changes own) : g.tidied own = g.registry.collect g.entries := by
  obtain ⟨old,previous,changed⟩ := changes
  simp only [tidied,previous,changed,if_true]

/-- While the module that was asked for from outside is not registered, nothing else is on its way. -/
theorem Orderly.only (orderly : g.Orderly base young [edited] outside) (here : g.At n edited stage)
    (early : stage.Early) {m : Nat} {i : ModuleId} (opened : g.Open m i) : m = n := by
  induction m using Nat.strongRecOn generalizing i with
  | ind m ih =>
    rcases orderly.asked opened with ⟨-,root⟩ | ⟨k,less,j,own,children,there,-⟩
    · exact orderly.alone (List.mem_singleton.mp root ▸ opened) ⟨stage,here,early.unfinished⟩
    · obtain rfl := ih k less ⟨_,there,fun finished => finished⟩
      obtain ⟨-,equal⟩ := there.unique here
      exact (equal ▸ early : (Stage.awaiting own children : Stage σ).Early).elim

/-- While another module is read, the module that was asked for from outside waits. -/
theorem Orderly.exists_root (orderly : g.Orderly base young [edited] outside) {m : Nat} {i : ModuleId}
    (opened : g.Open m i) (other : i ≠ edited) :
    ∃ n own children, g.At n edited (.awaiting own children) ∧ children ≠ [] := by
  induction m using Nat.strongRecOn generalizing i with
  | ind m ih =>
    rcases orderly.asked opened with ⟨-,root⟩ | ⟨k,less,j,own,children,there,child,-⟩
    · exact absurd (List.mem_singleton.mp root) other
    · by_cases root : j = edited
      · exact ⟨k,own,children,root ▸ there,List.ne_nil_of_mem child⟩
      · exact ih k less ⟨_,there,fun finished => finished⟩ root

/-- A task goes on before its module is registered, or ends without one, or after all it waited for. -/
theorem Renewing.setStage (renewing : g.Renewing base edited) (here : g.At n id stage) (layer : Resolution.State σ) (registry : Registry)
    (same : registry = g.registry) {next : Stage σ} (quiet : ∀ own children, next ≠ .awaiting own children)
    (waited : ∀ own children, stage = .awaiting own children → id = edited → ¬ Changes own)
    (drafts : ∀ draft, next.draft? = some draft → stage.draft? = some draft ∨ draft.previous = g.registry.get? id) :
    (({ g with layer, registry }).setStage n next).Renewing base edited := by
  subst same
  have at_iff : ∀ {m i s}, (({ g with layer } : Graph σ).setStage n next).At m i s ↔
      (m = n ∧ i = id ∧ s = next) ∨ (m ≠ n ∧ g.At m i s) := at_setStage_after here (by rfl)
  constructor
  case entries =>
    rw [entries_setStage,registry_setStage]
    exact renewing.entries
  case clean =>
    rw [entries_setStage,registry_setStage]
    refine renewing.clean.imp_right ?_
    rintro ⟨m,own,children,there,changes⟩
    refine ⟨m,own,children,at_iff.mpr (.inr ⟨?_,there⟩),changes⟩
    rintro rfl
    obtain ⟨rfl,rfl⟩ := there.unique here
    exact waited own children rfl rfl changes
  case drafted =>
    intro m s draft late there known
    rw [registry_setStage]
    rcases at_iff.mp there with ⟨rfl,rfl,rfl⟩ | ⟨-,before⟩
    · rcases drafts draft known with before | registered
      · exact renewing.drafted late here before
      · obtain ⟨v,found⟩ := renewing.present
        exact ⟨v,registered.trans found,found⟩
    · exact renewing.drafted late before known
  case replaces =>
    intro m own children late there
    rcases at_iff.mp there with ⟨-,-,equal⟩ | ⟨-,before⟩
    · exact absurd equal.symm (quiet own children)
    · exact renewing.replaces late before
  case stirred =>
    intro m own children late there
    rcases at_iff.mp there with ⟨-,-,equal⟩ | ⟨-,before⟩
    · exact absurd equal.symm (quiet own children)
    · exact renewing.stirred late before
  case present =>
    rw [registry_setStage]
    exact renewing.present
  case anchored =>
    rw [entries_setStage,registry_setStage]
    exact renewing.anchored

/-- Nothing has changed that matters here. -/
theorem Renewing.congr (renewing : g.Renewing base edited) (tasks : after.tasks = g.tasks)
    (registry : after.registry = g.registry) (entries : after.entries = g.entries) : after.Renewing base edited := by
  have at_iff : ∀ {m i s}, after.At m i s ↔ g.At m i s := at_congr tasks
  constructor
  case entries =>
    rw [registry,entries]
    exact renewing.entries
  case clean =>
    rw [registry,entries]
    refine renewing.clean.imp_right ?_
    rintro ⟨m,own,children,there,changes⟩
    exact ⟨m,own,children,at_iff.mpr there,changes⟩
  case drafted =>
    intro m s draft late there known
    rw [registry]
    exact renewing.drafted late (at_iff.mp there) known
  case replaces => exact fun late there => renewing.replaces late (at_iff.mp there)
  case stirred => exact fun late there => renewing.stirred late (at_iff.mp there)
  case present => exact registry ▸ renewing.present
  case anchored =>
    rw [registry,entries]
    exact renewing.anchored

/-- The read is asked for from outside. -/
theorem Renewing.join (renewing : g.Renewing base edited) (root : ModuleId) :
    (g.join root).2.Renewing base edited := by
  have grown := (grown_join g (List.mem_singleton.mpr rfl : root ∈ [root])).1
  generalize (g.join root).2 = after at grown
  have before : ∀ {m i s}, after.At m i s → s ≠ .reading → g.At m i s := fun there other => grown.at_old other there
  have registry : after.registry = g.registry := by rw [grown.same]
  have entries : after.entries = g.entries := by rw [grown.same]
  constructor
  case entries =>
    rw [registry,entries]
    exact renewing.entries
  case clean =>
    rw [registry,entries]
    refine renewing.clean.imp_right ?_
    rintro ⟨m,own,children,there,changes⟩
    exact ⟨m,own,children,grown.old there,changes⟩
  case drafted =>
    intro m s draft late there known
    rw [registry]
    refine renewing.drafted late (before there ?_) known
    rintro rfl
    cases known
  case replaces => exact fun late there => renewing.replaces late (before there nofun)
  case stirred => exact fun late there => renewing.stirred late (before there nofun)
  case present => exact registry ▸ renewing.present
  case anchored =>
    rw [registry,entries]
    exact renewing.anchored

/-- The edited module is registered again. -/
theorem Renewing.enter_edited (renewing : g.Renewing base edited) (current : g.Current w base old)
    (orderly : g.Orderly base young [edited] outside) (late : base ≤ n) (here : g.At n edited stage)
    (early : stage.Early) {own : Commit} (same : own.version.id = edited) {draft : Draft}
    (known : stage.draft? = some draft) (previous : own.previous = draft.previous) {children : List Nat}
    (entered : Entered g after n own children) : after.Renewing base edited := by
  obtain ⟨v,replaced,found⟩ := renewing.drafted late here known
  have mine : after.At n edited (.awaiting own children) := same ▸ entered.here
  have found' : g.registry.get? own.version.id = some v := same.symm ▸ found
  have previous : own.previous = some v := previous.trans replaced
  have only : ∀ {m i s}, g.At m i s → ¬ s.Finished → m = n :=
    fun there unfinished => orderly.only here early ⟨_,there,unfinished⟩
  have before : ∀ {m s}, after.At m edited s → (m = n ∧ s = .awaiting own children) ∨ s.Finished ∨ s = .reading := by
    intro m s there
    by_cases equal : m = n
    · subst equal
      exact .inl ⟨rfl,(there.unique mine).2⟩
    · rcases entered.new equal there with old | ⟨-,reading,-⟩
      · refine .inr (.inl ?_)
        by_contra unfinished
        exact equal (only old unfinished)
      · exact .inr (.inr reading)
  -- With the imports of before, nothing is missing.
  have still : ¬ Changes own → v.body.imports = own.version.body.imports := by
    intro unchanged
    by_contra differs
    exact unchanged ⟨v,previous,by simpa [Module.importsChanged] using differs⟩
  have stirred : children ≠ [] → Changes own := by
    intro some
    by_contra unchanged
    obtain ⟨c,child⟩ := List.exists_mem_of_ne_nil children some
    obtain ⟨i,imported,absent,-⟩ := entered.below c child
    obtain ⟨other,absent⟩ := entered.absent absent
    rcases current.imports found i (still unchanged ▸ imported) with ⟨v',there⟩ | ⟨m,s,there,unfinished⟩
    · rw [there] at absent
      cases absent
    · obtain rfl := only there unfinished
      exact other (same.trans (here.unique there).1).symm
  constructor
  case entries =>
    intro e member
    rw [entered.entries] at member
    exact entered.exists_get?_iff.mpr (.inl (renewing.entries e member))
  case clean =>
    by_cases changes : Changes own
    · exact .inr ⟨n,own,children,mine,changes⟩
    · refine .inl fun i v' there => ?_
      rw [entered.entries,entered.registry] at *
      have reached : g.registry.Reaches g.entries i := by
        rcases renewing.clean with clean | ⟨m,own',children',waits,-⟩
        · rw [Registry.get?_insert] at there
          split at there
          · rename_i equal
            exact clean i v (equal ▸ found')
          · exact clean i v' there
        · obtain rfl := only waits fun finished => finished
          exact ((here.unique waits).2 ▸ early : (Stage.awaiting own' children' : Stage σ).Early).elim
      exact Registry.reaches_insert found' (still changes) reached
  case drafted =>
    intro m s draft' late' there known'
    rcases before there with ⟨-,rfl⟩ | finished | rfl
    · cases known'
    · exact absurd finished (Stage.replaces_iff.mpr ⟨_,known',rfl⟩ : s.Replaces draft'.previous).early.unfinished
    · cases known'
  case replaces =>
    intro m own' children' late' there
    rcases before there with ⟨-,equal⟩ | finished | reading
    · cases equal
      exact ⟨v,previous⟩
    · exact finished.elim
    · cases reading
  case stirred =>
    intro m own' children' late' there some
    rcases before there with ⟨-,equal⟩ | finished | reading
    · cases equal
      exact stirred some
    · exact finished.elim
    · cases reading
  case present => exact ⟨own.version,same ▸ entered.get?_self⟩
  case anchored =>
    rw [entered.registry,entered.entries,← same]
    exact Registry.reaches_insert_self (same.symm ▸ renewing.anchored)

/-- A module that was missing is registered. -/
theorem Renewing.enter_other (renewing : g.Renewing base edited) (orderly : g.Orderly base young [edited] outside)
    (here : g.At n id stage) (early : stage.Early) (other : id ≠ edited) {own : Commit}
    (same : own.version.id = id) {children : List Nat} (entered : Entered g after n own children) :
    after.Renewing base edited := by
  have absent : g.registry.get? own.version.id = none :=
    same.symm ▸ (orderly.new here early (by simpa using other)).1
  have ne : own.version.id ≠ edited := same.symm ▸ other
  have before : ∀ {m s}, after.At m edited s → s ≠ .reading → g.At m edited s := by
    intro m s there unlike
    rcases entered.at_cases unlike there with ⟨-,mine,-⟩ | ⟨-,old⟩
    · exact absurd mine.symm ne
    · exact old
  constructor
  case entries =>
    intro e member
    rw [entered.entries] at member
    exact entered.exists_get?_iff.mpr (.inl (renewing.entries e member))
  case clean =>
    obtain ⟨m,own',children',waits,some⟩ := orderly.exists_root ⟨stage,here,early.unfinished⟩ other
    have late := (orderly.listed (orderly.opened ⟨_,waits,fun finished => finished⟩)).1
    refine .inr ⟨m,own',children',entered.old ?_ waits,renewing.stirred late waits some⟩
    rintro rfl
    exact other (here.unique waits).1
  case drafted =>
    intro m s draft late there known
    rw [entered.get?_of_ne ne.symm]
    refine renewing.drafted late (before there ?_) known
    rintro rfl
    cases known
  case replaces => exact fun late there => renewing.replaces late (before there nofun)
  case stirred => exact fun late there => renewing.stirred late (before there nofun)
  case present =>
    rw [entered.get?_of_ne ne.symm]
    exact renewing.present
  case anchored =>
    rw [entered.registry,entered.entries]
    exact Registry.reaches_insert_of_absent absent renewing.anchored

/-- The read of the edited module ends, and garbage is collected. -/
theorem Renewing.collect (renewing : g.Renewing base edited) {own : Commit} {children : List Nat}
    (here : g.At n edited (.awaiting own children)) (r : Compiled) :
    (({ g with registry := g.registry.collect g.entries }).setStage n (.done r)).Renewing base edited := by
  have at_iff : ∀ {m i s}, (({ g with registry := g.registry.collect g.entries } : Graph σ).setStage n (.done r)).At m i s ↔
      (m = n ∧ i = edited ∧ s = .done r) ∨ (m ≠ n ∧ g.At m i s) := at_setStage_after here (by rfl)
  have kept : ∀ {i v}, g.registry.get? i = some v → g.registry.Reaches g.entries i →
      ∃ v, (g.registry.collect g.entries).get? i = some v :=
    fun found reached => ⟨_,Registry.get?_collect_iff.mpr ⟨found,reached⟩⟩
  constructor
  case entries =>
    intro e member
    rw [entries_setStage] at member
    rw [registry_setStage]
    obtain ⟨v,found⟩ := renewing.entries e member
    exact kept found (.root member)
  case clean =>
    rw [entries_setStage,registry_setStage]
    exact .inl fun i v found => Registry.reaches_collect (Registry.get?_collect_iff.mp found).2
  case drafted =>
    intro m s draft late there known
    rw [registry_setStage]
    rcases at_iff.mp there with ⟨-,-,rfl⟩ | ⟨-,before⟩
    · cases known
    · obtain ⟨v,previous,found⟩ := renewing.drafted late before known
      exact ⟨v,previous,Registry.get?_collect_iff.mpr ⟨found,renewing.anchored⟩⟩
  case replaces =>
    intro m own' children' late there
    rcases at_iff.mp there with ⟨-,-,equal⟩ | ⟨-,before⟩
    · cases equal
    · exact renewing.replaces late before
  case stirred =>
    intro m own' children' late there
    rcases at_iff.mp there with ⟨-,-,equal⟩ | ⟨-,before⟩
    · cases equal
    · exact renewing.stirred late before
  case present =>
    rw [registry_setStage]
    obtain ⟨v,found⟩ := renewing.present
    exact kept found renewing.anchored
  case anchored =>
    rw [entries_setStage,registry_setStage]
    exact Registry.reaches_collect renewing.anchored

/-- Every step that does not fail. -/
theorem Renewing.step (renewing : g.Renewing base edited) (current : g.Current w base old)
    (orderly : g.Orderly base young [edited] outside) (tools : Toolchain σ) (n : Nat)
    (well : (g.step tools n).Unfailed base) : (g.step tools n).Renewing base edited := by
  by_cases bound : n < g.tasks.length
  · obtain ⟨id,stage,here⟩ := exists_at bound
    have turn := step_turn tools here
    have late : ¬ stage.Finished → base ≤ n := fun going => (orderly.listed (orderly.opened ⟨_,here,going⟩)).1
    generalize g.step tools n = after at turn well
    cases turn with
    | @early _ next layer start goes drafted =>
      refine renewing.setStage here layer g.registry rfl ?_ ?_ fun draft known =>
        (drafted draft known).imp_right And.left
      · exact goes.ne_awaiting
      · rintro own children rfl
        exact start.elim
    | @failed _ _ layer start =>
      exact (well n id _ (late start.unfinished) (at_setStage_self (g := { g with layer }) here)).elim
    | @kept _ v layer start =>
      refine renewing.setStage here layer g.registry rfl (Stage.done_ne_awaiting _) ?_ fun _ known => by cases known
      rintro own children rfl
      exact start.elim
    | @registered _ draft layer own start drafts _ same previous =>
      obtain ⟨children,entered⟩ := entered_spec here same layer
      by_cases root : id = edited
      · subst root
        exact renewing.enter_edited current orderly (late start.unfinished) here start same drafts previous entered
      · exact renewing.enter_other orderly here start root same entered
    | waiting => exact renewing
    | @settled own children outcomes =>
      by_cases changes : id = edited ∧ Changes own
      · obtain ⟨rfl,changes⟩ := changes
        rw [tidied_of_changes changes]
        exact renewing.collect here _
      · have unchanged : ¬ Changes own := by
          by_cases root : id = edited
          · exact fun here => changes ⟨root,here⟩
          · rintro ⟨old,previous,-⟩
            rw [orderly.renewed here (by simpa using root)] at previous
            cases previous
        refine renewing.setStage here g.layer (g.tidied own) (tidied_of_not_changes unchanged)
          (Stage.done_ne_awaiting _) ?_ fun _ known => by cases known
        rintro own' children' equal -
        cases equal
        exact unchanged
    | @rolledBack own _ outcomes =>
      exact (well n id _ (late fun finished => finished)
        (at_setStage_self (g := { g with registry := own.rollback (commits outcomes) g.registry }) here)).elim
    | ended => exact renewing.congr (tasks_setStage_same here) registry_setStage entries_setStage
  · rw [step_none tools (List.getElem?_eq_none (Nat.le_of_not_lt bound))]
    exact renewing

end

/-! ## Reading an edited file -/

/-- What lasts while an edited file is read. -/
structure Rereading (tools : Toolchain σ) (P : σ → Prop) (w : World) (edited : ModuleId) (start : Graph σ)
    (outside : List Nat) (g : Graph σ) : Prop extends Reading tools P w [edited] start outside g where
  renewing : g.Unfailed start.tasks.length → g.Renewing start.tasks.length edited

/-- A graph that has been compiled, with nothing under way. -/
structure Upheld (P : σ → Prop) (w : World) (roots : List ModuleId) (g : Graph σ) : Prop where
  resting : g.Resting
  unhooked : g.hooks.registered = []
  fine : P g.layer.env
  entries : g.entries = roots
  exact : g.Exact w roots
  compiles : w.Compiles roots

section

variable {tools : Toolchain σ} {P Q : σ → Prop} {w : World} {roots : List ModuleId} {edited : ModuleId}
  {start g : Graph σ} {outside : List Nat}

theorem lasting_rereading (start : Graph σ) (follows : tools.Follows P w) (renewable : Renewable w start.registry) :
    Lasting tools [edited] (Rereading tools P w edited start) where
  listed now member := (now.orderly.listed member).2
  tick now := ⟨now.toReading.tick,fun well => (now.renewing well).congr rfl rfl rfl⟩
  join {_ _ id} asked now :=
    ⟨now.toReading.join asked,fun well => (now.renewing (unfailed_of_join id well)).join id⟩
  step n now := by
    refine ⟨now.toReading.step follows renewable n fun here well _ _ _ _ other there => ?_,fun well => ?_⟩
    · refine now.orderly.tidied_of_single here (fun c child => ?_) other there
      obtain ⟨cs,outcome⟩ := well c child
      exact ⟨_,outcome⟩
    · have before := unfailed_of_step tools n well
      exact (now.renewing before).step (now.current before) now.orderly tools n well

theorem Exact.get? (exact : g.Exact w roots) {id : ModuleId} {v : Version} (found : g.registry.get? id = some v) :
    w.Reaches roots id ∧ w.compile? id = some v.body := (exact id v.body).mp (get?_iff.mpr ⟨v,found,rfl⟩)

theorem Upheld.present (upheld : g.Upheld P w roots) {id : ModuleId} (reached : w.Reaches roots id) :
    ∃ v, g.registry.get? id = some v ∧ w.compile? id = some v.body := by
  obtain ⟨m,compiled⟩ := upheld.compiles id reached
  obtain ⟨v,found,rfl⟩ := get?_iff.mp ((upheld.exact id m).mpr ⟨reached,compiled⟩)
  exact ⟨v,found,compiled⟩

/-- What is below the roots in the world can be reached in the registry. -/
theorem Upheld.reaches (upheld : g.Upheld P w roots) {id : ModuleId} (reached : w.Reaches roots id) :
    g.registry.Reaches roots id := by
  induction reached with
  | root member => exact .root member
  | @step id i m before compiled member ih =>
    obtain ⟨v,found,compiled'⟩ := upheld.present before
    obtain rfl := Option.some.inj (compiled.symm.trans compiled')
    exact .step ih found member

theorem Upheld.closed (upheld : g.Upheld P w roots) : g.registry.Closed := by
  intro id v found i member
  obtain ⟨reached,compiled⟩ := upheld.exact.get? found
  obtain ⟨v',found',-⟩ := upheld.present (.step reached compiled member)
  exact Registry.contains_of_get? found'

/-- Before the edited file is read. -/
theorem Upheld.rereading (upheld : start.Upheld P w roots) {env : σ} {text : String} (fine : Q env)
    (present : start.registry.contains edited = true) :
    Rereading tools Q (w.edit edited text) edited { start with layer := { start.layer with env } } []
      { start with layer := { start.layer with env } } := by
  have resting : ({ start with layer := { start.layer with env } } : Graph σ).Resting :=
    ⟨upheld.resting.stamped,upheld.resting.finished,upheld.resting.idle⟩
  obtain ⟨v,found⟩ := Registry.contains_iff.mp present
  have bounded : ∀ {m i s}, start.tasks.length ≤ m → start.At m i s → False := by
    intro m i s late there
    have := there.lt
    omega
  refine ⟨resting.reading upheld.closed upheld.unhooked fine [edited],fun _ => ⟨?_,?_,?_,?_,?_,⟨v,found⟩,?_⟩⟩
  · intro e member
    obtain ⟨v',found',-⟩ := upheld.present (.root (upheld.entries ▸ member))
    exact ⟨v',found'⟩
  · exact .inl fun i v' found' => upheld.entries ▸ upheld.reaches (upheld.exact.get? found').1
  · exact fun late there => (bounded late there).elim
  · exact fun late there => (bounded late there).elim
  · exact fun late there => (bounded late there).elim
  · exact upheld.entries ▸ upheld.reaches (upheld.exact.get? found).1

/-- Old versions of an edited world. -/
theorem Upheld.renewable (upheld : start.Upheld P w roots) (text : String) :
    Renewable (w.edit edited text) start.registry := by
  intro id v found same
  have compiled := (upheld.exact.get? found).2
  rw [← compiled]
  exact World.compile?_congr rfl rfl (same.trans (World.sources_of_compile? compiled).symm)

/-- Once the edited file has been read well, the graph is as the edited world has it. -/
theorem Upheld.read {text : String} {env : σ} (upheld : start.Upheld P w roots)
    (now : Rereading tools Q (w.edit edited text) edited { start with layer := { start.layer with env } } outside g)
    {items : List Item} (reads : Call.Reads tools outside g [edited] (.under items))
    (returned : g.result? (.under items) = some (.ok ())) : g.Upheld Q (w.edit edited text) roots := by
  obtain ⟨ended,reading,ok⟩ := result?_under reads returned
  have good := ok.mp rfl
  obtain ⟨idle,well,current⟩ := now.toReading.well good
  have renewing := now.renewing well
  have entries : g.entries = roots := now.entries.trans upheld.entries
  -- The edited module is up to date, and an old version of any other one still is.
  have compiled : ∀ {id v}, g.registry.get? id = some v → (w.edit edited text).compile? id = some v.body := by
    intro id v found
    by_cases here : id = edited
    · subst here
      obtain ⟨n,r,known,⟨s,there⟩,-⟩ := reading id (List.mem_singleton.mpr rfl)
      obtain ⟨cs,outcome⟩ := good n known
      obtain ⟨i,done⟩ := outcome?_iff.mp outcome
      obtain ⟨rfl,-⟩ := there.unique done
      exact current.ended (now.late n known) done found
    · refine (current.origin found).elim (fun before => ?_) fun compiled => compiled
      rw [World.compile?_edit_of_ne w text here]
      exact (upheld.exact.get? before).2
  have clean : ∀ {id v}, g.registry.get? id = some v → g.registry.Reaches roots id := by
    intro id v found
    rcases renewing.clean with clean | ⟨n,own,children,there,-⟩
    · exact entries ▸ clean id v found
    · exact (idle ⟨_,there,fun finished => finished⟩).elim
  have reached : ∀ {id}, g.registry.Reaches roots id → (w.edit edited text).Reaches roots id := by
    intro id reached
    induction reached with
    | root member => exact .root member
    | step _ found member ih => exact .step ih (compiled found) member
  have present : ∀ {id}, (w.edit edited text).Reaches roots id → ∃ v, g.registry.get? id = some v := by
    intro id reached
    induction reached with
    | root member => exact renewing.entries _ (entries.symm ▸ member)
    | @step id i m _ below member ih =>
      obtain ⟨v,found⟩ := ih
      obtain rfl := Option.some.inj (below.symm.trans (compiled found))
      exact (current.imports found i member).resolve_right fun ⟨_,opened⟩ => idle opened
  refine ⟨now.orderly.resting ended,now.faithful.unhooked,now.faithful.fine,entries,fun id m => ?_,fun id below => ?_⟩
  · rw [get?_iff]
    constructor
    · rintro ⟨v,found,rfl⟩
      exact ⟨reached (clean found),compiled found⟩
    · rintro ⟨below,made⟩
      obtain ⟨v,found⟩ := present below
      exact ⟨v,found,Option.some.inj ((compiled found).symm.trans made)⟩
  · obtain ⟨v,found⟩ := present below
    exact ⟨v.body,compiled found⟩

end

/-! ## Edits in a row -/

/-- Edits, each of the text of an existing file, after which the file is read if its module is
registered, and the read goes well. That the store has some files is what `holds` says. -/
inductive Edited (tools : Toolchain σ) (holds : List (ModuleId × String) → σ → Prop) (w : World) (g : Graph σ) :
    World → Graph σ → Prop where
  | none : Edited tools holds w g w g
  | apart {w' : World} {g' : Graph σ} {id : ModuleId} {text : String} {env : σ} (before : Edited tools holds w g w' g')
      (exists_ : ∃ old, w'.text? id = some old) (changed : holds (w'.edit id text).files env)
      (absent : g'.registry.contains id = false) :
      Edited tools holds w g (w'.edit id text) { g' with layer := { g'.layer with env } }
  | read {w' : World} {g' h : Graph σ} {id : ModuleId} {text : String} {env : σ} {path : Path} {limit : Nat} {c : Call}
      (before : Edited tools holds w g w' g')
      (exists_ : ∃ old, w'.text? id = some old) (changed : holds (w'.edit id text).files env)
      (present : g'.registry.contains id = true) (named : tools.root.toId path = .ok id)
      (ran : rounds tools limit { g' with layer := { g'.layer with env } } [.asked (.read path)] = ([c],h))
      (well : h.result? c = some (.ok ())) :
      Edited tools holds w g (w'.edit id text) h

section

variable {tools : Toolchain σ} {holds : List (ModuleId × String) → σ → Prop} {w w' : World} {roots : List ModuleId}
  {start g g' : Graph σ}

/-- Edits change nothing but files. -/
theorem Edited.files (edited : Edited tools holds w g w' g') : w' = { w with files := w'.files } := by
  induction edited with
  | none => rfl
  | apart before _ _ _ ih | read before _ _ _ _ _ _ ih => rw [World.edit,ih]

/-- Edits keep a graph as the world has it. -/
theorem Edited.upheld (edited : Edited tools holds w g w' g')
    (follows : ∀ files, tools.Follows (holds files) { w with files }) (upheld : g.Upheld (holds w.files) w roots) :
    g'.Upheld (holds w'.files) w' roots := by
  induction edited with
  | none => exact upheld
  | @apart w' g' id text env before _ changed absent ih =>
    have missing := Registry.not_contains_iff.mp (by simpa using absent)
    have apart : ¬ w'.Reaches roots id := by
      intro reached
      obtain ⟨v,found,-⟩ := ih.present reached
      rw [missing] at found
      cases found
    have other : ∀ {i}, w'.Reaches roots i → (w'.edit id text).compile? i = w'.compile? i := by
      intro i reached
      refine World.compile?_edit_of_ne w' text ?_
      rintro rfl
      exact apart reached
    refine ⟨⟨ih.resting.stamped,ih.resting.finished,ih.resting.idle⟩,ih.unhooked,changed,ih.entries,fun i m => ?_,
      fun i reached => ?_⟩
    · rw [World.reaches_edit_iff text apart]
      have exact : g'.get? i = some m ↔ _ := ih.exact i m
      refine exact.trans ?_
      constructor
      · rintro ⟨reached,compiled⟩
        exact ⟨reached,(other reached).trans compiled⟩
      · rintro ⟨reached,compiled⟩
        exact ⟨reached,(other reached).symm.trans compiled⟩
    · rw [World.reaches_edit_iff text apart] at reached
      obtain ⟨m,compiled⟩ := ih.compiles i reached
      exact ⟨m,(other reached).trans compiled⟩
  | @read w' g' h id text env path limit c before _ changed present named ran well ih =>
    have follows' : tools.Follows (holds (w'.edit id text).files) (w'.edit id text) := by
      have same : w'.edit id text = { w with files := (w'.edit id text).files } := by
        rw [World.edit,before.files]
      rw [same]
      exact follows _
    have asked : Call.Reads tools [] { g' with layer := { g'.layer with env } } [id] (.asked (.read path)) :=
      ⟨rfl,.inr ⟨path,id,rfl,named,rfl⟩⟩
    obtain ⟨outside,c',same,now,reads⟩ := (lasting_rereading
      { g' with layer := { g'.layer with env } } follows' (ih.renewable text)).rounds
      (fun id member => member) asked (ih.rereading changed present) limit
    rw [ran] at same now reads
    obtain rfl : c = c' := by simpa using same
    cases c with
    | asked r => cases well
    | refused e => exact reads.elim
    | under items => exact ih.read now reads well

/-- A compile that goes well is a start for edits. -/
theorem upheld_of_compile (follows : tools.Follows (holds w.files) w) (resting : start.Resting)
    (empty : start.registry = .empty) (unhooked : start.hooks.registered = []) (fine : holds w.files start.layer.env)
    {limit : Nat} {c : Call} (ran : rounds tools limit start [.asked .compile] = ([c],g))
    (well : g.result? c = some (.ok ())) : g.Upheld (holds w.files) w start.entries := by
  obtain ⟨resting',entries,unhooked',fine',good,-⟩ := exact_of_returned follows resting empty unhooked fine ran well
  obtain ⟨exact,compiles⟩ := good rfl
  exact ⟨resting',unhooked',fine',entries,exact,compiles⟩

/-- A graph that has been compiled and then kept up with edits holds what a new graph with the same
entries holds after a compile of what the files are in the end; and that compile goes well. -/
theorem edited_eq_compiled (follows : ∀ files, tools.Follows (holds files) { w with files })
    (resting : start.Resting) (empty : start.registry = .empty) (unhooked : start.hooks.registered = [])
    (fine : holds w.files start.layer.env) {limit : Nat} {c : Call}
    (ran : rounds tools limit start [.asked .compile] = ([c],g)) (well : g.result? c = some (.ok ()))
    (edited : Edited tools holds w g w' g') {fresh : Graph σ} (resting' : fresh.Resting)
    (empty' : fresh.registry = .empty) (unhooked' : fresh.hooks.registered = [])
    (fine' : holds w'.files fresh.layer.env) (entries : fresh.entries = start.entries)
    (deep : (w'.files.length + 1) ^ 2 ≤ tools.fuel) :
    g'.Exact w' start.entries ∧
      (∃ limit c h, rounds tools limit fresh [.asked .compile] = ([c],h) ∧ h.result? c = some (.ok ())) ∧
      ∀ limit c h, rounds tools limit fresh [.asked .compile] = ([c],h) → h.result? c = some (.ok ()) →
        ∀ id, g'.get? id = h.get? id := by
  have upheld := edited.upheld follows (upheld_of_compile (follows w.files) resting empty unhooked fine ran well)
  have follows' : tools.Follows (holds w'.files) w' := by
    rw [edited.files]
    exact follows _
  refine ⟨upheld.exact,ok_of_compiles follows' resting' empty' unhooked' fine' deep (entries ▸ upheld.compiles),?_⟩
  intro limit c h ran' well' id
  have compiled := upheld_of_compile follows' resting' empty' unhooked' fine' ran' well'
  rw [entries] at compiled
  exact Option.ext fun m => (upheld.exact id m).trans (compiled.exact id m).symm

end

/-! ## A file that comes back -/

/-- The ring, where `a` no longer needs `c`. -/
def ringWithout : World := (letterWorld ring).edit Letter.a "b"

/-- There `c` is edited and needs `a`, -/
def ringApart : World := ringWithout.edit Letter.c "a"

/-- and then `b` needs `c`. -/
def ringAgain : World := ringApart.edit Letter.b "c"

def ringGraph (w : World) : Graph (List (ModuleId × String)) := { layer := { env := w.files }, entries := [Letter.a] }

private def withFiles (g : Graph (List (ModuleId × String))) (w : World) : Graph (List (ModuleId × String)) :=
  { g with layer := { g.layer with env := w.files } }

private theorem resting_ring (w : World) : (ringGraph w).Resting :=
  ⟨fun found => by simp [ringGraph] at found,fun there => by simp [At,ringGraph] at there,rfl⟩

private theorem edited_ring {g h g' : Graph (List (ModuleId × String))} {c c' : Call}
    (present : g.registry.contains Letter.a = true)
    (ran : rounds (letterTools slowly 20) 10 (withFiles g ringWithout) [.asked (.read ⟨"/a"⟩)] = ([c],h))
    (well : h.result? c = some (.ok ())) (absent : h.registry.contains Letter.c = false)
    (present' : h.registry.contains Letter.b = true)
    (ran' : rounds (letterTools slowly 20) 10 (withFiles (withFiles h ringApart) ringAgain) [.asked (.read ⟨"/b"⟩)] =
      ([c'],g'))
    (well' : g'.result? c' = some (.ok ())) :
    Edited (letterTools slowly 20) (fun files env => env = files) (letterWorld ring) g ringAgain g' := by
  have without : Edited (letterTools slowly 20) (fun files env => env = files) (letterWorld ring) g ringWithout h :=
    .read .none ⟨"bc",by decide +kernel⟩ rfl present (by decide +kernel) ran well
  have apart : Edited (letterTools slowly 20) (fun files env => env = files) (letterWorld ring) g ringApart
      (withFiles h ringApart) := .apart without ⟨"",by decide +kernel⟩ rfl absent
  exact .read apart ⟨"a",by decide +kernel⟩ rfl present' (by decide +kernel) ran' well'

theorem edited_eq_compiled_ring :
    ∃ g g' h, Edited (letterTools slowly 20) (fun files env => env = files) (letterWorld ring) g ringAgain g' ∧
      rounds (letterTools slowly 20) 10 (ringGraph (letterWorld ring)) [.asked .compile] = ([.under [.task 0]],g) ∧
      rounds (letterTools slowly 20) 10 (ringGraph ringAgain) [.asked .compile] = ([.under [.task 0]],h) ∧
      g'.registry.contains Letter.c = true ∧ ∀ id, g'.get? id = h.get? id := by
  obtain ⟨g,ran,well,present,g₁,ran₁,well₁,absent,present',g',ran',well',back⟩ :
      ∃ g, rounds (letterTools slowly 20) 10 (ringGraph (letterWorld ring)) [.asked .compile] = ([.under [.task 0]],g) ∧
        g.result? (.under [.task 0]) = some (.ok ()) ∧ g.registry.contains Letter.a = true ∧
      ∃ h, rounds (letterTools slowly 20) 10 (withFiles g ringWithout) [.asked (.read ⟨"/a"⟩)] = ([.under [.task 3]],h) ∧
        h.result? (.under [.task 3]) = some (.ok ()) ∧ h.registry.contains Letter.c = false ∧
        h.registry.contains Letter.b = true ∧
      ∃ g', rounds (letterTools slowly 20) 10 (withFiles (withFiles h ringApart) ringAgain) [.asked (.read ⟨"/b"⟩)] =
          ([.under [.task 4]],g') ∧
        g'.result? (.under [.task 4]) = some (.ok ()) ∧ g'.registry.contains Letter.c = true :=
    exists_snd (by decide +kernel) ⟨by decide +kernel,by decide +kernel,exists_snd (by decide +kernel)
      ⟨by decide +kernel,by decide +kernel,by decide +kernel,exists_snd (by decide +kernel) (by decide +kernel)⟩⟩
  obtain ⟨h,again,fresh⟩ : ∃ h, rounds (letterTools slowly 20) 10 (ringGraph ringAgain) [.asked .compile] =
      ([.under [.task 0]],h) ∧ h.result? (.under [.task 0]) = some (.ok ()) :=
    exists_snd (by decide +kernel) (by decide +kernel)
  have edited := edited_ring present ran₁ well₁ absent present' ran' well'
  have follows : ∀ files, (letterTools slowly 20).Follows (fun env => env = files) { letterWorld ring with files } :=
    letterTools_follows slowly 20
  obtain ⟨-,-,same⟩ := edited_eq_compiled follows
    (resting_ring (letterWorld ring)) rfl rfl rfl ran well edited (resting_ring ringAgain) rfl rfl rfl rfl
    (by decide +kernel)
  exact ⟨g,g',h,edited,ran,again,back,same 10 _ h again fresh⟩

end Graph

end Bundling
