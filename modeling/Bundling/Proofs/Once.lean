import Bundling.Proofs.Accounts
import Bundling.Proofs.FirstTime
import Bundling.Proofs.Functions

/-!
# Every module is compiled once

While modules are compiled for the first time, at most one task of a module takes its text up, and what has been noted
for the module in a journal is what the stage of this task accounts for (`Accounted`). Once the module is registered
all calls have been made, each of them once, and none follows (`compiled_once`).
-/

namespace Bundling.Graph

variable {σ : Type}

/-! ## Notes along a history -/

/-- What a step of a task adds to the journal, with the module of the task. -/
def Event.notes (journal : σ → List Note) (tools : Toolchain σ) (g : Graph σ) : Event → List (ModuleId × Note)
  | .step n =>
    match g.tasks[n]? with
    | none => []
    | some t => ((journal (g.step tools n).layer.env).drop (journal g.layer.env).length).map (t.id,·)
  | .tick | .join _ => []

/-- What the steps of a history add to the journal, each with the module of its task. -/
def notesAlong (journal : σ → List Note) (tools : Toolchain σ) (g : Graph σ) (events : List Event) :
    List (ModuleId × Note) := log tools (Event.notes journal tools) g events

/-- The notes for a module. -/
def notesFor (id : ModuleId) (notes : List (ModuleId × Note)) : List Note :=
  (notes.filter (·.1 = id)).map Prod.snd

theorem notesFor_append (id : ModuleId) (first second : List (ModuleId × Note)) :
    notesFor id (first ++ second) = notesFor id first ++ notesFor id second := by
  simp [notesFor]

theorem notesFor_tagged (i id : ModuleId) (new : List Note) :
    notesFor i (new.map (id,·)) = if i = id then new else [] := by
  unfold notesFor
  split
  · rename_i same
    subst same
    induction new with
    | nil => rfl
    | cons note new ih => simp [ih]
  · rename_i other
    simp [Ne.symm other]

/-- What has been noted for each module while modules are compiled for the first time. -/
structure Accounted (journal : σ → List Note) (tools : Toolchain σ) (noted : ModuleId → List Note) (g : Graph σ) : Prop where
  seen : Seen journal tools g
  /-- The module is being made, by one task. -/
  drafted : ∀ {n id s draft}, g.At n id s → s.draft? = some draft → s.Account journal tools g.hooks id (noted id)
  /-- All calls have been made. -/
  registered : ∀ {id v}, g.registry.get? id = some v → Called g.hooks id (due tools g.hooks) (noted id)
  /-- The text of the module has not been taken up. -/
  fresh : ∀ {id}, g.registry.get? id = none → (∀ n s draft, g.At n id s → s.draft? ≠ some draft) → noted id = []

section

variable {tools : Toolchain σ} {text : ModuleId → String} {base young n : Nat} {roots : List ModuleId}
  {outside : List Nat} {g after : Graph σ} {id : ModuleId} {stage next : Stage σ} {journal : σ → List Note}
  {noted : ModuleId → List Note} {new : List Note}

/-- What has been noted for a module, and now for this one some more. -/
def noting (noted : ModuleId → List Note) (id : ModuleId) (new : List Note) (i : ModuleId) : List Note :=
  if i = id then noted i ++ new else noted i

/-- The stage that a step has led to is the one that the task has gone on to. -/
theorem advance_of_step (here : g.At n id stage) {i : ModuleId} (after : (g.step tools n).At n i next) :
    (g.advance tools id stage).1 = next := by
  rw [step_eq here,At,tasks_setStage,List.getElem?_modify_eq] at after
  obtain ⟨t,-,equal⟩ := Option.map_eq_some_iff.mp after
  exact congrArg Task.stage equal

theorem noting_nil (noted : ModuleId → List Note) (id : ModuleId) : noting noted id [] = noted := by
  funext i
  simp [noting]

theorem noting_self : noting noted id new id = noted id ++ new := if_pos rfl

theorem noting_of_ne {i : ModuleId} (other : i ≠ id) : noting noted id new i = noted i := if_neg other

/-- What is noted may be told by the modules of the tasks. -/
theorem noting_eq (noted : ModuleId → List Note) (id : ModuleId) (new : List Note) :
    noting noted id new = fun i => noted i ++ notesFor i (new.map (id,·)) := by
  funext i
  rw [notesFor_tagged,noting]
  split <;> simp

/-- Nothing is noted, and the same modules are registered and are being made. -/
theorem Accounted.congr (accounted : Accounted journal tools noted g) (seen : Seen journal tools after)
    (hooks : after.hooks = g.hooks) (registry : after.registry = g.registry)
    (drafts : ∀ m i (s : Stage σ) draft, s.draft? = some draft → (after.At m i s ↔ g.At m i s)) :
    Accounted journal tools noted after where
  seen := seen
  drafted there known := hooks ▸ accounted.drafted ((drafts _ _ _ _ known).mp there) known
  registered found := hooks ▸ accounted.registered (registry ▸ found)
  fresh absent none := accounted.fresh (registry ▸ absent) fun m s draft there known =>
    none m s draft ((drafts m _ s draft known).mpr there) known

/-- The only task of a module goes on with the making of it. -/
theorem Accounted.setStage (accounted : Accounted journal tools noted g) (orderly : g.Orderly base young roots outside)
    (here : g.At n id stage) (going : ¬ stage.Finished) (absent : g.registry.get? id = none) {draft : Draft}
    (known : next.draft? = some draft) {layer : Resolution.State σ}
    (seen : Seen journal tools (({ g with layer } : Graph σ).setStage n next))
    (account : next.Account journal tools g.hooks id (noted id ++ new)) :
    Accounted journal tools (noting noted id new) (({ g with layer } : Graph σ).setStage n next) := by
  have at_iff := @at_setStage_after σ g n { g with layer } id stage next here rfl
  have alone : ∀ {m s draft}, g.At m id s → s.draft? = some draft → m = n := fun there known =>
    orderly.alone ⟨_,there,(Stage.replaces_iff.mpr ⟨_,known,rfl⟩).early.unfinished⟩ ⟨stage,here,going⟩
  refine ⟨seen,?_,?_,?_⟩
  · intro m i s draft' there known'
    rw [hooks_setStage]
    rcases at_iff.mp there with ⟨-,rfl,rfl⟩ | ⟨other,before⟩
    · rw [noting_self]
      exact account
    · rw [noting_of_ne]
      · exact accounted.drafted before known'
      · rintro rfl
        exact other (alone before known')
  · intro i v found
    rw [registry_setStage] at found
    rw [hooks_setStage,noting_of_ne fun same => by rw [same] at found; exact nomatch absent.symm.trans found]
    exact accounted.registered found
  · intro i absent' none
    rw [registry_setStage] at absent'
    have other : i ≠ id := by
      rintro rfl
      exact none n next draft (at_iff.mpr (.inl ⟨rfl,rfl,rfl⟩)) known
    rw [noting_of_ne other]
    refine accounted.fresh absent' fun m s draft' there => none m s draft' (at_iff.mpr (.inr ⟨?_,there⟩))
    rintro rfl
    exact other (there.unique here).1

/-- The module is registered. -/
theorem Accounted.enter (accounted : Accounted journal tools noted g) (orderly : g.Orderly base young roots outside)
    (here : g.At n id stage) (going : ¬ stage.Finished) {own : Commit} {children : List Nat} (same : own.version.id = id)
    (entered : Entered g after n own children) (seen : Seen journal tools after)
    (called : Called g.hooks id (due tools g.hooks) (noted id ++ new)) :
    Accounted journal tools (noting noted id new) after := by
  subst same
  refine ⟨seen,?_,?_,?_⟩
  · intro m i s draft there known
    have early := (Stage.replaces_iff.mpr ⟨draft,known,rfl⟩).early
    have other := entered.ne_of_early early there
    have before := entered.at_old other (fun reading => by rw [reading] at known; cases known) there
    rw [entered.hooks,noting_of_ne]
    · exact accounted.drafted before known
    · rintro rfl
      exact other (orderly.alone ⟨s,before,early.unfinished⟩ ⟨stage,here,going⟩)
  · intro i v found
    rw [entered.hooks]
    rcases entered.of_get? found with ⟨rfl,-⟩ | ⟨other,before⟩
    · rw [noting_self]
      exact called
    · rw [noting_of_ne other]
      exact accounted.registered before
  · intro i absent none
    obtain ⟨other,absent⟩ := entered.absent absent
    rw [noting_of_ne other]
    refine accounted.fresh absent fun m s draft there => none m s draft (entered.old ?_ there)
    rintro rfl
    exact other (there.unique here).1

/-- Every step that does not fail notes for its module what is told of the stage that it leads to. -/
theorem Accounted.step (accounted : Accounted journal tools noted g) (first : g.FirstTime text base)
    (orderly : g.Orderly base young roots outside) (here : g.At n id stage)
    (steady : (Event.step n).Steady tools text g) (well : (g.step tools n).Unfailed base) :
    ∃ new, journal (g.step tools n).layer.env = journal g.layer.env ++ new ∧
      Accounted journal tools (noting noted id new) (g.step tools n) := by
  have turn := first.turn orderly here steady well
  have hooks := hooks_step tools g n
  -- What the stage that is reached accounts for has been noted.
  have adds : ∀ told, stage.Account journal tools g.hooks id told → ∃ new,
      journal (g.step tools n).layer.env = journal g.layer.env ++ new ∧ Seen journal tools (g.step tools n) ∧
      ∀ {i next}, (g.step tools n).At n i next → next.Account journal tools g.hooks id (told ++ new) := by
    intro told account
    obtain ⟨new,grows,account',attempts⟩ := account_advance accounted.seen account
    have layer : (g.step tools n).layer = (g.advance tools id stage).2.layer := by rw [step_eq here,layer_setStage]
    refine ⟨new,by rw [layer]; exact grows,?_,fun there => advance_of_step here there ▸ account'⟩
    exact { accounted.seen with hooks := hooks ▸ accounted.seen.hooks, attempts := by rw [layer]; exact attempts }
  -- Where a task ends, and where it has no more to do, nothing is noted.
  have ends : ∀ {r : Compiled} {layer : Resolution.State σ}, stage.draft? = none →
      Seen journal tools (({ g with layer } : Graph σ).setStage n (.done r)) →
      Accounted journal tools noted (({ g with layer } : Graph σ).setStage n (.done r)) := by
    intro r layer none seen
    refine accounted.congr seen hooks_setStage registry_setStage fun m i s draft known => ?_
    refine (@at_setStage_after σ g n { g with layer } id stage _ here rfl m i s).trans ⟨?_,fun before => ?_⟩
    · rintro (⟨-,-,rfl⟩ | ⟨-,before⟩)
      · cases known
      · exact before
    · refine .inr ⟨?_,before⟩
      rintro rfl
      rw [(before.unique here).2,none] at known
      cases known
  have quiet : ∀ {r : Compiled}, stage.draft? = none → ∃ new,
      journal (g.setStage n (.done r)).layer.env = journal g.layer.env ++ new ∧
      Accounted journal tools (noting noted id new) (g.setStage n (.done r)) := fun none =>
    ⟨[],by rw [layer_setStage,List.append_nil],by
      rw [noting_nil]
      exact ends none (accounted.seen.congr hooks_setStage (by rw [layer_setStage]; exact accounted.seen.attempts))⟩
  generalize g.step tools n = after at turn adds hooks
  cases turn with
  | @takes draft layer absent =>
    have nothing : noted id = [] := accounted.fresh absent fun m s draft there known => by
      obtain rfl := orderly.alone ⟨s,there,(Stage.replaces_iff.mpr ⟨draft,known,rfl⟩).early.unfinished⟩
        ⟨_,here,fun finished => finished⟩
      rw [(there.unique here).2] at known
      cases known
    obtain ⟨new,grows,seen,account⟩ := adds _ nothing
    exact ⟨new,grows,accounted.setStage orderly here (fun finished => finished) absent rfl seen
      (account (at_setStage_self (g := { g with layer }) here))⟩
  | @goes _ next draft layer mine known =>
    obtain ⟨new,grows,seen,account⟩ := adds _ (accounted.drafted here mine)
    exact ⟨new,grows,accounted.setStage orderly here (Stage.replaces_iff.mpr ⟨_,mine,rfl⟩).early.unfinished
      (first.drafted here mine).2.2 known seen (account (at_setStage_self (g := { g with layer }) here))⟩
  | registers mine same _ _ entered =>
    obtain ⟨new,grows,seen,account⟩ := adds _ (accounted.drafted here mine)
    exact ⟨new,grows,accounted.enter orderly here (Stage.replaces_iff.mpr ⟨_,mine,rfl⟩).early.unfinished same entered
      seen (account entered.here)⟩
  | @kept v layer found =>
    -- The text is the registered one, and nobody is called.
    obtain ⟨new,grows,seen,account⟩ := adds [] rfl
    have nothing : new = [] := account (at_setStage_self (g := { g with layer }) here)
    exact ⟨[],nothing ▸ grows,by rw [noting_nil]; exact ends rfl seen⟩
  | waits => exact ⟨[],(List.append_nil _).symm,by rwa [noting_nil]⟩
  | settles => exact quiet rfl
  | ended => exact quiet rfl

/-- Every event of a history that goes well notes for each module what it should. -/
theorem Accounted.event (accounted : Accounted journal tools noted g) (first : g.FirstTime text base)
    (orderly : g.Orderly base young roots outside) (e : Event) (steady : e.Steady tools text g)
    (well : (e.apply tools g).Unfailed base) :
    journal (e.apply tools g).layer.env = journal g.layer.env ++ (e.notes journal tools g).map Prod.snd ∧
      Accounted journal tools (fun i => noted i ++ notesFor i (e.notes journal tools g)) (e.apply tools g) := by
  have idle : e.notes journal tools g = [] → journal (e.apply tools g).layer.env = journal g.layer.env →
      Accounted journal tools noted (e.apply tools g) →
      journal (e.apply tools g).layer.env = journal g.layer.env ++ (e.notes journal tools g).map Prod.snd ∧
      Accounted journal tools (fun i => noted i ++ notesFor i (e.notes journal tools g)) (e.apply tools g) := by
    intro none still kept
    rw [none]
    exact ⟨still.trans (List.append_nil _).symm,by simpa [notesFor] using kept⟩
  cases e with
  | tick => exact idle rfl rfl (accounted.congr (accounted.seen.congr rfl accounted.seen.attempts) rfl rfl
      fun _ _ _ _ _ => Iff.rfl)
  | join root =>
    have grown := (grown_join g (List.mem_singleton.mpr rfl : root ∈ [root])).1
    have layer : (g.join root).2.layer = g.layer := by rw [grown.same]
    have hooks : (g.join root).2.hooks = g.hooks := by rw [grown.same]
    refine idle rfl (by rw [Event.apply,layer]) (accounted.congr
      (accounted.seen.congr hooks (by rw [Event.apply,layer]; exact accounted.seen.attempts)) hooks
      (by rw [Event.apply,grown.same]) fun m i s draft known => ⟨fun there => grown.at_old ?_ there,grown.old⟩)
    rintro rfl
    cases known
  | step n =>
    by_cases bound : n < g.tasks.length
    · obtain ⟨id,stage,here⟩ := exists_at bound
      obtain ⟨new,grows,next⟩ := accounted.step first orderly here steady well
      have notes : (Event.step n).notes journal tools g = new.map (id,·) := by
        rw [Event.notes,show g.tasks[n]? = some ⟨id,stage⟩ from here]
        simp only [grows,List.drop_left]
      rw [notes,← noting_eq]
      refine ⟨?_,next⟩
      rw [List.map_map]
      exact grows.trans (by simp [Function.comp_def])
    · have absent := List.getElem?_eq_none (Nat.le_of_not_lt bound)
      have same : (Event.step n).apply tools g = g := step_none tools absent
      exact idle (by rw [Event.notes,absent]) (by rw [same]) (by rwa [same])

/-- A whole history. -/
theorem Accounted.history {holds : List Nat → Graph σ → Prop} (lasting : Lasting tools roots holds)
    (order : ∀ {outside g}, holds outside g → g.Orderly base young roots outside) {events : List Event}
    (accounted : Accounted journal tools noted g) (first : g.FirstTime text base) (now : holds outside g)
    (within : ∀ e ∈ events, e.Within roots) (steady : Steady tools text g events)
    (well : (Graph.history tools g events).Unfailed base) :
    (Graph.history tools g events).FirstTime text base ∧
      journal (Graph.history tools g events).layer.env =
        journal g.layer.env ++ (notesAlong journal tools g events).map Prod.snd ∧
      Accounted journal tools (fun i => noted i ++ notesFor i (notesAlong journal tools g events))
        (Graph.history tools g events) := by
  induction events generalizing g outside noted with
  | nil =>
    have same : (fun i => noted i ++ notesFor i (notesAlong journal tools g [])) = noted :=
      funext fun i => List.append_nil (noted i)
    exact ⟨first,(List.append_nil _).symm,by rw [same]; exact accounted⟩
  | cons e events ih =>
    have well' : (e.apply tools g).Unfailed base := @unfailed_of_history _ _ _ _ events well
    obtain ⟨grows,next⟩ := accounted.event first (order now) e steady.1 well'
    obtain ⟨last,further,all⟩ := ih next (first.event (order now) e steady.1 well')
      (lasting.apply now (within e List.mem_cons_self)) (fun e' member => within e' (List.mem_cons_of_mem _ member))
      steady.2 well
    have cons : notesAlong journal tools g (e :: events) =
        e.notes journal tools g ++ notesAlong journal tools (e.apply tools g) events := rfl
    refine ⟨last,?_,?_⟩
    · rw [cons,List.map_append,← List.append_assoc,← grows]
      exact further
    · simp only [cons,notesFor_append,← List.append_assoc]
      exact all

end

/-! ## Compilations -/

/-- What is noted for a module when it is compiled once: the transformers have been set to work in their order, each
once, and each hook that is called before or after a module is compiled, or then told of it, has been called once. -/
structure CompiledOnce (tools : Toolchain σ) (h : Hooks σ) (id : ModuleId) (noted : List Note) : Prop extends
    Called h id (due tools h) noted where
  transformed : ∀ k < tools.transformers.length, (noted.map Note.deed).count (.transform k) = 1
  informed : ∀ k o, h.occasion? k = some o → o ≠ .destroyed → (noted.map Note.deed).count (.tell k) = 1

section

variable {tools : Toolchain σ} {text : ModuleId → String} {g : Graph σ} {journal : σ → List Note}

theorem Called.once {h : Hooks σ} {id : ModuleId} {noted : List Note} (called : Called h id (due tools h) noted) :
    CompiledOnce tools h id noted := by
  have once : ∀ d ∈ due tools h, (noted.map Note.deed).count d = 1 := fun d member =>
    List.count_eq_one_of_mem (called.order ▸ nodup_due tools h) (called.order ▸ member)
  exact ⟨called,fun k bound => once _ (mem_due_iff.mpr (.inl ⟨k,bound,rfl⟩)),
    fun k o known other => once _ (mem_due_iff.mpr (.inr ⟨k,o,known,other,rfl⟩))⟩

/-- Where nothing is registered and nothing is under way, there is no need for notes. -/
theorem Resting.accounted (resting : g.Resting) (empty : g.registry = .empty) (seen : Seen journal tools g) :
    Accounted journal tools (fun _ => []) g where
  seen := seen
  drafted there known := absurd (resting.finished there) (Stage.replaces_iff.mpr ⟨_,known,rfl⟩).early.unfinished
  registered found := by
    rw [empty] at found
    cases found
  fresh _ _ := rfl

theorem hooks_history (tools : Toolchain σ) (g : Graph σ) (events : List Event) :
    (history tools g events).hooks = g.hooks := by
  induction events generalizing g with
  | nil => rfl
  | cons e events ih =>
    refine (ih (e.apply tools g)).trans ?_
    cases e with
    | tick => rfl
    | join id => rw [Event.apply,(grown_join g (List.mem_singleton.mpr rfl : id ∈ [id])).1.same]
    | step n => exact hooks_step tools g n

/-- Order lasts, and who fails is to blame on who asked for it. -/
theorem lasting_blamed (tools : Toolchain σ) (g : Graph σ) :
    Lasting tools g.entries fun outside g' =>
      (g'.entries = g.entries ∧ g'.Orderly g.tasks.length g.stamps g.entries outside) ∧
      (∀ n ∈ outside, g.tasks.length ≤ n) ∧ g'.Blamed g.tasks.length outside := by
  have late := lasting_late tools g
  refine ⟨fun now => late.listed ⟨now.1,now.2.1⟩,?_,?_,?_⟩
  · intro outside g' now
    obtain ⟨order,new⟩ := late.tick ⟨now.1,now.2.1⟩
    exact ⟨order,new,now.2.2.congr rfl⟩
  · intro outside g' id asked now
    obtain ⟨order,new⟩ := late.join asked ⟨now.1,now.2.1⟩
    exact ⟨order,new,now.2.2.join id⟩
  · intro outside g' n now
    obtain ⟨order,new⟩ := late.step n ⟨now.1,now.2.1⟩
    exact ⟨order,new,now.2.2.step now.1.2 tools n⟩

/-- Nothing is registered, and modules are compiled in whatever order, while no file changes; transformers, resolvers and
hooks let others go on when they like. If all entries were asked for and all has gone well, then every module that can be
reached from them was compiled once, as the journal tells, and nothing else is in the journal. A compilation that comes
to a good end has such a history. -/
theorem compiled_once (seen : Seen journal tools g) (resting : g.Resting) (empty : g.registry = .empty) :
    (∀ events, Succeeded tools g events → Steady tools text g events →
      journal (history tools g events).layer.env =
        journal g.layer.env ++ (notesAlong journal tools g events).map Prod.snd ∧
      ∀ id, (history tools g events).registry.Reaches g.entries id →
        CompiledOnce tools g.hooks id (notesFor id (notesAlong journal tools g events))) ∧
    ∀ {limit c g'}, rounds tools limit g [.asked .compile] = ([c],g') → g'.result? c = some (.ok ()) →
      ∃ events, Succeeded tools g events ∧ history tools g events = g' := by
  have lasting := lasting_blamed tools g
  have now : (g.entries = g.entries ∧ g.Orderly g.tasks.length g.stamps g.entries []) ∧
      (∀ n ∈ [], g.tasks.length ≤ n) ∧ g.Blamed g.tasks.length [] := by
    refine ⟨⟨rfl,resting.orderly g.entries⟩,nofun,fun n id e late there => ?_⟩
    exact absurd there.lt (Nat.not_lt.mpr late)
  constructor
  · intro events succeeded steady
    obtain ⟨outside,same,⟨-,orderly⟩,late,blamed⟩ := lasting.history now succeeded.within
    have mine : ∀ n ∈ outside, n ∈ joined tools g events := fun n member =>
      ((same n).mp member).resolve_left List.not_mem_nil
    have well : ∀ n ∈ outside, ∃ cs, (history tools g events).outcome? n = some (.ok cs) :=
      fun n member => succeeded.well n (mine n member)
    have ended : ∀ {m i}, ¬ (history tools g events).Open m i := orderly.all_finished fun n member =>
      let ⟨cs,found⟩ := well n member
      ⟨.ok cs,found⟩
    obtain ⟨first,grows,accounted⟩ := (resting.accounted empty seen).history lasting (fun now => now.1.2)
      (resting.firstTime empty) now succeeded.within steady (blamed.unfailed well ended)
    refine ⟨grows,fun id reached => ?_⟩
    obtain ⟨v,registered⟩ : ∃ v, (history tools g events).registry.get? id = some v := by
      induction reached with
      | root member =>
        obtain ⟨n,asked,s,there⟩ := succeeded.asked _ member
        obtain ⟨cs,outcome⟩ := succeeded.well n asked
        obtain ⟨i,there'⟩ := outcome?_iff.mp outcome
        obtain rfl := (there.unique there').1
        exact first.present (late n ((same n).mpr (.inr asked))) there'
      | step _ found member _ => exact (first.imports found member).resolve_right fun ⟨m,open'⟩ => ended open'
    have called := accounted.registered registered
    rw [hooks_history] at called
    exact called.once
  · intro limit c g' ran returned
    obtain ⟨outside,c',same,carried⟩ := @Lasting.request σ tools g _ .compile trivial lasting now limit
    rw [ran] at same carried
    cases same
    obtain ⟨events,within,led,mine⟩ := carried.traced
    refine ⟨events,⟨within,fun id member => ?_,fun n member => ?_⟩,led⟩
    · obtain ⟨n,known,there⟩ := carried.asked returned id member
      exact ⟨n,(mine n).mp known,led ▸ there⟩
    · exact led ▸ carried.well returned n ((mine n).mpr member)

/-! ## A compilation that is watched -/

/-- Files, and a journal of calls. -/
abbrev Diary : Type := List (ModuleId × String) × List Note

def Diary.note (note : Note) (s : Diary) : Diary := (s.1,s.2 ++ [note])

/-- The toolchain of letters, whose transformer notes its calls. -/
def diaryTools : Toolchain Diary where
  root := ⟨.absolute []⟩
  store := {
    read := fun p s => ((letterStore.read p s.1).1,s)
    write := fun _ _ => pure (.error (.other "read only"))
    stat := fun s p => letterStore.stat s.1 p
    makeDir := fun _ => pure (.error (.other "read only"))
    has := fun s p => letterStore.has s.1 p }
  transformers := [{
    name := "letters"
    transform := fun file => .step (Diary.note ⟨.transform 0,file.path⟩) fun _ => .pause (slowly file.contents) <|
      .done (.ok (some { contents := file.contents, imports := letters file.contents })) }]
  resolvers := [{
    name := "letters"
    resolve := fun request _ => .pause (slowly request) <|
      match letterAnswer request with
      | some r => .answer r
      | none => .defer }]
  fuel := 20

/-- A new graph, one of whose entries is given twice, and a hook for each occasion that looks on. Whoever is told of
the compiled module takes a round for it. -/
def observed : Graph Diary where
  layer := { env := (ring,[]) }
  entries := [Letter.c,Letter.a,Letter.c]
  hooks := {
    next := 3
    registered := [(0,.before fun e s => (e,s.note ⟨.tell 0,e.id.path⟩)),(1,.after fun e s => (e,s.note ⟨.tell 1,e.id.path⟩)),
      (2,.compiled fun e => .pause 1 (.step (Diary.note ⟨.tell 2,e.id.path⟩) fun _ => .done ()))] }

theorem seen_observed : Seen (σ := Diary) Prod.snd diaryTools observed where
  transformers k t found := by
    obtain ⟨_,rfl⟩ := List.getElem?_eq_some_iff.mp found
    match k with
    | 0 => exact fun file s => ⟨[⟨.transform 0,file.path⟩],rfl,rfl⟩
  hooks k p found := by
    obtain ⟨_,rfl⟩ := List.getElem?_eq_some_iff.mp found
    match k with
    | 0 => exact fun e s => rfl
    | 1 => exact fun e s => rfl
    | 2 => exact fun e s => ⟨[⟨.tell 2,e.id.path⟩],rfl,rfl⟩
  store _ _ := rfl
  resolvers r member request importer := by
    obtain rfl := List.mem_singleton.mp member
    refine .pause ?_
    split
    · exact .answer _
    · exact .defer
  attempts n key t there := by cases n <;> cases there

/-- Both `a` and `b` are on their way when `c`, which `a` needs too, is asked for; the hooks take their time over all of them,
and at last `c` is read once more. -/
theorem compiled_once_ring :
    (∃ events, joined diaryTools observed events = [0,1,3] ∧
      (history diaryTools observed events).tasks.map Task.id = [Letter.a,Letter.c,Letter.b,Letter.c] ∧
      (notesFor Letter.c (notesAlong Prod.snd diaryTools observed events)).map Note.deed =
        [.tell 0,.transform 0,.tell 1,.tell 2] ∧
      CompiledOnce diaryTools observed.hooks Letter.b (notesFor Letter.b (notesAlong Prod.snd diaryTools observed events))) ∧
    ∃ g', rounds diaryTools 10 observed [.asked .compile] = ([.under [.task 0,.task 1,.task 0]],g') ∧
      g'.result? (.under [.task 0,.task 1,.task 0]) = some (.ok ()) ∧
      ∃ events, Succeeded diaryTools observed events ∧ history diaryTools observed events = g' := by
  have resting : observed.Resting :=
    ⟨fun found => by simp [observed] at found,fun there => by simp [observed,At] at there,rfl⟩
  obtain ⟨schedules,ends⟩ := @compiled_once Diary diaryTools (fun id => (ring.lookup id).getD "") observed Prod.snd
    seen_observed resting rfl
  constructor
  · let events : List Event := [.join Letter.a,.join Letter.c,.step 0,.step 0,.step 0,.tick,.step 0,.step 2,.step 1,.step 2,
      .step 1,.step 1,.tick,.tick,.step 1,.step 2,.step 2,.tick,.tick,.step 2,.tick,.step 1,.join Letter.c,.step 3,.step 2,
      .step 2,.step 0]
    let g' := history diaryTools observed events
    have asked : joined diaryTools observed events = [0,1,3] := by decide +kernel
    have tasks : g'.tasks.map Task.id = [Letter.a,Letter.c,Letter.b,Letter.c] := by decide +kernel
    have there : ∀ {n id}, (g'.tasks.map Task.id)[n]? = some id → ∃ s, g'.At n id s := by
      intro n id found
      rw [List.getElem?_map] at found
      obtain ⟨t,here,rfl⟩ := Option.map_eq_some_iff.mp found
      exact ⟨t.stage,here⟩
    have well : ∀ n ∈ [0,1,3], (g'.outcome? n).map Except.isOk = some true := by decide +kernel
    have succeeded : Succeeded diaryTools observed events := by
      refine ⟨by decide,fun id member => ?_,fun n member => ?_⟩
      · rw [asked]
        rcases List.mem_cons.mp member with rfl | member
        · exact ⟨1,by decide,there (by rw [tasks]; rfl)⟩
        · rcases List.mem_cons.mp member with rfl | member
          · exact ⟨0,by decide,there (by rw [tasks]; rfl)⟩
          · obtain rfl := List.mem_singleton.mp member
            exact ⟨1,by decide,there (by rw [tasks]; rfl)⟩
      · obtain ⟨r,outcome,good⟩ := Option.map_eq_some_iff.mp (well n (asked ▸ member))
        cases r with
        | ok cs => exact ⟨cs,outcome⟩
        | error => cases good
    have imported : ((g'.registry.get? Letter.a).map fun v => decide (Letter.b ∈ v.body.imports)) = some true := by
      decide +kernel
    obtain ⟨v,found,member⟩ := Option.map_eq_some_iff.mp imported
    have steady := show Steady diaryTools (fun id => (ring.lookup id).getD "") observed events by decide +kernel
    obtain ⟨-,once⟩ := schedules events succeeded steady
    exact ⟨events,asked,tasks,(once Letter.c (.root (by decide))).order,
      once Letter.b (.step (.root (by decide)) found (of_decide_eq_true member))⟩
  · obtain ⟨g',ran,returned⟩ : ∃ g', rounds diaryTools 10 observed [.asked .compile] =
        ([.under [.task 0,.task 1,.task 0]],g') ∧ g'.result? (.under [.task 0,.task 1,.task 0]) = some (.ok ()) :=
      exists_snd (by decide +kernel) (by decide +kernel)
    exact ⟨g',ran,returned,ends ran returned⟩

end

end Bundling.Graph
