import Mathlib.Logic.Hydra
import Mathlib.SetTheory.Ordinal.Rank
import Bundling.Proofs.Exact

/-!
# Compiles come to an end

Where everything below the entries compiles, reading them comes to an end, whatever the pauses. What
is still to be done gets less with every round (`Nearer`): first comes how many files are not
registered, then how far the tasks are, as a multiset of weights that is made smaller by replacing a
weight with any number of smaller ones, and last how long is waited for the clock. A round in which no
time is waited brings some task forward, since what a task waits for registers its module later than
the task itself.
-/

namespace Bundling

open Relation

variable {σ : Type}

/-! ## Weights -/

/-- The weight of a part of a task: a phase, and how much there is to do in it. -/
abbrev Weight := ℕ ×ₗ Ordinal.{0}

/-- Some weights have been replaced by smaller ones. -/
abbrev Lighter : Multiset Weight → Multiset Weight → Prop := TransGen (CutExpand (· < ·))

theorem lighter_wellFounded : WellFounded Lighter := (wellFounded_lt.cutExpand).transGen

theorem Lighter.add_left {a b : Multiset Weight} (lighter : Lighter a b) (c : Multiset Weight) :
    Lighter (c + a) (c + b) :=
  TransGen.lift (fun s => c + s) (fun _ _ cut => (cutExpand_add_left c).mpr cut) _ _ lighter

theorem Lighter.add_right {a b : Multiset Weight} (lighter : Lighter a b) (c : Multiset Weight) :
    Lighter (a + c) (b + c) := by
  rw [add_comm a,add_comm b]
  exact lighter.add_left c

theorem lighter_singleton {s : Multiset Weight} {a : Weight} (smaller : ∀ b ∈ s, b < a) : Lighter s {a} :=
  .single (cutExpand_singleton smaller)

theorem lighter_zero {s : Multiset Weight} (some : s ≠ 0) : Lighter 0 s := by
  induction s using Multiset.induction with
  | empty => exact absurd rfl some
  | cons a s ih =>
    have cut : CutExpand (· < ·) s (a ::ₘ s) := ⟨0,a,by simp,by rw [add_comm,Multiset.singleton_add,add_zero]⟩
    by_cases rest : s = 0
    · exact .single (rest ▸ cut)
    · exact (ih rest).tail cut

theorem lt_of_phase {p q : ℕ} (less : p < q) (a b : Ordinal.{0}) : (toLex (p,a) : Weight) < toLex (q,b) :=
  Prod.Lex.toLex_lt_toLex.mpr (.inl less)

theorem lt_of_rank (p : ℕ) {a b : Ordinal.{0}} (less : a < b) : (toLex (p,a) : Weight) < toLex (p,b) :=
  Prod.Lex.toLex_lt_toLex.mpr (.inr ⟨rfl,less⟩)

/-- How much work there is. -/
noncomputable def Work.rank {α : Type} (work : Work σ α) : Ordinal.{0} :=
  (below_wellFounded.transGen.apply work).rank

theorem Work.rank_lt {α : Type} {rest work : Work σ α} (below : TransGen Below rest work) : rest.rank < work.rank :=
  Acc.rank_lt_of_rel _ below

/-- How much there is to do for a thread. -/
noncomputable def Resolution.Thread.rank (chain : List (Resolver σ)) (P : σ → Prop) (t : Thread σ) : Ordinal.{0} :=
  ((below_wellFounded : WellFounded (Below chain P)).transGen.apply t).rank

theorem Resolution.Thread.rank_lt {chain : List (Resolver σ)} {P : σ → Prop} {next t : Thread σ}
    (below : TransGen (Below chain P) next t) : next.rank chain P < t.rank chain P :=
  Acc.rank_lt_of_rel _ below

/-- The weights of the threads of a task. -/
noncomputable def threadWeights (chain : List (Resolver σ)) (P : σ → Prop) (ts : List (Resolution.Thread σ)) :
    Multiset Weight := ↑(ts.map fun t => toLex (2,t.rank chain P))

/-- What is still to be done at a stage. -/
noncomputable def Stage.weights (tools : Toolchain σ) (P : σ → Prop) : Stage σ → Multiset Weight
  | .reading | .given _ => {toLex (5,0)}
  | .transforming _ => {toLex (4,0)}
  | .paused _ _ rest => {toLex (3,rest.rank)}
  | .resolving _ _ callers => {toLex (1,0)} + threadWeights tools.resolvers P callers
  | .announcing _ _ _ _ rest => {toLex (1,rest.rank)}
  | .awaiting .. => {toLex (0,0)}
  | .done _ => 0

/-- How long a stage waits for the clock. -/
def Stage.wait (clock : Nat) : Stage σ → Nat
  | .paused _ wake _ | .announcing _ _ _ wake _ => wake - clock
  | .resolving _ _ callers => (callers.map fun t => t.wait clock).sum
  | _ => 0

/-- Threads that are carried on get lighter, unless they all are finished or wait for the clock. -/
theorem lighter_threads {chain : List (Resolver σ)} {P : σ → Prop} {fuel clock : Nat}
    {ts next : List (Resolution.Thread σ)} (onward : List.Forall₂ (Resolution.Thread.Onward chain P fuel clock) ts next) :
    (next = ts ∧ (0 < fuel → (ts.map fun t => t.wait clock).sum = 0 → ∃ rs, ts.mapM Resolution.Thread.result? = some rs)) ∨
      Lighter (threadWeights chain P next) (threadWeights chain P ts) := by
  induction onward with
  | nil => exact .inl ⟨rfl,fun _ _ => ⟨[],rfl⟩⟩
  | @cons t t' ts next first others ih =>
    have cons : ∀ (u : Resolution.Thread σ) us, threadWeights chain P (u :: us) =
        {toLex (2,u.rank chain P)} + threadWeights chain P us := fun u us => rfl
    rw [cons,cons]
    rcases first with ⟨rfl,ends⟩ | below
    · rcases ih with ⟨rfl,end_⟩ | lighter
      · refine .inl ⟨rfl,fun more due => ?_⟩
        rw [List.map_cons,List.sum_cons,Nat.add_eq_zero_iff] at due
        obtain ⟨r,result⟩ := ends more due.1
        obtain ⟨rs,results⟩ := end_ more due.2
        exact ⟨r :: rs,by simp [List.mapM_cons,result,results]⟩
      · exact .inr (lighter.add_left _)
    · have here : Lighter {toLex (2,t'.rank chain P)} {toLex (2,t.rank chain P)} :=
        lighter_singleton fun b member => Multiset.mem_singleton.mp member ▸ lt_of_rank 2 (Resolution.Thread.rank_lt below)
      refine .inr ?_
      rcases ih with ⟨rfl,-⟩ | lighter
      · exact here.add_right _
      · exact (lighter.add_left _).trans (here.add_right _)

namespace Graph

section

variable {tools : Toolchain σ} {P : σ → Prop} {w : World} {base young n : Nat} {roots : List ModuleId}
  {outside : List Nat} {g after : Graph σ} {id : ModuleId} {stage : Stage σ}

/-- A stage before the registration gets lighter, unless it waits for the clock. -/
theorem lighter_of_advance (follows : tools.Follows P w) (unhooked : g.hooks.registered = [])
    (fine : P g.layer.env) (fits : stage.Fits tools P w roots id) (start : stage.Early) {next : Stage σ}
    {layer : Resolution.State σ} (eq : g.advance tools id stage = (next,{ g with layer })) (goes : next.Early) :
    layer.clock = g.layer.clock ∧ (Lighter (next.weights tools P) (stage.weights tools P) ∨
      (next = stage ∧ (0 < tools.fuel → stage.wait g.layer.clock ≠ 0))) := by
  have carried : ∀ (draft : Draft) (work : Work σ (Except TransformFault Transformed)),
      work.Gives P (w.transform id draft.sources) → g.advance tools id stage = g.transform id draft work →
      (∀ rest, TransGen Work.Below rest work → Lighter {toLex (3,rest.rank)} (stage.weights tools P)) →
      (∀ callers, Lighter ({toLex (1,0)} + threadWeights tools.resolvers P callers) (stage.weights tools P)) →
      layer.clock = g.layer.clock ∧ Lighter (next.weights tools P) (stage.weights tools P) := by
    intro draft work gives carried pauses resolves
    obtain ⟨-,halts⟩ := gives.go fine
    rcases transform_cases g id draft work with ⟨rounds,rest,layer',halt,same_layer,same⟩ | ⟨fault,layer',-,-,same⟩ |
        ⟨made,layer',-,same_layer,same⟩
    · obtain ⟨rfl,equal⟩ := Prod.mk.inj (eq.symm.trans (carried.trans same))
      obtain rfl : layer = layer' := congrArg Graph.layer equal
      rw [halt] at halts
      rcases halts with ended | ⟨_,_,paused,-,below⟩
      · cases ended
      · cases paused
        exact ⟨by rw [same_layer],pauses rest below⟩
    · obtain ⟨rfl,-⟩ := Prod.mk.inj (eq.symm.trans (carried.trans same))
      exact goes.elim
    · obtain ⟨rfl,equal⟩ := Prod.mk.inj (eq.symm.trans (carried.trans same))
      obtain rfl : layer = layer' := congrArg Graph.layer equal
      exact ⟨by rw [same_layer],resolves _⟩
  -- Resolutions are lighter than anything before them.
  have resolved : ∀ (p : ℕ) (a : Ordinal.{0}) callers, 2 < p →
      Lighter ({toLex (1,0)} + threadWeights tools.resolvers P callers) {toLex (p,a)} := by
    intro p a callers more
    refine lighter_singleton fun b member => ?_
    rcases Multiset.mem_add.mp member with here | here
    · obtain rfl := Multiset.mem_singleton.mp here
      exact lt_of_phase (by omega) _ _
    · obtain ⟨t,-,rfl⟩ := List.mem_map.mp (Multiset.mem_coe.mp here)
      exact lt_of_phase more _ _
  cases stage with
  | reading =>
    rcases read_cases tools g id with ⟨e,layer',-,-,same⟩ | ⟨contents,layer',-,same_layer,same⟩
    · obtain ⟨rfl,-⟩ := Prod.mk.inj (eq.symm.trans same)
      exact goes.elim
    · rcases accept_cases { g with layer := layer' } id contents with ⟨v,-,-,taken⟩ | ⟨event,layer'',-,taken,ran,still⟩
      · obtain ⟨rfl,-⟩ := Prod.mk.inj (eq.symm.trans (same.trans taken))
        exact goes.elim
      · obtain ⟨rfl,equal⟩ := Prod.mk.inj (eq.symm.trans (same.trans taken))
        obtain rfl : layer = layer'' := congrArg Graph.layer equal
        obtain ⟨-,rfl⟩ := eq_of_runBefore (by exact unhooked) ran still
        refine ⟨by rw [same_layer],.inl (lighter_singleton fun b member => ?_)⟩
        exact Multiset.mem_singleton.mp member ▸ lt_of_phase (by omega) _ _
  | given contents => exact fits.elim
  | transforming draft =>
    refine (carried draft _ (fits.2 ▸ follows.transforms id draft.event.contents) rfl ?_ ?_).imp_right .inl
    · exact fun rest _ => lighter_singleton fun b member =>
        Multiset.mem_singleton.mp member ▸ lt_of_phase (by omega) _ _
    · exact fun callers => resolved 4 0 callers (by omega)
  | paused draft wake rest =>
    by_cases due : wake ≤ g.layer.clock
    · refine (carried draft rest fits.2 (if_pos due) ?_ ?_).imp_right .inl
      · exact fun rest' below => lighter_singleton fun b member =>
          Multiset.mem_singleton.mp member ▸ lt_of_rank 3 (Work.rank_lt below)
      · exact fun callers => resolved 3 _ callers (by omega)
    · have same : g.advance tools id (.paused draft wake rest) = (.paused draft wake rest,g) := if_neg due
      obtain ⟨rfl,equal⟩ := Prod.mk.inj (eq.symm.trans same)
      obtain rfl : layer = g.layer := congrArg Graph.layer equal
      refine ⟨rfl,.inr ⟨rfl,fun _ => ?_⟩⟩
      simp only [Stage.wait]
      omega
  | resolving draft made callers =>
    obtain ⟨text,transformed,gives⟩ := fits
    obtain ⟨-,clock,gives',onward⟩ := Resolution.pollAll_gives gives tools.fuel fine
    rcases resolve_cases tools g id draft made callers with ⟨going,same⟩ | ⟨results,answered,all⟩
    · obtain ⟨rfl,equal⟩ := Prod.mk.inj (eq.symm.trans same)
      obtain rfl := congrArg Graph.layer equal
      refine ⟨clock,?_⟩
      rcases lighter_threads onward with ⟨still,ends⟩ | lighter
      · refine .inr ⟨by rw [still],fun more due => ?_⟩
        obtain ⟨rs,ended⟩ := ends more due
        rw [still,ended] at going
        cases going
      · exact .inl (lighter.add_left _)
    · rcases all with ⟨e,bad,same⟩ | ⟨imports,good,same⟩
      · obtain ⟨rfl,-⟩ := Prod.mk.inj (eq.symm.trans same)
        exact goes.elim
      · have registered := same.trans (finish_unhooked (by exact unhooked) id draft made imports)
        obtain ⟨rfl,-⟩ := Prod.mk.inj (eq.symm.trans registered)
        exact goes.elim
  | announcing => exact fits.elim
  | awaiting own children => exact start.elim
  | done r => exact start.elim

/-! ## What is still to be done -/

/-- How many files are not registered. -/
def unread (w : World) (g : Graph σ) : Nat := w.files.countP fun f => !g.registry.contains f.1

noncomputable def weights (tools : Toolchain σ) (P : σ → Prop) (g : Graph σ) : Multiset Weight :=
  (g.tasks.map fun t => t.stage.weights tools P).sum

def waits (g : Graph σ) : Nat := (g.tasks.map fun t => t.stage.wait g.layer.clock).sum

/-- All that is still to be done. -/
noncomputable def rest (tools : Toolchain σ) (P : σ → Prop) (w : World) (g : Graph σ) : ℕ × Multiset Weight × ℕ :=
  (g.unread w,g.weights tools P,g.waits)

/-- Less is still to be done. -/
abbrev Less : ℕ × Multiset Weight × ℕ → ℕ × Multiset Weight × ℕ → Prop :=
  TransGen (Prod.Lex (· < ·) (Prod.Lex Lighter (· < ·)))

theorem less_wellFounded : WellFounded Less :=
  (wellFounded_lt.prod_lex (lighter_wellFounded.prod_lex wellFounded_lt)).transGen

theorem less_of_unread {a b : ℕ × Multiset Weight × ℕ} (less : a.1 < b.1) : Less a b :=
  .single (Prod.lex_def.mpr (.inl less))

theorem less_of_lighter {a b : ℕ × Multiset Weight × ℕ} (same : a.1 = b.1) (lighter : Lighter a.2.1 b.2.1) : Less a b :=
  .single (Prod.lex_def.mpr (.inr ⟨same,Prod.lex_def.mpr (.inl lighter)⟩))

theorem less_of_waits {a b : ℕ × Multiset Weight × ℕ} (same : a.1 = b.1) (weights : a.2.1 = b.2.1)
    (less : a.2.2 < b.2.2) : Less a b :=
  .single (Prod.lex_def.mpr (.inr ⟨same,Prod.lex_def.mpr (.inr ⟨weights,less⟩)⟩))

/-- The weights after one task has gone on to another stage. -/
theorem lighter_setStage (here : g.At n id stage) (after : Graph σ) (tasks : after.tasks = g.tasks) {next : Stage σ}
    (lighter : Lighter (next.weights tools P) (stage.weights tools P)) :
    Lighter ((after.setStage n next).weights tools P) (g.weights tools P) := by
  unfold weights
  rw [tasks_setStage,tasks]
  have found : g.tasks[n]? = some ⟨id,stage⟩ := here
  clear here tasks
  generalize g.tasks = ts at found
  induction ts generalizing n with
  | nil => simp at found
  | cons t ts ih =>
    cases n with
    | zero =>
      obtain rfl : t = ⟨id,stage⟩ := by simpa using found
      simpa using lighter.add_right _
    | succ n =>
      have := ih (n := n) (by simpa using found)
      simpa using this.add_left _

/-- Reads of what compiles in a world, on their way. -/
structure Going (tools : Toolchain σ) (P : σ → Prop) (w : World) (start : Graph σ) (outside : List Nat)
    (g : Graph σ) : Prop where
  now : Compiling tools P w start outside g
  few : ∀ {n id own children}, start.tasks.length ≤ n → g.At n id (.awaiting own children) →
    children.length ≤ w.files.length
  /-- With every version one more file is registered. -/
  paid : g.stamps + g.unread w ≤ start.stamps + w.files.length

section

variable {start : Graph σ}

theorem Compiling.unfailed (now : Compiling tools P w start outside g) (compiles : w.Compiles start.entries) :
    g.Unfailed start.tasks.length := fun _ _ _ late there => now.toReading.bad late there compiles

theorem mem_files_of_compile? {w : World} {id : ModuleId} {m : Module} (compiled : w.compile? id = some m) :
    ∃ text, (id,text) ∈ w.files :=
  ⟨_,mem_of_lookup (World.sources_of_compile? compiled)⟩

/-- Where everything compiles, a module imports no more modules than there are files. -/
theorem length_imports_le (compiles : w.Compiles roots) (reached : w.Reaches roots id) {m : Module}
    (compiled : w.compile? id = some m) : m.imports.length ≤ w.files.length := by
  rw [← List.length_map (f := Prod.fst)]
  refine (List.subperm_of_subset (World.nodup_imports compiled) fun i member => ?_).length_le
  obtain ⟨m',compiled'⟩ := compiles i (.step reached compiled member)
  obtain ⟨text,listed⟩ := mem_files_of_compile? compiled'
  exact List.mem_map.mpr ⟨_,listed,rfl⟩

theorem unread_congr (registry : after.registry = g.registry) : after.unread w = g.unread w := by
  simp only [unread,registry]

theorem rest_congr (tasks : after.tasks = g.tasks) (registry : after.registry = g.registry)
    (clock : after.layer.clock = g.layer.clock) : after.rest tools P w = g.rest tools P w := by
  simp only [rest,unread,weights,waits,tasks,registry,clock]

/-- With a module that was not registered, less files are left. -/
theorem unread_insert {v : Version} {text : String} (listed : (v.id,text) ∈ w.files)
    (new : g.registry.get? v.id = none) (registry : after.registry = g.registry.insert v) :
    after.unread w < g.unread w := by
  unfold unread
  rw [registry]
  have fewer : ∀ id, (!(g.registry.insert v).contains id) = true → (!g.registry.contains id) = true := by
    intro id absent
    simp only [Bool.not_eq_true',Bool.eq_false_iff,ne_eq,Registry.not_contains_iff] at absent ⊢
    rw [Registry.get?_insert] at absent
    split at absent
    · cases absent
    · exact absent
  generalize w.files = files at listed
  induction files with
  | nil => cases listed
  | cons f files ih =>
    have others := List.countP_mono_left (l := files) fun f _ absent => fewer f.1 absent
    rcases List.mem_cons.mp listed with rfl | later
    · have present : (g.registry.insert v).contains v.id = true :=
        Registry.contains_of_get? (Registry.get?_insert_self g.registry v)
      have absent : g.registry.contains v.id = false := by
        rw [Bool.eq_false_iff]
        exact Registry.not_contains_iff.mpr new
      simp only [List.countP_cons,present,absent]
      simpa using Nat.lt_succ_of_le others
    · have less := ih later
      have first := fewer f.1
      simp only [List.countP_cons]
      cases here : g.registry.contains f.1 <;> cases there : (g.registry.insert v).contains f.1 <;> simp_all

/-- A task has to wait: for the clock, or for a task that has not come to its end. -/
def Held (tools : Toolchain σ) (g : Graph σ) (n : Nat) : Prop :=
  ∀ id stage, g.At n id stage → (stage.Early → 0 < tools.fuel → stage.wait g.layer.clock ≠ 0) ∧
    ∀ own children, stage = .awaiting own children → ∃ c ∈ children, g.outcome? c = none

/-- A task has been set to a stage that waits for no tasks, and the registry is as before. -/
theorem Going.setStage (going : Going tools P w start outside g) (here : g.At n id stage) (g' : Graph σ) {next : Stage σ}
    (tasks : g'.tasks = g.tasks) (registry : g'.registry = g.registry) (stamps : g'.stamps = g.stamps)
    (other : ∀ own children, next ≠ .awaiting own children)
    (now : Compiling tools P w start outside (g'.setStage n next)) :
    Going tools P w start outside (g'.setStage n next) ∧ (Lighter (next.weights tools P) (stage.weights tools P) →
      Less ((g'.setStage n next).rest tools P w) (g.rest tools P w)) := by
  have unread : (g'.setStage n next).unread w = g.unread w := unread_congr (by rw [registry_setStage,registry])
  refine ⟨⟨now,fun late there => ?_,?_⟩,fun lighter => ?_⟩
  · rcases (at_setStage_after here tasks).mp there with ⟨-,-,equal⟩ | ⟨-,before⟩
    · exact absurd equal.symm (other _ _)
    · exact going.few late before
  · rw [unread,stamps_setStage,stamps]
    exact going.paid
  · exact less_of_lighter unread (lighter_setStage here g' tasks lighter)

/-- A module is registered, and there is one file less to read. -/
theorem Going.enter (going : Going tools P w start outside g) (compiles : w.Compiles start.entries)
    (unfailed : g.Unfailed start.tasks.length) (here : g.At n id stage) (begun : stage.Early) {draft : Draft}
    (drafts : stage.draft? = some draft) {own : Commit} (same : own.version.id = id)
    (compiled : w.compile? own.version.id = some own.version.body) {children : List Nat}
    (entered : Entered g after n own children) (now' : Compiling tools P w start outside after) :
    Going tools P w start outside after ∧ Less (after.rest tools P w) (g.rest tools P w) := by
  have now := going.now
  have late : start.tasks.length ≤ n := (now.orderly.listed (now.orderly.opened ⟨_,here,begun.unfinished⟩)).1
  obtain ⟨text,listed⟩ := mem_files_of_compile? compiled
  have less : after.unread w < g.unread w :=
    unread_insert listed (same ▸ (now.complete unfailed).fresh here drafts) entered.registry
  refine ⟨⟨now',fun {m i own' children'} late' there => ?_,?_⟩,less_of_unread less⟩
  · rcases entered.awaiting there with ⟨-,-,rfl,rfl⟩ | ⟨-,before⟩
    · refine Nat.le_trans entered.few (length_imports_le compiles ?_ compiled)
      rw [same]
      exact now.faithful.below late here
    · exact going.few late' before
  · rw [entered.stamps]
    have := going.paid
    omega

/-- A task before its registration gets less to do, or waits for the clock. -/
theorem Going.early (going : Going tools P w start outside g) (follows : tools.Follows P w) (here : g.At n id stage)
    (begun : stage.Early) {next : Stage σ} (goes : next.Early) {layer : Resolution.State σ}
    (eq : g.advance tools id stage = (next,{ g with layer }))
    (less : Lighter (next.weights tools P) (stage.weights tools P) →
      Less ((({ g with layer } : Graph σ).setStage n next).rest tools P w) (g.rest tools P w)) :
    Less ((({ g with layer } : Graph σ).setStage n next).rest tools P w) (g.rest tools P w) ∨
      ((({ g with layer } : Graph σ).setStage n next).rest tools P w = g.rest tools P w ∧ g.Held tools n) := by
  have now := going.now
  have late : start.tasks.length ≤ n := (now.orderly.listed (now.orderly.opened ⟨_,here,begun.unfinished⟩)).1
  obtain ⟨clock,lighter | ⟨rfl,waits⟩⟩ := lighter_of_advance follows now.faithful.unhooked now.faithful.fine
    (now.faithful.fits late here) begun eq goes
  · exact .inl (less lighter)
  · refine .inr ⟨rest_congr (tasks_setStage_same (g := { g with layer }) here) registry_setStage ?_,fun i s there => ?_⟩
    · rw [layer_setStage]
      exact clock
    · obtain ⟨rfl,rfl⟩ := there.unique here
      refine ⟨fun _ => waits,?_⟩
      rintro own children rfl
      exact begun.elim

/-- What a step of a task comes to, for what is still to be done: it gets less, or nothing is different,
in which case the task waits. -/
theorem Going.step (going : Going tools P w start outside g) (follows : tools.Follows P w)
    (compiles : w.Compiles start.entries) (n : Nat) :
    Going tools P w start outside (g.step tools n) ∧ (Less ((g.step tools n).rest tools P w) (g.rest tools P w) ∨
      ((g.step tools n).rest tools P w = g.rest tools P w ∧ g.Held tools n)) := by
  have now := going.now
  have now' := now.step follows n
  by_cases bound : n < g.tasks.length
  · obtain ⟨id,stage,here⟩ := exists_at bound
    have turn := step_turn tools here
    have late : ¬ stage.Finished → start.tasks.length ≤ n :=
      fun open_ => (now.orderly.listed (now.orderly.opened ⟨_,here,open_⟩)).1
    have unfailed := now'.unfailed compiles
    generalize g.step tools n = after at turn now' unfailed
    cases turn with
    | @early _ next layer begun goes drafted eq =>
      obtain ⟨going',less⟩ := going.setStage here { g with layer } rfl rfl rfl goes.ne_awaiting now'
      exact ⟨going',going.early follows here begun goes eq less⟩
    | @failed _ _ layer begun =>
      exact (unfailed n id _ (late begun.unfinished) (at_setStage_self (g := { g with layer }) here)).elim
    | @kept _ _ layer begun =>
      obtain ⟨going',less⟩ := going.setStage here { g with layer } rfl rfl rfl (Stage.done_ne_awaiting _) now'
      refine ⟨going',.inl (less (lighter_zero ?_))⟩
      cases stage with
      | awaiting | done => exact begun.elim
      | _ => simp [Stage.weights]
    | @registered _ draft layer own begun drafts _ same _ _ unhooked =>
      obtain ⟨children,entered⟩ := entered_spec here same layer
      have fits := now.faithful.fits (late begun.unfinished) here
      have compiled : w.compile? own.version.id = some own.version.body := by
        rw [same]
        exact (compiled_of_resolved now.faithful.fine fits
          (unhooked now.faithful.unhooked (Stage.Fits.not_announcing fits))).2
      obtain ⟨going',less⟩ := going.enter compiles (now.unfailed compiles) here begun drafts same compiled entered now'
      exact ⟨going',.inl less⟩
    | @waiting own children open_ =>
      refine ⟨going,.inr ⟨rfl,fun i s there => ?_⟩⟩
      obtain ⟨rfl,rfl⟩ := there.unique here
      refine ⟨fun early => early.elim,fun own children equal => ?_⟩
      cases equal
      exact outcomes_eq_none_iff.mp open_
    | @settled own children outcomes all good =>
      have untouched := (now.current_empty (now.unfailed compiles)).tidied here
      obtain ⟨going',less⟩ := going.setStage here { g with registry := g.tidied own } rfl untouched rfl
        (Stage.done_ne_awaiting _) now'
      exact ⟨going',.inl (less (lighter_zero (by simp [Stage.weights])))⟩
    | @rolledBack own _ outcomes =>
      exact (unfailed n id _ (late fun finished => finished)
        (at_setStage_self (g := { g with registry := own.rollback (commits outcomes) g.registry }) here)).elim
    | @ended r =>
      obtain ⟨going',-⟩ := going.setStage here g rfl rfl rfl (Stage.done_ne_awaiting _) now'
      refine ⟨going',.inr ⟨?_,fun i s there => ?_⟩⟩
      · exact rest_congr (tasks_setStage_same here) registry_setStage (by rw [layer_setStage])
      · obtain ⟨rfl,rfl⟩ := there.unique here
        exact ⟨fun early => early.elim,fun own children equal => absurd equal (Stage.done_ne_awaiting r own children)⟩
  · have absent := List.getElem?_eq_none (Nat.le_of_not_lt bound)
    rw [step_none tools absent]
    refine ⟨going,.inr ⟨rfl,fun i s there => ?_⟩⟩
    rw [At,absent] at there
    cases there

/-! ## Rounds -/

/-- No more is still to be done than before. -/
def NoMore (tools : Toolchain σ) (P : σ → Prop) (w : World) (after g : Graph σ) : Prop :=
  after.rest tools P w = g.rest tools P w ∨ Less (after.rest tools P w) (g.rest tools P w)

theorem NoMore.trans {a b c : Graph σ} (first : NoMore tools P w b a) (second : NoMore tools P w c b) :
    NoMore tools P w c a := by
  rcases first with equal | less
  · unfold NoMore
    rw [← equal]
    exact second
  · exact .inr (second.elim (fun equal => equal ▸ less) fun less' => less'.trans less)

theorem NoMore.less {a b c : Graph σ} (second : NoMore tools P w c b)
    (first : Less (b.rest tools P w) (a.rest tools P w)) : Less (c.rest tools P w) (a.rest tools P w) :=
  second.elim (fun equal => equal ▸ first) fun less => less.trans first

theorem NoMore.less_trans {a b c : Graph σ} (first : NoMore tools P w b a)
    (second : Less (c.rest tools P w) (b.rest tools P w)) : Less (c.rest tools P w) (a.rest tools P w) :=
  first.elim (fun equal => equal ▸ second) fun less => second.trans less

/-- Reads that go on have no more to do than some graph had. -/
theorem Going.step_noMore (follows : tools.Follows P w) (compiles : w.Compiles start.entries) {before : Graph σ} (n : Nat)
    (going : Going tools P w start outside g ∧ NoMore tools P w g before) :
    Going tools P w start outside (g.step tools n) ∧ NoMore tools P w (g.step tools n) before := by
  obtain ⟨going',rest⟩ := going.1.step follows compiles n
  exact ⟨going',going.2.trans (rest.elim .inr fun same => .inl same.1)⟩

theorem Going.after_carry (going : Going tools P w start outside g) (follows : tools.Follows P w)
    (compiles : w.Compiles start.entries) (fuel n : Nat) :
    Going tools P w start outside (carry tools fuel g n) ∧ NoMore tools P w (carry tools fuel g n) g :=
  carry_of_step (Q := fun after => Going tools P w start outside after ∧ NoMore tools P w after g)
    (fun n => Going.step_noMore follows compiles n) fuel n ⟨going,.inl rfl⟩

theorem Going.after_carryAll (going : Going tools P w start outside g) (follows : tools.Follows P w)
    (compiles : w.Compiles start.entries) (fuel : Nat) (ns : List Nat) :
    Going tools P w start outside (carryAll tools fuel g ns) ∧
      NoMore tools P w (carryAll tools fuel g ns) g :=
  carryAll_of_step (Q := fun after => Going tools P w start outside after ∧ NoMore tools P w after g)
    (fun n => Going.step_noMore follows compiles n) fuel ns ⟨going,.inl rfl⟩

/-- A task that is not on its way is not carried on. -/
theorem carry_idle (fuel : Nat) (idle : ∀ i, ¬ g.Open n i) : carry tools fuel g n = g := by
  cases fuel with
  | zero => rfl
  | succ fuel =>
    by_cases bound : n < g.tasks.length
    · obtain ⟨id,stage,here⟩ := exists_at bound
      rw [carry,here.stage?]
      cases stage with
      | done r => rfl
      | _ => exact absurd ⟨_,here,fun finished => finished⟩ (idle id)
    · have absent : g.stage? n = none := by simp [stage?,List.getElem?_eq_none (Nat.le_of_not_lt bound)]
      rw [carry,absent]

/-- Where there is something to do for one of some tasks, carrying them on in order leaves less to do. -/
theorem Going.carryAll_less (going : Going tools P w start outside g) (follows : tools.Follows P w)
    (compiles : w.Compiles start.entries) (need : Nat) : ∀ (ns : List Nat) (fuel : Nat),
    (∃ c ∈ ns, ∃ i, g.Open c i) → ns.length + need ≤ fuel →
    (∀ c ∈ ns, ∀ i, g.Open c i → ∀ fuel, need ≤ fuel →
      Less ((carry tools fuel g c).rest tools P w) (g.rest tools P w)) →
    Less ((carryAll tools fuel g ns).rest tools P w) (g.rest tools P w)
  | [], _, begun, _, _ => by simp at begun
  | c :: ns, 0, _, more, _ => by simp at more
  | c :: ns, fuel + 1, begun, more, each => by
    rw [carryAll]
    simp only [List.length_cons] at more
    by_cases opened : ∃ i, g.Open c i
    · obtain ⟨i,opened⟩ := opened
      have less := each c List.mem_cons_self i opened fuel (by omega)
      have going' := (going.after_carry follows compiles fuel c).1
      exact (going'.after_carryAll follows compiles fuel ns).2.less less
    · rw [carry_idle fuel fun i here => opened ⟨i,here⟩]
      refine carryAll_less going follows compiles need ns fuel ?_ (by omega)
        fun c member => each c (List.mem_cons_of_mem _ member)
      obtain ⟨d,member,i,here⟩ := begun
      rcases List.mem_cons.mp member with rfl | later
      · exact absurd ⟨i,here⟩ opened
      · exact ⟨d,later,i,here⟩

theorem carryAll_idle : ∀ (ns : List Nat) (fuel : Nat), (∀ c ∈ ns, ∀ i, ¬ g.Open c i) → carryAll tools fuel g ns = g
  | _, 0, _ => by rw [carryAll]
  | [], fuel + 1, _ => by rw [carryAll]
  | c :: ns, fuel + 1, idle => by
    rw [carryAll,carry_idle fuel (idle c List.mem_cons_self)]
    exact carryAll_idle ns fuel fun c member => idle c (List.mem_cons_of_mem _ member)

theorem wait_eq_zero (due : g.waits = 0) (here : g.At n id stage) : stage.wait g.layer.clock = 0 := by
  have member : (⟨id,stage⟩ : Task σ) ∈ g.tasks := List.mem_of_getElem? here
  exact List.sum_eq_zero_iff.mp due _ (List.mem_map.mpr ⟨_,member,rfl⟩)

/-- A task that is not registered yet. -/
theorem Going.carry_less_early (going : Going tools P w start outside g) (follows : tools.Follows P w)
    (compiles : w.Compiles start.entries) (due : g.waits = 0) (more : 0 < tools.fuel) (here : g.At n id stage)
    (early : stage.Early) (fuel : Nat) :
    Less ((carry tools (fuel + 1) g n).rest tools P w) (g.rest tools P w) := by
  obtain ⟨next,after⟩ := (step_turn tools here).exists_at here
  obtain ⟨going',rest⟩ := going.step follows compiles n
  have less : Less ((g.step tools n).rest tools P w) (g.rest tools P w) :=
    rest.resolve_right fun ⟨_,waits⟩ => (waits id stage here).1 early more (wait_eq_zero due here)
  rw [carry_early tools fuel here early after]
  split
  · exact less
  · exact (going'.after_carry follows compiles fuel n).2.less less

/-- Where nothing waits for the clock, carrying a task on that is on its way leaves less to do. The
depth of the tasks below it is bounded by the stamps that are left. -/
theorem Going.carry_less (going : Going tools P w start outside g) (follows : tools.Follows P w)
    (compiles : w.Compiles start.entries) (due : g.waits = 0) (more : 0 < tools.fuel) (depth : Nat) :
    ∀ {n id}, g.Open n id → (∀ own children, g.At n id (.awaiting own children) →
      start.stamps + w.files.length ≤ own.version.stamp + depth) →
    ∀ fuel, 1 + depth * (w.files.length + 1) ≤ fuel → Less ((carry tools fuel g n).rest tools P w) (g.rest tools P w) := by
  have orderly := going.now.orderly
  -- The stamp of what waits is one of those that have been paid for.
  have bounded : ∀ {n id own children}, g.At n id (.awaiting own children) →
      own.version.stamp < start.stamps + w.files.length := by
    intro n id own children here
    have := orderly.bounded (.waiting here (.inl rfl))
    have := going.paid
    omega
  induction depth with
  | zero =>
    rintro n id ⟨stage,here,unfinished⟩ deep fuel enough
    obtain ⟨fuel,rfl⟩ : ∃ f, fuel = f + 1 := ⟨fuel - 1,by omega⟩
    cases stage with
    | awaiting own children =>
      have := deep own children here
      have := bounded here
      omega
    | done r => exact absurd trivial unfinished
    | _ => exact going.carry_less_early follows compiles due more here trivial fuel
  | succ depth ih =>
    rintro n id ⟨stage,here,unfinished⟩ deep fuel enough
    rw [Nat.succ_mul] at enough
    obtain ⟨fuel,rfl⟩ : ∃ f, fuel = f + 1 := ⟨fuel - 1,by omega⟩
    cases stage with
    | awaiting own children =>
      have late : start.tasks.length ≤ n := (orderly.listed (orderly.opened ⟨_,here,unfinished⟩)).1
      have few := going.few late here
      rw [carry,here.stage?]
      show Less (((carryAll tools fuel g children).step tools n).rest tools P w) (g.rest tools P w)
      by_cases begun : ∃ c ∈ children, ∃ i, g.Open c i
      · have less := going.carryAll_less follows compiles (1 + depth * (w.files.length + 1)) children fuel begun
          (by omega) fun c child i opened => ih opened fun own' children' there => by
            have := orderly.later here c child there
            have := deep own children here
            omega
        have going' := (going.after_carryAll follows compiles fuel children).1
        exact (Going.step_noMore follows compiles n ⟨going',.inl rfl⟩).2.less less
      · have idle : ∀ c ∈ children, ∀ i, ¬ g.Open c i := fun c child i opened => begun ⟨c,child,i,opened⟩
        rw [carryAll_idle children fuel idle]
        refine (going.step follows compiles n).2.resolve_right fun ⟨_,waits⟩ => ?_
        obtain ⟨c,child,absent⟩ := (waits id _ here).2 own children rfl
        obtain ⟨-,i,s,there,-⟩ := orderly.children here c child
        cases s with
        | done r =>
          rw [outcome?_iff.mpr ⟨i,there⟩] at absent
          cases absent
        | _ => exact idle c child i ⟨_,there,fun finished => finished⟩
    | done r => exact absurd trivial unfinished
    | _ => exact going.carry_less_early follows compiles due more here trivial fuel

/-- When the clock ticks, there is less to wait for, if there is something to wait for. -/
theorem waits_tick (g : Graph σ) : g.tick.waits = 0 ∨ g.tick.waits < g.waits := by
  have each : ∀ (clock wake : Nat), wake - (clock + 1) = 0 ∨ wake - (clock + 1) < wake - clock := by omega
  have sums : ∀ {α : Type} (f f' : α → Nat) (xs : List α), (∀ x, f' x = 0 ∨ f' x < f x) →
      (xs.map f').sum = 0 ∨ (xs.map f').sum < (xs.map f).sum := by
    intro α f f' xs pointwise
    induction xs with
    | nil => exact .inl rfl
    | cons x xs ih =>
      have := pointwise x
      simp only [List.map_cons,List.sum_cons]
      omega
  refine sums _ _ g.tasks fun t => ?_
  cases t.stage with
  | paused _ wake | announcing _ _ _ wake => exact each g.layer.clock wake
  | resolving draft made callers =>
    refine sums _ _ callers fun thread => ?_
    simp only [Resolution.Thread.wait]
    split
    · exact each g.layer.clock _
    · exact .inl rfl
  | _ => exact .inl rfl

/-- A round: the clock ticks. -/
theorem Going.after_tick (going : Going tools P w start outside g) :
    Going tools P w start outside g.tick ∧ NoMore tools P w g.tick g ∧
      (g.tick.waits ≠ 0 → Less (g.tick.rest tools P w) (g.rest tools P w)) := by
  refine ⟨⟨going.now.tick,going.few,going.paid⟩,?_,fun waits => ?_⟩
  · rcases waits_tick g with none | less
    · rcases Nat.eq_zero_or_pos g.waits with same | more
      · exact .inl (Prod.ext rfl (Prod.ext rfl (none.trans same.symm)))
      · exact .inr (less_of_waits rfl rfl (by simpa [rest,none] using more))
    · exact .inr (less_of_waits rfl rfl less)
  · exact less_of_waits rfl rfl ((waits_tick g).resolve_left waits)

/-- Items that are tasks stay so, and their tasks are carried on. -/
theorem pollItems_of_step {Q : Graph σ → Prop} (step : ∀ {g} n, Q g → Q (g.step tools n)) {items : List Item}
    (tasks : ∀ item ∈ items, ∃ n, item = .task n) (now : Q g) :
    (pollItems tools g items).1 = items ∧ Q (pollItems tools g items).2 := by
  induction items generalizing g with
  | nil => exact ⟨rfl,now⟩
  | cons item items ih =>
    obtain ⟨n,rfl⟩ := tasks item List.mem_cons_self
    obtain ⟨same,then_⟩ := ih (fun item member => tasks item (List.mem_cons_of_mem _ member))
      (carry_of_step step tools.fuel n now)
    exact ⟨congrArg (Item.task n :: ·) same,then_⟩

theorem exists_task_of_pollItems {items : List Item} {item : Item} (member : item ∈ (pollItems tools g items).1) :
    ∃ n, item = .task n := by
  induction items generalizing g with
  | nil => cases member
  | cons first items ih =>
    rcases List.mem_cons.mp member with rfl | later
    · exact ⟨_,rfl⟩
    · exact ih later

/-- Carrying on the items of a call leaves less to do, if one of them is on its way and nothing waits
for the clock. -/
theorem Going.pollItems_less (going : Going tools P w start outside g) (follows : tools.Follows P w)
    (compiles : w.Compiles start.entries) (due : g.waits = 0) (deep : (w.files.length + 1) ^ 2 ≤ tools.fuel)
    {items : List Item} (tasks : ∀ item ∈ items, ∃ n, item = .task n)
    (begun : ∃ n, .task n ∈ items ∧ ∃ i, g.Open n i) :
    Less ((pollItems tools g items).2.rest tools P w) (g.rest tools P w) := by
  induction items with
  | nil => simp at begun
  | cons item items ih =>
    obtain ⟨n,rfl⟩ := tasks item List.mem_cons_self
    have tasks' : ∀ item ∈ items, ∃ n, item = .task n := fun item member => tasks item (List.mem_cons_of_mem _ member)
    show Less ((pollItems tools (carry tools tools.fuel g n) items).2.rest tools P w) (g.rest tools P w)
    by_cases opened : ∃ i, g.Open n i
    · obtain ⟨i,opened⟩ := opened
      have enough : 1 + w.files.length * (w.files.length + 1) ≤ tools.fuel := by
        refine Nat.le_trans ?_ deep
        rw [Nat.pow_two,Nat.succ_mul]
        omega
      have less := going.carry_less follows compiles due (by omega) w.files.length opened
        (fun own children here => by have := (going.now.orderly.waiting here).2.1; omega) tools.fuel enough
      have others := pollItems_of_step (Q := fun after => Going tools P w start outside after ∧
          NoMore tools P w after (carry tools tools.fuel g n))
        (fun n => Going.step_noMore follows compiles n) tasks' ⟨(going.after_carry follows compiles tools.fuel n).1,.inl rfl⟩
      exact others.2.2.less less
    · rw [carry_idle tools.fuel fun i here => opened ⟨i,here⟩]
      refine ih tasks' ?_
      obtain ⟨m,member,i,here⟩ := begun
      rcases List.mem_cons.mp member with equal | later
      · cases equal
        exact absurd ⟨i,here⟩ opened
      · exact ⟨m,later,i,here⟩

/-- After some rounds all that was asked for has come to its end. -/
theorem Going.ends (going : Going tools P w start outside g) (follows : tools.Follows P w)
    (compiles : w.Compiles start.entries) (deep : (w.files.length + 1) ^ 2 ≤ tools.fuel) {items : List Item}
    (tasks : ∀ item ∈ items, ∃ n, item = .task n ∧ ∃ i s, g.At n i s) :
    ∃ limit result, (rounds tools limit g [.under items]).1 = [.under items] ∧
      (rounds tools limit g [.under items]).2.result? (.under items) = some result := by
  generalize measure : g.rest tools P w = m
  induction m using less_wellFounded.induction generalizing g with
  | h m ih =>
    subst measure
    cases ended : g.result? (.under items) with
    | some result => exact ⟨0,result,rfl,ended⟩
    | none =>
      obtain ⟨ticking,noMore,waiting⟩ := going.after_tick
      have named : ∀ item ∈ items, ∃ n, item = .task n := fun item member =>
        (tasks item member).imp fun _ task => task.1
      obtain ⟨same,going',noMore'⟩ := pollItems_of_step (g := g.tick) (Q := fun after =>
          Going tools P w start outside after ∧ NoMore tools P w after g.tick)
        (fun n => Going.step_noMore follows compiles n) named ⟨ticking,.inl rfl⟩
      have grows := (pollItems_of_step (g := g.tick) (Q := fun after => Grows g after)
        (fun {g'} n grows m i s there => by
          obtain ⟨s',there'⟩ := grows m i s there
          exact grows_step tools g' n m i s' there') named fun _ _ s there => ⟨s,there⟩).2
      have less : Less ((pollItems tools g.tick items).2.rest tools P w) (g.rest tools P w) := by
        by_cases waits : g.tick.waits = 0
        · -- Some task has not come to its end.
          obtain ⟨n,member,open_⟩ := exists_pending named ended
          obtain ⟨m,equal,i,s,there⟩ := tasks _ member
          cases equal
          have unfinished : ¬ s.Finished := by
            cases s with
            | done r =>
              rw [outcome?_iff.mpr ⟨i,there⟩] at open_
              cases open_
            | _ => exact fun finished => finished
          exact noMore.less_trans (ticking.pollItems_less follows compiles waits deep named ⟨n,member,i,s,there,unfinished⟩)
        · exact noMore'.less (waiting waits)
      obtain ⟨limit,result,calls,returned⟩ := ih _ less going'
        (fun item member => by
          obtain ⟨n,rfl,i,s,there⟩ := tasks item member
          obtain ⟨s',there'⟩ := grows n i s there
          exact ⟨n,rfl,i,s',there'⟩) rfl
      refine ⟨limit + 1,result,?_⟩
      have round : rounds tools (limit + 1) g [.under items] =
          rounds tools limit (pollItems tools g.tick items).2 [.under items] := by
        rw [rounds,if_neg (by simp [ended])]
        simp only [pollAll,poll,same]
      rw [round]
      exact ⟨calls,returned⟩

theorem lasting_going (follows : tools.Follows P w) (compiles : w.Compiles start.entries) :
    Lasting tools start.entries (Going tools P w start) where
  listed going := (lasting_compiling follows start).listed going.now
  tick going := going.after_tick.1
  join {outside g id} asked going := by
    have grown := (grown_join g (List.mem_singleton.mpr rfl : id ∈ [id])).1
    refine ⟨(lasting_compiling follows start).join asked going.now,fun late there => ?_,?_⟩
    · exact going.few late (grown.at_old (by simp) there)
    · have registry : (g.join id).2.registry = g.registry := by rw [grown.same]
      have stamps : (g.join id).2.stamps = g.stamps := by rw [grown.same]
      rw [unread_congr registry,stamps]
      exact going.paid
  step n going := (going.step follows compiles n).1

end

end

end Graph

end Bundling
