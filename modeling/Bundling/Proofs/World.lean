import Mathlib.Data.List.Forall2
import Mathlib.Logic.Relation
import Bundling.Graph.Schedule
import Bundling.Proofs.Registry

/-!
# Worlds

What is compiled where transformers and resolvers are functions: a `World` has a text for each file,
what the transformers make of it, and what each request stands for. It says which modules there are and
what each of them is, with no order in which anything happens (`World.compile?`, `World.Reaches`).

A toolchain follows a world (`Toolchain.Follows`) if its plugins come to the answers of the world,
however long they take and whatever they remember. `Work.Gives` and `Thread.Gives` say this of a
transformation and of a resolution on its way.
-/

namespace Bundling

/-- Files, and plugins that are functions. -/
structure World where
  files : List (ModuleId × String)
  transform : ModuleId → String → Except TransformFault Transformed
  resolve : String → ModuleId → Resolved

namespace World

def text? (w : World) (id : ModuleId) : Option String := w.files.lookup id

/-- The module of a file: its text, and what its transformation and the resolution of its requests
give. It is there if all of this goes well. -/
def compile? (w : World) (id : ModuleId) : Option Module :=
  match w.text? id with
  | none => none
  | some sources =>
    match w.transform id sources with
    | .error _ => none
    | .ok made =>
      match made.imports.mapM fun request => w.resolve request id with
      | .error _ => none
      | .ok imports => some {
          id, sources
          contents := made.contents
          sourceMap := made.sourceMap
          imports := (firstOccurrences imports).filter (· != id)
          requests := assignAll (made.imports.zip imports) }

/-- What is below some modules. A module that does not compile has nothing below it. -/
inductive Reaches (w : World) (roots : List ModuleId) : ModuleId → Prop where
  | root {id : ModuleId} (member : id ∈ roots) : Reaches w roots id
  | step {id i : ModuleId} {m : Module} (reached : Reaches w roots id) (compiled : w.compile? id = some m)
      (member : i ∈ m.imports) : Reaches w roots i

theorem Reaches.trans {w : World} {roots others : List ModuleId} {id : ModuleId} (reached : w.Reaches others id)
    (all : ∀ i ∈ others, w.Reaches roots i) : w.Reaches roots id := by
  induction reached with
  | root member => exact all _ member
  | step _ compiled member ih => exact .step ih compiled member

/-- Everything below some modules compiles. -/
def Compiles (w : World) (roots : List ModuleId) : Prop :=
  ∀ id, w.Reaches roots id → ∃ m, w.compile? id = some m

theorem compile?_eq_some_iff {w : World} {id : ModuleId} {m : Module} :
    w.compile? id = some m ↔ ∃ sources made imports, w.text? id = some sources ∧
      w.transform id sources = .ok made ∧ (made.imports.mapM fun request => w.resolve request id) = .ok imports ∧
      m = Graph.moduleOf id sources { id, contents := made.contents, sourceMap := made.sourceMap, imports }
        (made.imports.zip imports) := by
  unfold compile?
  constructor
  · intro compiled
    split at compiled
    · cases compiled
    · rename_i sources text
      split at compiled
      · cases compiled
      · rename_i made transformed
        split at compiled
        · cases compiled
        · rename_i imports resolved
          cases compiled
          exact ⟨sources,made,imports,text,transformed,resolved,rfl⟩
  · rintro ⟨sources,made,imports,text,transformed,resolved,rfl⟩
    simp only [text,transformed,resolved]
    rfl

theorem sources_of_compile? {w : World} {id : ModuleId} {m : Module} (compiled : w.compile? id = some m) :
    w.text? id = some m.sources := by
  obtain ⟨sources,made,imports,text,-,-,rfl⟩ := compile?_eq_some_iff.mp compiled
  exact text

theorem nodup_imports {w : World} {id : ModuleId} {m : Module} (compiled : w.compile? id = some m) :
    m.imports.Nodup := by
  obtain ⟨sources,made,imports,-,-,-,rfl⟩ := compile?_eq_some_iff.mp compiled
  exact (nodup_firstOccurrences imports).filter _

end World

/-! ## Work that gives a value -/

namespace Work

variable {σ α : Type} {P : σ → Prop}

/-- Work comes to a value, from whatever states that `P` holds of it goes on. -/
def Gives (P : σ → Prop) (a : α) : Work σ α → Prop
  | .done b => b = a
  | .step f next => ∀ s, P s → P (f s) ∧ (next s).Gives P a
  | .pause _ next => next.Gives P a

/-- What is left of some work after a step of it. -/
inductive Below : Work σ α → Work σ α → Prop where
  | step (f : σ → σ) (next : σ → Work σ α) (s : σ) : Below (next s) (.step f next)
  | pause (rounds : Nat) (next : Work σ α) : Below next (.pause rounds next)

theorem below_wellFounded : WellFounded (Below : Work σ α → Work σ α → Prop) := by
  refine ⟨fun work => ?_⟩
  induction work with
  | done a => exact ⟨_,fun _ below => nomatch below⟩
  | step f next ih =>
    refine ⟨_,fun _ below => ?_⟩
    cases below with
    | step _ _ s => exact ih s
  | pause rounds next ih =>
    refine ⟨_,fun _ below => ?_⟩
    cases below with
    | pause => exact ih

/-- Where work halts, it has come to its value, or goes on to it after some rounds. -/
theorem Gives.go {a : α} {work : Work σ α} (gives : work.Gives P a) {s : σ} (fine : P s) :
    P (work.go s).2 ∧ ((work.go s).1 = .done a ∨ ∃ rounds next, (work.go s).1 = .paused rounds next ∧
      next.Gives P a ∧ Relation.TransGen Below next work) := by
  induction work generalizing s with
  | done b => exact ⟨fine,.inl (congrArg Halt.done gives)⟩
  | step f next ih =>
    obtain ⟨fine',halts⟩ := ih s (gives s fine).2 (gives s fine).1
    refine ⟨fine',halts.imp_right ?_⟩
    rintro ⟨rounds,rest,halt,gives',below⟩
    exact ⟨rounds,rest,halt,gives',below.tail (.step f next s)⟩
  | pause rounds next ih =>
    unfold Work.go
    split
    · obtain ⟨fine',halts⟩ := ih gives fine
      refine ⟨fine',halts.imp_right ?_⟩
      rintro ⟨rounds',rest,halt,gives',below⟩
      exact ⟨rounds',rest,halt,gives',below.tail (.pause rounds next)⟩
    · exact ⟨fine,.inr ⟨rounds,next,rfl,gives,.single (.pause rounds next)⟩⟩

end Work

/-! ## Resolutions that give an answer -/

namespace Resolution

variable {σ : Type} {chain : List (Resolver σ)} {P : σ → Prop}

/-- A thread comes to an answer by itself, from whatever states that `P` holds of it goes on. -/
inductive Thread.Gives (chain : List (Resolver σ)) (P : σ → Prop) : Thread σ → Resolved → Prop where
  | ends {t : Thread σ} {r : Resolved} (done : t.control = .finished r) : Gives chain P t r
  | goes {t : Thread σ} {r : Resolved} (after : State σ → State σ × Thread σ)
      (advances : ∀ s, P s.env → t.advance? chain s = some (after s))
      (keeps : ∀ s, P s.env → P (after s).1.env)
      (leads : ∀ s, P s.env → Gives chain P (after s).2 r) : Gives chain P t r
  | waits {t : Thread σ} {r : Resolved} {wake : Nat} {next : Activity σ} (paused : t.control = .paused wake next)
      (leads : Gives chain P { t with control := .act next } r) : Gives chain P t r

/-- What a thread that comes to an answer is after a step. -/
def Thread.Below (chain : List (Resolver σ)) (P : σ → Prop) (next t : Thread σ) : Prop :=
  (∃ r, t.Gives chain P r) ∧ ∃ s s', P s.env ∧ t.advance? chain s = some (s',next)

theorem Thread.below_wellFounded : WellFounded (Thread.Below chain P) := by
  have reached : ∀ {t : Thread σ} {r}, t.Gives chain P r → Acc (Thread.Below chain P) t := by
    intro t r gives
    induction gives with
    | ends done =>
      refine ⟨_,?_⟩
      rintro next ⟨-,s,s',-,advanced⟩
      simp [Thread.advance?,done] at advanced
    | goes after advances keeps leads ih =>
      refine ⟨_,?_⟩
      rintro next ⟨-,s,s',fine,advanced⟩
      rw [advances s fine,Option.some.injEq] at advanced
      have := ih s fine
      rwa [advanced] at this
    | waits paused leads ih =>
      refine ⟨_,?_⟩
      rintro next ⟨-,s,s',-,advanced⟩
      simp only [Thread.advance?,paused,Option.ite_none_right_eq_some,Option.some.injEq,Prod.mk.injEq] at advanced
      rw [← advanced.2.2]
      exact ih
  refine ⟨fun t => ⟨t,?_⟩⟩
  rintro next ⟨⟨r,gives⟩,s,s',fine,advanced⟩
  exact (reached gives).inv ⟨⟨r,gives⟩,s,s',fine,advanced⟩

@[simp] theorem clock_lock (s : State σ) (key : String) (home : Option Nat) (a : Activity σ) :
    (s.lock key home a).2.clock = s.clock := by
  unfold State.lock
  split <;> rfl

/-- The clock stands still in a step. -/
theorem Thread.clock_of_advance? {t t' : Thread σ} {s s' : State σ}
    (advanced : t.advance? chain s = some (s',t')) : s'.clock = s.clock := by
  obtain ⟨control,stack,home⟩ := t
  cases control with
  | finished r => simp [Thread.advance?] at advanced
  | act a =>
    cases a with
    | answer r | defer =>
      simp only [Thread.advance?] at advanced
      split at advanced <;> cases advanced <;> rfl
    | share key attempt next =>
      simp only [Thread.advance?,Option.some.injEq,Prod.mk.injEq] at advanced
      rw [← advanced.1,clock_lock]
    | step f | pause rounds next | ask request importer next | pending next =>
      cases advanced
      rfl
  | chain q i =>
    simp only [Thread.advance?] at advanced
    split at advanced
    · cases advanced
      rfl
    · split at advanced <;> cases advanced <;> rfl
  | answered r =>
    simp only [Thread.advance?] at advanced
    split at advanced <;> cases advanced <;> rfl
  | paused wake next =>
    simp only [Thread.advance?] at advanced
    split at advanced <;> cases advanced
    rfl
  | joined n next =>
    simp only [Thread.advance?] at advanced
    obtain ⟨_,-,equal⟩ := Option.map_eq_some_iff.mp advanced
    cases equal
    rfl
  | settling others r next =>
    simp only [Thread.advance?] at advanced
    split at advanced <;> cases advanced
    rfl

/-- How many rounds a thread still waits for the clock. -/
def Thread.wait (clock : Nat) (t : Thread σ) : Nat :=
  match t.control with
  | .paused wake _ => wake - clock
  | _ => 0

/-- Carrying on a thread that comes to an answer leads it further on, unless it is finished or waits
for the clock. -/
theorem Thread.Gives.poll {t : Thread σ} {r : Resolved} (gives : t.Gives chain P r) (fuel : Nat)
    {s : State σ} (fine : P s.env) :
    P (poll chain fuel s t).1.env ∧ (poll chain fuel s t).1.clock = s.clock ∧
      (poll chain fuel s t).2.Gives chain P r ∧
      ((poll chain fuel s t).2 = t ∧ (0 < fuel → t.wait s.clock = 0 → t.result? = some r) ∨
        Relation.TransGen (Thread.Below chain P) (poll chain fuel s t).2 t) := by
  induction fuel generalizing s t with
  | zero => exact ⟨fine,rfl,gives,.inl ⟨rfl,fun more => absurd more (Nat.lt_irrefl 0)⟩⟩
  | succ fuel ih =>
    have stuck : t.advance? chain s = none → t.awaited s = [] → Resolution.poll chain (fuel + 1) s t = (s,t) := by
      intro none idle
      have still : pollAttempts chain fuel s [] = s := by cases fuel <;> rfl
      rw [Resolution.poll,none,idle]
      simp only [still,none]
    have goes : ∀ {s' t'}, t.advance? chain s = some (s',t') → P s'.env → t'.Gives chain P r →
        Resolution.poll chain (fuel + 1) s t = Resolution.poll chain fuel s' t' →
        P (Resolution.poll chain (fuel + 1) s t).1.env ∧ (Resolution.poll chain (fuel + 1) s t).1.clock = s.clock ∧
          (Resolution.poll chain (fuel + 1) s t).2.Gives chain P r ∧
          Relation.TransGen (Thread.Below chain P) (Resolution.poll chain (fuel + 1) s t).2 t := by
      intro s' t' advanced fine' gives' same
      have below : Thread.Below chain P t' t := ⟨⟨r,gives⟩,s,s',fine,advanced⟩
      obtain ⟨fine'',clock,gives'',further⟩ := ih gives' fine'
      rw [same,clock,clock_of_advance? advanced]
      refine ⟨fine'',rfl,gives'',?_⟩
      rcases further with ⟨equal,-⟩ | further
      · rw [equal]
        exact .single below
      · exact further.tail below
    cases gives with
    | ends done =>
      rw [stuck (by simp [advance?,done]) (by simp [awaited,done])]
      exact ⟨fine,rfl,.ends done,.inl ⟨rfl,fun _ _ => by simp [result?,done]⟩⟩
    | goes after advances keeps leads =>
      obtain ⟨fine',clock,gives',further⟩ := goes (advances s fine) (keeps s fine) (leads s fine)
        (by rw [Resolution.poll,advances s fine])
      exact ⟨fine',clock,gives',.inr further⟩
    | waits paused leads =>
      rename_i wake next
      by_cases due : wake ≤ s.clock
      · have advanced : t.advance? chain s = some (s,{ t with control := .act next }) := by
          simp [advance?,paused,due]
        obtain ⟨fine',clock,gives',further⟩ := goes advanced fine leads (by rw [Resolution.poll,advanced])
        exact ⟨fine',clock,gives',.inr further⟩
      · rw [stuck (by simp [advance?,paused,due]) (by simp [awaited,paused])]
        refine ⟨fine,rfl,.waits paused leads,.inl ⟨rfl,fun _ waited => ?_⟩⟩
        simp only [wait,paused] at waited
        omega

theorem pollAll_nil (fuel : Nat) (s : State σ) : pollAll chain fuel s [] = (s,[]) := rfl

theorem pollAll_cons (fuel : Nat) (s : State σ) (t : Thread σ) (ts : List (Thread σ)) :
    pollAll chain fuel s (t :: ts) =
      ((pollAll chain fuel (poll chain fuel s t).1 ts).1,
        (poll chain fuel s t).2 :: (pollAll chain fuel (poll chain fuel s t).1 ts).2) := by
  have gathers : ∀ (ts : List (Thread σ)) (s : State σ) (done : List (Thread σ)),
      ts.foldl (fun p t => ((poll chain fuel p.1 t).1,p.2 ++ [(poll chain fuel p.1 t).2])) (s,done) =
        ((pollAll chain fuel s ts).1,done ++ (pollAll chain fuel s ts).2) := by
    intro ts
    induction ts with
    | nil => simp [pollAll_nil]
    | cons t ts ih =>
      intro s done
      have first : pollAll chain fuel s (t :: ts) = _ := ih (poll chain fuel s t).1 [(poll chain fuel s t).2]
      rw [List.foldl_cons,ih,first]
      simp
  have first := gathers ts (poll chain fuel s t).1 [(poll chain fuel s t).2]
  exact first

/-- What carrying on makes of a thread: nothing, which is so only where it is finished or waits for the
clock, or something further on. -/
def Thread.Onward (chain : List (Resolver σ)) (P : σ → Prop) (fuel clock : Nat) (t next : Thread σ) : Prop :=
  (next = t ∧ (0 < fuel → t.wait clock = 0 → ∃ r, t.result? = some r)) ∨
    Relation.TransGen (Thread.Below chain P) next t

theorem pollAll_gives {ts : List (Thread σ)} {answers : List Resolved}
    (gives : List.Forall₂ (Thread.Gives chain P) ts answers) (fuel : Nat) {s : State σ} (fine : P s.env) :
    P (pollAll chain fuel s ts).1.env ∧ (pollAll chain fuel s ts).1.clock = s.clock ∧
      List.Forall₂ (Thread.Gives chain P) (pollAll chain fuel s ts).2 answers ∧
      List.Forall₂ (Thread.Onward chain P fuel s.clock) ts (pollAll chain fuel s ts).2 := by
  induction gives generalizing s with
  | nil => exact ⟨fine,rfl,.nil,.nil⟩
  | @cons t r ts answers gives others ih =>
    rw [pollAll_cons]
    obtain ⟨fine',clock,gives',further⟩ := gives.poll fuel fine
    obtain ⟨fine'',clock',others',further'⟩ := ih fine'
    rw [clock] at clock' further'
    refine ⟨fine'',clock',.cons gives' others',.cons ?_ further'⟩
    exact further.imp_left fun ⟨same,ends⟩ => ⟨same,fun more due => ⟨r,ends more due⟩⟩

theorem Thread.Gives.result?_eq {t : Thread σ} {r r' : Resolved} (gives : t.Gives chain P r)
    (s : State σ) (fine : P s.env) (done : t.result? = some r') : r' = r := by
  have finished : t.control = .finished r' := by
    unfold Thread.result? at done
    split at done
    · rename_i control
      rw [control,Option.some.inj done]
    · cases done
  cases gives with
  | ends same =>
    rw [same] at finished
    exact (Control.finished.inj finished).symm
  | goes after advances =>
    have := advances s fine
    simp [advance?,finished] at this
  | waits paused =>
    rw [paused] at finished
    cases finished

theorem answers_of_results {ts : List (Thread σ)} {answers results : List Resolved}
    (gives : List.Forall₂ (Thread.Gives chain P) ts answers) (s : State σ) (fine : P s.env)
    (done : ts.mapM Thread.result? = some results) : results = answers := by
  induction gives generalizing results with
  | nil => simpa using done.symm
  | @cons t r ts answers gives _ ih =>
    rw [List.mapM_cons] at done
    obtain ⟨r',first,done⟩ := Option.bind_eq_some_iff.mp done
    obtain ⟨rest,others,done⟩ := Option.bind_eq_some_iff.mp done
    obtain rfl := Option.some.inj done
    rw [gives.result?_eq s fine first,ih others]

end Resolution

/-- The plugins of a toolchain and its store give the answers of a world in all states that `P` holds
of, and lead to such states only. -/
structure Toolchain.Follows {σ : Type} (tools : Toolchain σ) (P : σ → Prop) (w : World) : Prop where
  reads : ∀ {s} id, P s → P (tools.store.read id.path s).2 ∧ (tools.store.read id.path s).1.toOption = w.text? id
  transforms : ∀ id contents, (Graph.transformation tools id contents).Gives P (w.transform id contents)
  resolves : ∀ request id, (Resolution.Thread.resolving request (some id)).Gives tools.resolvers P (w.resolve request id)

end Bundling
