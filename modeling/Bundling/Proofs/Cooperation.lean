import Bundling.Proofs.Carrying
import Bundling.Transform.Basic

/-!
# Runs in which only pauses let others go on

Where nobody is interrupted, a party that is carried on goes as far as it has to give way, at a pause or where it
waits for an attempt (`Carries`), before anybody else does anything. Runs are made of such moves and of ticks of
the clock; they are among the interleavings (`Move.reaches`).
-/

namespace Bundling

variable {σ α : Type}

/-- Work as a part of an activity, which goes on with its value. -/
def Work.into : Work σ α → (α → Activity σ) → Activity σ
  | .done a, next => next a
  | .step f rest, next => .step fun s => ((rest s).into next,f s)
  | .pause rounds rest, next => .pause rounds (rest.into next)

namespace Resolution

variable {chain : List (Resolver σ)}

/-- The thread has come to where it gives way to others. -/
def Thread.Rests (t : Thread σ) : Prop :=
  match t.control with
  | .paused .. | .joined .. | .settling .. | .finished _ => True
  | .act _ | .chain .. | .answered _ => False

instance (t : Thread σ) : Decidable t.Rests := by
  unfold Thread.Rests
  split <;> infer_instance

/-- One step after which the thread does not give way. -/
def Slips (chain : List (Resolver σ)) (a b : State σ × Thread σ) : Prop := a.2.advance? chain a.1 = some b ∧ ¬ b.2.Rests

/-- Steps on which nobody comes in between. -/
abbrev Passes (chain : List (Resolver σ)) : State σ × Thread σ → State σ × Thread σ → Prop := Relation.ReflTransGen (Slips chain)

/-- The thread is carried on to where it gives way. -/
def Carries (chain : List (Resolver σ)) (a b : State σ × Thread σ) : Prop :=
  ∃ m, Passes chain a m ∧ m.2.advance? chain m.1 = some b ∧ b.2.Rests

variable {a b d : State σ × Thread σ}

theorem Passes.carries (passes : Passes chain a b) (carries : Carries chain b d) : Carries chain a d := by
  obtain ⟨m,further,last⟩ := carries
  exact ⟨m,passes.trans further,last⟩

theorem carries_of_advance? (advanced : a.2.advance? chain a.1 = some b) (rests : b.2.Rests) : Carries chain a b :=
  ⟨a,.refl,advanced,rests⟩

/-- Where a thread comes to is settled by where it is. -/
theorem Passes.carries_iff (passes : Passes chain a b) : Carries chain a d ↔ Carries chain b d := by
  refine ⟨fun carries => ?_,passes.carries⟩
  induction passes using Relation.ReflTransGen.head_induction_on with
  | refl => exact carries
  | @head a a' slips _ ih =>
    refine ih ?_
    obtain ⟨m,further,advanced,rests⟩ := carries
    rcases further.cases_head with rfl | ⟨a'',slips',further⟩
    · obtain rfl : a' = d := Option.some.inj (slips.1.symm.trans advanced)
      exact absurd rests slips.2
    · obtain rfl : a' = a'' := Option.some.inj (slips.1.symm.trans slips'.1)
      exact ⟨m,further,advanced,rests⟩

theorem Carries.unique (first : Carries chain a b) (second : Carries chain a d) : b = d := by
  obtain ⟨m,passes,advanced,rests⟩ := first
  obtain ⟨m',further,advanced',rests'⟩ := passes.carries_iff.mp second
  rcases further.cases_head with rfl | ⟨b',slips,-⟩
  · exact Option.some.inj (advanced.symm.trans advanced')
  · obtain rfl : b = b' := Option.some.inj (advanced.symm.trans slips.1)
    exact absurd rests slips.2

/-- What each step keeps is kept on the way. -/
theorem Carries.keeps {kept : State σ → Prop} (step : ∀ {s s' t t'}, kept s → Turn s t s' t' → kept s')
    (carries : Carries chain a b) (holds : kept a.1) : kept b.1 := by
  obtain ⟨m,passes,advanced,-⟩ := carries
  have middle : kept m.1 := by
    clear advanced
    induction passes with
    | refl => exact holds
    | tail _ slips ih => exact step ih (turn_of_advance? slips.1)
  exact step middle (turn_of_advance? advanced)

/-- The same as a function, which takes a bound on the number of steps. -/
def carry? (chain : List (Resolver σ)) : (fuel : Nat) → State σ × Thread σ → Option (State σ × Thread σ)
  | 0, _ => none
  | fuel + 1, a =>
    match a.2.advance? chain a.1 with
    | some b => if b.2.Rests then some b else carry? chain fuel b
    | none => none

theorem carries_of_carry? {fuel : Nat} (carried : carry? chain fuel a = some b) : Carries chain a b := by
  induction fuel generalizing a with
  | zero => cases carried
  | succ fuel ih =>
    rw [carry?] at carried
    split at carried
    · rename_i b' advanced
      split at carried
      · rename_i rests
        cases carried
        exact carries_of_advance? advanced rests
      · rename_i free
        exact Passes.carries (.single ⟨advanced,free⟩) (ih carried)
    · cases carried

/-! ## Steps of activities -/

section

variable {s : State σ} {stack : List (Frame σ)} {home : Option Nat}

theorem passes_step {f : σ → Activity σ × σ} :
    Passes chain (s,⟨.act (.step f),stack,home⟩) ({ s with env := (f s.env).2 },⟨.act (f s.env).1,stack,home⟩) :=
  .single ⟨rfl,id⟩

theorem passes_andThen {m : StateM σ Unit} {next : Activity σ} :
    Passes chain (s,⟨.act (.andThen m next),stack,home⟩) ({ s with env := (m s.env).2 },⟨.act next,stack,home⟩) := passes_step

/-- Work that comes to its value without a pause. -/
theorem passes_into {w : Work σ α} {next : α → Activity σ} {env : σ} {v : α} (done : w.go s.env = (.done v,env)) :
    Passes chain (s,⟨.act (w.into next),stack,home⟩) ({ s with env },⟨.act (next v),stack,home⟩) := by
  induction w generalizing s with
  | done a =>
    cases done
    exact .refl
  | step f rest ih => exact passes_step.trans (ih (s.env) (s := { s with env := f s.env }) done)
  | pause rounds rest ih =>
    rw [Work.go] at done
    split at done <;> rename_i none
    · exact .head ⟨by simp [Work.into,Thread.advance?,none],id⟩ (ih done)
    · cases done

/-- Work that comes to a pause. -/
theorem carries_into {w rest : Work σ α} {next : α → Activity σ} {env : σ} {rounds : Nat}
    (paused : w.go s.env = (.paused rounds rest,env)) :
    Carries chain (s,⟨.act (w.into next),stack,home⟩)
      ({ s with env },⟨.paused (s.clock + rounds) (rest.into next),stack,home⟩) := by
  induction w generalizing s with
  | done a => cases paused
  | step f rest ih => exact Passes.carries passes_step (ih (s.env) (s := { s with env := f s.env }) paused)
  | pause n rest ih =>
    rw [Work.go] at paused
    split at paused <;> rename_i none
    · exact Passes.carries (.single ⟨by simp [Work.into,Thread.advance?,none],id⟩) (ih paused)
    · cases paused
      exact carries_of_advance? (by simp [Work.into,Thread.advance?,none]) trivial

/-- What a pause is followed by. -/
theorem carries_paused {wake : Nat} {next : Activity σ} (due : wake ≤ s.clock) {b : State σ × Thread σ} :
    Carries chain (s,⟨.paused wake next,stack,home⟩) b ↔ Carries chain (s,⟨.act next,stack,home⟩) b :=
  Passes.carries_iff (.single ⟨if_pos due,id⟩)

end

/-! ## Moves -/

/-- A tick of the clock, or one party is carried on to where it gives way. -/
inductive Move (chain : List (Resolver σ)) : Scene σ → Scene σ → Prop where
  | tick (c : Scene σ) : Move chain c { c with state := c.state.tick }
  | goes {c : Scene σ} {i : Nat} {t t' : Thread σ} {s : State σ} (here : c.callers[i]? = some t)
      (carries : Carries chain (c.state,t) (s,t')) : Move chain c ⟨s,c.callers.set i t'⟩
  | works {c : Scene σ} {n : Nat} {t t' : Thread σ} {s : State σ} (here : c.thread? (.attempt n) = some t)
      (carries : Carries chain (c.state,t) (s,t')) (going : t'.result? = none) :
      Move chain c ⟨s.setProgress n (.running t'),c.callers⟩
  | settles {c : Scene σ} {n : Nat} {t t' : Thread σ} {s : State σ} {r : Resolved} (here : c.thread? (.attempt n) = some t)
      (carries : Carries chain (c.state,t) (s,t')) (done : t'.result? = some r) : Move chain c ⟨s.settle n r,c.callers⟩

/-- What can come of a scene where nobody is interrupted. -/
abbrev Run (chain : List (Resolver σ)) : Scene σ → Scene σ → Prop := Relation.ReflTransGen (Move chain)

theorem Thread.control_of_result? {t : Thread σ} {r : Resolved} (done : t.result? = some r) : t.control = .finished r := by
  unfold Thread.result? at done
  split at done
  · rename_i control
    cases done
    exact control
  · cases done

section

variable {c c' : Scene σ}

/-- A caller that is carried on makes its steps. -/
theorem reaches_of_carries {i : Nat} {t t' : Thread σ} {s : State σ} (here : c.callers[i]? = some t)
    (carries : Carries chain (c.state,t) (s,t')) : Reaches chain c ⟨s,c.callers.set i t'⟩ := by
  obtain ⟨inside,same⟩ := List.getElem?_eq_some_iff.mp here
  obtain ⟨m,passes,advanced,-⟩ := carries
  have step : ∀ {a b : State σ × Thread σ}, a.2.advance? chain a.1 = some b →
      Reaches chain ⟨a.1,c.callers.set i a.2⟩ ⟨b.1,c.callers.set i b.2⟩ :=
    fun advanced => (view_caller c.callers inside).goes nofun advanced
  have first : Reaches chain c ⟨m.1,c.callers.set i m.2⟩ := by
    clear advanced
    induction passes with
    | refl =>
      rw [← same,List.set_getElem_self]
    | tail _ slips ih => exact ih.trans (step slips.1)
  exact first.trans (step advanced)

/-- An attempt that is carried on makes its steps. -/
theorem reaches_of_carries_attempt {n : Nat} {t t' : Thread σ} {s : State σ} (here : c.thread? (.attempt n) = some t)
    (carries : Carries chain (c.state,t) (s,t')) :
    Reaches chain c ⟨s.setProgress n (.running t'),c.callers⟩ ∧ ∃ key, s.attempts[n]? = some ⟨key,.running t⟩ := by
  obtain ⟨key,running⟩ := Scene.thread?_attempt_iff.mp here
  obtain ⟨m,passes,advanced,-⟩ := carries
  have step : ∀ {a b : State σ × Thread σ}, a.1.attempts[n]? = some ⟨key,.running t⟩ → a.2.advance? chain a.1 = some b →
      Reaches chain ⟨a.1.setProgress n (.running a.2),c.callers⟩ ⟨b.1.setProgress n (.running b.2),c.callers⟩ := by
    intro a b running advanced
    have went : Step chain ⟨a.1.setProgress n (.running a.2),c.callers⟩ _ :=
      .goes (Scene.thread?_attempt_iff.mpr ⟨key,State.attempts_setProgress_self running _⟩)
        (advance?_put_back running (State.outcome?_of_running running) a.2 advanced)
    rw [Scene.put,State.setProgress_setProgress] at went
    exact .single went
  have first : Reaches chain c ⟨m.1.setProgress n (.running m.2),c.callers⟩ ∧ m.1.attempts[n]? = some ⟨key,.running t⟩ := by
    clear advanced
    induction passes with
    | refl => exact ⟨by rw [State.setProgress_self running],running⟩
    | tail _ slips ih => exact ⟨ih.1.trans (step ih.2 slips.1),(turn_of_advance? slips.1).attempts ih.2⟩
  exact ⟨first.1.trans (step first.2 advanced),key,(turn_of_advance? advanced).attempts first.2⟩

/-- A run is an interleaving. -/
theorem Move.reaches (move : Move chain c c') : Reaches chain c c' := by
  cases move with
  | tick => exact .single (.tick c)
  | goes here carries => exact reaches_of_carries here carries
  | works here carries => exact (reaches_of_carries_attempt here carries).1
  | @settles n t t' s r here carries done =>
    obtain ⟨went,key,running⟩ := reaches_of_carries_attempt here carries
    have settled : Step chain ⟨s.setProgress n (.running t'),c.callers⟩ _ :=
      .settles (Scene.thread?_attempt_iff.mpr ⟨key,State.attempts_setProgress_self running _⟩) (Thread.control_of_result? done)
    simp only [State.settle_setProgress] at settled
    exact went.tail settled

theorem Run.reaches (run : Run chain c c') : Reaches chain c c' := by
  induction run with
  | refl => exact .refl
  | tail _ move ih => exact ih.trans move.reaches

end

/-- A move as a function. -/
def Scene.move? (chain : List (Resolver σ)) (fuel : Nat) (c : Scene σ) (x : Party) : Option (Scene σ) := do
  let t ← c.thread? x
  let (s,t') ← carry? chain fuel (c.state,t)
  match x,t'.result? with
  | .caller i,_ => some ⟨s,c.callers.set i t'⟩
  | .attempt n,none => some ⟨s.setProgress n (.running t'),c.callers⟩
  | .attempt n,some r => some ⟨s.settle n r,c.callers⟩

theorem move_of_move? {fuel : Nat} {c c' : Scene σ} {x : Party} (moved : c.move? chain fuel x = some c') : Move chain c c' := by
  simp only [Scene.move?,Option.bind_eq_bind,Option.bind_eq_some_iff] at moved
  obtain ⟨t,here,⟨s,t'⟩,carried,equal⟩ := moved
  have carries := carries_of_carry? carried
  cases x with
  | caller i =>
    cases equal
    exact .goes here carries
  | attempt n =>
    cases result : t'.result? with
    | none =>
      simp only [result] at equal
      cases equal
      exact .works here carries result
    | some r =>
      simp only [result] at equal
      cases equal
      exact .settles here carries result

/-- Moves one after the other: the clock ticks, or a party is carried on. -/
def Scene.moves? (chain : List (Resolver σ)) (fuel : Nat) : List (Option Party) → Scene σ → Option (Scene σ)
  | [],c => some c
  | none :: xs,c => moves? chain fuel xs { c with state := c.state.tick }
  | some x :: xs,c => (c.move? chain fuel x).bind (moves? chain fuel xs)

theorem run_of_moves? {fuel : Nat} {c c' : Scene σ} {xs : List (Option Party)} (moved : c.moves? chain fuel xs = some c') :
    Run chain c c' := by
  induction xs generalizing c with
  | nil =>
    cases moved
    exact .refl
  | cons x xs ih =>
    cases x with
    | none => exact .head (.tick c) (ih moved)
    | some x =>
      obtain ⟨b,first,rest⟩ := Option.bind_eq_some_iff.mp moved
      exact .head (move_of_move? first) (ih rest)

end Resolution

end Bundling
