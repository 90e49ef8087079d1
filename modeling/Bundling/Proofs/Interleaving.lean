import Mathlib.Data.List.Nodup
import Mathlib.Logic.Relation
import Bundling.Resolve.Layer

/-!
# Interleavings of resolutions

Callers of the layer and the attempts that they share make their steps in any order (`Step`): between two
steps of one thread any other one may go on, the clock may tick, and what resolvers act on may change. The
locks are always those of the attempts that have no outcome yet (`State.Sound`), and an outcome stays what it
is (`Reaches.outcome?`).
-/

namespace Bundling.Resolution

variable {σ : Type} {chain : List (Resolver σ)}

/-! ## What a step does -/

/-- A thread that has to wait for an attempt, or for all that are being made. -/
def Thread.Waits (t : Thread σ) : Prop :=
  match t.control with
  | .joined .. | .settling .. => True
  | _ => False

/-- What comes of a step: the thread works on its own, asks for an attempt, is told what came of it, or has
seen the end of all attempts that were being made then. -/
inductive Turn (s : State σ) (t : Thread σ) : State σ → Thread σ → Prop where
  | works {t' : Thread σ} (env : σ) (free : ¬ t.Waits) (free' : ¬ t'.Waits)
      (alone : ∀ key a next, t.control ≠ .act (.share key a next)) : Turn s t { s with env } t'
  | shares {key : String} {a : Activity σ} {next : Resolved → Activity σ}
      (control : t.control = .act (.share key a next)) :
      Turn s t (s.lock key t.worker a).2 { t with control := .joined (s.lock key t.worker a).1 next }
  | learns {n : Nat} {r : Resolved} {next : Resolved → Activity σ} (control : t.control = .joined n next)
      (outcome : s.outcome? n = some r) :
      Turn s t s { t with control := .settling (s.locks.map (·.2)) r next }
  | returns {others : List Nat} {r : Resolved} {next : Resolved → Activity σ}
      (control : t.control = .settling others r next) (settled : ∀ n ∈ others, (s.outcome? n).isSome) :
      Turn s t s { t with control := .act (next r) }

theorem turn_of_advance? {s s' : State σ} {t t' : Thread σ} (advanced : t.advance? chain s = some (s',t')) :
    Turn s t s' t' := by
  obtain ⟨control,stack,home⟩ := t
  cases control with
  | finished r => simp [Thread.advance?] at advanced
  | act a =>
    cases a with
    | answer r | defer =>
      simp only [Thread.advance?] at advanced
      split at advanced <;> cases advanced <;> exact .works s.env nofun nofun nofun
    | share key attempt next =>
      cases advanced
      exact .shares rfl
    | pause rounds next =>
      cases advanced
      refine .works s.env nofun ?_ nofun
      by_cases none : rounds = 0 <;> simp [Thread.Waits,none]
    | step f | ask request importer next | pending next =>
      cases advanced
      exact .works _ nofun nofun nofun
  | chain q i =>
    simp only [Thread.advance?] at advanced
    split at advanced
    · cases advanced
      exact .works s.env nofun nofun nofun
    · split at advanced <;> cases advanced <;> exact .works s.env nofun nofun nofun
  | answered r =>
    simp only [Thread.advance?] at advanced
    split at advanced <;> cases advanced <;> exact .works s.env nofun nofun nofun
  | paused wake next =>
    simp only [Thread.advance?] at advanced
    split at advanced <;> cases advanced
    exact .works s.env nofun nofun nofun
  | joined n next =>
    obtain ⟨r,outcome,equal⟩ := Option.map_eq_some_iff.mp advanced
    cases equal
    exact .learns rfl outcome
  | settling others r next =>
    simp only [Thread.advance?] at advanced
    split at advanced <;> cases advanced
    rename_i settled
    exact .returns rfl (List.all_eq_true.mp settled)

/-! ## What is left of a thread -/

/-- What is true of an activity is true of what is left of it, whatever it is told. -/
structure Lasts (K : Activity σ → Prop) : Prop where
  step : ∀ {f}, K (.step f) → ∀ s, K (f s).1
  pause : ∀ {rounds next}, K (.pause rounds next) → K next
  ask : ∀ {request importer next}, K (.ask request importer next) → ∀ r, K (next r)
  share : ∀ {key a next}, K (.share key a next) → ∀ r, K (next r)
  pending : ∀ {next}, K (.pending next) → ∀ keys, K (next keys)

/-- All that is left of a thread is made of activities of some kind. -/
structure Thread.Holds (K : Activity σ → Prop) (t : Thread σ) : Prop where
  control : match t.control with
    | .act a | .paused _ a => K a
    | .joined _ next | .settling _ _ next => ∀ r, K (next r)
    | .chain .. | .answered _ | .finished _ => True
  stack : ∀ {next}, .asker next ∈ t.stack → ∀ r, K (next r)

theorem Thread.Holds.advance {K : Activity σ → Prop} {t t' : Thread σ} {s s' : State σ} (lasts : Lasts K)
    (resolvers : ∀ resolver ∈ chain, ∀ request importer, K (resolver.resolve request importer))
    (holds : t.Holds K) (advanced : t.advance? chain s = some (s',t')) : t'.Holds K := by
  obtain ⟨control,stack⟩ := holds
  obtain ⟨now,frames,home⟩ := t
  cases now with
  | finished r => simp [advance?] at advanced
  | act a =>
    cases a with
    | answer | defer =>
      simp only [advance?] at advanced
      split at advanced <;> cases advanced
      · exact ⟨trivial,fun member => stack (List.mem_cons_of_mem _ member)⟩
      · exact ⟨trivial,stack⟩
    | step f => cases advanced; exact ⟨lasts.step control _,stack⟩
    | pause rounds a =>
      cases advanced
      refine ⟨?_,stack⟩
      by_cases none : rounds = 0 <;> simpa [none] using lasts.pause control
    | ask request importer next =>
      cases advanced
      refine ⟨trivial,fun member => ?_⟩
      rcases List.mem_cons.mp member with same | before
      · cases same
        exact lasts.ask control
      · exact stack before
    | share key a next => cases advanced; exact ⟨lasts.share control,stack⟩
    | pending next => cases advanced; exact ⟨lasts.pending control _,stack⟩
  | chain q i =>
    simp only [advance?] at advanced
    split at advanced
    · cases advanced
      exact ⟨trivial,stack⟩
    · rename_i resolver here
      split at advanced <;> cases advanced
      · exact ⟨trivial,stack⟩
      · refine ⟨resolvers resolver (List.mem_of_getElem? here) _ _,fun member => ?_⟩
        rcases List.mem_cons.mp member with same | before
        · cases same
        · exact stack before
  | answered r =>
    simp only [advance?] at advanced
    split at advanced <;> cases advanced
    · exact ⟨stack List.mem_cons_self r,fun member => stack (List.mem_cons_of_mem _ member)⟩
    · exact ⟨trivial,stack⟩
  | paused wake a =>
    simp only [advance?] at advanced
    split at advanced <;> cases advanced
    exact ⟨control,stack⟩
  | joined n next =>
    obtain ⟨r,-,equal⟩ := Option.map_eq_some_iff.mp advanced
    cases equal
    exact ⟨control,stack⟩
  | settling others r next =>
    simp only [advance?] at advanced
    split at advanced <;> cases advanced
    exact ⟨control r,stack⟩

/-! ## Attempts and locks -/

namespace State

variable {s : State σ}

/-- An attempt for a key that has no outcome yet. -/
def Pending (s : State σ) (n : Nat) (key : String) : Prop :=
  ∃ a, s.attempts[n]? = some a ∧ a.key = key ∧ s.outcome? n = none

/-- The locks are those of the attempts that have no outcome yet, one for a key. -/
structure Sound (s : State σ) : Prop where
  locked : ∀ {key n}, (key,n) ∈ s.locks ↔ s.Pending n key
  once : (s.locks.map Prod.fst).Nodup

theorem outcome?_eq_some_iff {n : Nat} {r : Resolved} :
    s.outcome? n = some r ↔ ∃ key, s.attempts[n]? = some ⟨key,.settled r⟩ := by
  unfold outcome?
  constructor
  · intro outcome
    split at outcome
    · rename_i key r' there
      cases outcome
      exact ⟨key,there⟩
    · cases outcome
  · rintro ⟨key,there⟩
    rw [there]

theorem outcome?_of_running {n : Nat} {key : String} {t : Thread σ} (here : s.attempts[n]? = some ⟨key,.running t⟩) :
    s.outcome? n = none := by
  simp [outcome?,here]

theorem outcome?_congr {s' : State σ} {n : Nat} (same : s'.attempts[n]? = s.attempts[n]?) :
    s'.outcome? n = s.outcome? n := by
  rw [outcome?,outcome?,same]

@[simp] theorem locks_setProgress (s : State σ) (n : Nat) (p : Progress σ) : (s.setProgress n p).locks = s.locks := rfl

theorem attempts_setProgress (s : State σ) (n : Nat) (p : Progress σ) (m : Nat) :
    (s.setProgress n p).attempts[m]? =
      if n = m then (s.attempts[m]?).map fun a => { a with progress := p } else s.attempts[m]? := by
  simp only [setProgress,List.getElem?_modify]
  split <;> simp

theorem attempts_setProgress_of_ne {n m : Nat} (other : n ≠ m) (p : Progress σ) :
    (s.setProgress n p).attempts[m]? = s.attempts[m]? := by
  rw [attempts_setProgress,if_neg other]

theorem attempts_setProgress_self {n : Nat} {key : String} {q : Progress σ} (here : s.attempts[n]? = some ⟨key,q⟩)
    (p : Progress σ) : (s.setProgress n p).attempts[n]? = some ⟨key,p⟩ := by
  simp [attempts_setProgress,here]

theorem pending_iff_of_unsettled {n : Nat} {key key' : String} {p : Progress σ} (here : s.attempts[n]? = some ⟨key,p⟩)
    (unsettled : s.outcome? n = none) : s.Pending n key' ↔ key = key' := by
  constructor
  · rintro ⟨a,there,rfl,-⟩
    rw [here] at there
    cases there
    rfl
  · rintro rfl
    exact ⟨_,here,rfl,unsettled⟩

theorem Pending.lt {n : Nat} {key : String} (pending : s.Pending n key) : n < s.attempts.length := by
  obtain ⟨a,here,-⟩ := pending
  exact (List.getElem?_eq_some_iff.mp here).1

theorem Pending.of_attempts {s' : State σ} {n : Nat} {key : String} (pending : s.Pending n key)
    (same : s'.attempts[n]? = s.attempts[n]?) : s'.Pending n key := by
  obtain ⟨a,here,rfl,unsettled⟩ := pending
  exact ⟨a,same.trans here,rfl,(outcome?_congr same).trans unsettled⟩

/-- Carrying an attempt on changes neither what is pending nor what has been settled. -/
theorem outcome?_setProgress {n : Nat} {key : String} {p : Progress σ} (here : s.attempts[n]? = some ⟨key,p⟩)
    (unsettled : s.outcome? n = none) (t' : Thread σ) (m : Nat) :
    (s.setProgress n (.running t')).outcome? m = s.outcome? m := by
  by_cases same : n = m
  · subst same
    rw [unsettled,outcome?_of_running (attempts_setProgress_self here _)]
  · exact outcome?_congr (attempts_setProgress_of_ne same _)

theorem pending_setProgress {n : Nat} {key : String} {t : Thread σ} (here : s.attempts[n]? = some ⟨key,.running t⟩)
    (t' : Thread σ) {m : Nat} {key' : String} :
    (s.setProgress n (.running t')).Pending m key' ↔ s.Pending m key' := by
  by_cases same : n = m
  · subst same
    rw [pending_iff_of_unsettled here (outcome?_of_running here),
      pending_iff_of_unsettled (attempts_setProgress_self here _)
        (outcome?_of_running (attempts_setProgress_self here _))]
  · exact ⟨fun pending => pending.of_attempts (attempts_setProgress_of_ne same _).symm,
      fun pending => pending.of_attempts (attempts_setProgress_of_ne same _)⟩

theorem outcome?_settle_self {n : Nat} {key : String} {p : Progress σ} (here : s.attempts[n]? = some ⟨key,p⟩)
    (r : Resolved) : (s.settle n r).outcome? n = some r :=
  outcome?_eq_some_iff.mpr ⟨key,attempts_setProgress_self here _⟩

theorem outcome?_settle_of_ne {n m : Nat} (other : n ≠ m) (r : Resolved) :
    (s.settle n r).outcome? m = s.outcome? m :=
  outcome?_congr (attempts_setProgress_of_ne other _)

theorem pending_settle {n m : Nat} {key key' : String} {p : Progress σ} (here : s.attempts[n]? = some ⟨key,p⟩)
    (r : Resolved) : (s.settle n r).Pending m key' ↔ n ≠ m ∧ s.Pending m key' := by
  by_cases same : n = m
  · subst same
    refine ⟨?_,fun ⟨other,_⟩ => absurd rfl other⟩
    rintro ⟨-,-,-,unsettled⟩
    rw [outcome?_settle_self here] at unsettled
    cases unsettled
  · exact ⟨fun pending => ⟨same,pending.of_attempts (attempts_setProgress_of_ne same _).symm⟩,
      fun ⟨_,pending⟩ => pending.of_attempts (attempts_setProgress_of_ne same _)⟩

theorem Sound.unique (sound : s.Sound) {n m : Nat} {key : String} (first : s.Pending n key) (second : s.Pending m key) :
    n = m :=
  congrArg Prod.snd (List.inj_on_of_nodup_map sound.once (sound.locked.mpr first) (sound.locked.mpr second) rfl)

theorem Sound.of_locks {s' : State σ} (sound : s.Sound) (locks : s'.locks = s.locks)
    (pending : ∀ {n key}, s'.Pending n key ↔ s.Pending n key) : s'.Sound where
  locked := by
    intro key n
    rw [locks,sound.locked,pending]
  once := locks ▸ sound.once

theorem Sound.setProgress (sound : s.Sound) {n : Nat} {key : String} {t : Thread σ}
    (here : s.attempts[n]? = some ⟨key,.running t⟩) (t' : Thread σ) : (s.setProgress n (.running t')).Sound :=
  sound.of_locks rfl (pending_setProgress here t')

theorem Sound.settle (sound : s.Sound) {n : Nat} {key : String} {p : Progress σ} (here : s.attempts[n]? = some ⟨key,p⟩)
    (r : Resolved) : (s.settle n r).Sound where
  locked := by
    intro key' m
    rw [pending_settle here,← sound.locked,State.settle,List.mem_filter,and_comm]
    simp [eq_comm (a := n)]
  once := sound.once.sublist (List.filter_sublist.map _)

/-- The lock of a key is that of the attempt that is being made for it; if there is none, a new attempt is
made. -/
theorem Sound.lock_cases (sound : s.Sound) (key : String) (home : Option Nat) (a : Activity σ) :
    (∃ n, s.Pending n key ∧ s.lock key home a = (n,s)) ∨
      (∀ n, ¬ s.Pending n key) ∧ s.lock key home a = (s.attempts.length,
        { s with
          locks := s.locks ++ [(key,s.attempts.length)]
          attempts := s.attempts ++ [⟨key,.running { control := .act a, home }⟩] }) := by
  unfold State.lock
  cases found : s.locks.lookup key with
  | some n =>
    obtain ⟨before,after,split,-⟩ := List.lookup_eq_some_iff.mp found
    exact .inl ⟨n,sound.locked.mp (by simp [split]),rfl⟩
  | none =>
    refine .inr ⟨fun n pending => ?_,rfl⟩
    have := List.lookup_eq_none_iff.mp found _ (sound.locked.mpr pending)
    simp at this

theorem pending_append {s' : State σ} {a : Attempt σ} (attempts : s'.attempts = s.attempts ++ [a])
    (unsettled : ∀ r, a.progress ≠ .settled r) {n : Nat} {key : String} :
    s'.Pending n key ↔ s.Pending n key ∨ n = s.attempts.length ∧ key = a.key := by
  by_cases old : n < s.attempts.length
  · have same : s'.attempts[n]? = s.attempts[n]? := by rw [attempts,List.getElem?_append_left old]
    refine ⟨fun pending => .inl (pending.of_attempts same.symm),?_⟩
    rintro (pending | ⟨rfl,-⟩)
    · exact pending.of_attempts same
    · exact absurd old (Nat.lt_irrefl _)
  · by_cases last : n = s.attempts.length
    · subst last
      have here : s'.attempts[s.attempts.length]? = some ⟨a.key,a.progress⟩ := by simp [attempts]
      have none : s'.outcome? s.attempts.length = none := by
        cases outcome : s'.outcome? s.attempts.length with
        | none => rfl
        | some r =>
          obtain ⟨_,there⟩ := outcome?_eq_some_iff.mp outcome
          rw [here,Option.some.injEq,Attempt.mk.injEq] at there
          exact absurd there.2 (unsettled r)
      rw [pending_iff_of_unsettled here none]
      exact ⟨fun same => .inr ⟨rfl,same.symm⟩,fun cases =>
        cases.elim (fun pending => absurd pending.lt (Nat.lt_irrefl _)) fun same => same.2.symm⟩
    · refine ⟨fun pending => ?_,fun cases => cases.elim (fun pending => absurd pending.lt old) fun same => absurd same.1 last⟩
      have := pending.lt
      rw [attempts,List.length_append,List.length_singleton] at this
      omega

theorem Sound.lock (sound : s.Sound) (key : String) (home : Option Nat) (a : Activity σ) : (s.lock key home a).2.Sound := by
  rcases sound.lock_cases key home a with ⟨n,-,same⟩ | ⟨free,new⟩
  · rwa [same]
  · rw [new]
    constructor
    · intro key' n
      rw [pending_append rfl (by simp),← sound.locked]
      simp [and_comm]
    · simp only [List.map_append,List.map_cons,List.map_nil]
      refine List.nodup_append'.mpr ⟨sound.once,List.nodup_singleton _,?_⟩
      simp only [List.disjoint_singleton]
      intro member
      obtain ⟨⟨key',n⟩,listed,rfl⟩ := List.mem_map.mp member
      exact free n (sound.locked.mp listed)

@[simp] theorem env_lock (s : State σ) (key : String) (home : Option Nat) (a : Activity σ) :
    (s.lock key home a).2.env = s.env := by
  unfold lock
  split <;> rfl

/-- The attempts that there are stay in their places, and a new one comes behind them. -/
theorem attempts_lock (s : State σ) (key : String) (home : Option Nat) (a : Activity σ) {n : Nat} {b : Attempt σ}
    (here : s.attempts[n]? = some b) : (s.lock key home a).2.attempts[n]? = some b := by
  unfold State.lock
  split
  · exact here
  · rw [List.getElem?_append_left (List.getElem?_eq_some_iff.mp here).1]
    exact here

theorem attempts_lock_cases {s : State σ} {key : String} {home : Option Nat} {a : Activity σ} {n : Nat} {b : Attempt σ}
    (here : (s.lock key home a).2.attempts[n]? = some b) :
    s.attempts[n]? = some b ∨ n = s.attempts.length ∧ b = ⟨key,.running ⟨.act a,[],home⟩⟩ := by
  unfold lock at here
  split at here
  · exact .inl here
  · rcases Nat.lt_trichotomy n s.attempts.length with less | same | more
    · rw [List.getElem?_append_left less] at here
      exact .inl here
    · subst same
      simp only [List.getElem?_concat_length] at here
      exact .inr ⟨rfl,(Option.some.inj here).symm⟩
    · rw [List.getElem?_eq_none (by simp; omega)] at here
      cases here

theorem attempts_setProgress_cases {s : State σ} {n m : Nat} {key : String} {p q : Progress σ}
    (here : (s.setProgress n q).attempts[m]? = some ⟨key,p⟩) :
    m = n ∧ p = q ∧ (∃ p', s.attempts[n]? = some ⟨key,p'⟩) ∨ m ≠ n ∧ s.attempts[m]? = some ⟨key,p⟩ := by
  rw [attempts_setProgress] at here
  split at here
  · rename_i same
    obtain ⟨a,there,equal⟩ := Option.map_eq_some_iff.mp here
    cases equal
    exact .inl ⟨same.symm,rfl,a.progress,same ▸ there⟩
  · rename_i other
    exact .inr ⟨Ne.symm other,here⟩

theorem mem_pendingKeys_iff (sound : s.Sound) {key : String} : key ∈ s.pendingKeys ↔ ∃ n, s.Pending n key := by
  simp [pendingKeys,List.mem_mergeSort,sound.locked]

end State

/-! ## Scenes -/

/-- A layer with those who ask it. -/
structure Scene (σ : Type) where
  state : State σ
  callers : List (Thread σ)

/-- Who makes steps. -/
inductive Party where
  | caller (i : Nat)
  | attempt (n : Nat)
  deriving DecidableEq

namespace Scene

def thread? (c : Scene σ) : Party → Option (Thread σ)
  | .caller i => c.callers[i]?
  | .attempt n =>
    match c.state.attempts[n]? with
    | some { progress := .running t, .. } => some t
    | _ => none

/-- A thread has been carried on, to a new state of the layer. -/
def put (c : Scene σ) (s : State σ) (t : Thread σ) : Party → Scene σ
  | .caller i => ⟨s,c.callers.set i t⟩
  | .attempt n => ⟨s.setProgress n (.running t),c.callers⟩

theorem thread?_attempt_iff {c : Scene σ} {n : Nat} {t : Thread σ} :
    c.thread? (.attempt n) = some t ↔ ∃ key, c.state.attempts[n]? = some ⟨key,.running t⟩ := by
  simp only [thread?]
  constructor
  · intro found
    split at found
    · rename_i key t' there
      cases found
      exact ⟨key,there⟩
    · cases found
  · rintro ⟨key,there⟩
    simp only [there]

/-- A party waits for an attempt. -/
def WaitsFor (c : Scene σ) (waiting awaited : Party) : Prop :=
  ∃ t n, c.thread? waiting = some t ∧ n ∈ t.awaited c.state ∧ awaited = .attempt n

end Scene

/-- One step of some party, a tick of the clock, or a change of what resolvers act on. -/
inductive Step (chain : List (Resolver σ)) : Scene σ → Scene σ → Prop where
  | tick (c : Scene σ) : Step chain c { c with state := c.state.tick }
  | world (c : Scene σ) (f : σ → σ) : Step chain c { c with state := { c.state with env := f c.state.env } }
  | goes {c : Scene σ} {x : Party} {t t' : Thread σ} {s : State σ} (here : c.thread? x = some t)
      (advanced : t.advance? chain c.state = some (s,t')) : Step chain c (c.put s t' x)
  | settles {c : Scene σ} {n : Nat} {t : Thread σ} {r : Resolved} (here : c.thread? (.attempt n) = some t)
      (done : t.control = .finished r) : Step chain c { c with state := c.state.settle n r }

/-- What can come of a scene, in whatever order the parties go on. -/
abbrev Reaches (chain : List (Resolver σ)) : Scene σ → Scene σ → Prop := Relation.ReflTransGen (Step chain)

theorem Turn.attempts {s s' : State σ} {t t' : Thread σ} (turn : Turn s t s' t') {n : Nat} {a : Attempt σ}
    (here : s.attempts[n]? = some a) : s'.attempts[n]? = some a := by
  cases turn with
  | works | learns | returns => exact here
  | shares => exact State.attempts_lock s _ _ _ here

theorem Turn.outcome? {s s' : State σ} {t t' : Thread σ} (turn : Turn s t s' t') {n : Nat} {r : Resolved}
    (settled : s.outcome? n = some r) : s'.outcome? n = some r := by
  obtain ⟨key,here⟩ := State.outcome?_eq_some_iff.mp settled
  exact State.outcome?_eq_some_iff.mpr ⟨key,turn.attempts here⟩

theorem Turn.sound {s s' : State σ} {t t' : Thread σ} (turn : Turn s t s' t') (sound : s.Sound) : s'.Sound := by
  cases turn with
  | works => exact sound.of_locks rfl Iff.rfl
  | shares => exact sound.lock _ _ _
  | learns | returns => exact sound

variable {c c' : Scene σ}

theorem Step.sound (step : Step chain c c') (sound : c.state.Sound) : c'.state.Sound := by
  cases step with
  | tick | world => exact sound.of_locks rfl Iff.rfl
  | @goes x t t' s here advanced =>
    have turn := turn_of_advance? advanced
    cases x with
    | caller i => exact turn.sound sound
    | attempt n =>
      obtain ⟨key,running⟩ := Scene.thread?_attempt_iff.mp here
      exact (turn.sound sound).setProgress (turn.attempts running) t'
  | settles here done =>
    obtain ⟨key,running⟩ := Scene.thread?_attempt_iff.mp here
    exact sound.settle running _

theorem Step.outcome? (step : Step chain c c') {n : Nat} {r : Resolved} (settled : c.state.outcome? n = some r) :
    c'.state.outcome? n = some r := by
  cases step with
  | tick | world => exact settled
  | @goes x t t' s here advanced =>
    have turn := turn_of_advance? advanced
    cases x with
    | caller i => exact turn.outcome? settled
    | attempt m =>
      obtain ⟨key,running⟩ := Scene.thread?_attempt_iff.mp here
      have there := turn.attempts running
      exact (State.outcome?_setProgress there (State.outcome?_of_running there) t' n).trans (turn.outcome? settled)
  | @settles m t r' here done =>
    obtain ⟨key,running⟩ := Scene.thread?_attempt_iff.mp here
    refine (State.outcome?_settle_of_ne ?_ r').trans settled
    rintro rfl
    rw [State.outcome?_of_running running] at settled
    cases settled

theorem Reaches.sound (reaches : Reaches chain c c') (sound : c.state.Sound) : c'.state.Sound := by
  induction reaches with
  | refl => exact sound
  | tail _ step ih => exact step.sound ih

/-- An attempt has one outcome for all that ever come to know it. -/
theorem Reaches.outcome? (reaches : Reaches chain c c') {n : Nat} {r : Resolved}
    (settled : c.state.outcome? n = some r) : c'.state.outcome? n = some r := by
  induction reaches with
  | refl => exact settled
  | tail _ step ih => exact step.outcome? ih

end Bundling.Resolution
