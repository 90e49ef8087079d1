import Bundling.Proofs.Carrying
import Bundling.Proofs.Functions

/-!
# Shared attempts

Attempts that share none themselves wait for nobody, and as long as one of them has no outcome the caller that
made it waits for it (`Scene.Kept`). So there is one attempt for a key at a time, all who wait for it are told
the same, nobody goes on before all attempts that were being made have come to an end, and nothing stays
locked when all callers have returned (`attempts_shared`).
-/

namespace Bundling.Resolution

variable {σ : Type} {chain : List (Resolver σ)}

/-- What a thread may be after one step, in whatever state the layer is. -/
def Thread.Next (chain : List (Resolver σ)) (t t' : Thread σ) : Prop := ∃ s s', t.advance? chain s = some (s',t')

/-- Whatever it is told, the thread shares no attempt. -/
def Thread.Quiet (chain : List (Resolver σ)) (t : Thread σ) : Prop :=
  ∀ t', Relation.ReflTransGen (Thread.Next chain) t t' → ∀ key a next, t'.control ≠ .act (.share key a next)

/-- Whatever it is told, the attempts that the thread shares share none themselves. -/
def Thread.Proper (chain : List (Resolver σ)) (t : Thread σ) : Prop :=
  ∀ t', Relation.ReflTransGen (Thread.Next chain) t t' → ∀ key a next, t'.control = .act (.share key a next) →
    Thread.Quiet chain { control := .act a, home := t'.worker }

/-- A caller that has not made a step yet. -/
def Thread.Begins (t : Thread σ) : Prop :=
  (∃ a, t = .acting a) ∨ ∃ request importer, t = .resolving request importer

/-- Callers that have not begun, of a layer that no attempt has been made in. -/
structure Scene.Fresh (chain : List (Resolver σ)) (c : Scene σ) : Prop where
  unlocked : c.state.locks = []
  unused : c.state.attempts = []
  begins : ∀ t ∈ c.callers, t.Begins
  proper : ∀ t ∈ c.callers, t.Proper chain

/-- What all steps keep: attempts wait for nobody, and each that has no outcome is waited for. -/
structure Scene.Kept (chain : List (Resolver σ)) (c : Scene σ) : Prop where
  sound : c.state.Sound
  quiet : ∀ {n t}, c.thread? (.attempt n) = some t → t.Quiet chain ∧ ¬ t.Waits
  running : ∀ {n key}, c.state.Pending n key → ∃ t, c.thread? (.attempt n) = some t
  held : ∀ {n key}, c.state.Pending n key →
    ∃ (i : Nat) (t : Thread σ) (next : Resolved → Activity σ), c.callers[i]? = some t ∧ t.control = .joined n next
  proper : ∀ t ∈ c.callers, t.Proper chain

section

variable {t t' : Thread σ} {s s' : State σ}

theorem Thread.Quiet.next (quiet : t.Quiet chain) (next : Thread.Next chain t t') : t'.Quiet chain :=
  fun _ reach => quiet _ (.head next reach)

theorem Thread.Proper.next (proper : t.Proper chain) (next : Thread.Next chain t t') : t'.Proper chain :=
  fun _ reach => proper _ (.head next reach)

/-- A step of a thread that neither shares nor waits touches nothing but what resolvers act on. -/
theorem Thread.Quiet.works (quiet : t.Quiet chain) (free : ¬ t.Waits) (advanced : t.advance? chain s = some (s',t')) :
    (∃ env, s' = { s with env }) ∧ t'.Quiet chain ∧ ¬ t'.Waits := by
  refine ⟨?_,quiet.next ⟨s,s',advanced⟩,?_⟩
  all_goals cases turn_of_advance? advanced with
    | works env _ free' => first | exact ⟨env,rfl⟩ | exact free'
    | shares control => exact absurd control (quiet t .refl _ _ _)
    | learns control | returns control => simp [Waits,control] at free

end

namespace Scene

variable {start c c' : Scene σ}

theorem Fresh.kept (fresh : c.Fresh chain) : c.Kept chain := by
  have none : ∀ {n key}, ¬ c.state.Pending n key := by
    rintro n key ⟨a,here,-⟩
    simp [fresh.unused] at here
  refine ⟨⟨?_,by simp [fresh.unlocked]⟩,?_,fun pending => absurd pending none,fun pending => absurd pending none,
    fresh.proper⟩
  · intro key n
    rw [fresh.unlocked]
    exact ⟨fun listed => (List.not_mem_nil listed).elim,fun pending => absurd pending none⟩
  · intro n t found
    obtain ⟨key,here⟩ := thread?_attempt_iff.mp found
    simp [fresh.unused] at here

/-- What is kept does not depend on what resolvers act on, nor on the clock. -/
theorem Kept.congr (kept : c.Kept chain) {s : State σ} (locks : s.locks = c.state.locks)
    (attempts : s.attempts = c.state.attempts) : Kept chain ⟨s,c.callers⟩ := by
  have pending : ∀ {n key}, s.Pending n key ↔ c.state.Pending n key := fun {n key} =>
    ⟨fun pending => pending.of_attempts (by rw [attempts]),fun pending => pending.of_attempts (by rw [attempts])⟩
  have threads : ∀ n, thread? ⟨s,c.callers⟩ (.attempt n) = c.thread? (.attempt n) := fun n => by
    simp only [thread?,attempts]
  exact {
    sound := kept.sound.of_locks locks pending
    quiet := fun found => kept.quiet (threads _ ▸ found)
    running := fun here => by rw [threads]; exact kept.running (pending.mp here)
    held := fun here => kept.held (pending.mp here)
    proper := kept.proper }

theorem getElem?_set_of_waits {i j : Nat} {t t' t'' : Thread σ} (here : c.callers[i]? = some t)
    (there : c.callers[j]? = some t'') (other : t ≠ t'') : (c.callers.set i t')[j]? = some t'' := by
  rw [List.getElem?_set_ne ?_]
  · exact there
  · rintro rfl
    exact other (Option.some.inj (here.symm.trans there))

/-- A caller has gone on, and nothing has come of attempts or locks. -/
theorem Kept.goes (kept : c.Kept chain) {i : Nat} {t t' : Thread σ} (here : c.callers[i]? = some t)
    (proper : t'.Proper chain)
    (past : ∀ n next, t.control = .joined n next → (c.state.outcome? n).isSome) :
    Kept chain ⟨c.state,c.callers.set i t'⟩ where
  sound := kept.sound
  quiet := kept.quiet
  running := kept.running
  held := by
    intro n key pending
    obtain ⟨j,t'',next,there,control⟩ := kept.held pending
    refine ⟨j,t'',next,getElem?_set_of_waits here there ?_,control⟩
    rintro rfl
    obtain ⟨-,-,-,unsettled⟩ := pending
    have := past n next control
    rw [unsettled] at this
    cases this
  proper := by
    intro t'' member
    rcases List.mem_or_eq_of_mem_set member with before | rfl
    · exact kept.proper t'' before
    · exact proper

/-- A caller has got the lock of a key, be it that of an attempt that is being made or of a new one. -/
theorem Kept.shares (kept : c.Kept chain) {i : Nat} {t : Thread σ} {key : String} {a : Activity σ}
    {next : Resolved → Activity σ} (here : c.callers[i]? = some t) (control : t.control = .act (.share key a next))
    (proper : Thread.Proper chain { t with control := .joined (c.state.lock key t.worker a).1 next }) :
    Kept chain ⟨(c.state.lock key t.worker a).2,
      c.callers.set i { t with control := .joined (c.state.lock key t.worker a).1 next }⟩ := by
  have going := kept.goes here proper fun n next' joined => by rw [control] at joined; cases joined
  have inside : i < c.callers.length := (List.getElem?_eq_some_iff.mp here).1
  have member := List.mem_of_getElem? here
  rcases kept.sound.lock_cases key t.worker a with ⟨n,-,same⟩ | ⟨free,new⟩
  · rw [same] at going ⊢
    exact going
  · have sound := kept.sound.lock key t.worker a
    rw [new] at going sound ⊢
    have pending : ∀ {n key'}, State.Pending { c.state with
        locks := c.state.locks ++ [(key,c.state.attempts.length)]
        attempts := c.state.attempts ++ [⟨key,.running { control := .act a, home := t.worker }⟩] } n key' ↔
          c.state.Pending n key' ∨ n = c.state.attempts.length ∧ key' = key :=
      State.pending_append (a := ⟨key,.running { control := .act a, home := t.worker }⟩) rfl (by simp)
    have last : thread? ⟨{ c.state with
        locks := c.state.locks ++ [(key,c.state.attempts.length)]
        attempts := c.state.attempts ++ [⟨key,.running { control := .act a, home := t.worker }⟩] },
          c.callers.set i { t with control := .joined c.state.attempts.length next }⟩
        (.attempt c.state.attempts.length) = some { control := .act a, home := t.worker } :=
      thread?_attempt_iff.mpr ⟨key,by simp⟩
    refine ⟨sound,?_,?_,?_,going.proper⟩
    · intro n u found
      obtain ⟨key',there⟩ := thread?_attempt_iff.mp found
      by_cases old : n < c.state.attempts.length
      · rw [List.getElem?_append_left old] at there
        exact kept.quiet (thread?_attempt_iff.mpr ⟨key',there⟩)
      · have bound := (List.getElem?_eq_some_iff.mp there).1
        rw [List.length_append,List.length_singleton] at bound
        obtain rfl : n = c.state.attempts.length := by omega
        rw [last] at found
        cases found
        exact ⟨kept.proper t member t .refl key a next control,fun waits => waits⟩
    · intro n key' here'
      rcases pending.mp here' with before | ⟨rfl,rfl⟩
      · obtain ⟨u,found⟩ := kept.running before
        obtain ⟨key'',there⟩ := thread?_attempt_iff.mp found
        refine ⟨u,thread?_attempt_iff.mpr ⟨key'',?_⟩⟩
        rw [List.getElem?_append_left before.lt]
        exact there
      · exact ⟨_,last⟩
    · intro n key' here'
      rcases pending.mp here' with before | ⟨rfl,rfl⟩
      · exact going.held before
      · exact ⟨i,_,next,List.getElem?_set_self inside,rfl⟩

theorem Kept.step (kept : c.Kept chain) (step : Step chain c c') : c'.Kept chain := by
  have sound := step.sound kept.sound
  cases step with
  | tick | world => exact kept.congr rfl rfl
  | @goes x t t' s here advanced =>
    cases x with
    | caller i =>
      have proper := (kept.proper t (List.mem_of_getElem? here)).next ⟨c.state,s,advanced⟩
      cases turn_of_advance? advanced with
      | works env free =>
        exact (kept.goes here proper fun n next control => by simp [Thread.Waits,control] at free).congr rfl rfl
      | shares control => exact kept.shares here control proper
      | learns control outcome =>
        refine kept.goes here proper fun n next control' => ?_
        rw [control] at control'
        cases control'
        rw [outcome]
        rfl
      | returns control =>
        exact kept.goes here proper fun n next control' => by rw [control] at control'; cases control'
    | attempt n =>
      obtain ⟨quiet,free⟩ := kept.quiet here
      obtain ⟨key,running⟩ := thread?_attempt_iff.mp here
      obtain ⟨⟨env,rfl⟩,quiet',free'⟩ := quiet.works free advanced
      have pending : ∀ {m key'}, ({ c.state with env }.setProgress n (.running t')).Pending m key' ↔ c.state.Pending m key' :=
        State.pending_setProgress (s := { c.state with env }) running t'
      have same : thread? ⟨{ c.state with env }.setProgress n (.running t'),c.callers⟩ (.attempt n) = some t' :=
        thread?_attempt_iff.mpr ⟨key,State.attempts_setProgress_self running _⟩
      have others : ∀ {m}, n ≠ m → thread? ⟨{ c.state with env }.setProgress n (.running t'),c.callers⟩ (.attempt m) =
          c.thread? (.attempt m) := fun other => by
        simp only [thread?,State.attempts_setProgress_of_ne other]
      refine ⟨sound,?_,?_,fun here' => kept.held (pending.mp here'),kept.proper⟩
      · intro m u found
        by_cases this : n = m
        · subst this
          rw [put,same] at found
          cases found
          exact ⟨quiet',free'⟩
        · exact kept.quiet ((others this).symm.trans found)
      · intro m key' here'
        by_cases this : n = m
        · exact ⟨t',this ▸ same⟩
        · obtain ⟨u,found⟩ := kept.running (pending.mp here')
          exact ⟨u,(others this).trans found⟩
  | @settles n t r here done =>
    obtain ⟨key,running⟩ := thread?_attempt_iff.mp here
    have pending : ∀ {m key'}, (c.state.settle n r).Pending m key' ↔ n ≠ m ∧ c.state.Pending m key' :=
      State.pending_settle running r
    have others : ∀ {m}, n ≠ m → thread? ⟨c.state.settle n r,c.callers⟩ (.attempt m) = c.thread? (.attempt m) :=
      fun other => by simp only [thread?,State.settle,State.attempts_setProgress_of_ne other]
    refine ⟨sound,?_,?_,fun here' => kept.held (pending.mp here').2,kept.proper⟩
    · intro m u found
      by_cases this : n = m
      · subst this
        obtain ⟨key',there⟩ := thread?_attempt_iff.mp found
        rw [show (c.state.settle n r).attempts[n]? = _ from State.attempts_setProgress_self running (.settled r)] at there
        cases there
      · exact kept.quiet ((others this).symm.trans found)
    · intro m key' here'
      obtain ⟨this,before⟩ := pending.mp here'
      obtain ⟨u,found⟩ := kept.running before
      exact ⟨u,(others this).trans found⟩

theorem Kept.reaches (kept : c.Kept chain) (reaches : Reaches chain c c') : c'.Kept chain := by
  induction reaches with
  | refl => exact kept
  | tail _ step ih => exact ih.step step

/-- Nobody waits for himself, however long the way round: attempts wait for nobody. -/
theorem Kept.acyclic (kept : c.Kept chain) (x : Party) : ¬ Relation.TransGen c.WaitsFor x x := by
  intro circle
  obtain ⟨y,-,t,n,-,-,rfl⟩ := Relation.TransGen.tail'_iff.mp circle
  obtain ⟨z,⟨u,m,here,awaited,-⟩,-⟩ := Relation.TransGen.head'_iff.mp circle
  refine (kept.quiet here).2 ?_
  unfold Thread.awaited at awaited
  split at awaited
  · rename_i control
    simp [Thread.Waits,control]
  · rename_i control
    simp [Thread.Waits,control]
  · cases awaited

theorem Kept.idle (kept : c.Kept chain) (returned : ∀ t ∈ c.callers, t.result?.isSome) : c.state.pendingKeys = [] := by
  refine List.eq_nil_iff_forall_not_mem.mpr fun key locked => ?_
  obtain ⟨n,pending⟩ := (State.mem_pendingKeys_iff kept.sound).mp locked
  obtain ⟨i,t,next,here,control⟩ := kept.held pending
  have := returned t (List.mem_of_getElem? here)
  simp [Thread.result?,control] at this

end Scene

/-! ## What becomes of a caller that waits -/

/-- What becomes of a caller that waits for an attempt: it goes on waiting, or has been told the outcome of the
attempt and waits for all attempts that were being made, or has gone on with the outcome when those had ended. -/
inductive Served (chain : List (Resolver σ)) (c : Scene σ) (i n : Nat) (t : Thread σ) (next : Resolved → Activity σ) :
    Scene σ → Prop where
  | waits {c' : Scene σ} (here : c'.callers[i]? = some t) : Served chain c i n t next c'
  | told {c' : Scene σ} {r : Resolved} {others : List Nat} (outcome : c'.state.outcome? n = some r)
      (here : c'.callers[i]? = some { t with control := .settling others r next })
      (watched : ∀ {m key}, c.state.Pending m key → m ∈ others ∨ (c'.state.outcome? m).isSome) :
      Served chain c i n t next c'
  | returned {c' c₁ : Scene σ} {r : Resolved} (before : Reaches chain c c₁) (outcome : c₁.state.outcome? n = some r)
      (here : c₁.callers[i]? = some { t with control := .act (next r) })
      (ended : ∀ {m key}, c.state.Pending m key → (c₁.state.outcome? m).isSome) (after : Reaches chain c₁ c') :
      Served chain c i n t next c'

section

variable {start c c' c'' : Scene σ} {i n : Nat} {t : Thread σ} {next : Resolved → Activity σ}

/-- What was being made is settled, or is being made still. -/
theorem Reaches.settled_or_pending (reaches : Reaches chain c c') {m : Nat} {key : String}
    (pending : c.state.Pending m key) : (c'.state.outcome? m).isSome ∨ c'.state.Pending m key := by
  induction reaches with
  | refl => exact .inr pending
  | @tail c' c'' _ step ih =>
    rcases ih with settled | pending
    · obtain ⟨r,outcome⟩ := Option.isSome_iff_exists.mp settled
      exact .inl (Option.isSome_iff_exists.mpr ⟨r,step.outcome? outcome⟩)
    · cases step with
      | tick | world => exact .inr (pending.of_attempts rfl)
      | @goes x u u' s here advanced =>
        have still : s.Pending m key := by
          obtain ⟨a,there,rfl,-⟩ := id pending
          have same := (turn_of_advance? advanced).attempts there
          exact pending.of_attempts (same.trans there.symm)
        cases x with
        | caller j => exact .inr still
        | attempt k =>
          obtain ⟨_,running⟩ := Scene.thread?_attempt_iff.mp here
          exact .inr ((State.pending_setProgress ((turn_of_advance? advanced).attempts running) u').mpr still)
      | @settles k u r here =>
        obtain ⟨_,running⟩ := Scene.thread?_attempt_iff.mp here
        by_cases this : k = m
        · subst this
          exact .inl (by rw [State.outcome?_settle_self running]; rfl)
        · exact .inr ((State.pending_settle running r).mpr ⟨this,pending⟩)

/-- Others leave a caller where it is. -/
theorem Step.caller_cases (step : Step chain c c') (here : c.callers[i]? = some t) :
    c'.callers[i]? = some t ∨ ∃ s t', Turn c.state t s t' ∧ c' = ⟨s,c.callers.set i t'⟩ := by
  cases step with
  | tick | world | settles => exact .inl here
  | @goes x u u' s there advanced =>
    cases x with
    | attempt k => exact .inl here
    | caller j =>
      by_cases same : j = i
      · subst same
        obtain rfl : u = t := Option.some.inj (there.symm.trans here)
        exact .inr ⟨s,u',turn_of_advance? advanced,rfl⟩
      · exact .inl ((List.getElem?_set_ne same).trans here)

theorem Served.step (served : Served chain c i n t next c') (control : t.control = .joined n next)
    (reaches : Reaches chain c c') (kept : c'.Kept chain) (step : Step chain c' c'') :
    Served chain c i n t next c'' := by
  cases served with
  | waits here =>
    rcases step.caller_cases here with still | ⟨s,t',turn,rfl⟩
    · exact .waits still
    · have inside : i < c'.callers.length := (List.getElem?_eq_some_iff.mp here).1
      cases turn with
      | works env free => simp [Thread.Waits,control] at free
      | shares control' => rw [control] at control'; cases control'
      | returns control' => rw [control] at control'; cases control'
      | learns control' outcome =>
        rw [control] at control'
        cases control'
        refine .told outcome (List.getElem?_set_self inside) fun {m key} pending => ?_
        rcases reaches.settled_or_pending pending with settled | pending
        · exact .inr settled
        · exact .inl (List.mem_map.mpr ⟨_,kept.sound.locked.mpr pending,rfl⟩)
  | @told r others outcome here watched =>
    have outcome' := step.outcome? outcome
    rcases step.caller_cases here with still | ⟨s,t',turn,rfl⟩
    · refine .told outcome' still fun pending => (watched pending).imp_right fun settled => ?_
      obtain ⟨r',known⟩ := Option.isSome_iff_exists.mp settled
      exact Option.isSome_iff_exists.mpr ⟨r',step.outcome? known⟩
    · have inside : i < c'.callers.length := (List.getElem?_eq_some_iff.mp here).1
      cases turn with
      | works env free => exact absurd trivial free
      | shares control' => cases control'
      | learns control' => cases control'
      | returns control' settled =>
        cases control'
        exact .returned (reaches.tail step) outcome' (List.getElem?_set_self inside)
          (fun pending => (watched pending).elim (settled _) id) .refl
  | returned before outcome here ended after => exact .returned before outcome here ended (after.tail step)

theorem Served.of_reaches (kept : c.Kept chain) (here : c.callers[i]? = some t) (control : t.control = .joined n next)
    (reaches : Reaches chain c c') : Served chain c i n t next c' := by
  induction reaches with
  | refl => exact .waits here
  | @tail c' c'' reaches step ih => exact ih.step control reaches (kept.reaches reaches) step

/-- A caller that asks for an attempt joins the one that is being made for its key, and makes a new one only
where there is none. -/
theorem Scene.Kept.joins (kept : c.Kept chain) {key : String} {a : Activity σ}
    (control : t.control = .act (.share key a next)) :
    ∃ m s, t.advance? chain c.state = some (s,{ t with control := .joined m next }) ∧
      (c.state.Pending m key ∧ s = c.state ∨
        (∀ k, ¬ c.state.Pending k key) ∧ m = c.state.attempts.length ∧ s.Pending m key ∧
          s.attempts = c.state.attempts ++ [⟨key,.running { control := .act a, home := t.worker }⟩]) := by
  refine ⟨(c.state.lock key t.worker a).1,(c.state.lock key t.worker a).2,by simp [Thread.advance?,control],?_⟩
  rcases kept.sound.lock_cases key t.worker a with ⟨m,pending,same⟩ | ⟨free,new⟩
  · rw [same]
    exact .inl ⟨pending,rfl⟩
  · rw [new]
    exact .inr ⟨free,rfl,(State.pending_append rfl (by simp)).mpr (.inr ⟨rfl,rfl⟩),rfl⟩

end

end Bundling.Resolution

/-! ## What can be seen from an activity -/

namespace Bundling

variable {σ : Type} {kind : Activity σ → Prop}

/-- The attempts that an activity shares are of some kind, whatever it is told. -/
inductive Activity.Shares (kind : Activity σ → Prop) : Activity σ → Prop where
  | answer (r : Resolved) : Shares kind (.answer r)
  | defer : Shares kind .defer
  | step {f : σ → Activity σ × σ} (leads : ∀ s, Shares kind (f s).1) : Shares kind (.step f)
  | pause {rounds : Nat} {next : Activity σ} (leads : Shares kind next) : Shares kind (.pause rounds next)
  | ask {request : String} {importer : Option ModuleId} {next : Resolved → Activity σ}
      (leads : ∀ r, Shares kind (next r)) : Shares kind (.ask request importer next)
  | share {key : String} {a : Activity σ} {next : Resolved → Activity σ} (this : kind a)
      (leads : ∀ r, Shares kind (next r)) : Shares kind (.share key a next)
  | pending {next : List String → Activity σ} (leads : ∀ keys, Shares kind (next keys)) : Shares kind (.pending next)

/-- An activity that shares nothing. -/
abbrev Activity.Shareless (a : Activity σ) : Prop := a.Shares fun _ => False

namespace Resolution

variable {chain : List (Resolver σ)} {t t' : Thread σ}

/-- What is left of a thread shares attempts of some kind only. -/
structure Thread.Shares (kind : Activity σ → Prop) (t : Thread σ) : Prop where
  control : match t.control with
    | .act a | .paused _ a => a.Shares kind
    | .joined _ next | .settling _ _ next => ∀ r, (next r).Shares kind
    | .chain .. | .answered _ | .finished _ => True
  stack : ∀ {next}, .asker next ∈ t.stack → ∀ r, (next r).Shares kind

theorem lasts_shares : Lasts (Activity.Shares kind) where
  step | .step leads => leads
  pause | .pause leads => leads
  ask | .ask leads => leads
  share | .share _ leads => leads
  pending | .pending leads => leads

theorem Thread.Shares.next (resolvers : ∀ resolver ∈ chain, ∀ request importer, (resolver.resolve request importer).Shares kind)
    (shares : t.Shares kind) (next : Thread.Next chain t t') : t'.Shares kind := by
  obtain ⟨s,s',advanced⟩ := next
  have holds : t.Holds (Activity.Shares kind) := ⟨shares.control,shares.stack⟩
  have left := holds.advance lasts_shares resolvers advanced
  exact ⟨left.control,left.stack⟩

theorem Thread.Shares.reaches (resolvers : ∀ resolver ∈ chain, ∀ request importer, (resolver.resolve request importer).Shares kind)
    (shares : t.Shares kind) (reaches : Relation.ReflTransGen (Thread.Next chain) t t') : t'.Shares kind := by
  induction reaches with
  | refl => exact shares
  | tail _ next ih => exact ih.next resolvers next

/-- Where resolvers share nothing, what shares nothing is quiet. -/
theorem quiet_of_shareless (resolvers : ∀ resolver ∈ chain, ∀ request importer, (resolver.resolve request importer).Shareless)
    {a : Activity σ} (shareless : a.Shareless) (home : Option Nat) : Thread.Quiet chain { control := .act a, home } := by
  intro t' reaches key b next control
  have shares : t'.Shares fun _ => False := Thread.Shares.reaches resolvers ⟨shareless,by simp⟩ reaches
  have now := shares.control
  rw [control] at now
  cases now with
  | share this => exact this

/-- Where resolvers share nothing, a caller that shares attempts of this kind is proper. -/
theorem proper_of_shares (resolvers : ∀ resolver ∈ chain, ∀ request importer, (resolver.resolve request importer).Shareless)
    {a : Activity σ} (shares : a.Shares Activity.Shareless) : Thread.Proper chain (.acting a) := by
  intro t' reaches key b next control
  have weaker : ∀ {a : Activity σ}, a.Shareless → a.Shares Activity.Shareless := by
    intro a shareless
    induction shareless with
    | answer r => exact .answer r
    | defer => exact .defer
    | step _ ih => exact .step ih
    | pause _ ih => exact .pause ih
    | ask _ ih => exact .ask ih
    | share this => exact this.elim
    | pending _ ih => exact .pending ih
  have left : t'.Shares Activity.Shareless := Thread.Shares.reaches
    (fun resolver member request importer => weaker (resolvers resolver member request importer)) ⟨shares,by simp [Thread.acting]⟩ reaches
  have now := left.control
  rw [control] at now
  cases now with
  | share this => exact quiet_of_shareless resolvers this _

/-! ## One attempt for a key -/

variable {start c : Scene σ}

/-- Callers that share attempts, and attempts that share none: whatever the keys are, however long attempts
take, and in whatever order all go on, there is at most one attempt for a key at a time, and the keys that are
locked are those of the attempts that have no outcome yet. Who asks for an attempt joins the one that is being
made, and makes a new one if there is none. An attempt has one outcome for good; who waits for it goes on with
this outcome, and not before all attempts that were being made have come to their ends. Nobody waits in a
circle, and when all callers have returned nothing is locked. -/
theorem attempts_shared (fresh : start.Fresh chain) (reached : Reaches chain start c) :
    (∀ {n m key}, c.state.Pending n key → c.state.Pending m key → n = m) ∧
    (∀ key, key ∈ c.state.pendingKeys ↔ ∃ n, c.state.Pending n key) ∧
    (∀ {i : Nat} {t : Thread σ} {key a next}, c.callers[i]? = some t → t.control = .act (.share key a next) →
      ∃ m s, t.advance? chain c.state = some (s,{ t with control := .joined m next }) ∧
        (c.state.Pending m key ∧ s = c.state ∨
          (∀ k, ¬ c.state.Pending k key) ∧ m = c.state.attempts.length ∧ s.Pending m key ∧
            s.attempts = c.state.attempts ++ [⟨key,.running { control := .act a, home := t.worker }⟩])) ∧
    (∀ {n r c'}, c.state.outcome? n = some r → Reaches chain c c' → c'.state.outcome? n = some r) ∧
    (∀ {i t n next c'}, c.callers[i]? = some t → t.control = .joined n next → Reaches chain c c' →
      Served chain c i n t next c') ∧
    (∀ x, ¬ Relation.TransGen c.WaitsFor x x) ∧
    ((∀ t ∈ c.callers, t.result?.isSome) → c.state.pendingKeys = []) := by
  have kept := fresh.kept.reaches reached
  exact ⟨kept.sound.unique,fun key => State.mem_pendingKeys_iff kept.sound,fun _ control => kept.joins control,
    fun settled reaches => reaches.outcome? settled,fun here control reaches => .of_reaches kept here control reaches,kept.acyclic,kept.idle⟩


/-- A caller that shares an attempt of some rounds. -/
def Thread.sharing (key : String) (rounds : Nat) (r : Resolved) : Thread Unit :=
  .acting (.share key (.pause rounds (.answer r)) .answer)

/-- Two attempts for one key and one for another, by callers none of which has begun. -/
def crowd : List (Thread Unit) := [
  .sharing "x" 2 (.ok Letter.a), .sharing "y" 3 (.ok Letter.b), .sharing "x" 1 (.error (.install "x" "offline"))]

/-- While the attempts are being made there is one for each of the two keys. The third caller waits for the
attempt of the first one, and is told what that one is told. -/
theorem attempts_shared_crowd :
    ∃ now later : Scene Unit, Reaches [] ⟨{ env := () },crowd⟩ now ∧ Reaches [] now later ∧
      now.state.locks = [("x",0),("y",1)] ∧ (∃ n, now.state.Pending n "x") ∧
      Served [] now 2 0 { control := .joined 0 .answer } .answer later ∧
      later.callers.map Thread.result? = [some (.ok Letter.a),some (.ok Letter.b),some (.ok Letter.a)] ∧
      later.state.pendingKeys = [] := by
  have fresh : Scene.Fresh [] ⟨{ env := () },crowd⟩ := by
    have sharing : ∀ t ∈ crowd, ∃ key rounds r, t = .sharing key rounds r := by
      simp only [crowd,List.forall_mem_cons,List.not_mem_nil,false_imp_iff,implies_true,and_true]
      exact ⟨⟨_,_,_,rfl⟩,⟨_,_,_,rfl⟩,⟨_,_,_,rfl⟩⟩
    refine ⟨rfl,rfl,fun t member => ?_,fun t member => ?_⟩
    · obtain ⟨key,rounds,r,rfl⟩ := sharing t member
      exact .inl ⟨_,rfl⟩
    · obtain ⟨key,rounds,r,rfl⟩ := sharing t member
      exact proper_of_shares (by simp) (.share (.pause (.answer r)) fun r' => .answer r')
  have locks : (history [] 20 { env := () } crowd [.poll 0,.poll 1,.poll 2]).1.locks = [("x",0),("y",1)] := by
    decide +kernel
  have waits : (history [] 20 { env := () } crowd [.poll 0,.poll 1,.poll 2]).2[2]? =
      some { control := .joined 0 .answer } := by rfl
  have results : (rounds [] 20 10 (history [] 20 { env := () } crowd [.poll 0,.poll 1,.poll 2]).1
      (history [] 20 { env := () } crowd [.poll 0,.poll 1,.poll 2]).2).2.map Thread.result? =
        [some (.ok Letter.a),some (.ok Letter.b),some (.ok Letter.a)] := by decide +kernel
  have first : Reaches [] ⟨{ env := () },crowd⟩ _ := reaches_history 20 _ _ [.poll 0,.poll 1,.poll 2]
  generalize history [] 20 { env := () } crowd [.poll 0,.poll 1,.poll 2] = now at locks waits results first
  have second : Reaches [] ⟨now.1,now.2⟩ _ := reaches_rounds 20 10 _ _
  generalize rounds [] 20 10 now.1 now.2 = later at results second
  obtain ⟨-,locked,-,-,served,-,-⟩ := attempts_shared fresh first
  obtain ⟨-,-,-,-,-,-,idle⟩ := attempts_shared fresh (first.trans second)
  refine ⟨⟨now.1,now.2⟩,⟨later.1,later.2⟩,first,second,locks,(locked "x").mp ?_,served waits rfl second,results,
    idle fun t member => ?_⟩
  · simp [State.pendingKeys,List.mem_mergeSort,locks]
  · have known : ∀ x ∈ later.2.map Thread.result?, x.isSome = true := by rw [results]; decide
    exact known _ (List.mem_map_of_mem member)

end Resolution

end Bundling
