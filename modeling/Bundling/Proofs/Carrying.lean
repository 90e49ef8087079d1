import Bundling.Proofs.Interleaving
import Bundling.Proofs.World

/-!
# Polls make steps

Carrying a thread on, and with it the attempts that it waits for, is nothing but steps of these threads, however
few steps there is fuel for (`reaches_poll`). So all histories, and all rounds, are interleavings
(`reaches_history`, `reaches_rounds`).

While an attempt is carried on it is not among the attempts that can be, and its thread is held by who carries
it on. A `View` says what scene that is: the one where all threads that are held are back in their places.
-/

namespace Bundling.Resolution

variable {σ : Type} {chain : List (Resolver σ)} {s s' : State σ} {t t' : Thread σ}

/-- Attempts that are being carried on. -/
def State.Busy (s : State σ) (busy : List Nat) : Prop := ∀ n ∈ busy, ∃ key, s.attempts[n]? = some ⟨key,.busy⟩

namespace State

theorem setProgress_setProgress (s : State σ) (n : Nat) (p q : Progress σ) :
    (s.setProgress n p).setProgress n q = s.setProgress n q := by
  simp only [setProgress,List.modify_modify_eq]
  rfl

theorem setProgress_comm {n m : Nat} (other : n ≠ m) (s : State σ) (p q : Progress σ) :
    (s.setProgress n p).setProgress m q = (s.setProgress m q).setProgress n p := by
  simp only [setProgress,List.modify_modify_ne _ _ _ other]

theorem setProgress_self {n : Nat} {key : String} {p : Progress σ} (here : s.attempts[n]? = some ⟨key,p⟩) :
    s.setProgress n p = s := by
  have same : s.attempts.modify n (fun a => { a with progress := p }) = s.attempts := by
    refine List.ext_getElem? fun m => ?_
    rw [List.getElem?_modify]
    by_cases this : n = m
    · subst this
      simp [here]
    · simp [this]
  rw [setProgress,same]

theorem settle_setProgress (s : State σ) (n : Nat) (p : Progress σ) (r : Resolved) :
    (s.setProgress n p).settle n r = s.settle n r := by
  simp only [settle,setProgress_setProgress,locks_setProgress]

theorem settle_comm {n m : Nat} (other : n ≠ m) (s : State σ) (p : Progress σ) (r : Resolved) :
    (s.setProgress n p).settle m r = (s.settle m r).setProgress n p := by
  simp only [settle,setProgress_comm other,locks_setProgress]
  rfl

theorem outcome?_of_busy {n : Nat} {key : String} (here : s.attempts[n]? = some ⟨key,.busy⟩) : s.outcome? n = none := by
  simp [outcome?,here]

theorem Busy.setProgress {busy : List Nat} (holds : s.Busy busy) {n : Nat} (free : n ∉ busy) (p : Progress σ) :
    (s.setProgress n p).Busy busy := by
  intro m member
  obtain ⟨key,here⟩ := holds m member
  refine ⟨key,(attempts_setProgress_of_ne ?_ p).trans here⟩
  rintro rfl
  exact free member

theorem Busy.not_mem {busy : List Nat} (holds : s.Busy busy) {n : Nat} {key : String} {u : Thread σ}
    (here : s.attempts[n]? = some ⟨key,.running u⟩) : n ∉ busy := by
  intro member
  obtain ⟨key',there⟩ := holds n member
  rw [here] at there
  cases there

end State

theorem Turn.busy (turn : Turn s t s' t') {busy : List Nat} (holds : s.Busy busy) : s'.Busy busy := by
  intro n member
  obtain ⟨key,here⟩ := holds n member
  exact ⟨key,turn.attempts here⟩

/-- A key is locked in the same way whether the thread of an attempt is in its place or not. -/
theorem lock_put_back {n : Nat} (inside : n < s.attempts.length) (p : Progress σ) (key : String) (home : Option Nat)
    (a : Activity σ) :
    (s.setProgress n p).lock key home a = ((s.lock key home a).1,(s.lock key home a).2.setProgress n p) := by
  simp only [State.lock,State.locks_setProgress]
  cases s.locks.lookup key with
  | some m => rfl
  | none =>
    have appended : ∀ b : Attempt σ, (s.attempts ++ [b]).modify n (fun a => { a with progress := p }) =
        s.attempts.modify n (fun a => { a with progress := p }) ++ [b] := by
      intro b
      refine List.ext_getElem? fun m => ?_
      by_cases old : m < s.attempts.length
      · rw [List.getElem?_modify,List.getElem?_append_left old,List.getElem?_append_left (by simpa using old),
          List.getElem?_modify]
      · have other : n ≠ m := fun same => old (same ▸ inside)
        rw [List.getElem?_modify,List.getElem?_append_right (Nat.le_of_not_lt old),
          List.getElem?_append_right (by simpa using old),List.length_modify]
        simp [other]
    simp only [State.setProgress,appended,List.length_modify]

/-- A thread makes the same step whether the thread of an attempt is in its place or not. -/
theorem advance?_put_back {n : Nat} {key : String} {p : Progress σ} (here : s.attempts[n]? = some ⟨key,p⟩)
    (unsettled : s.outcome? n = none) (u : Thread σ) (advanced : t.advance? chain s = some (s',t')) :
    t.advance? chain (s.setProgress n (.running u)) = some (s'.setProgress n (.running u),t') := by
  have outcome := State.outcome?_setProgress here unsettled u
  obtain ⟨control,stack,home⟩ := t
  cases control with
  | finished r => simp [Thread.advance?] at advanced
  | act a =>
    cases a with
    | answer r | defer =>
      simp only [Thread.advance?] at advanced ⊢
      split at advanced <;> cases advanced <;> rfl
    | share key' attempt next =>
      cases advanced
      simp only [Thread.advance?,lock_put_back (List.getElem?_eq_some_iff.mp here).1]
      rfl
    | pause rounds next | step f | ask request importer next | pending next =>
      cases advanced
      rfl
  | chain q i =>
    simp only [Thread.advance?] at advanced ⊢
    split at advanced
    · cases advanced
      rfl
    · split at advanced <;> rename_i skipped <;> cases advanced <;> simp [skipped]
  | answered r =>
    simp only [Thread.advance?] at advanced ⊢
    split at advanced <;> cases advanced <;> rfl
  | paused wake next =>
    simp only [Thread.advance?] at advanced ⊢
    split at advanced <;> rename_i due <;> cases advanced
    exact if_pos due
  | joined m next =>
    obtain ⟨r,known,equal⟩ := Option.map_eq_some_iff.mp advanced
    cases equal
    simp [Thread.advance?,outcome,known]
  | settling others r next =>
    simp only [Thread.advance?,outcome] at advanced ⊢
    split at advanced <;> rename_i settled <;> cases advanced
    exact if_pos settled

/-- How a state in which some attempts are being carried on and a thread that is carried on make a scene. Steps
of the thread are steps of the scene, and so are those of all attempts that can be carried on. -/
structure View (chain : List (Resolver σ)) (busy : List Nat) (view : State σ → Thread σ → Scene σ) : Prop where
  goes : ∀ {s s' : State σ} {t t' : Thread σ}, s.Busy busy → t.advance? chain s = some (s',t') → Reaches chain (view s t) (view s' t')
  carries : ∀ {s s' : State σ} {t u u' : Thread σ} {n key}, s.Busy busy → s.attempts[n]? = some ⟨key,.running u⟩ →
    u.advance? chain s = some (s',u') → Reaches chain (view s t) (view (s'.setProgress n (.running u')) t)
  settles : ∀ {s : State σ} {t u : Thread σ} {r n key}, s.Busy busy → s.attempts[n]? = some ⟨key,.running u⟩ → u.control = .finished r →
    Reaches chain (view s t) (view (s.settle n r) t)

/-- A caller in its place. -/
theorem view_caller (callers : List (Thread σ)) {i : Nat} (inside : i < callers.length) :
    View chain [] fun s t => ⟨s,callers.set i t⟩ where
  goes := by
    intro s s' t t' _ advanced
    have step : Step chain ⟨s,callers.set i t⟩ (Scene.put ⟨s,callers.set i t⟩ s' t' (.caller i)) :=
      .goes (List.getElem?_set_self inside) advanced
    rw [Scene.put,List.set_set] at step
    exact .single step
  carries here running advanced := .single (.goes (Scene.thread?_attempt_iff.mpr ⟨_,running⟩) advanced)
  settles here running done := .single (.settles (Scene.thread?_attempt_iff.mpr ⟨_,running⟩) done)

/-- An attempt that is carried on by a thread, in its place. -/
theorem View.attempt {busy : List Nat} {view : State σ → Thread σ → Scene σ} (holds : View chain busy view) {n : Nat}
    (free : n ∉ busy) (waiting : Thread σ) :
    View chain (n :: busy) fun s u => view (s.setProgress n (.running u)) waiting where
  goes := by
    intro s s' u u' held advanced
    obtain ⟨key,here⟩ := held n List.mem_cons_self
    have others : (s.setProgress n (.running u)).Busy busy :=
      State.Busy.setProgress (fun m member => held m (List.mem_cons_of_mem _ member)) free _
    have went := holds.carries (t := waiting) others (State.attempts_setProgress_self here _)
      (advance?_put_back here (State.outcome?_of_busy here) u advanced)
    rwa [State.setProgress_setProgress] at went
  carries := by
    intro s s' u v v' m key held running advanced
    obtain ⟨_,here⟩ := held n List.mem_cons_self
    have other : n ≠ m := fun same => held.not_mem running (same ▸ List.mem_cons_self)
    have others : (s.setProgress n (.running u)).Busy busy :=
      State.Busy.setProgress (fun m member => held m (List.mem_cons_of_mem _ member)) free _
    have went := holds.carries (t := waiting) others ((State.attempts_setProgress_of_ne other _).trans running)
      (advance?_put_back here (State.outcome?_of_busy here) u advanced)
    rwa [State.setProgress_comm other] at went
  settles := by
    intro s u v r m key held running done
    obtain ⟨_,here⟩ := held n List.mem_cons_self
    have other : n ≠ m := fun same => held.not_mem running (same ▸ List.mem_cons_self)
    have others : (s.setProgress n (.running u)).Busy busy :=
      State.Busy.setProgress (fun m member => held m (List.mem_cons_of_mem _ member)) free _
    have went := holds.settles (t := waiting) others ((State.attempts_setProgress_of_ne other _).trans running) done
    rwa [State.settle_comm other] at went

/-- Carrying a thread on, and carrying attempts on for it, is steps of the scene that they are in. -/
theorem View.polls (fuel : Nat) :
    (∀ {busy view}, View chain busy view → ∀ {s : State σ}, s.Busy busy → ∀ t,
      Reaches chain (view s t) (view (poll chain fuel s t).1 (poll chain fuel s t).2) ∧
        (poll chain fuel s t).1.Busy busy) ∧
    ∀ {busy view}, View chain busy view → ∀ {s : State σ}, s.Busy busy → ∀ t ns,
      Reaches chain (view s t) (view (pollAttempts chain fuel s ns) t) ∧ (pollAttempts chain fuel s ns).Busy busy := by
  induction fuel with
  | zero => exact ⟨fun _ _ held _ => ⟨.refl,held⟩,fun _ _ held _ _ => ⟨.refl,held⟩⟩
  | succ fuel ih =>
    obtain ⟨polls,carries⟩ := ih
    refine ⟨?_,?_⟩
    · intro busy view holds s held t
      have goes : ∀ {s s' t t'}, s.Busy busy → t.advance? chain s = some (s',t') →
          Reaches chain (view s t) (view (poll chain fuel s' t').1 (poll chain fuel s' t').2) ∧
            (poll chain fuel s' t').1.Busy busy := by
        intro s s' t t' held advanced
        obtain ⟨further,held'⟩ := polls holds ((turn_of_advance? advanced).busy held) t'
        exact ⟨(holds.goes held advanced).trans further,held'⟩
      rw [poll]
      cases advanced : t.advance? chain s with
      | some next => exact goes held advanced
      | none =>
        obtain ⟨first,held'⟩ := carries holds held t (t.awaited s)
        simp only
        cases advanced' : t.advance? chain (pollAttempts chain fuel s (t.awaited s)) with
        | none => exact ⟨first,held'⟩
        | some next =>
          obtain ⟨further,held''⟩ := goes held' advanced'
          exact ⟨first.trans further,held''⟩
    · intro busy view holds s held t ns
      cases ns with
      | nil => exact ⟨.refl,held⟩
      | cons n ns =>
        have goesOn : ∀ {s' : State σ}, Reaches chain (view s t) (view s' t) → s'.Busy busy →
            Reaches chain (view s t) (view (pollAttempts chain fuel s' ns) t) ∧
              (pollAttempts chain fuel s' ns).Busy busy := by
          intro s' first held'
          obtain ⟨further,held''⟩ := carries holds held' t ns
          exact ⟨first.trans further,held''⟩
        rw [pollAttempts]
        split
        · rename_i key u here
          have free := held.not_mem here
          have inner := holds.attempt free t
          have busy' : (s.setProgress n .busy).Busy (n :: busy) := by
            intro m member
            rcases List.mem_cons.mp member with rfl | before
            · exact ⟨key,State.attempts_setProgress_self here _⟩
            · exact held.setProgress free _ m before
          obtain ⟨went,busy''⟩ := polls inner busy' u
          rw [State.setProgress_setProgress,State.setProgress_self here] at went
          generalize poll chain fuel (s.setProgress n .busy) u = polled at went busy''
          obtain ⟨s₁,u₁⟩ := polled
          obtain ⟨key',there⟩ := busy'' n List.mem_cons_self
          have others : (s₁.setProgress n (.running u₁)).Busy busy :=
            State.Busy.setProgress (fun m member => busy'' m (List.mem_cons_of_mem _ member)) free _
          cases control : u₁.control with
          | finished r =>
            have settled := holds.settles (t := t) others (State.attempts_setProgress_self there _) control
            rw [State.settle_setProgress] at settled
            simp only [control]
            refine goesOn (went.trans settled) ?_
            have kept : (s₁.setProgress n (.settled r)).Busy busy :=
              State.Busy.setProgress (fun m member => busy'' m (List.mem_cons_of_mem _ member)) free _
            exact kept
          | _ =>
            simp only [control]
            exact goesOn went others
        · exact goesOn .refl held

theorem reaches_poll (fuel : Nat) (c : Scene σ) {i : Nat} (here : c.callers[i]? = some t) :
    Reaches chain c ⟨(poll chain fuel c.state t).1,c.callers.set i (poll chain fuel c.state t).2⟩ := by
  obtain ⟨inside,same⟩ := List.getElem?_eq_some_iff.mp here
  have caller : View chain [] fun s t => ⟨s,c.callers.set i t⟩ := view_caller c.callers inside
  have reaches := ((View.polls fuel).1 caller (s := c.state) nofun t).1
  rwa [← same,List.set_getElem_self,same] at reaches

/-- A history is an interleaving. -/
theorem reaches_history (fuel : Nat) (s : State σ) (ts : List (Thread σ)) (events : List Event) :
    Reaches chain ⟨s,ts⟩ ⟨(history chain fuel s ts events).1,(history chain fuel s ts events).2⟩ := by
  induction events generalizing s ts with
  | nil => exact .refl
  | cons e events ih =>
    have first : Reaches chain ⟨s,ts⟩ ⟨(e.apply chain fuel s ts).1,(e.apply chain fuel s ts).2⟩ := by
      cases e with
      | tick => exact .single (.tick ⟨s,ts⟩)
      | poll i =>
        cases found : ts[i]? with
        | none =>
          simp only [Event.apply,found]
          exact .refl
        | some t =>
          simp only [Event.apply,found]
          exact reaches_poll fuel ⟨s,ts⟩ found
    exact first.trans (ih _ _)

theorem reaches_pollAll (fuel : Nat) (s : State σ) (polled ts : List (Thread σ)) :
    Reaches chain ⟨s,polled ++ ts⟩ ⟨(pollAll chain fuel s ts).1,polled ++ (pollAll chain fuel s ts).2⟩ := by
  induction ts generalizing s polled with
  | nil => exact .refl
  | cons t ts ih =>
    have here : (polled ++ t :: ts)[polled.length]? = some t := by simp
    have first : Reaches chain ⟨s,polled ++ t :: ts⟩ _ := reaches_poll fuel _ here
    simp only at first
    rw [List.set_append_right _ _ (Nat.le_refl _),Nat.sub_self,List.set_cons_zero] at first
    have others := ih (poll chain fuel s t).1 (polled ++ [(poll chain fuel s t).2])
    rw [List.append_assoc,List.append_assoc] at others
    rw [pollAll_cons]
    exact first.trans others

/-- Rounds are an interleaving, and so is what they come to. -/
theorem reaches_rounds (fuel limit : Nat) (s : State σ) (ts : List (Thread σ)) :
    Reaches chain ⟨s,ts⟩ ⟨(rounds chain fuel limit s ts).1,(rounds chain fuel limit s ts).2⟩ := by
  induction limit generalizing s ts with
  | zero => exact .refl
  | succ limit ih =>
    rw [rounds]
    split
    · exact .refl
    · have first : Reaches chain ⟨s.tick,ts⟩ _ := reaches_pollAll fuel s.tick [] ts
      exact .head (.tick ⟨s,ts⟩) (first.trans (ih _ _))

end Bundling.Resolution
