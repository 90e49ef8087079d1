import Mathlib.Data.List.Induction
import Bundling.Proofs.Functions
import Bundling.Proofs.Installing

/-!
# Calls of an installer

The lock of a package is held from where an attempt is made to where it ends, so the calls for one package come one
after the other (`Calls`). What an installer has put in its place keeps it from being called again, as long as the
search for that does not fail (`installed_once`).
-/

namespace Bundling.Install

open Resolution Candidates

/-! ## Calls one after the other -/

def Note.package : Note → String
  | .began package | .ended package _ => package

/-- Each call for a package ends before the next one begins, and after one that has succeeded another begins only
where that may be. -/
inductive Calls (again : Prop) (package : String) : (underway succeeded : Bool) → List Note → Prop where
  | nil : Calls again package false false []
  | other {u d : Bool} {l : List Note} {n : Note} (calls : Calls again package u d l) (other : n.package ≠ package) :
      Calls again package u d (l ++ [n])
  | began {d : Bool} {l : List Note} (calls : Calls again package false d l) (allowed : d = true → again) :
      Calls again package true d (l ++ [.began package])
  | ended {d : Bool} {l : List Note} (calls : Calls again package true d l) (ok : Bool) :
      Calls again package false (d || ok) (l ++ [.ended package ok])

namespace Calls

variable {again : Prop} {package : String} {u d : Bool} {l before after : List Note}

theorem others (calls : Calls again package u d before) (others : ∀ n ∈ after, n.package ≠ package) :
    Calls again package u d (before ++ after) := by
  induction after using List.reverseRecOn with
  | nil => simpa using calls
  | append_singleton after n ih =>
    rw [← List.append_assoc]
    exact .other (ih fun n member => others n (by simp [member])) (others n (by simp))

theorem mono {again' : Prop} (calls : Calls again package u d l) (weaker : again → again') : Calls again' package u d l := by
  induction calls with
  | nil => exact .nil
  | other _ other ih => exact .other ih other
  | began _ allowed ih => exact .began ih fun succeeded => weaker (allowed succeeded)
  | ended _ ok ih => exact .ended ih ok

theorem succeeded_iff (calls : Calls again package u d l) : d = true ↔ .ended package true ∈ l := by
  induction calls with
  | nil => simp
  | @other _ _ l n _ other ih =>
    have apart : .ended package true ≠ n := fun same => other (same ▸ rfl)
    simp [ih,apart]
  | began _ _ ih => simp [ih]
  | ended _ ok ih => cases ok <;> simp [ih]

/-- A call that is not underway has ended. -/
theorem count (calls : Calls again package u d l) :
    l.count (.began package) = l.count (.ended package true) + l.count (.ended package false) + u.toNat := by
  induction calls with
  | nil => simp
  | @other _ _ l n _ other ih =>
    have apart : ∀ n', n'.package = package → [n].count n' = 0 :=
      fun n' own => List.count_eq_zero.mpr fun member => other ((List.mem_singleton.mp member) ▸ own)
    simp only [List.count_append,apart (.began package) rfl,apart (.ended package true) rfl,apart (.ended package false) rfl]
    exact ih
  | began _ _ ih => simp [List.count_append,ih]
  | ended _ ok ih => cases ok <;> simp [List.count_append,ih] <;> omega

theorem init {n : Note} (calls : Calls again package u d (l ++ [n])) :
    (∃ u d, Calls again package u d l) ∧
      (n = .began package → ∃ d, Calls again package false d l ∧ (d = true → again)) := by
  generalize whole : l ++ [n] = l' at calls
  cases calls with
  | nil => simp at whole
  | other calls other =>
    obtain ⟨rfl,same⟩ := List.append_inj' whole rfl
    obtain rfl := List.singleton_inj.mp same
    exact ⟨⟨_,_,calls⟩,fun began => absurd (began ▸ rfl) other⟩
  | began calls allowed =>
    obtain ⟨rfl,-⟩ := List.append_inj' whole rfl
    exact ⟨⟨_,_,calls⟩,fun _ => ⟨_,calls,allowed⟩⟩
  | ended calls ok =>
    obtain ⟨rfl,same⟩ := List.append_inj' whole rfl
    obtain rfl := List.singleton_inj.mp same
    exact ⟨⟨_,_,calls⟩,nofun⟩

theorem of_append (calls : Calls again package u d (before ++ after)) : ∃ u d, Calls again package u d before := by
  induction after using List.reverseRecOn generalizing u d with
  | nil => exact ⟨u,d,by simpa using calls⟩
  | append_singleton after n ih =>
    rw [← List.append_assoc] at calls
    obtain ⟨⟨u,d,calls⟩,-⟩ := calls.init
    exact ih calls

/-- Where a call begins. -/
theorem at_began (calls : Calls again package u d (before ++ .began package :: after)) :
    ∃ d, Calls again package false d before ∧ (d = true → again) := by
  rw [List.append_cons] at calls
  obtain ⟨u,d,calls⟩ := calls.of_append
  exact calls.init.2 rfl

theorem apart (calls : Calls again package u d (before ++ .began package :: after)) :
    before.count (.began package) = before.count (.ended package true) + before.count (.ended package false) := by
  obtain ⟨d,calls,-⟩ := calls.at_began
  simpa using calls.count

theorem allowed (calls : Calls again package u d (before ++ .ended package true :: after)) (further : .began package ∈ after) : again := by
  obtain ⟨l,l',rfl⟩ := List.append_of_mem further
  rw [← List.cons_append,← List.append_assoc] at calls
  obtain ⟨d,calls,allowed⟩ := calls.at_began
  exact allowed (calls.succeeded_iff.mpr (by simp))

/-- Where none may begin after a success there is no second success. -/
theorem succeeds_once (calls : Calls again package u d l) (never : ¬ again) :
    (d = true → u = false) ∧ l.count (.ended package true) = d.toNat := by
  induction calls with
  | nil => simp
  | @other _ _ l n _ other ih =>
    have apart : n ≠ .ended package true := fun same => other (same ▸ rfl)
    simpa [List.count_append,apart] using ih
  | @began d l _ allowed ih =>
    obtain rfl : d = false := Bool.eq_false_iff.mpr fun succeeded => never (allowed succeeded)
    simpa [List.count_append] using ih.2
  | @ended d l _ ok ih =>
    obtain rfl : d = false := Bool.eq_false_iff.mpr fun succeeded => nomatch ih.1 succeeded
    cases ok <;> simpa [List.count_append] using ih.2

/-- There is one call then if none has failed before the success. -/
theorem count_eq_one (calls : Calls again package u d (before ++ .ended package true :: after)) (never : ¬ again)
    (first : .ended package false ∉ before) : (before ++ .ended package true :: after).count (.began package) = 1 := by
  have behind : after.count (.began package) = 0 := List.count_eq_zero.mpr fun further => never (calls.allowed further)
  rw [List.append_cons] at calls ⊢
  obtain ⟨u,d,calls⟩ := calls.of_append
  have succeeded : d = true := calls.succeeded_iff.mpr (by simp)
  obtain ⟨ended,once⟩ := calls.succeeds_once never
  have failed : (before ++ [Note.ended package true]).count (.ended package false) = 0 :=
    List.count_eq_zero.mpr (by simpa using first)
  rw [List.count_append,behind,calls.count,once,failed,ended succeeded,succeeded]
  rfl

end Calls

namespace Site

variable {σ : Type} {site : Site σ} {requests makers : List (String × Option ModuleId)} {again : String → Prop} {c c' : Scene σ}

/-- Work that is sure keeps what it should as far as it goes. -/
theorem Sure.go {package : String} {w : Work σ (Except ResolveError Unit)} {s : σ} (sure : site.Sure package w s) :
    site.Works s (w.go s).2 ∧ (w.go s).1.Safe site.Works site.Keeps (fun outcome s => outcome.isOk = true → site.Has package s) (w.go s).2 :=
  Work.Safe.go .refl .trans .refl sure

/-! ## What has been called -/

/-- The installer has been called for an attempt for this package. -/
def Called (package : String) (a : Attempt σ) : Bool :=
  a.key == package && match a.progress with
    | .running t => decide t.Rests
    | _ => true

/-- The installer is at work for this package. -/
def Underway (package : String) (s : State σ) : Prop :=
  ∃ (n : Nat) (t : Thread σ), s.attempts[n]? = some ⟨package,.running t⟩ ∧ t.Rests

/-- What is kept by all moves: calls for one package come one after the other, what has been put in its place stays
there, and who asks for it again then may do so. -/
structure Kept (site : Site σ) (requests makers : List (String × Option ModuleId)) (again : String → Prop) (c : Scene σ) : Prop
    extends Formed site requests makers c where
  sound : c.state.Sound
  calls : ∀ package, ∃ u d, Calls (again package) package u d (site.journal c.state.env) ∧ (u = true ↔ Underway package c.state)
  has : ∀ {package : String}, .ended package true ∈ site.journal c.state.env → site.Has package c.state.env
  allowed : ∀ {n : Nat} {package : String} {t : Thread σ}, c.state.attempts[n]? = some ⟨package,.running t⟩ → ¬ t.Rests →
    .ended package true ∈ site.journal c.state.env → again package
  called : ∀ package, (site.journal c.state.env).count (.began package) = c.state.attempts.countP (Called package)

theorem countP_modify {α : Type} {l : List α} {n : Nat} {x : α} (here : l[n]? = some x) (f : α → α) (p : α → Bool) :
    (l.modify n f).countP p + (p x).toNat = l.countP p + (p (f x)).toNat := by
  induction l generalizing n with
  | nil => cases here
  | cons y l ih =>
    cases n with
    | zero =>
      obtain rfl : y = x := Option.some.inj here
      cases first : p y <;> cases second : p (f y) <;> simp [first,second]
    | succ n =>
      have rest := ih here
      cases first : p y <;> simp [first] <;> omega

theorem underway_iff {s : State σ} (sound : s.Sound) {n : Nat} {package : String} {t : Thread σ}
    (running : s.attempts[n]? = some ⟨package,.running t⟩) : Underway package s ↔ t.Rests := by
  constructor
  · rintro ⟨m,t',there,rests⟩
    have pending : ∀ {k : Nat} {u : Thread σ}, s.attempts[k]? = some ⟨package,.running u⟩ → s.Pending k package :=
      fun here => ⟨_,here,rfl,State.outcome?_of_running here⟩
    obtain rfl : m = n := sound.unique (pending there) (pending running)
    rw [running] at there
    cases there
    exact rests
  · exact fun rests => ⟨n,t,running,rests⟩

theorem underway_setProgress_of_ne {s : State σ} {n : Nat} {key package : String} {p q : Progress σ}
    (here : s.attempts[n]? = some ⟨key,p⟩) (other : key ≠ package) : Underway package (s.setProgress n q) ↔ Underway package s := by
  have ne : ∀ {m : Nat} {t : Thread σ}, s.attempts[m]? = some ⟨package,.running t⟩ → n ≠ m := by
    rintro m t there rfl
    rw [here] at there
    cases there
    exact other rfl
  constructor
  · rintro ⟨m,t,there,rests⟩
    rcases State.attempts_setProgress_cases there with ⟨rfl,-,p',same⟩ | ⟨-,before⟩
    · rw [here] at same
      cases same
      exact absurd rfl other
    · exact ⟨m,t,before,rests⟩
  · rintro ⟨m,t,there,rests⟩
    exact ⟨m,t,(State.attempts_setProgress_of_ne (ne there) q).trans there,rests⟩

/-- No installer is at work for an attempt that has just been made. -/
theorem underway_lock (s : State σ) (key : String) (home : Option Nat) (a : Activity σ) {package : String} :
    Underway package (s.lock key home a).2 ↔ Underway package s := by
  constructor
  · rintro ⟨n,t,here,rests⟩
    rcases State.attempts_lock_cases here with before | ⟨-,new⟩
    · exact ⟨n,t,before,rests⟩
    · cases new
      exact rests.elim
  · rintro ⟨n,t,here,rests⟩
    exact ⟨n,t,s.attempts_lock key home a here,rests⟩

variable (lawful : site.Lawful)

/-- A caller that is to begin wants a package that has been installed, and the search for its manifest fails. -/
def Obstructed (site : Site σ) (package : String) (c : Scene σ) : Prop :=
  .ended package true ∈ site.journal c.state.env ∧ ∃ (i : Nat) (request : String) (importer : Option ModuleId) (e : ResolveError),
    c.callers[i]? = some (.resolving request importer) ∧ site.Wants request importer package c.state.env ∧
      (site.search (manifestOf package) importer c.state.env).1 = .error e

section

variable (kept : site.Kept requests makers again c)

include kept

/-- Files have been looked at, or a caller has gone on. -/
theorem Kept.of_works {env : σ} {callers : List (Thread σ)} (works : site.Works c.state.env env)
    (formed : site.Formed requests makers ⟨{ c.state with env },callers⟩) : site.Kept requests makers again ⟨{ c.state with env },callers⟩ where
  toFormed := formed
  sound := kept.sound.of_locks rfl Iff.rfl
  calls := by
    rw [works.1]
    exact kept.calls
  has := by
    rw [works.1]
    exact fun ended => works.2 _ (kept.has ended)
  allowed := by
    rw [works.1]
    exact kept.allowed
  called := by
    rw [works.1]
    exact kept.called

/-- A caller has asked for an attempt. -/
theorem Kept.of_lock {callers : List (Thread σ)} {package request : String} {importer : Option ModuleId}
    (may : .ended package true ∈ site.journal c.state.env → again package)
    (formed : site.Formed requests makers ⟨(c.state.lock package (some 1) (site.attempt package request importer)).2,callers⟩) :
    site.Kept requests makers again ⟨(c.state.lock package (some 1) (site.attempt package request importer)).2,callers⟩ := by
  refine ⟨formed,kept.sound.lock _ _ _,fun key => ?_,fun ended => ?_,fun here acts ended => ?_,fun key => ?_⟩
  · obtain ⟨u,d,calls,underway⟩ := kept.calls key
    exact ⟨u,d,by rwa [State.env_lock],underway.trans (underway_lock _ _ _ _).symm⟩
  · rw [State.env_lock] at ended ⊢
    exact kept.has ended
  · rw [State.env_lock] at ended
    rcases State.attempts_lock_cases here with there | ⟨-,new⟩
    · exact kept.allowed there acts ended
    · cases new
      exact may ended
  · rw [State.env_lock,kept.called key]
    rcases kept.sound.lock_cases package (some 1) (site.attempt package request importer) with ⟨n,-,same⟩ | ⟨-,new⟩
    · rw [same]
    · have acts : ¬ (site.ready package request importer).Rests := id
      simp only [ready] at acts
      simp [new,Called,acts]

/-- What is known while the installer is at work for an attempt of a scene. -/
structure Calling (site : Site σ) (again : String → Prop) (c : Scene σ) (package : String) (t : Thread σ) (env : σ) : Prop where
  keeps : site.Keeps c.state.env env
  notes : ∃ l, site.journal env = site.journal c.state.env ++ l ∧ ∀ n ∈ l, n.package = package
  calls : ∃ d, Calls (again package) package true d (site.journal env)
  has : .ended package true ∈ site.journal env → site.Has package env
  called : (site.journal env).count (.began package) + (decide t.Rests).toNat = (site.journal c.state.env).count (.began package) + 1

omit kept in
theorem Calling.works {package : String} {t : Thread σ} {env env' : σ} (calling : site.Calling again c package t env)
    (works : site.Works env env') : site.Calling again c package t env' where
  keeps := calling.keeps.trans works.2
  notes := by
    rw [works.1]
    exact calling.notes
  calls := by
    rw [works.1]
    exact calling.calls
  has := by
    rw [works.1]
    exact fun ended => works.2 _ (calling.has ended)
  called := by
    rw [works.1]
    exact calling.called

include lawful in
/-- The installer is called when an attempt is carried on for the first time. -/
theorem Kept.calling {n : Nat} {package request : String} {importer : Option ModuleId} {t : Thread σ}
    {w : Work σ (Except ResolveError Unit)} {env : σ} (running : c.state.attempts[n]? = some ⟨package,.running t⟩)
    (resumes : site.Resumes package request importer c.state.env t w env) : site.Calling again c package t env := by
  obtain ⟨u,d,calls,underway⟩ := kept.calls package
  rw [underway_iff kept.sound running] at underway
  cases resumes with
  | opens =>
    have acts : ¬ (site.ready package request importer).Rests := id
    obtain rfl : u = false := Bool.eq_false_iff.mpr fun set => acts (underway.mp set)
    obtain ⟨journal,keeps⟩ := lawful.opened package c.state.env
    refine ⟨keeps,⟨_,journal,by simp [Note.package]⟩,⟨d,?_⟩,fun ended => ?_,?_⟩
    · rw [journal]
      exact .began calls fun succeeded => kept.allowed running acts (calls.succeeded_iff.mp succeeded)
    · rw [journal] at ended
      exact keeps _ (kept.has (by simpa using ended))
    · simp [journal,acts]
  | resumes wake w =>
    have rests : (site.waiting package request importer wake w).Rests := trivial
    obtain rfl := underway.mpr rests
    exact ⟨.refl _,⟨[],by simp⟩,⟨d,calls⟩,kept.has,by simp [rests]⟩

/-- An attempt has been carried on: its installer is at a pause now, or has ended. -/
theorem Kept.of_attempt {n : Nat} {package : String} {t : Thread σ} {q : Progress σ} {s : State σ}
    (running : c.state.attempts[n]? = some ⟨package,.running t⟩) (attempts : s.attempts = (c.state.setProgress n q).attempts)
    (formed : site.Formed requests makers ⟨s,c.callers⟩) (sound : s.Sound) (keeps : site.Keeps c.state.env s.env)
    (notes : ∃ l, site.journal s.env = site.journal c.state.env ++ l ∧ ∀ n ∈ l, n.package = package)
    (calls : ∃ u d, Calls (again package) package u d (site.journal s.env) ∧ (u = true ↔ Underway package s))
    (has : .ended package true ∈ site.journal s.env → site.Has package s.env) (done : Called package ⟨package,q⟩ = true)
    (called : (site.journal s.env).count (.began package) + (decide t.Rests).toNat =
      (site.journal c.state.env).count (.began package) + 1) : site.Kept requests makers again ⟨s,c.callers⟩ := by
  obtain ⟨l,journal,own⟩ := notes
  have earlier : ∀ {n' : Note}, n'.package ≠ package → n' ∈ site.journal s.env → n' ∈ site.journal c.state.env := by
    intro n' other member
    rw [journal,List.mem_append] at member
    exact member.resolve_right fun late => other (own n' late)
  have others : ∀ {key : String}, package ≠ key → (Underway key s ↔ Underway key c.state) := by
    intro key other
    rw [← underway_setProgress_of_ne (q := q) running other,Underway,Underway,attempts]
  refine ⟨formed,sound,fun key => ?_,fun {key} ended => ?_,fun {m key t'} here acts ended => ?_,fun key => ?_⟩
  · by_cases same : package = key
    · exact same ▸ calls
    · obtain ⟨u,d,before,underway⟩ := kept.calls key
      refine ⟨u,d,?_,underway.trans (others same).symm⟩
      rw [journal]
      exact before.others fun n' member => own n' member ▸ same
  · by_cases same : package = key
    · exact same ▸ has (same ▸ ended)
    · exact keeps _ (kept.has (earlier (Ne.symm same) ended))
  · rw [attempts] at here
    rcases State.attempts_setProgress_cases here with ⟨rfl,rfl,p',same⟩ | ⟨apart,before⟩
    · rw [running] at same
      cases same
      simp [Called,acts] at done
    · by_cases same : package = key
      · subst same
        have pending : ∀ {k : Nat} {u : Thread σ}, c.state.attempts[k]? = some ⟨package,.running u⟩ → c.state.Pending k package :=
          fun here => ⟨_,here,rfl,State.outcome?_of_running here⟩
        exact absurd (kept.sound.unique (pending before) (pending running)) apart
      · exact kept.allowed before acts (earlier (Ne.symm same) ended)
  · have counted := countP_modify running (fun a => { a with progress := q }) (Called key)
    rw [attempts]
    change (site.journal s.env).count (.began key) = (c.state.attempts.modify n fun a => { a with progress := q }).countP (Called key)
    by_cases same : package = key
    · subst same
      have now : Called package ⟨package,.running t⟩ = decide t.Rests := by simp [Called]
      have before := kept.called package
      change _ + (Called package ⟨package,.running t⟩).toNat = _ + (Called package ⟨package,q⟩).toNat at counted
      rw [now,done,Bool.toNat_true] at counted
      omega
    · have apart : ∀ p : Progress σ, Called key ⟨package,p⟩ = false := fun p => by simp [Called,same]
      have none : l.count (.began key) = 0 := List.count_eq_zero.mpr fun member => same (own _ member).symm
      simp only [apart] at counted
      rw [journal,List.count_append,none,kept.called key]
      exact counted.symm

include lawful in
theorem Kept.next (below : ∀ r ∈ requests, Below site.root r.2) (may : ∀ {package}, site.Obstructed package c → again package)
    (moves : site.Moves requests makers c c') : site.Kept requests makers again c' := by
  cases moves with
  | ticks => exact ⟨⟨kept.callers,kept.attempts⟩,kept.sound.of_locks rfl Iff.rfl,kept.calls,kept.has,kept.allowed,kept.called⟩
  | @joins i request package importer env asked here may' counted wants =>
    have works := lawful.works_of_counted counted
    have looked : site.Kept requests makers again ⟨{ c.state with env },c.callers⟩ :=
      kept.of_works works ⟨kept.callers,fun here => (kept.attempts here).keeps works.2⟩
    refine looked.of_lock (fun ended => ?_) (looked.toFormed.caller asked (.joined _) fun here' => ?_)
    · rw [works.1] at ended
      obtain ⟨e,failed⟩ := lawful.fails_of_has (below _ (List.mem_of_getElem? asked)) wants (kept.has ended)
      exact may ⟨ended,i,request,importer,e,here,wants,failed⟩
    · rw [State.env_lock]
      rcases State.attempts_lock_cases here' with before | ⟨-,new⟩
      · exact looked.attempts before
      · cases new
        exact .ready may'
  | answers asked _ counted =>
    have works := lawful.works_of_counted counted
    exact kept.of_works works (kept.toFormed.caller asked (.finished _) fun here => (kept.attempts here).keeps works.2)
  | learns asked => exact kept.of_works (.refl _) (kept.toFormed.caller asked (.told _ _) kept.attempts)
  | returns asked _ counted =>
    have works := lawful.works_of_counted counted
    exact kept.of_works works (kept.toFormed.caller asked (.finished _) fun here => (kept.attempts here).keeps works.2)
  | @pauses n rounds package request importer t w rest env env' running made resumes sure went =>
    obtain ⟨works,sure'⟩ := sure.go
    rw [went] at works sure'
    have calling := (kept.calling lawful running resumes).works works
    have sound := State.Sound.setProgress (s := { c.state with env := env' }) (kept.sound.of_locks rfl Iff.rfl) running
      (site.waiting package request importer (c.state.clock + rounds) rest)
    obtain ⟨d,calls⟩ := calling.calls
    exact kept.of_attempt running rfl (kept.toFormed.attempt calling.keeps running (.waiting made sure')) sound calling.keeps calling.notes
      ⟨true,d,calls,iff_of_true rfl ((underway_iff sound (State.attempts_setProgress_self running _)).mpr trivial)⟩ calling.has
      (by simp [Called,decide_eq_true (p := (site.waiting package request importer _ rest).Rests) trivial]) calling.called
  | @ends n package request importer t w outcome env env' env'' running made resumes sure went counted =>
    obtain ⟨works,sure'⟩ := sure.go
    rw [went] at works sure'
    have calling := (kept.calling lawful running resumes).works works
    obtain ⟨journal,keeps⟩ := lawful.closed package outcome env'
    obtain ⟨same,keeps'⟩ := lawful.works_of_counted counted
    rw [journal] at same
    replace keeps := keeps.trans keeps'
    have sound := State.Sound.settle (s := { c.state with env := env'' }) (kept.sound.of_locks rfl Iff.rfl) running
      (verdict outcome (site.look request importer (site.closed package outcome env')))
    obtain ⟨d,calls⟩ := calling.calls
    obtain ⟨l,notes,own⟩ := calling.notes
    have settled := kept.toFormed.attempt (calling.keeps.trans keeps) running
      (.settled (verdict outcome (site.look request importer (site.closed package outcome env'))))
    refine kept.of_attempt running rfl ⟨settled.callers,settled.attempts⟩ sound (calling.keeps.trans keeps)
      ⟨l ++ [.ended package outcome.isOk],?_,?_⟩ ⟨false,d || outcome.isOk,?_,?_⟩ (fun ended => ?_) (by simp [Called]) ?_
    · exact same.trans (by rw [notes,List.append_assoc])
    · simpa [or_imp,forall_and,Note.package] using own
    · exact same ▸ calls.ended outcome.isOk
    · refine iff_of_false nofun ?_
      rintro ⟨m,t',here,-⟩
      obtain ⟨apart,pending⟩ := (State.pending_settle (s := { c.state with env := env'' }) running _).mp
        ⟨_,here,rfl,State.outcome?_of_running here⟩
      exact apart (kept.sound.unique ⟨_,running,rfl,State.outcome?_of_running running⟩ pending)
    · refine keeps _ ?_
      change .ended package true ∈ site.journal env'' at ended
      rw [same,List.mem_append,List.mem_singleton] at ended
      rcases ended with earlier | last
      · exact calling.has earlier
      · exact sure' ((Note.ended.injEq _ _ _ _).mp last).2.symm
    · change (site.journal env'').count _ + _ = _
      rw [same,List.count_append]
      exact calling.called

end

theorem Kept.mono {again' : String → Prop} (kept : site.Kept requests makers again c) (weaker : ∀ package, again package → again' package) :
    site.Kept requests makers again' c where
  toFormed := kept.toFormed
  sound := kept.sound
  calls := fun package =>
    let ⟨u,d,calls,underway⟩ := kept.calls package
    ⟨u,d,calls.mono (weaker package),underway⟩
  has := kept.has
  allowed := fun here acts ended => weaker _ (kept.allowed here acts ended)
  called := kept.called

/-- Callers with these requests that have not begun, of a layer whose installer has not been called. -/
structure Starts (site : Site σ) (requests : List (String × Option ModuleId)) (c : Scene σ) : Prop where
  callers : c.callers = requests.map fun r => .resolving r.1 r.2
  unlocked : c.state.locks = []
  unused : c.state.attempts = []
  silent : site.journal c.state.env = []

variable {start : Scene σ}

theorem Starts.kept (starts : site.Starts requests start) (again : String → Prop) : site.Kept requests requests again start where
  callers := by
    intro i t here
    rw [starts.callers,List.getElem?_map] at here
    obtain ⟨⟨request,importer⟩,asked,rfl⟩ := Option.map_eq_some_iff.mp here
    exact ⟨request,importer,asked,.begins (List.mem_of_getElem? asked)⟩
  attempts := by simp [starts.unused]
  sound := ⟨by simp [starts.unlocked,State.Pending,starts.unused],by simp [starts.unlocked]⟩
  calls := fun package => ⟨false,false,starts.silent ▸ .nil,by simp [Underway,starts.unused]⟩
  has := by simp [starts.silent]
  allowed := by simp [starts.unused]
  called := by simp [starts.silent,starts.unused]

include lawful in
/-- Who makes an installer be called again has been obstructed on the way. -/
theorem Starts.kept_of_run (starts : site.Starts requests start) (below : ∀ r ∈ requests, Below site.root r.2)
    (run : Run site.chain start c) :
    site.Kept requests requests (fun package => ∃ c', Run site.chain start c' ∧ Run site.chain c' c ∧ site.Obstructed package c') c := by
  induction run with
  | refl => exact starts.kept _
  | @tail c c' run move ih =>
    refine (ih.mono fun package ⟨b,before,after,obstructed⟩ => ⟨b,before,after.tail move,obstructed⟩).next lawful below ?_
      (ih.toFormed.moves lawful move)
    exact fun obstructed => ⟨c,run,.single move,obstructed⟩

/-- An attempt is made for a caller that wants the package. -/
theorem Moves.made (moves : site.Moves requests makers c c') {n : Nat} {package : String} {p : Progress σ} (new : c.state.attempts[n]? = none) (here : c'.state.attempts[n]? = some ⟨package,p⟩) :
    ∃ (i : Nat) (request : String) (importer : Option ModuleId), requests[i]? = some (request,importer) ∧
      c.callers[i]? = some (.resolving request importer) ∧ site.Wants request importer package c.state.env := by
  have progress : ∀ {s : State σ} {m : Nat} {q : Progress σ}, s.attempts = c.state.attempts →
      (s.setProgress m q).attempts[n]? ≠ some ⟨package,p⟩ := by
    intro s m q same there
    rcases State.attempts_setProgress_cases there with ⟨rfl,-,p',before⟩ | ⟨-,before⟩
    · rw [same,new] at before
      cases before
    · rw [same,new] at before
      cases before
  cases moves with
  | ticks | answers | learns | returns => cases new.symm.trans here
  | joins asked begins _ _ wants =>
    rcases State.attempts_lock_cases here with before | ⟨-,equal⟩
    · rw [new] at before
      cases before
    · cases equal
      exact ⟨_,_,_,asked,begins,wants⟩
  | pauses => exact absurd here (progress rfl)
  | ends => exact absurd here (progress rfl)

include lawful in
/-- As long as the only caller there is has not begun nothing has been done. -/
theorem Starts.env_of_begins {request : String} {importer : Option ModuleId} (below : Below site.root importer)
    (starts : site.Starts [(request,importer)] start) (run : Run site.chain start c) {i : Nat} {request' : String} {importer' : Option ModuleId}
    (begins : c.callers[i]? = some (.resolving request' importer')) :
    c.state.env = start.state.env ∧ c.state.attempts = [] ∧ request' = request ∧ importer' = importer := by
  induction run generalizing i with
  | refl =>
    rw [starts.callers] at begins
    cases i with
    | zero =>
      cases begins
      exact ⟨rfl,starts.unused,rfl,rfl⟩
    | succ i => cases begins
  | @tail c c' run move ih =>
    have formed := (starts.kept_of_run lawful (by simpa using below) run).toFormed
    have first : ∀ {k : Nat} {r : String × Option ModuleId}, [(request,importer)][k]? = some r → k = 0 := by
      intro k r asked
      simpa using (List.getElem?_eq_some_iff.mp asked).1
    -- A caller that has gone on is not to begin any more.
    have gone : ∀ {k : Nat} {r : String × Option ModuleId} {t : Thread σ}, [(request,importer)][k]? = some r →
        t ≠ .resolving request' importer' → (c.callers.set k t)[i]? ≠ some (.resolving request' importer') := by
      intro k r t asked other here
      rcases getElem?_set_cases here with ⟨-,same⟩ | ⟨apart,before⟩
      · exact other same.symm
      · obtain ⟨_,_,asked',-⟩ := formed.callers before
        exact apart ((first asked').trans (first asked).symm)
    cases formed.moves lawful move with
    | ticks => exact ih begins
    | joins asked => exact absurd begins (gone asked nofun)
    | answers asked => exact absurd begins (gone asked nofun)
    | learns asked => exact absurd begins (gone asked nofun)
    | returns asked => exact absurd begins (gone asked nofun)
    | pauses running | ends running =>
      rw [(ih begins).2.1] at running
      cases running

end Site

/-! ## A project -/

/-- Files and a journal. -/
structure Shelf where
  store : MemoryStore
  journal : List Note := []

def home : Path := ⟨"/"⟩

/-- Puts a manifest of a package and a file `x` in their places. -/
def Shelf.put (package : String) (s : Shelf) : Shelf :=
  let described := s.store.insert (home / packageDir / manifestOf package) "\x7b\x7d"
  { s with store := described.insert (home / packageDir / (package ++ "/x")) "" }

/-- A project for which each package can be installed, in some rounds. -/
def stocked (rounds : Nat) : Site Shelf where
  root := home
  extensions := []
  view := Shelf.store
  update m s := { s with store := m }
  journal := Shelf.journal
  note n s := ((),{ s with journal := s.journal ++ [n] })
  work package _ _ := .pause rounds (.step (Shelf.put package) fun _ => .done (.ok ()))
  options := {}
  filter := ⟨[],[]⟩
  callbacks := {}

theorem normalize_place (m : MemoryStore) (request : String) : m.normalize (home / packageDir / request) = place home request := by
  refine if_pos ?_
  cases relative : (Path.mk request).isAbsolute with
  | false => exact (Path.components_join (by decide) relative).2
  | true =>
    change (Path.join _ (Path.mk request)).isAbsolute = true
    rw [Path.join,if_pos relative,relative]

theorem Shelf.file?_put (package : String) (s : Shelf) (q : CleanPath) :
    (s.put package).store.file? q =
      if q = place home (package ++ "/x") then some ""
      else if q = place home (manifestOf package) then some "\x7b\x7d" else s.store.file? q := by
  rw [Shelf.put,MemoryStore.file?_insert,MemoryStore.file?_insert,normalize_place,normalize_place]

theorem stocked_lawful (rounds : Nat) : (stocked rounds).Lawful where
  isRoot := (⟨by decide,by decide⟩ : IsRoot home)
  view_update _ _ := rfl
  journal_update _ _ := rfl
  journal_note _ _ := rfl
  view_note _ _ := rfl
  before _ _ := .refl _
  after _ _ _ := .refl _
  work := by
    intro package s s' _
    have put : ∀ q, (s'.store.file? q).isSome ∨ q = place home (manifestOf package) → ((s'.put package).store.file? q).isSome := by
      intro q either
      rw [Shelf.file?_put]
      split
      · rfl
      · split
        · rfl
        · exact either.resolve_right ‹_›
    exact ⟨⟨by rfl,fun key has => put _ (.inl has)⟩,fun _ => put _ (.inr rfl)⟩

/-- What the file `x` of the package is found as. -/
def pkgX : ModuleId := ⟨[⟨"node_modules",by decide⟩,⟨"pkg",by decide⟩,⟨"x",by decide⟩]⟩

/-- A project without files. -/
def bare : Shelf := { store := MemoryStore.empty home }

/-! ## What a run calls -/

variable {σ : Type} {site : Site σ} {requests : List (String × Option ModuleId)} {start c : Scene σ}

/-- In every run in which only installers pause, whatever is asked for, by importers under the root: the calls for one
package never overlap; each of them is made for an attempt of its own, and an attempt is made only for a request
that names the package, that the files do not answer, and whose importer may start an installation. When a
package has been installed such an attempt is made again only where the search for its manifest fails; unless that
happens there is one call for each package whose first installation succeeds. -/
theorem installed_once (lawful : site.Lawful) (below : ∀ r ∈ requests, Below site.root r.2) (starts : site.Starts requests start)
    (run : Run site.chain start c) :
    (∀ {package before after}, site.journal c.state.env = before ++ .began package :: after →
      before.count (.began package) = before.count (.ended package true) + before.count (.ended package false)) ∧
    (∀ package, (site.journal c.state.env).count (.began package) ≤ c.state.attempts.countP (·.key == package)) ∧
    (∀ {c' : Scene σ} {n : Nat} {package : String} {p : Progress σ}, Move site.chain c c' →
        c.state.attempts[n]? = none → c'.state.attempts[n]? = some ⟨package,p⟩ →
      ∃ (i : Nat) (request : String) (importer : Option ModuleId), requests[i]? = some (request,importer) ∧
        c.callers[i]? = some (.resolving request importer) ∧ site.Wants request importer package c.state.env ∧
        (.ended package true ∈ site.journal c.state.env → ∃ e, (site.search (manifestOf package) importer c.state.env).1 = .error e)) ∧
    (∀ {package before after}, site.journal c.state.env = before ++ .ended package true :: after → .began package ∈ after →
      ∃ c', Run site.chain start c' ∧ Run site.chain c' c ∧ site.Obstructed package c') ∧
    (∀ {package before after}, site.journal c.state.env = before ++ .ended package true :: after → .ended package false ∉ before →
      (∀ c', Run site.chain start c' → Run site.chain c' c → ¬ site.Obstructed package c') →
        (site.journal c.state.env).count (.began package) = 1) := by
  have kept := starts.kept_of_run lawful below run
  refine ⟨fun {package before after} split => ?_,fun package => ?_,fun move new here => ?_,fun {package before after} split further => ?_,
    fun {package before after} split first never => ?_⟩
  · obtain ⟨u,d,calls,-⟩ := kept.calls package
    exact (split ▸ calls).apart
  · rw [kept.called package]
    exact List.countP_mono_left fun a _ called => ((Bool.and_eq_true _ _).mp called).1
  · obtain ⟨i,request,importer,asked,begins,wants⟩ := (kept.toFormed.moves lawful move).made new here
    exact ⟨i,request,importer,asked,begins,wants,
      fun ended => lawful.fails_of_has (below _ (List.mem_of_getElem? asked)) wants (kept.has ended)⟩
  · obtain ⟨u,d,calls,-⟩ := kept.calls package
    exact (split ▸ calls).allowed further
  · obtain ⟨u,d,calls,-⟩ := kept.calls package
    rw [split] at calls ⊢
    exact calls.count_eq_one (fun ⟨c',before,after,obstructed⟩ => never c' before after obstructed) first

/-- The package is asked for once: the installer is called, pauses, and is not called again. -/
theorem installed_once_stocked :
    ∃ c, Run (stocked 1).chain ⟨{ env := bare },[.resolving "pkg/x" (some Letter.a)]⟩ c ∧
      c.callers.map Thread.result? = [some (.ok pkgX)] ∧ c.state.env.journal.count (.began "pkg") = 1 := by
  have starts : (stocked 1).Starts [("pkg/x",some Letter.a)] ⟨{ env := bare },[.resolving "pkg/x" (some Letter.a)]⟩ :=
    ⟨rfl,rfl,rfl,rfl⟩
  have below : ∀ r ∈ [("pkg/x",some Letter.a)], Below (stocked 1).root r.2 :=
    List.forall_mem_singleton.mpr (by decide : Below home (some Letter.a))
  have moved : ((Scene.moves? (stocked 1).chain 100
      [some (.caller 0),some (.attempt 0),none,some (.attempt 0),some (.caller 0),some (.caller 0)]
      ⟨{ env := bare },[.resolving "pkg/x" (some Letter.a)]⟩).map fun c => (c.callers.map Thread.result?,c.state.env.journal)) =
        some ([some (.ok pkgX)],[.began "pkg",.ended "pkg" true]) := by decide +kernel
  obtain ⟨c,moved,shape⟩ := Option.map_eq_some_iff.mp moved
  obtain ⟨results,journal⟩ := Prod.mk.inj shape
  have run := run_of_moves? moved
  refine ⟨c,run,results,?_⟩
  obtain ⟨-,-,-,-,once⟩ := installed_once (stocked_lawful 1) below starts run
  have split : (stocked 1).journal c.state.env = [.began "pkg"] ++ .ended "pkg" true :: [] := journal
  refine once split (by decide) fun c' before _ ⟨_,i,request,importer,e,begins,_,failed⟩ => ?_
  obtain ⟨env,-,-,rfl⟩ := starts.env_of_begins (stocked_lawful 1) (below _ List.mem_cons_self) before begins
  rw [env] at failed
  have looked : (((stocked 1).search (manifestOf "pkg") (some Letter.a) bare).1).isOk = true := by decide +kernel
  rw [failed] at looked
  cases looked

/-- The module `/s/a`. -/
def inner : ModuleId := ⟨⟨"s",by decide⟩ :: Letter.a.names⟩

/-- A project where a directory stands in the place of a manifest nearer to the importer. -/
def blocked : Shelf := { store := (MemoryStore.empty home).insert ⟨"/s/node_modules/pkg/package.json/package.json"⟩ "\x7b" }

def blockedStart : Scene Shelf := ⟨{ env := blocked },[.resolving "pkg/y" (some inner),.resolving "pkg/y" (some inner)]⟩

/-- One request after the other for what the package lacks: the search for its manifest fails, and the installer is
called again although it has succeeded. -/
theorem installed_twice :
    (stocked 1).Lawful ∧ Below (stocked 1).root (some inner) ∧
      (stocked 1).Starts [("pkg/y",some inner),("pkg/y",some inner)] blockedStart ∧
      ∃ c, Run (stocked 1).chain blockedStart c ∧ c.state.env.journal = [.began "pkg",.ended "pkg" true,.began "pkg"] := by
  have moved : ((Scene.moves? (stocked 1).chain 100
      [some (.caller 0),some (.attempt 0),none,some (.attempt 0),some (.caller 1),some (.attempt 1)] blockedStart).map
        fun c => c.state.env.journal) = some [.began "pkg",.ended "pkg" true,.began "pkg"] := by decide +kernel
  obtain ⟨c,moved,journal⟩ := Option.map_eq_some_iff.mp moved
  exact ⟨stocked_lawful 1,(by decide : Below home (some inner)),⟨rfl,rfl,rfl,rfl⟩,c,run_of_moves? moved,journal⟩

end Bundling.Install
