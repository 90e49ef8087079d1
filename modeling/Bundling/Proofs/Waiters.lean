import Bundling.Proofs.Installed

/-!
# Waiting for an installation

Callers that want a package which is being installed wait for one attempt, which has been made for the request of one
of them (`Shared`). They are told what it has come to: where that request is answered by what has been installed
each of them gets the answer to its own one, and elsewhere all of them get the error of that one
(`outcome_of_starter`).
-/

namespace Bundling.Install

open Resolution Candidates

variable {σ : Type} {site : Site σ} {requests : List (String × Option ModuleId)} {package : String}
  {starter : String × Option ModuleId} {c c' : Scene σ}

namespace Site

/-! ## One attempt -/

/-- A caller that waits for the attempt. -/
def joining (request : String) (importer : Option ModuleId) : Thread σ :=
  ⟨.joined 0 (afterwards request importer),frame request importer,none⟩

/-- How far a caller can be when the attempt has come to this. -/
inductive Told (site : Site σ) (r : Resolved) (env : σ) (request : String) (importer : Option ModuleId) : Thread σ → Prop where
  | joined : Told site r env request importer (joining request importer)
  | learned : Told site r env request importer ⟨.settling [] r (afterwards request importer),frame request importer,none⟩
  | finished : Told site r env request importer ⟨.finished (site.answer request importer env r),[],none⟩

/-- One attempt is being made, for one of the requests, and all callers wait for it; or it has ended, and they are
told what it has come to. -/
inductive Shared (site : Site σ) (requests : List (String × Option ModuleId)) (package : String)
    (starter : String × Option ModuleId) (c : Scene σ) : Prop where
  | running {t : Thread σ} (attempts : c.state.attempts = [⟨package,.running t⟩])
      (before : .ended package true ∉ site.journal c.state.env)
      (waits : ∀ {i : Nat} {u : Thread σ}, c.callers[i]? = some u →
        ∃ request importer, requests[i]? = some (request,importer) ∧ u = joining request importer)
  | settled {outcome : Except ResolveError Unit}
      (attempts : c.state.attempts = [⟨package,.settled (verdict outcome (site.look starter.1 starter.2 c.state.env))⟩])
      (succeeded : .ended package true ∈ site.journal c.state.env → outcome.isOk = true)
      (told : ∀ {i : Nat} {u : Thread σ}, c.callers[i]? = some u → ∃ request importer, requests[i]? = some (request,importer) ∧
        Told site (verdict outcome (site.look starter.1 starter.2 c.state.env)) c.state.env request importer u)

theorem unlocked_of_settled {s : State σ} (sound : s.Sound) {key : String} {r : Resolved} (attempts : s.attempts = [⟨key,.settled r⟩]) :
    s.locks = [] := by
  refine List.eq_nil_iff_forall_not_mem.mpr fun ⟨key',n⟩ member => ?_
  obtain ⟨a,here,-,unsettled⟩ := sound.locked.mp member
  rw [attempts,List.getElem?_singleton] at here
  split at here
  · subst n
    have known : s.outcome? 0 = some r := State.outcome?_eq_some_iff.mpr ⟨key,by rw [attempts]; rfl⟩
    rw [known] at unsettled
    cases unsettled
  · cases here

variable (lawful : site.Lawful)

include lawful in
theorem Lawful.answer_same (request : String) (importer : Option ModuleId) (r : Resolved) {s s' : σ}
    (alike : (site.view s).Alike (site.view s')) : site.answer request importer s' r = site.answer request importer s r := by
  cases r with
  | error e => rfl
  | ok id => exact lawful.look_same request importer alike

include lawful in
/-- Calling the installer is not its success. -/
theorem Lawful.ended_of_resumes {request : String} {importer : Option ModuleId} {t : Thread σ} {w : Work σ (Except ResolveError Unit)}
    {env env' : σ} (resumes : site.Resumes package request importer env t w env') :
    .ended package true ∈ site.journal env' ↔ .ended package true ∈ site.journal env := by
  cases resumes with
  | opens => simp [(lawful.opened package env).1]
  | resumes => rfl

include lawful in
theorem Told.alike {r : Resolved} {env env' : σ} {request : String} {importer : Option ModuleId} {t : Thread σ}
    (told : Told site r env request importer t) (alike : (site.view env).Alike (site.view env')) :
    Told site r env' request importer t := by
  cases told with
  | joined => exact .joined
  | learned => exact .learned
  | finished =>
    rw [← lawful.answer_same request importer r alike]
    exact .finished

theorem getElem?_lone {α : Type} {l : List α} {x y : α} {n : Nat} (lone : l = [x]) (here : l[n]? = some y) : n = 0 ∧ y = x := by
  rw [lone,List.getElem?_singleton] at here
  split at here
  · exact ⟨‹_›,(Option.some.inj here).symm⟩
  · cases here

include lawful in
/-- What becomes of the attempt and its callers. -/
theorem Shared.next (shared : site.Shared requests package starter c) (sound : c.state.Sound)
    (moves : site.Moves requests [starter] c c') : site.Shared requests package starter c' := by
  cases shared with
  | @running t attempts before waits =>
    cases moves with
    | ticks => exact .running attempts before waits
    | joins _ here | answers _ here | returns _ here =>
      obtain ⟨_,_,-,same⟩ := waits here
      cases same
    | learns _ here known =>
      obtain ⟨key,there⟩ := State.outcome?_eq_some_iff.mp known
      obtain ⟨-,same⟩ := getElem?_lone attempts there
      cases same
    | @pauses n rounds key request importer t' w rest env env' running made resumes sure went =>
      obtain ⟨rfl,same⟩ := getElem?_lone attempts running
      cases same
      obtain ⟨works,-⟩ := sure.go
      rw [went] at works
      refine .running (by simp [State.setProgress,attempts]; rfl) ?_ waits
      change .ended package true ∉ site.journal env'
      rwa [works.1,lawful.ended_of_resumes resumes]
    | @ends n key request importer t' w outcome env env' env'' running made resumes sure went counted =>
      obtain ⟨rfl,same⟩ := getElem?_lone attempts running
      cases same
      obtain rfl := List.mem_singleton.mp made
      obtain ⟨works,-⟩ := sure.go
      rw [went] at works
      have settled : (c.state.attempts.modify 0 fun a =>
          { a with progress := .settled (verdict outcome (site.look request importer (site.closed package outcome env'))) }) =
            [⟨package,.settled (verdict outcome (site.look request importer env''))⟩] := by
        rw [attempts,lawful.look_same request importer (counted.alike lawful.view_update)]
        rfl
      refine .settled settled (fun ended => ?_) fun here => ?_
      · change .ended package true ∈ site.journal env'' at ended
        rw [(lawful.works_of_counted counted).1,(lawful.closed package outcome env').1,List.mem_append,works.1,
          lawful.ended_of_resumes resumes,List.mem_singleton] at ended
        exact ((Note.ended.injEq _ _ _ _).mp (ended.resolve_left before)).2.symm
      · obtain ⟨request',importer',asked,rfl⟩ := waits here
        exact ⟨request',importer',asked,.joined⟩
  | @settled outcome attempts succeeded told =>
    -- A caller that goes on leaves the others where they are.
    have goes : ∀ {i : Nat} {u : Thread σ} {request : String} {importer : Option ModuleId} {env : σ},
        Counted site.view site.update c.state.env env → requests[i]? = some (request,importer) →
        Told site (verdict outcome (site.look starter.1 starter.2 c.state.env)) c.state.env request importer u →
        site.Shared requests package starter ⟨{ c.state with env },c.callers.set i u⟩ := by
      intro i u request importer env counted asked told'
      have alike := counted.alike lawful.view_update
      have looked := lawful.look_same starter.1 starter.2 alike
      rw [← looked] at attempts
      refine .settled attempts ?_ fun here => ?_
      · change .ended package true ∈ site.journal env → _
        rw [(lawful.works_of_counted counted).1]
        exact succeeded
      · rw [looked]
        rcases getElem?_set_cases here with ⟨rfl,rfl⟩ | ⟨-,before⟩
        · exact ⟨request,importer,asked,told'.alike lawful alike⟩
        · obtain ⟨request',importer',asked',told''⟩ := told before
          exact ⟨request',importer',asked',told''.alike lawful alike⟩
    cases moves with
    | ticks => exact .settled attempts succeeded told
    | joins _ here | answers _ here =>
      obtain ⟨_,_,-,same⟩ := told here
      cases same
    | learns asked here known =>
      obtain ⟨_,_,asked',told'⟩ := told here
      cases Option.some.inj (asked.symm.trans asked')
      cases told'
      obtain ⟨key,there⟩ := State.outcome?_eq_some_iff.mp known
      obtain ⟨-,same⟩ := getElem?_lone attempts there
      cases same
      rw [unlocked_of_settled sound attempts]
      exact goes .refl asked .learned
    | returns asked here counted =>
      obtain ⟨_,_,asked',told'⟩ := told here
      cases Option.some.inj (asked.symm.trans asked')
      cases told'
      exact goes counted asked .finished
    | pauses running | ends running =>
      obtain ⟨-,same⟩ := getElem?_lone attempts running
      cases same

/-- Whether an installer may be called again is no matter here. -/
abbrev Steady (site : Site σ) (requests makers : List (String × Option ModuleId)) (c : Scene σ) : Prop :=
  site.Kept requests makers (fun _ => True) c

include lawful in
theorem Shared.run (below : ∀ r ∈ requests, Below site.root r.2) (steady : site.Steady requests [starter] c)
    (shared : site.Shared requests package starter c) (run : Run site.chain c c') :
    site.Steady requests [starter] c' ∧ site.Shared requests package starter c' := by
  induction run with
  | refl => exact ⟨steady,shared⟩
  | tail _ move ih =>
    obtain ⟨steady,shared⟩ := ih
    have moves := steady.toFormed.moves lawful move
    exact ⟨steady.next lawful below (fun _ => trivial) moves,shared.next lawful steady.sound moves⟩

/-- Where all callers wait for the only attempt, that is made for one of their requests. -/
theorem Kept.shared {again : String → Prop} (kept : site.Kept requests requests again c) {t : Thread σ}
    (lone : c.state.attempts = [⟨package,.running t⟩]) (waits : ∀ u ∈ c.callers, ∃ next, u.control = .joined 0 next) :
    ∃ starter ∈ requests, site.Attempting [starter] package c.state.env (.running t) ∧ site.Steady requests [starter] c ∧
      site.Shared requests package starter c := by
  have running : c.state.attempts[0]? = some ⟨package,.running t⟩ := by rw [lone]; rfl
  obtain ⟨starter,member,attempting⟩ : ∃ starter ∈ requests, site.Attempting [starter] package c.state.env (.running t) := by
    cases kept.attempts running with
    | ready made => exact ⟨_,made,.ready (List.mem_singleton_self _)⟩
    | waiting made sure => exact ⟨_,made,.waiting (List.mem_singleton_self _) sure⟩
  have joined : ∀ {i : Nat} {u : Thread σ}, c.callers[i]? = some u →
      ∃ request importer, requests[i]? = some (request,importer) ∧ u = joining request importer := by
    intro i u here
    obtain ⟨next,control⟩ := waits u (List.mem_of_getElem? here)
    obtain ⟨request,importer,asked,caller⟩ := kept.callers here
    cases caller with
    | joined n =>
      cases control
      exact ⟨request,importer,asked,rfl⟩
    | begins | told | finished => cases control
  refine ⟨starter,member,attempting,⟨⟨fun here => ?_,fun here => ?_⟩,kept.sound,fun key => ?_,kept.has,fun _ _ _ => trivial,kept.called⟩,
    .running lone ?_ joined⟩
  · obtain ⟨request,importer,asked,rfl⟩ := joined here
    exact ⟨request,importer,asked,.joined 0⟩
  · obtain ⟨-,same⟩ := getElem?_lone lone here
    cases same
    exact attempting
  · obtain ⟨u,d,calls,underway⟩ := kept.calls key
    exact ⟨u,d,calls.mono fun _ => trivial,underway⟩
  · -- The attempt that is being made is the first one.
    obtain ⟨u,d,calls,underway⟩ := kept.calls package
    have counted := kept.called package
    have ended := calls.count
    rw [underway_iff kept.sound running] at underway
    have own : c.state.attempts.countP (Called package) = u.toNat := by
      rw [lone]
      by_cases rests : t.Rests
      · simp [Called,rests,underway.mpr rests]
      · simp [Called,rests,Bool.eq_false_iff.mpr fun set => rests (underway.mp set)]
    exact List.count_eq_zero.mp (by omega)

/-! ## All callers come to an end -/

theorem run_ticks {chain : List (Resolver σ)} (c : Scene σ) (n : Nat) :
    Run chain c { c with state := { c.state with clock := c.state.clock + n } } := by
  induction n with
  | zero => exact .refl
  | succ n ih => exact ih.tail (.tick _)

theorem attempts_setProgress_lone {s : State σ} {key : String} {p : Progress σ} (lone : s.attempts = [⟨key,p⟩]) (q : Progress σ) :
    (s.setProgress 0 q).attempts = [⟨key,q⟩] := by
  rw [State.setProgress,lone]
  rfl

include lawful in
/-- The only attempt comes to its end when it is carried on again and again. -/
theorem settles_of_work (w : Work σ (Except ResolveError Unit)) {request : String} {importer : Option ModuleId} {c : Scene σ} {t : Thread σ}
    (env : σ) (lone : c.state.attempts = [⟨package,.running t⟩])
    (leads : ∀ b, Carries site.chain ({ c.state with env },⟨.act (w.into (site.ending package request importer)),[],some 1⟩) b →
      Carries site.chain (c.state,t) b) :
    ∃ c' r, Run site.chain c c' ∧ c'.state.attempts = [⟨package,.settled r⟩] := by
  have here : ∀ {c : Scene σ} {t : Thread σ}, c.state.attempts = [⟨package,.running t⟩] → c.thread? (.attempt 0) = some t := by
    intro c t lone
    rw [Scene.thread?,lone]
    rfl
  induction w generalizing c t env with
  | done outcome =>
    obtain ⟨b,carries,worked⟩ := carries_work (s := { c.state with env }) lawful (.done outcome)
    cases worked with
    | pauses went => cases went
    | @ends outcome' env' env'' went counted =>
      exact ⟨_,_,.single (.settles (here lone) (leads _ carries) rfl),attempts_setProgress_lone (s := { c.state with env := env'' }) lone _⟩
  | step f rest ih => exact ih env _ lone fun b carries => leads b (Passes.carries passes_step carries)
  | pause rounds rest ih =>
    by_cases none : rounds = 0
    · refine ih env lone fun b carries => leads b (Passes.carries (.single ⟨?_,id⟩) carries)
      simp [Work.into,Thread.advance?,none]
    · have paused := leads _ (carries_into (by rw [Work.go,if_neg none]))
      obtain ⟨later,run,lone',env',clock'⟩ : ∃ later : Scene σ, Run site.chain c later ∧ later.state.attempts =
          [⟨package,.running ⟨.paused (c.state.clock + rounds) (rest.into (site.ending package request importer)),[],some 1⟩⟩] ∧
            later.state.env = env ∧ later.state.clock = c.state.clock + rounds :=
        ⟨_,.trans (.single (Move.works (here lone) paused rfl)) (run_ticks _ rounds),
          attempts_setProgress_lone (s := { c.state with env }) lone _,rfl,rfl⟩
      obtain ⟨c',r,further,settled⟩ := ih env lone' fun b carries =>
        (carries_paused (Nat.le_of_eq clock'.symm)).mpr (by rwa [← env'] at carries)
      exact ⟨c',r,run.trans further,settled⟩

include lawful in
theorem Shared.settles {makers : List (String × Option ModuleId)} (formed : site.Formed requests makers c)
    (shared : site.Shared requests package starter c) :
    ∃ c' r, Run site.chain c c' ∧ c'.state.attempts = [⟨package,.settled r⟩] := by
  cases shared with
  | settled attempts => exact ⟨c,_,.refl,attempts⟩
  | running attempts =>
    have running := congrArg (·[0]?) attempts
    cases formed.attempts running with
    | ready made => exact settles_of_work lawful _ _ attempts fun b => Passes.carries passes_attempt
    | @waiting request importer wake w made sure =>
      obtain ⟨c',r,run,settled⟩ := settles_of_work lawful w (c := { c with state := { c.state with clock := c.state.clock + wake } })
        c.state.env attempts fun b => (carries_paused (Nat.le_add_left _ _)).mpr
      exact ⟨c',r,(run_ticks c wake).trans run,settled⟩

include lawful in
/-- A caller that is told the outcome comes to its answer. -/
theorem returns_of_learned {i : Nat} {r : Resolved} {request : String} {importer : Option ModuleId}
    (here : c.callers[i]? = some ⟨.settling [] r (afterwards request importer),frame request importer,none⟩) :
    ∃ env t, Move site.chain c ⟨{ c.state with env },c.callers.set i t⟩ ∧ t.result?.isSome := by
  obtain ⟨env,-,carries⟩ : ∃ env, Counted site.view site.update c.state.env env ∧
      Carries site.chain (c.state,⟨.settling [] r (afterwards request importer),frame request importer,none⟩)
        ({ c.state with env },⟨.finished (site.answer request importer c.state.env r),[],none⟩) := carries_settling lawful nofun
  exact ⟨env,_,.goes here carries,rfl⟩

include lawful in
theorem Shared.finishes (shared : site.Shared requests package starter c) (sound : c.state.Sound) {r : Resolved}
    (settled : c.state.attempts = [⟨package,.settled r⟩]) {i : Nat} {t : Thread σ} (here : c.callers[i]? = some t) :
    ∃ env t', Run site.chain c ⟨{ c.state with env },c.callers.set i t'⟩ ∧ t'.result?.isSome := by
  cases shared with
  | running attempts =>
    rw [attempts] at settled
    cases settled
  | settled attempts _ told =>
    obtain ⟨request,importer,-,told⟩ := told here
    cases told with
    | finished =>
      obtain ⟨inside,same⟩ := List.getElem?_eq_some_iff.mp here
      exact ⟨c.state.env,c.callers[i],by rw [List.set_getElem_self],by rw [same]; rfl⟩
    | learned =>
      obtain ⟨env,t',move,finished⟩ := returns_of_learned lawful here
      exact ⟨env,t',.single move,finished⟩
    | joined =>
      have known : c.state.outcome? 0 = some r := State.outcome?_eq_some_iff.mpr ⟨package,by rw [settled]; rfl⟩
      have learns : Move site.chain c _ := .goes here (carries_joined.mpr ⟨r,known,rfl⟩)
      rw [unlocked_of_settled sound attempts] at learns
      obtain ⟨env,t',move,finished⟩ := returns_of_learned lawful (c := ⟨c.state,c.callers.set i _⟩)
        (List.getElem?_set_self (List.getElem?_eq_some_iff.mp here).1)
      rw [List.set_set] at move
      exact ⟨env,t',.tail (.single learns) move,finished⟩

include lawful in
theorem Shared.completes (below : ∀ r ∈ requests, Below site.root r.2) (steady : site.Steady requests [starter] c)
    (shared : site.Shared requests package starter c) : ∃ c', Run site.chain c c' ∧ ∀ t ∈ c'.callers, t.result?.isSome := by
  obtain ⟨c₀,r,run,settled⟩ := shared.settles lawful steady.toFormed
  -- One caller after the other.
  have front : ∀ k, ∃ c', Run site.chain c c' ∧ c'.state.attempts = [⟨package,.settled r⟩] ∧
      ∀ (i : Nat) (t : Thread σ), i < k → c'.callers[i]? = some t → t.result?.isSome := by
    intro k
    induction k with
    | zero => exact ⟨c₀,run,settled,nofun⟩
    | succ k ih =>
      obtain ⟨c',run',settled',finished⟩ := ih
      obtain ⟨steady',shared'⟩ := shared.run lawful below steady run'
      cases here : c'.callers[k]? with
      | none =>
        refine ⟨c',run',settled',fun i t less there => ?_⟩
        rcases Nat.lt_succ_iff_lt_or_eq.mp less with less | rfl
        · exact finished i t less there
        · rw [here] at there
          cases there
      | some t =>
        obtain ⟨env,t',further,finished'⟩ := shared'.finishes lawful steady'.sound settled' here
        refine ⟨_,run'.trans further,settled',fun i u less there => ?_⟩
        rcases getElem?_set_cases there with ⟨rfl,rfl⟩ | ⟨apart,there⟩
        · exact finished'
        · exact finished i u (by omega) there
  obtain ⟨c',run',-,finished⟩ := front requests.length
  refine ⟨c',run',fun t member => ?_⟩
  obtain ⟨i,here⟩ := List.mem_iff_getElem?.mp member
  obtain ⟨request,importer,asked,-⟩ := (shared.run lawful below steady run').1.callers here
  exact finished i t (List.getElem?_eq_some_iff.mp asked).1 here

/-- Who asks alone gets this answer at once. -/
def Alone (site : Site σ) (s : State σ) (request : String) (importer : Option ModuleId) (r : Resolved) : Prop :=
  ∃ s', Carries site.chain (s,.resolving request importer) (s',⟨.finished r,[],none⟩)

end Site

/-- Where all callers want one package and wait for the only attempt to install it, that has been made for the request
of one of them. However they go on, they can all come to an end. When the package has been installed each has the
answer to its own request, the same that it gets when it asks alone afterwards, if the installed files answer the
request of that one; otherwise all have the error of that one. -/
theorem outcome_of_starter {start : Scene σ} (lawful : site.Lawful) (below : ∀ r ∈ requests, Below site.root r.2)
    (named : ∀ r ∈ requests, Request.package? r.1 = some package) (starts : site.Starts requests start) (run : Run site.chain start c)
    {t : Thread σ} (lone : c.state.attempts = [⟨package,.running t⟩]) (waits : ∀ u ∈ c.callers, ∃ next, u.control = .joined 0 next) :
    ∃ starter ∈ requests, site.Attempting [starter] package c.state.env (.running t) ∧ ∀ {c'}, Run site.chain c c' →
      (∃ c'', Run site.chain c' c'' ∧ ∀ u ∈ c''.callers, u.result?.isSome) ∧
      (.ended package true ∈ site.journal c'.state.env →
        ∀ {i : Nat} {request : String} {importer : Option ModuleId}, requests[i]? = some (request,importer) →
          (∀ {u : Thread σ} {r : Resolved}, c'.callers[i]? = some u → u.result? = some r →
            (∀ id, site.look starter.1 starter.2 c'.state.env = .ok id → r = site.look request importer c'.state.env) ∧
            (∀ e, site.look starter.1 starter.2 c'.state.env = .error e → r = .error e)) ∧
          ((∀ e, (site.search (manifestOf package) importer c'.state.env).1 ≠ .error e) →
            site.Alone c'.state request importer (site.look request importer c'.state.env))) := by
  obtain ⟨starter,member,attempting,steady,shared⟩ := (starts.kept_of_run lawful below run).shared lone waits
  refine ⟨starter,member,attempting,fun {c'} further => ?_⟩
  obtain ⟨steady',shared'⟩ := shared.run lawful below steady further
  refine ⟨shared'.completes lawful below steady',fun ended {i request importer} asked => ⟨fun {u r} here result => ?_,fun found => ?_⟩⟩
  · cases shared' with
    | running _ before => exact absurd ended before
    | @settled outcome attempts succeeded told =>
      obtain ⟨_,_,asked',told⟩ := told here
      cases Option.some.inj (asked.symm.trans asked')
      cases outcome with
      | error e => cases succeeded ended
      | ok =>
        cases told with
        | joined | learned => cases result
        | finished =>
          cases result
          exact ⟨fun id found => by rw [found]; rfl,fun e found => by rw [found]; rfl⟩
  · obtain ⟨b,carries,begun⟩ := Site.carries_resolving lawful request importer c'.state
    cases begun with
    | @joins package' env counted wants =>
      obtain rfl : package = package' := Option.some.inj ((named _ (List.mem_of_getElem? asked)).symm.trans wants.named)
      obtain ⟨e,failed⟩ := lawful.fails_of_has (below _ (List.mem_of_getElem? asked)) wants (steady'.has ended)
      exact absurd failed (found e)
    | answers => exact ⟨_,carries⟩

/-- The attempt that a thread waits for. -/
def awaits? (t : Thread σ) : Option Nat :=
  match t.control with
  | .joined n _ => some n
  | _ => none

def isRunning : Progress σ → Bool
  | .running _ => true
  | _ => false

/-- What can be told of a scene: the attempts and whether they are being made, whom the callers wait for, what they have
got, and the journal. -/
structure Gist where
  attempts : List (String × Bool)
  awaited : List (Option Nat)
  results : List (Option Resolved)
  journal : List Note
  deriving DecidableEq

def gist (c : Scene Shelf) : Gist where
  attempts := c.state.attempts.map fun a => (a.key,isRunning a.progress)
  awaited := c.callers.map awaits?
  results := c.callers.map Thread.result?
  journal := c.state.env.journal

theorem lone_of_gist {c : Scene Shelf} (attempts : (gist c).attempts = [(package,true)]) : ∃ t, c.state.attempts = [⟨package,.running t⟩] := by
  obtain ⟨⟨key,p⟩,lone,same⟩ := List.map_eq_singleton_iff.mp attempts
  cases p <;> cases same
  exact ⟨_,lone⟩

theorem waits_of_gist {c : Scene Shelf} {n : Nat} (awaited : (gist c).awaited = List.replicate n (some 0)) :
    ∀ u ∈ c.callers, ∃ next, u.control = .joined 0 next := by
  intro u member
  have listed : awaits? u ∈ (gist c).awaited := List.mem_map_of_mem member
  have known := List.eq_of_mem_replicate (awaited ▸ listed)
  unfold awaits? at known
  split at known
  · rename_i control
    cases known
    exact ⟨_,control⟩
  · cases known

/-- Two requests for one package, the first of them for what it lacks. -/
def couple : List (String × Option ModuleId) := [("pkg/y",some Letter.a),("pkg/x",some Letter.a)]

def coupleStart : Scene Shelf := ⟨{ env := bare },couple.map fun r => .resolving r.1 r.2⟩

/-- What the request for what the package lacks is answered. -/
def missing : Resolved := .error (.notFound "pkg/y" (some Letter.a))

theorem caller_of_gist {c : Scene Shelf} {i : Nat} {r : Resolved} (known : (gist c).results[i]? = some (some r)) :
    ∃ u, c.callers[i]? = some u ∧ u.result? = some r := by
  rw [gist,List.getElem?_map] at known
  exact Option.map_eq_some_iff.mp known

/-- Both wait for the attempt that the second one has made, and each gets its own answer. -/
theorem outcome_of_starter_couple :
    ∃ c c', Run (stocked 1).chain coupleStart c ∧ Run (stocked 1).chain c c' ∧
      gist c = ⟨[("pkg",true)],[some 0,some 0],[none,none],[]⟩ ∧
      gist c' = ⟨[("pkg",false)],[none,none],[some missing,some (.ok pkgX)],[.began "pkg",.ended "pkg" true]⟩ ∧
      (stocked 1).Alone c'.state "pkg/y" (some Letter.a) missing ∧ (stocked 1).Alone c'.state "pkg/x" (some Letter.a) (.ok pkgX) := by
  have moved : ((Scene.moves? (stocked 1).chain 100 [some (.caller 1),some (.caller 0)] coupleStart).bind fun c =>
      (Scene.moves? (stocked 1).chain 100 [some (.attempt 0),none,some (.attempt 0),some (.caller 0),some (.caller 0),
        some (.caller 1),some (.caller 1)] c).map fun c' =>
          (gist c,gist c',((stocked 1).search (manifestOf "pkg") (some Letter.a) c'.state.env).1.isOk)) =
      some (⟨[("pkg",true)],[some 0,some 0],[none,none],[]⟩,
        ⟨[("pkg",false)],[none,none],[some missing,some (.ok pkgX)],[.began "pkg",.ended "pkg" true]⟩,true) := by decide +kernel
  obtain ⟨c,joins,rest⟩ := Option.bind_eq_some_iff.mp moved
  obtain ⟨c',ends,shape⟩ := Option.map_eq_some_iff.mp rest
  obtain ⟨first,second,searched⟩ : gist c = _ ∧ gist c' = _ ∧ _ = true := by simpa only [Prod.mk.injEq] using shape
  have found : ∀ e, ((stocked 1).search (manifestOf "pkg") (some Letter.a) c'.state.env).1 ≠ .error e := by
    intro e failed
    rw [failed] at searched
    cases searched
  have starts : (stocked 1).Starts couple coupleStart := ⟨rfl,rfl,rfl,rfl⟩
  have below : ∀ r ∈ couple, Below (stocked 1).root r.2 := (by decide : ∀ r ∈ couple, Below home r.2)
  have named : ∀ r ∈ couple, Request.package? r.1 = some "pkg" := by decide +kernel
  obtain ⟨t,lone⟩ : ∃ t, c.state.attempts = [⟨"pkg",.running t⟩] := lone_of_gist (by rw [first])
  obtain ⟨starter,-,-,all⟩ := outcome_of_starter (stocked_lawful 1) below named starts (run_of_moves? joins) lone
    (waits_of_gist (n := 2) (by rw [first]; rfl))
  obtain ⟨-,answers⟩ := all (run_of_moves? ends)
  have ended : .ended "pkg" true ∈ (gist c').journal := by
    rw [second]
    decide
  obtain ⟨u₀,here₀,result₀⟩ := caller_of_gist (c := c') (i := 0) (r := missing) (by rw [second]; rfl)
  obtain ⟨u₁,here₁,result₁⟩ := caller_of_gist (c := c') (i := 1) (r := .ok pkgX) (by rw [second]; rfl)
  obtain ⟨told₀,alone₀⟩ := answers ended (i := 0) rfl
  obtain ⟨told₁,alone₁⟩ := answers ended (i := 1) rfl
  refine ⟨c,c',run_of_moves? joins,run_of_moves? ends,first,second,?_⟩
  cases looked : (stocked 1).look starter.1 starter.2 c'.state.env with
  | error e => cases (told₁ here₁ result₁).2 e looked
  | ok id =>
    rw [(told₀ here₀ result₀).1 id looked,(told₁ here₁ result₁).1 id looked]
    exact ⟨alone₀ found,alone₁ found⟩

/-- Both wait for the attempt that the first one has made, and its error is all that the second one gets, although
what it asks for has been installed. -/
theorem starter_error_shared :
    ∃ c c', Run (stocked 1).chain coupleStart c ∧ Run (stocked 1).chain c c' ∧
      gist c = ⟨[("pkg",true)],[some 0,some 0],[none,none],[]⟩ ∧
      gist c' = ⟨[("pkg",false)],[none,none],[some missing,some missing],[.began "pkg",.ended "pkg" true]⟩ ∧
      (stocked 1).look "pkg/x" (some Letter.a) c'.state.env = .ok pkgX := by
  have moved : ((Scene.moves? (stocked 1).chain 100 [some (.caller 0),some (.caller 1)] coupleStart).bind fun c =>
      (Scene.moves? (stocked 1).chain 100 [some (.attempt 0),none,some (.attempt 0),some (.caller 0),some (.caller 0),
        some (.caller 1),some (.caller 1)] c).map fun c' =>
          (gist c,gist c',(stocked 1).look "pkg/x" (some Letter.a) c'.state.env)) =
      some (⟨[("pkg",true)],[some 0,some 0],[none,none],[]⟩,
        ⟨[("pkg",false)],[none,none],[some missing,some missing],[.began "pkg",.ended "pkg" true]⟩,.ok pkgX) := by decide +kernel
  obtain ⟨c,joins,rest⟩ := Option.bind_eq_some_iff.mp moved
  obtain ⟨c',ends,shape⟩ := Option.map_eq_some_iff.mp rest
  obtain ⟨first,second,looked⟩ : gist c = _ ∧ gist c' = _ ∧ _ = _ := by simpa only [Prod.mk.injEq] using shape
  exact ⟨c,c',run_of_moves? joins,run_of_moves? ends,first,second,looked⟩

end Bundling.Install
