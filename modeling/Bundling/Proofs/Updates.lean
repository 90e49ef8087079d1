import Bundling.Proofs.Watching

/-!
# No update is lost

What becomes of the last edit of a file that a change is pushed for. A change waits for its turn, then its file is
read, and once the read has come to an end the module is registered with the text that the file has had since the
change, unless the read failed. From then on, as long as the file is not edited, nothing brings an older text back:
neither reads of other files nor those of the file itself, good or bad (`Followed`).
-/

namespace Bundling

variable {σ : Type}

namespace Watch

section

variable {tools : Toolchain σ} {o : Observer σ} {s s' : Scene σ} {change : Path} {log : List Note}

variable {i : ModuleId} {text : Except StoreError String} {edits k : Nat}

/-- If a loop is with the read of a file, it has been since some file got its text, and something is known of the file
and of what was registered when the read began. -/
def Job.Since (known : ModuleId → Registry → Prop) (i : ModuleId) (text : Except StoreError String) (g : Graph σ)
    (job : Job) : Prop :=
  ∀ change n, job = .reading change (.under [.task n]) →
    ∃ x before, known x before ∧ g.Pushing n x before ∧ g.Refreshing n before i text

/-- How it stands with a change of a file, the one at a place among those that were accepted, while the file keeps the
text that it has had since then. -/
inductive Phase (k : Nat) (change : Path) (i : ModuleId) (text : Except StoreError String) (s : Scene σ) : Prop where
  /-- It has not been taken. -/
  | waits (few : s.taken.length ≤ k)
  /-- The file is read. -/
  | reads {call : Graph.Call} (turn : s.dealt.length = k) (job : s.loop.job = .reading change call)
      (since : s.loop.job.Since (fun x _ => x = i) i text s.session.graph)
  | failed {e : CompileError} (dealt : s.dealt[k]? = some (change,.failed e))
  /-- The module is registered with the text, if it is registered. -/
  | renewed (now : s.session.graph.registry.UpToDate i text)
      (since : s.loop.job.Since (fun _ before => before.UpToDate i text) i text s.session.graph)

/-- What all events keep from a change on, up to the next edit of its file. -/
structure Followed (tools : Toolchain σ) (o : Observer σ) (k : Nat) (change : Path) (i : ModuleId)
    (text : Except StoreError String) (edits : Nat) (s : Scene σ) : Prop where
  place : s.accepted[k]? = some change
  grown : edits ≤ o.edits s.env i
  phase : o.edits s.env i = edits → tools.store.textOf s.env i = text ∧ Phase k change i text s

theorem Job.Since.unmoved {known : ModuleId → Registry → Prop} {g after : Graph σ} {job : Job}
    (since : job.Since known i text g) (unmoved : g.Unmoved after) : job.Since known i text after := by
  intro p n same
  obtain ⟨x,before,knows,pushing,refreshing⟩ := since p n same
  exact ⟨x,before,knows,pushing.congr unmoved.tasks unmoved.inFlight unmoved.registry,
    refreshing.congr unmoved.tasks unmoved.registry⟩

theorem Phase.unmoved (phase : Phase k change i text s) (unmoved : s.session.graph.Unmoved s'.session.graph)
    (taken : s'.taken = s.taken) (dealt : s'.dealt = s.dealt) (job : s'.loop.job = s.loop.job) :
    Phase k change i text s' := by
  cases phase with
  | waits few => exact .waits (taken ▸ few)
  | reads turn reading since => exact .reads (dealt ▸ turn) (job.trans reading) (job ▸ since.unmoved unmoved)
  | failed there => exact .failed (dealt ▸ there)
  | renewed now since =>
    refine .renewed ?_ (job ▸ since.unmoved unmoved)
    rw [unmoved.registry]
    exact now

/-- Something has happened. The phase is looked at only if the file has kept its text. -/
theorem Followed.next (followed : Followed tools o k change i text edits s) {notes : List Note}
    (place : s'.accepted[k]? = some change) (goes : o.Goes tools.store notes s.env s'.env)
    (phase : tools.store.textOf s.env i = text → Phase k change i text s → o.edits s'.env i = edits →
      Phase k change i text s') : Followed tools o k change i text edits s' := by
  refine ⟨place,Nat.le_trans followed.grown (goes.grows i),fun calm => ?_⟩
  obtain ⟨same,keeps⟩ := goes.calm text followed.grown calm
  obtain ⟨now,before⟩ := followed.phase same
  exact ⟨keeps now,phase now before calm⟩

/-- A read is carried on while the file keeps its text. -/
theorem refreshing_carry {start : Graph σ} {n : Nat} {x : ModuleId} {before : Registry}
    (obeys : tools.Heeds (o.Quiet tools.store)) (heeds : start.Heeds (o.Quiet tools.store))
    (pushing : start.Pushing n x before) (refreshing : start.Refreshing n before i text)
    (low : edits ≤ o.edits start.layer.env i) (now : tools.store.textOf start.layer.env i = text) :
    (Graph.carry tools tools.fuel start n).Pushing n x before ∧
      (o.edits (Graph.carry tools tools.fuel start n).layer.env i = edits →
        (Graph.carry tools tools.fuel start n).Refreshing n before i text) := by
  obtain ⟨-,-,pushing,-,calm⟩ := carry_keeps
    (Q := fun g => g.Pushing n x before ∧ edits ≤ o.edits g.layer.env i ∧ (o.edits g.layer.env i = edits →
      tools.store.textOf g.layer.env i = text ∧ g.Refreshing n before i text)) obeys heeds
    (fun {g} m heeds quiet ⟨pushing,low,calm⟩ => by
      refine ⟨pushing.step tools m,Nat.le_trans low (quiet.grows i),fun still => ?_⟩
      obtain ⟨same,keeps⟩ := quiet.calm text low still
      obtain ⟨now,refreshing⟩ := calm same
      exact ⟨keeps now,refreshing.step pushing now m⟩) n
    ⟨pushing,low,fun _ => ⟨now,refreshing⟩⟩
  exact ⟨pushing,fun still => (calm still).2⟩

/-- The read that a loop is with is carried on while the file keeps its text: what is known of it when it begins
stays. -/
theorem Kept.since_polled {known : ModuleId → Registry → Prop} {p : Path} {call call' : Graph.Call} {g : Graph σ}
    (kept : Kept tools o log s) (obeys : tools.Heeds (o.Quiet tools.store)) (job : s.loop.job = .reading p call)
    (polled : s.session.graph.poll tools call = (call',g))
    (since : s.loop.job.Since known i text s.session.graph)
    (begins : ∀ x, tools.root.toId p = .ok x → known x s.session.graph.registry) (low : edits ≤ o.edits s.env i)
    (now : tools.store.textOf s.env i = text) :
    ∃ n x before, call' = .under [.task n] ∧ known x before ∧ g.Pushing n x before ∧
      (o.edits g.layer.env i = edits → g.Refreshing n before i text) := by
  have fits := kept.fits
  rw [job] at fits
  obtain ⟨x,n,before,start,found,carries,rfl,rfl⟩ := carries_of_fits fits polled
  obtain ⟨heeds,layer⟩ := carries.heeds kept.heeds
  have begun : ∃ x before, known x before ∧ start.Pushing n x before ∧ start.Refreshing n before i text := by
    cases carries with
    | begins resting => exact ⟨x,_,begins x found,(resting.alone found).pushing,resting.refreshing x i text⟩
    | goes alone => exact since p n job
  obtain ⟨x,before,knows,pushing,refreshing⟩ := begun
  rw [← show start.layer.env = s.env by rw [layer]; rfl] at low now
  obtain ⟨pushing,calm⟩ := refreshing_carry obeys heeds pushing refreshing low now
  exact ⟨n,x,before,rfl,knows,pushing,calm⟩

/-- Once the file has been read, its module has the text. -/
theorem Job.Since.ended {p : Path} {g : Graph σ} {n : Nat} {cs : List Commit}
    (since : (Job.reading p (.under [.task n])).Since (fun x _ => x = i) i text g)
    (outcome : g.outcome? n = some (.ok cs)) : g.registry.UpToDate i text := by
  obtain ⟨x,before,rfl,pushing,refreshing⟩ := since p n rfl
  exact refreshing.ended pushing outcome

/-- How it stands with a change of a file while no file is read. -/
inductive Stands (k : Nat) (change : Path) (i : ModuleId) (text : Except StoreError String) (taken : List Path)
    (dealt : List (Path × Fate)) (registry : Registry) : Prop where
  | waits (few : taken.length ≤ k)
  | failed {e : CompileError} (there : dealt[k]? = some (change,.failed e))
  | renewed (now : registry.UpToDate i text)

theorem Stands.later {taken : List Path} {dealt : List (Path × Fate)} {registry : Registry}
    (stands : Stands k change i text taken dealt registry) (more : List (Path × Fate)) :
    Stands k change i text taken (dealt ++ more) registry := by
  cases stands with
  | waits few => exact .waits few
  | failed there => exact .failed ((List.getElem?_append_left (List.getElem?_eq_some_iff.mp there).1).trans there)
  | renewed now => exact .renewed now

theorem Stands.phase (stands : Stands k change i text s.taken s.dealt s.session.graph.registry)
    (unread : ∀ change n, s.loop.job ≠ .reading change (.under [.task n])) : Phase k change i text s := by
  cases stands with
  | waits few => exact .waits few
  | failed there => exact .failed there
  | renewed now => exact .renewed now fun change n same => absurd same (unread change n)

theorem Phase.stands (phase : Phase k change i text s) (unread : ∀ change call, s.loop.job ≠ .reading change call) :
    Stands k change i text s.taken s.dealt s.session.graph.registry := by
  cases phase with
  | waits few => exact .waits few
  | reads turn job => exact absurd job (unread _ _)
  | failed there => exact .failed there
  | renewed now => exact .renewed now

/-- A scene where a read has been carried on. -/
def Scene.polled (s : Scene σ) (p : Path) (call : Graph.Call) (g : Graph σ) : Scene σ :=
  { s with
    loop := { s.loop with job := .reading p call }
    session := { s.session with graph := g } }

section

variable {p : Path} {call call' : Graph.Call} {g : Graph σ}

/-- A read is carried on while the file keeps its text, the read of the file itself or another one. -/
theorem Phase.polled (phase : Phase k change i text s) (kept : Kept tools o log s)
    (obeys : tools.Heeds (o.Quiet tools.store)) (found : tools.root.toId change = .ok i)
    (job : s.loop.job = .reading p call) (polled : s.session.graph.poll tools call = (call',g))
    (low : edits ≤ o.edits s.env i) (now : tools.store.textOf s.env i = text) (calm : o.edits g.layer.env i = edits) :
    Phase k change i text (s.polled p call' g) := by
  cases phase with
  | waits few => exact .waits few
  | @reads call₀ turn reading since =>
    have same : p = change := by
      rw [job] at reading
      exact (Job.reading.inj reading).1
    subst same
    obtain ⟨n,x,before,rfl,knows,pushing,refreshing⟩ :=
      kept.since_polled obeys job polled since (fun x found' => Except.ok.inj (found'.symm.trans found)) low now
    refine .reads turn rfl ?_
    rintro _ _ ⟨⟩
    exact ⟨x,before,knows,pushing,refreshing calm⟩
  | failed there => exact .failed there
  | renewed fresh since =>
    obtain ⟨n,x,before,rfl,knows,pushing,refreshing⟩ :=
      kept.since_polled obeys job polled since (fun _ _ => fresh) low now
    refine .renewed ((refreshing calm).steady knows) ?_
    rintro _ _ ⟨⟩
    exact ⟨x,before,knows,pushing,refreshing calm⟩

/-- The read has come to a good end: if it was the one of the file, the module has the text now. -/
theorem Phase.compiled {n : Nat} {cs : List Commit} (phase : Phase k change i text (s.polled p (.under [.task n]) g))
    (outcome : g.outcome? n = some (.ok cs)) : Stands k change i text s.taken s.dealt g.registry := by
  cases phase with
  | waits few => exact .waits few
  | reads turn job since => exact .renewed (since.ended outcome)
  | failed there => exact .failed there
  | renewed fresh => exact .renewed fresh

/-- The read has come to a bad end: if it was the one of the file, the change has failed. -/
theorem Phase.broken (phase : Phase k change i text (s.polled p call' g)) (e : CompileError) :
    Stands k change i text s.taken (s.dealt ++ [(p,.failed e)]) g.registry := by
  cases phase with
  | waits few => exact .waits few
  | reads turn job since =>
    obtain ⟨rfl,-⟩ := Job.reading.inj job
    exact .failed (by rw [← turn]; exact List.getElem?_concat_length)
  | failed there => exact (Stands.failed there).later _
  | renewed fresh => exact .renewed fresh

end

/-- A read that has come to a good end is the one task of its call. -/
theorem Kept.compiled (kept : Kept tools o log s) {p : Path} {call call' : Graph.Call} {g : Graph σ}
    (job : s.loop.job = .reading p call) (polled : s.session.graph.poll tools call = (call',g))
    (result : g.result? call' = some (.ok ())) : ∃ n cs, call' = .under [.task n] ∧ g.outcome? n = some (.ok cs) := by
  have fits := kept.fits
  rw [job] at fits
  obtain ⟨x,n,before,start,-,-,rfl,-⟩ := carries_of_fits fits polled
  rw [Graph.result?_task] at result
  obtain ⟨⟨e⟩ | ⟨cs⟩,outcome,good⟩ := Option.map_eq_some_iff.mp result
  · cases good
  · exact ⟨n,cs,rfl,outcome⟩

/-- A change is taken that is looked at, or one before it. -/
theorem Followed.taking (followed : Followed tools o k change i text edits s) (lined : Lined s) {p : Path}
    {queue : Queue} (took : s.loop.queue.take? = some (p,queue)) (few : s.taken.length ≤ k) :
    (s.taken ++ [p]).length ≤ k ∨ s.taken.length = k ∧ p = change := by
  rcases Nat.lt_or_eq_of_le few with less | turn
  · exact .inl (by rw [List.length_append]; exact less)
  · obtain ⟨rest,waiting,-⟩ := Queue.take?_eq took
    have place := followed.place
    rw [lined.accepted,waiting,← turn,List.getElem?_append_right (Nat.le_refl _),Nat.sub_self] at place
    exact .inr ⟨turn,Option.some.inj place⟩

theorem Followed.move (followed : Followed tools o k change i text edits s) (kept : Kept tools o log s)
    (obeys : tools.Heeds (o.Quiet tools.store)) (found : tools.root.toId change = .ok i) (move : Move tools o s s') :
    Followed tools o k change i text edits s' := by
  cases move with
  | idles => exact followed
  | @passes p queue job running took absent =>
    have idle : ∀ change call, s.loop.job ≠ .reading change call := by simp [job]
    refine followed.next followed.place (.refl o tools.store s.env) fun _ phase _ => Stands.phase ?_ fun _ _ => idle _ _
    cases phase.stands idle with
    | waits few =>
      rcases followed.taking kept.toLined took few with further | ⟨-,rfl⟩
      · exact .waits further
      · -- The file is not in the graph.
        refine .renewed fun v registered => ?_
        simp [Graph.containsPath,found,Registry.contains,registered] at absent
    | failed there => exact (Stands.failed there).later _
    | renewed now => exact .renewed now
  | @takes p queue env job running took present goes =>
    refine followed.next followed.place goes fun _ phase _ => ?_
    cases phase.stands (by simp [job]) with
    | waits few =>
      rcases followed.taking kept.toLined took few with further | ⟨turn,rfl⟩
      · exact .waits further
      · refine .reads ?_ rfl fun _ _ same => by cases same
        have taken := kept.taken
        rw [job] at taken
        simpa [taken,Job.changes] using turn
    | failed there => exact .failed there
    | renewed now => exact .renewed now fun _ _ same => by cases same
  | @reads p call call' g job polled unfinished =>
    obtain ⟨-,-,-,quiet⟩ := kept.polled obeys job polled
    exact followed.next followed.place quiet fun now phase calm =>
      phase.polled kept obeys found job polled followed.grown now calm
  | @builds p call call' g job polled result =>
    obtain ⟨-,-,-,quiet⟩ := kept.polled obeys job polled
    obtain ⟨n,cs,rfl,outcome⟩ := kept.compiled job polled result
    refine followed.next followed.place quiet fun now phase calm => Stands.phase ?_ fun _ _ same => by cases same
    exact (phase.polled kept obeys found job polled followed.grown now calm).compiled outcome
  | @ends p call call' g r env job polled result goes =>
    obtain ⟨-,-,-,quiet⟩ := kept.polled obeys job polled
    refine followed.next followed.place (quiet.trans goes) fun now phase calm =>
      Stands.phase ?_ fun _ _ same => by cases same
    obtain ⟨calm,-⟩ := goes.calm text (Nat.le_trans followed.grown (quiet.grows i)) calm
    have further := phase.polled kept obeys found job polled followed.grown now calm
    cases r with
    | error e => exact further.broken e
    | ok u =>
      obtain ⟨n,cs,rfl,outcome⟩ := kept.compiled job polled result
      exact (further.compiled outcome).later _
  | @built p r env paths job goes =>
    refine followed.next followed.place goes fun _ phase _ => Stands.phase ?_ fun _ _ same => by cases same
    exact (phase.stands (by simp [job])).later _

theorem Followed.apply (followed : Followed tools o k change i text edits s) (kept : Kept tools o log s)
    (obeys : tools.Heeds (o.Quiet tools.store)) (found : tools.root.toId change = .ok i) {e : Event σ}
    (silent : e.Silent o tools.store) : Followed tools o k change i text edits (e.apply tools s) := by
  cases e with
  | edit f =>
    exact followed.next followed.place (silent s.env) fun _ phase _ =>
      phase.unmoved (s.session.unmoved_withEnv _) rfl rfl rfl
  | push path =>
    show Followed tools o k change i text edits (s.push tools path)
    rcases s.push_cases tools path with ⟨-,same⟩ | ⟨-,same⟩
    · rw [same]
      exact followed
    · rw [same]
      have place := followed.place
      refine followed.next ?_ (.refl o tools.store s.env) fun _ phase _ =>
        phase.unmoved ⟨rfl,rfl,rfl,rfl,rfl,rfl⟩ rfl rfl rfl
      exact (List.getElem?_append_left (List.getElem?_eq_some_iff.mp place).1).trans place
  | start =>
    obtain ⟨loop,env,same,quiet,job,-⟩ := s.start_cases kept.seen
    show Followed tools o k change i text edits s.start
    rw [same]
    exact followed.next followed.place quiet fun _ phase _ => phase.unmoved (s.session.unmoved_withEnv env) rfl rfl job
  | tick =>
    exact followed.next followed.place (.refl o tools.store s.env) fun _ phase _ =>
      phase.unmoved ⟨rfl,rfl,rfl,rfl,rfl,rfl⟩ rfl rfl rfl
  | step => exact followed.move kept obeys found (move_of_step s kept.seen)

theorem Followed.watch (followed : Followed tools o k change i text edits s) (kept : Kept tools o log s)
    (obeys : tools.Heeds (o.Quiet tools.store)) (found : tools.root.toId change = .ok i) {events : List (Event σ)}
    (silent : ∀ e ∈ events, e.Silent o tools.store) :
    Followed tools o k change i text edits (watch tools s events) := by
  induction events generalizing s with
  | nil => exact followed
  | cons e events ih =>
    have mine := silent e List.mem_cons_self
    exact ih (followed.apply kept obeys found mine) (kept.apply obeys mine) fun e' member =>
      silent e' (List.mem_cons_of_mem _ member)

/-- An accepted change waits. -/
theorem Kept.followed (kept : Kept tools o log s) {path : Path} (accepted : (s.loop.push tools.root.path path).1 = true)
    (i : ModuleId) :
    Followed tools o s.accepted.length (tools.root.path.join path) i (tools.store.textOf s.env i) (o.edits s.env i)
      (s.push tools path) := by
  rcases s.push_cases tools path with ⟨refused,-⟩ | ⟨-,same⟩
  · rw [accepted] at refused
    cases refused
  · rw [same]
    refine ⟨List.getElem?_concat_length,Nat.le_refl _,fun _ => ⟨rfl,.waits ?_⟩⟩
    rw [kept.accepted,List.length_append]
    exact Nat.le_add_right _ _

/-- Where the loop is watching, all that was accepted is done with. -/
theorem Lined.done (lined : Lined s) (watching : s.loop.state = .watching) :
    s.loop.job = .none ∧ s.dealt.length = s.accepted.length ∧ s.taken.length = s.accepted.length := by
  have state : s.loop.queue.state = .watching := watching
  have job : s.loop.job = .none := by
    by_contra busy
    rw [lined.busy busy] at state
    cases state
  have running : s.loop.running = true := by
    cases running : s.loop.running with
    | true => rfl
    | false =>
      rw [(lined.stopped running).2] at state
      cases state
  have pending : s.loop.queue.pending = 0 := by
    rw [lined.resting running job,Queue.restState] at state
    split at state
    · assumption
    · cases state
  have waiting := lined.pending
  rw [pending,job] at waiting
  have none : s.loop.queue.waiting = [] := List.eq_nil_of_length_eq_zero (by omega)
  have taken := lined.taken
  rw [job] at taken
  refine ⟨job,?_,?_⟩
  · simp [lined.accepted,none,taken,Job.changes]
  · simp [lined.accepted,none]

/-- The change has had its turn: its file is up to date, or compiling it anew has failed. -/
theorem Followed.done (followed : Followed tools o k change i text edits s) (lined : Lined s)
    (watching : s.loop.state = .watching) (calm : o.edits s.env i = edits) :
    tools.store.textOf s.env i = text ∧
      (s.session.graph.registry.UpToDate i text ∨ ∃ e, s.dealt[k]? = some (change,.failed e)) := by
  obtain ⟨job,-,all⟩ := lined.done watching
  obtain ⟨now,phase⟩ := followed.phase calm
  refine ⟨now,?_⟩
  cases phase.stands (by simp [job]) with
  | waits few =>
    have bound := (List.getElem?_eq_some_iff.mp followed.place).1
    omega
  | failed there => exact .inr ⟨_,there⟩
  | renewed fresh => exact .inl fresh

end

/-! ## A desk -/

/-- One file, whose edits are counted, and the calls of callbacks. -/
structure Desk where
  text : String
  edits : Nat := 0
  log : List Note := []

namespace Desk

def store : FileStore Desk where
  read p := fun d => (if p = Letter.a.path then .ok d.text else .error (.notFound p),d)
  write p _ := pure (.error (.notFound p))
  stat _ p := .error (.notFound p)
  makeDir p := pure (.error (.notFound p))
  has _ p := p = Letter.a.path

def observer : Observer Desk := ⟨Desk.log,fun d _ => d.edits⟩

def write (text : String) (d : Desk) : Desk := { d with text, edits := d.edits + 1 }

def note (n : Note) : StateM Desk Unit := modify fun d => { d with log := d.log ++ [n] }

/-- The callbacks take notes, and so does nothing else. -/
def options : Options Desk where
  before change := note (.before change)
  after change r := note (.after change r)
  failed e := note (.failed e)
  rebuild := some (pure (.ok ()))

/-- The transformer takes a round, and fails on an empty file. -/
def tools : Toolchain Desk where
  root := ⟨.absolute []⟩
  store
  transformers := [{
    name := "slow"
    transform file := .pause 1 (.done (if file.contents = "" then .error "empty" else .ok none)) }]
  resolvers := []
  fuel := 20

def loop : Loop Desk := { options, ignored := [] }

def session : Session Desk where
  graph := {
    layer := { env := { text := "first" } }
    entries := [Letter.a]
    registry := { versions := [⟨0,{ id := Letter.a, sources := "first", contents := "first" }⟩] }
    stamps := 1 }
  paths := {}

/-- Twice a change is pushed, the second time while the file is still being read for the first one, and after its last
edit. -/
def events : List (Event Desk) :=
  [.start,.edit (write ""),.push ⟨"a"⟩,.step,.step,.edit (write "second"),.push ⟨"a"⟩,
    .tick,.step,.step,.step,.tick,.step,.step]

/-- What comes of events on the desk. -/
def after (events : List (Event Desk)) : Scene Desk := watch tools { loop, session } events

theorem seen : options.Seen observer tools.store where
  ready _ := .refl ..
  before _ _ := ⟨rfl,fun _ => Nat.le_refl _,fun _ _ => rfl⟩
  failed _ _ := ⟨rfl,fun _ => Nat.le_refl _,fun _ _ => rfl⟩
  after _ _ _ := ⟨rfl,fun _ => Nat.le_refl _,fun _ _ => rfl⟩
  rebuild r same s := by
    cases same
    exact ⟨s.graph.layer.env,s.paths,rfl,.refl ..⟩

theorem obeys : tools.Heeds (observer.Quiet tools.store) where
  store _ _ := .refl ..
  transformers t member file := by
    obtain rfl := List.mem_singleton.mp member
    exact trivial
  resolvers := nofun

theorem resting : session.graph.Resting := by
  refine ⟨fun {i v} found => ?_,fun there => by simp [session,Graph.At] at there,rfl⟩
  have young : ∀ v ∈ session.graph.registry.versions, v.stamp < session.graph.stamps := by decide
  exact young v (List.mem_of_find?_eq_some found)

theorem heeds : session.graph.Heeds (observer.Quiet tools.store) :=
  ⟨rfl,fun n key t here => by simp [session] at here,fun there => by simp [session,Graph.At] at there⟩

theorem silent : ∀ e ∈ events, e.Silent observer tools.store := by
  have edits : ∀ text d, observer.Quiet tools.store d (write text d) := fun text d =>
    ⟨(List.append_nil _).symm,fun _ => Nat.le_succ _,fun _ same => absurd same (Nat.succ_ne_self d.edits)⟩
  simp only [events,List.forall_mem_cons,Event.Silent,edits,implies_true,true_and]
  exact nofun

end Desk

end Watch

end Bundling
