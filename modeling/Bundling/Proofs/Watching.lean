import Bundling.Bundler.Watching
import Bundling.Proofs.Freshness

/-!
# Watching

A watch loop over a graph that nothing else acts on, while files are edited, changes are pushed and the clock
ticks in any order. A `Scene` has, besides the loop and the session, records of what has come about: which changes
were accepted, which of them were taken, and what has come of those that are done with. `Move` says all that a
step of the loop can do. From it follow the order of the changes (`Lined`), and that at most the file of one change
is read at a time and what the callbacks are told (`Kept`).
-/

namespace Bundling

variable {σ : Type}

/-- The session with another state of the plugins. -/
def Session.withEnv (s : Session σ) (env : σ) : Session σ :=
  { s with graph := { s.graph with layer := { s.graph.layer with env } } }

theorem Session.unmoved_withEnv (s : Session σ) (env : σ) : Graph.Unmoved s.graph (s.withEnv env).graph :=
  ⟨rfl,rfl,rfl,rfl,rfl,rfl⟩

/-- Making the output anew touches no module. -/
theorem Bundler.rebuild_session (b : Bundler σ) (s : Session σ) :
    ∃ env paths, (b.rebuild s).2 = { s.withEnv env with paths } := by
  have generated : ∃ env paths, (b.generate s).2 = { s.withEnv env with paths } := by
    cases chunked : b.chunks s.graph with
    | error e =>
      refine ⟨s.graph.layer.env,s.paths,?_⟩
      simp only [generate,bind,StateT.bind,get,getThe,MonadStateOf.get,StateT.get,pure,chunked]
      rfl
    | ok cs =>
      refine ⟨(b.generateChunks b.config.generator cs s).2.graph.layer.env,
        (b.generateChunks b.config.generator cs s).2.paths,?_⟩
      simp only [generate,bind,StateT.bind,get,getThe,MonadStateOf.get,StateT.get,pure,chunked]
      rfl
  obtain ⟨env,paths,same⟩ := generated
  cases made : b.generate s with
  | mk r s' =>
    rw [made] at same
    subst same
    cases r with
    | error e =>
      refine ⟨env,paths,?_⟩
      simp only [rebuild,bind,StateT.bind,made]
      rfl
    | ok bs =>
      refine ⟨(b.write bs true { s.withEnv env with paths }).2.graph.layer.env,paths,?_⟩
      simp only [rebuild,bind,StateT.bind,made]
      rfl

namespace Watch

/-! ## What is seen -/

/-- What callbacks are called for. -/
inductive Note where
  | before (change : Path)
  | failed (e : BundleError)
  | after (change : Path) (r : Except BundleError Unit)

/-- What is seen of the state that plugins and callbacks act on: the calls of callbacks, and how often each file has
been edited. -/
structure Observer (σ : Type) where
  log : σ → List Note
  edits : σ → ModuleId → Nat

/-- From one state to another some callbacks have been called, and a file that has not been edited has kept its
text. -/
structure Observer.Goes (o : Observer σ) (store : FileStore σ) (notes : List Note) (s s' : σ) : Prop where
  told : o.log s' = o.log s ++ notes
  grows : ∀ i, o.edits s i ≤ o.edits s' i
  still : ∀ i, o.edits s' i = o.edits s i → store.textOf s' i = store.textOf s i

/-- No callback has been called. -/
abbrev Observer.Quiet (o : Observer σ) (store : FileStore σ) (s s' : σ) : Prop := o.Goes store [] s s'

/-- The callbacks are seen when they are called, and making the output anew touches no module. -/
structure Options.Seen (o : Observer σ) (store : FileStore σ) (options : Options σ) : Prop where
  ready : ∀ s, o.Quiet store s (options.ready s).2
  before : ∀ change s, o.Goes store [.before change] s (options.before change s).2
  failed : ∀ e s, o.Goes store [.failed e] s (options.failed e s).2
  after : ∀ change r s, o.Goes store [.after change r] s (options.after change r s).2
  rebuild : ∀ rebuild, options.rebuild = some rebuild → ∀ s : Session σ, ∃ env paths,
    (rebuild s).2 = { s.withEnv env with paths } ∧ o.Quiet store s.graph.layer.env env

section

variable {o : Observer σ} {store : FileStore σ} {s s' s'' : σ} {notes notes' : List Note}

theorem Observer.Goes.refl (o : Observer σ) (store : FileStore σ) (s : σ) : o.Quiet store s s :=
  ⟨(List.append_nil _).symm,fun _ => Nat.le_refl _,fun _ _ => rfl⟩

theorem Observer.Goes.trans (first : o.Goes store notes s s') (second : o.Goes store notes' s' s'') :
    o.Goes store (notes ++ notes') s s'' := by
  refine ⟨?_,fun i => Nat.le_trans (first.grows i) (second.grows i),fun i same => ?_⟩
  · rw [second.told,first.told,List.append_assoc]
  · have low := first.grows i
    have high := second.grows i
    exact (second.still i (by omega)).trans (first.still i (by omega))

theorem Observer.Goes.of_steps (steps : Relation.ReflTransGen (o.Quiet store) s s') : o.Quiet store s s' := by
  induction steps with
  | refl => exact .refl o store s
  | tail _ step ih => exact ih.trans step

/-- In between, too, a file has kept its text. -/
theorem Observer.Goes.calm (goes : o.Goes store notes s s') {i : ModuleId} {edits : Nat}
    (text : Except StoreError String) (low : edits ≤ o.edits s i) (calm : o.edits s' i = edits) :
    o.edits s i = edits ∧ (store.textOf s i = text → store.textOf s' i = text) := by
  have high := goes.grows i
  have same : o.edits s i = edits := by omega
  exact ⟨same,fun now => (goes.still i (calm.trans same.symm)).trans now⟩

/-- The options that a bundler has completed are of this kind, too, if making its output anew calls no callbacks and
every file that it writes counts as edited. -/
theorem Options.Seen.completed {options : Options σ} (seen : options.Seen o store) (b : Bundler σ)
    (quiet : ∀ s : Session σ, o.Quiet store s.graph.layer.env (b.rebuild s).2.graph.layer.env) :
    (b.watchOptions options).Seen o store := by
  refine { seen with rebuild := fun rebuild chosen s => ?_ }
  unfold Bundler.watchOptions at chosen
  cases own : options.rebuild with
  | some own' =>
    rw [own] at chosen
    exact seen.rebuild rebuild (own.trans chosen) s
  | none =>
    rw [own] at chosen
    have mine : rebuild = b.rebuild := by
      cases generate : b.config.watch.generate <;> simp [generate] at chosen
      exact chosen.symm
    obtain ⟨env,paths,same⟩ := b.rebuild_session s
    have still := quiet s
    rw [same] at still
    exact ⟨env,paths,mine ▸ same,still⟩

end

/-! ## Scenes -/

/-- What comes of a change that was taken. -/
inductive Fate where
  /-- The file was not in the graph. -/
  | outside
  /-- Compiling the file anew failed. -/
  | failed (e : CompileError)
  /-- The file was compiled anew. -/
  | compiled (rebuilt : Except BundleError Unit)
  deriving DecidableEq

/-- What comes of a change by reading its file, where no output is to be made. -/
def Fate.ofRead : Except CompileError Unit → Fate
  | .error e => .failed e
  | .ok () => .compiled (.ok ())

/-- What is told at the end of a change. -/
def ending (change : Path) : Except BundleError Unit → List Note
  | .error e => [.failed e,.after change (.error e)]
  | .ok () => [.after change (.ok ())]

/-- The block of a change: none for a file outside the graph, and else a start, an error if the file could not be
compiled or the output could not be made, and an end. -/
def Fate.notes (change : Path) : Fate → List Note
  | .outside => []
  | .failed e => .before change :: ending change (.error (.compile e))
  | .compiled r => .before change :: ending change r

/-- The change that a loop is with. -/
def Job.changes : Job → List Path
  | .none => []
  | .reading change _ | .rebuilding change => [change]

/-- A loop over the graph of a session, and what has come about: the changes that were accepted, those that were
taken off the queue, and what has come of those that are done with, each in order. -/
structure Scene (σ : Type) where
  loop : Loop σ
  session : Session σ
  accepted : List Path := []
  taken : List Path := []
  dealt : List (Path × Fate) := []

namespace Scene

variable (tools : Toolchain σ) (s : Scene σ)

def env : σ := s.session.graph.layer.env

/-- The change that the next step of the loop takes. -/
def taking? : Option Path :=
  match s.loop.job with
  | .none => if s.loop.running then s.loop.queue.take?.map Prod.fst else none
  | _ => none

/-- The change that is done with after the next step of the loop, and what has come of it. -/
def fate? : Option (Path × Fate) :=
  match s.loop.job with
  | .none =>
    match s.taking? with
    | some change => if s.session.graph.containsPath tools.root change then none else some (change,.outside)
    | none => none
  | .reading change call =>
    let (call,g) := s.session.graph.poll tools call
    match g.result? call with
    | none => none
    | some (.error e) => some (change,.ofRead (.error e))
    | some (.ok ()) => if s.loop.options.rebuild.isSome then none else some (change,.ofRead (.ok ()))
  | .rebuilding change =>
    match s.loop.options.rebuild with
    | some rebuild => some (change,.compiled (rebuild s.session).1)
    | none => some (change,.compiled (.ok ()))

/-- A step of the loop. -/
def step : Scene σ :=
  let (loop,session) := s.loop.step tools s.session
  { s with loop, session, taken := s.taken ++ s.taking?.toList, dealt := s.dealt ++ (s.fate? tools).toList }

/-- A change is offered to the queue. -/
def push (path : Path) : Scene σ :=
  let (accepted,loop) := s.loop.push tools.root.path path
  { s with loop, accepted := if accepted then s.accepted ++ [tools.root.path.join path] else s.accepted }

def start : Scene σ :=
  let ((_,loop),session) := s.loop.start s.session
  { s with loop, session }

end Scene

/-- What can happen while a loop is watching. -/
inductive Event (σ : Type) where
  /-- Something is done to the files from outside. -/
  | edit (f : σ → σ)
  | push (path : Path)
  | start
  | tick
  | step

/-- An edit calls no callbacks. -/
def Event.Silent (o : Observer σ) (store : FileStore σ) : Event σ → Prop
  | .edit f => ∀ s, o.Quiet store s (f s)
  | .push _ | .start | .tick | .step => True

def Event.apply (tools : Toolchain σ) (s : Scene σ) : Event σ → Scene σ
  | .edit f => { s with session := s.session.withEnv (f s.env) }
  | .push path => s.push tools path
  | .start => s.start
  | .tick => { s with session := { s.session with graph := s.session.graph.tick } }
  | .step => s.step tools

/-- What comes of events in order. -/
def watch (tools : Toolchain σ) (s : Scene σ) (events : List (Event σ)) : Scene σ :=
  events.foldl (fun s e => e.apply tools s) s

/-! ## The moves of a loop -/

namespace Loop

variable {tools : Toolchain σ} {l : Loop σ} {s : Session σ} {change : Path}

theorem step_stopped (job : l.job = .none) (stopped : l.running = false) : l.step tools s = (l,s) := by
  simp only [step,job,stopped]
  rfl

theorem step_empty (job : l.job = .none) (running : l.running = true) (took : l.queue.take? = none) :
    l.step tools s = (l,s) := by
  simp only [step,job,running,take,took]
  rfl

theorem step_taking {queue : Queue} (job : l.job = .none) (running : l.running = true)
    (took : l.queue.take? = some (change,queue)) :
    l.step tools s = if s.graph.containsPath tools.root change then
      ({ l with queue, job := .reading change (.asked (.read change)) },
        s.withEnv (l.options.before change s.graph.layer.env).2)
    else ({ l with queue := queue.finish },s) := by
  simp only [step,job,running,take,took]
  show (if s.graph.containsPath tools.root change then _ else _ : StateM (Session σ) (Loop σ)) s = _
  cases s.graph.containsPath tools.root change <;> rfl

theorem step_reading {call call' : Graph.Call} {g : Graph σ} (job : l.job = .reading change call)
    (polled : s.graph.poll tools call = (call',g)) :
    l.step tools s = match g.result? call' with
      | none => ({ l with job := .reading change call' },{ s with graph := g })
      | some (.error e) => l.report change (.error (.compile e)) { s with graph := g }
      | some (.ok ()) =>
        if l.options.rebuild.isSome then ({ l with job := .rebuilding change },{ s with graph := g })
        else l.report change (.ok ()) { s with graph := g } := by
  have onGraph : Session.onGraph (fun g => g.poll tools call) s = (call',{ s with graph := g }) := by
    simp only [Session.onGraph,polled]
  simp only [step,job,bind,StateT.bind,onGraph,get,getThe,MonadStateOf.get,StateT.get,pure]
  cases g.result? call' with
  | none => rfl
  | some r =>
    cases r with
    | error e => rfl
    | ok u =>
      show (if l.options.rebuild.isSome then _ else _ : StateM (Session σ) (Loop σ)) { s with graph := g } = _
      cases l.options.rebuild.isSome <;> rfl

theorem step_rebuilding (job : l.job = .rebuilding change) :
    l.step tools s = match l.options.rebuild with
      | some rebuild => l.report change (rebuild s).1 (rebuild s).2
      | none => l.report change (.ok ()) s := by
  simp only [step,job]
  cases l.options.rebuild <;> rfl

end Loop

section

variable {tools : Toolchain σ} {o : Observer σ} {s s' : Scene σ} {change : Path}

/-- The loop is done with a change. -/
def Scene.ended (s : Scene σ) (change : Path) (fate : Fate) (session : Session σ) : Scene σ :=
  { s with
    loop := { s.loop with job := .none, queue := s.loop.queue.finish }
    session
    dealt := s.dealt ++ [(change,fate)] }

/-- What a step of a loop makes of a scene. -/
inductive Move (tools : Toolchain σ) (o : Observer σ) (s : Scene σ) : Scene σ → Prop where
  /-- There is nothing to do. -/
  | idles : Move tools o s s
  | passes {change : Path} {queue : Queue} (job : s.loop.job = .none) (running : s.loop.running = true)
      (took : s.loop.queue.take? = some (change,queue))
      (absent : s.session.graph.containsPath tools.root change = false) :
      Move tools o s { s with
        loop := { s.loop with queue := queue.finish }
        taken := s.taken ++ [change]
        dealt := s.dealt ++ [(change,.outside)] }
  | takes {change : Path} {queue : Queue} {env : σ} (job : s.loop.job = .none) (running : s.loop.running = true)
      (took : s.loop.queue.take? = some (change,queue))
      (present : s.session.graph.containsPath tools.root change = true)
      (told : o.Goes tools.store [.before change] s.env env) :
      Move tools o s { s with
        loop := { s.loop with queue, job := .reading change (.asked (.read change)) }
        session := s.session.withEnv env
        taken := s.taken ++ [change] }
  | reads {change : Path} {call call' : Graph.Call} {g : Graph σ} (job : s.loop.job = .reading change call)
      (polled : s.session.graph.poll tools call = (call',g)) (unfinished : g.result? call' = none) :
      Move tools o s { s with
        loop := { s.loop with job := .reading change call' }
        session := { s.session with graph := g } }
  | builds {change : Path} {call call' : Graph.Call} {g : Graph σ} (job : s.loop.job = .reading change call)
      (polled : s.session.graph.poll tools call = (call',g)) (result : g.result? call' = some (.ok ())) :
      Move tools o s { s with
        loop := { s.loop with job := .rebuilding change }
        session := { s.session with graph := g } }
  | ends {change : Path} {call call' : Graph.Call} {g : Graph σ} {r : Except CompileError Unit} {env : σ}
      (job : s.loop.job = .reading change call) (polled : s.session.graph.poll tools call = (call',g))
      (result : g.result? call' = some r)
      (told : o.Goes tools.store (ending change (r.mapError .compile)) g.layer.env env) :
      Move tools o s (s.ended change (.ofRead r) (Session.withEnv { s.session with graph := g } env))
  | built {change : Path} {r : Except BundleError Unit} {env : σ} {paths : PublicPaths}
      (job : s.loop.job = .rebuilding change) (told : o.Goes tools.store (ending change r) s.env env) :
      Move tools o s (s.ended change (.compiled r) { s.session.withEnv env with paths })

theorem report_eq {l : Loop σ} {store : FileStore σ} (seen : l.options.Seen o store) (change : Path)
    (r : Except BundleError Unit) (session : Session σ) :
    ∃ env, l.report change r session = ({ l with job := .none, queue := l.queue.finish },session.withEnv env) ∧
      o.Goes store (ending change r) session.graph.layer.env env := by
  cases r with
  | ok u => exact ⟨_,rfl,seen.after change (.ok ()) _⟩
  | error e => exact ⟨_,rfl,(seen.failed e _).trans (seen.after change (.error e) _)⟩

theorem ending_read (change : Path) (r : Except CompileError Unit) :
    Fate.notes change (.ofRead r) = .before change :: ending change (r.mapError .compile) := by
  cases r <;> rfl

/-- Where nothing is being processed, the next change is taken if there is one. -/
theorem move_of_none (s : Scene σ) (seen : s.loop.options.Seen o tools.store) (job : s.loop.job = .none) :
    Move tools o s (s.step tools) := by
  -- Where nothing is taken the scene stays as it is.
  have idle : ∀ {took : Option Path}, s.taking? = took → took = none →
      s.loop.step tools s.session = (s.loop,s.session) → Move tools o s (s.step tools) := by
    intro took taking nothing same
    have still : s.step tools = s := by
      simp only [Scene.step,same,Scene.fate?,job,taking,nothing,Option.toList_none,List.append_nil]
    rw [still]
    exact .idles
  cases running : s.loop.running with
  | false =>
    refine idle rfl ?_ (Loop.step_stopped job running)
    simp only [Scene.taking?,job,running,Bool.false_eq_true,if_false]
  | true =>
    cases took : s.loop.queue.take? with
    | none =>
      refine idle rfl ?_ (Loop.step_empty job running took)
      simp only [Scene.taking?,job,running,took,if_true,Option.map_none]
    | some p =>
      obtain ⟨change,queue⟩ := p
      have taking : s.taking? = some change := by
        simp only [Scene.taking?,job,running,took,if_true,Option.map_some]
      have stepped : s.loop.step tools s.session = _ := Loop.step_taking job running took
      cases present : s.session.graph.containsPath tools.root change with
      | false =>
        rw [present,if_neg Bool.false_ne_true] at stepped
        have same : s.step tools = { s with
            loop := { s.loop with queue := queue.finish }
            taken := s.taken ++ [change]
            dealt := s.dealt ++ [(change,.outside)] } := by
          simp only [Scene.step,stepped,Scene.fate?,job,taking,present,Bool.false_eq_true,if_false,Option.toList_some]
        rw [same]
        exact .passes job running took present
      | true =>
        rw [present,if_pos rfl] at stepped
        have same : s.step tools = { s with
            loop := { s.loop with queue, job := .reading change (.asked (.read change)) }
            session := s.session.withEnv (s.loop.options.before change s.env).2
            taken := s.taken ++ [change] } := by
          simp only [Scene.step,stepped,Scene.fate?,job,taking,present,if_true,Option.toList_some,Option.toList_none,
            List.append_nil]
          rfl
        rw [same]
        exact .takes job running took present (seen.before change _)

/-- Where a change is being read, the call is polled once more. -/
theorem move_of_reading (s : Scene σ) (seen : s.loop.options.Seen o tools.store) {change : Path} {call : Graph.Call}
    (job : s.loop.job = .reading change call) : Move tools o s (s.step tools) := by
  have taking : s.taking? = none := by simp only [Scene.taking?,job]
  cases polled : s.session.graph.poll tools call with
  | mk call' g =>
    have stepped : s.loop.step tools s.session = _ := Loop.step_reading job polled
    -- Where the change is done with, the callbacks are told.
    have ended : ∀ {r : Except CompileError Unit}, g.result? call' = some r →
        s.loop.step tools s.session =
          s.loop.report change (r.mapError .compile) { s.session with graph := g } →
        s.fate? tools = some (change,.ofRead r) → Move tools o s (s.step tools) := by
      intro r result reports fate
      obtain ⟨env,reported,told⟩ := report_eq seen change (r.mapError .compile) { s.session with graph := g }
      have same : s.step tools =
          s.ended change (.ofRead r) (Session.withEnv { s.session with graph := g } env) := by
        simp only [Scene.step,reports,reported,taking,fate,Option.toList_some,Option.toList_none,List.append_nil]
        rfl
      rw [same]
      exact .ends job polled result told
    have fate : s.fate? tools = match g.result? call' with
        | none => none
        | some (.error e) => some (change,.ofRead (.error e))
        | some (.ok ()) => if s.loop.options.rebuild.isSome then none else some (change,.ofRead (.ok ())) := by
      simp only [Scene.fate?,job,polled]
    cases result : g.result? call' with
    | none =>
      rw [result] at stepped fate
      have same : s.step tools = { s with
          loop := { s.loop with job := .reading change call' }
          session := { s.session with graph := g } } := by
        simp only [Scene.step,stepped,taking,fate,Option.toList_none,List.append_nil]
      rw [same]
      exact .reads job polled result
    | some r =>
      rw [result] at stepped fate
      cases r with
      | error e => exact ended result stepped fate
      | ok u =>
        cases rebuilds : s.loop.options.rebuild.isSome with
        | false =>
          simp only [rebuilds,Bool.false_eq_true,if_false] at stepped fate
          exact ended result stepped fate
        | true =>
          simp only [rebuilds,if_true] at stepped fate
          have same : s.step tools = { s with
              loop := { s.loop with job := .rebuilding change }
              session := { s.session with graph := g } } := by
            simp only [Scene.step,stepped,taking,fate,Option.toList_none,List.append_nil]
          rw [same]
          exact .builds job polled result

/-- Where the output is to be made, it is, and the change is done with. -/
theorem move_of_rebuilding (s : Scene σ) (seen : s.loop.options.Seen o tools.store) {change : Path}
    (job : s.loop.job = .rebuilding change) : Move tools o s (s.step tools) := by
  have taking : s.taking? = none := by simp only [Scene.taking?,job]
  have stepped : s.loop.step tools s.session = _ := Loop.step_rebuilding job
  -- Nothing of the session but the state of the plugins and the public paths has changed when all is reported.
  have reported : ∀ (r : Except BundleError Unit) (session : Session σ) (env : σ) (paths : PublicPaths),
      s.loop.step tools s.session = s.loop.report change r session → session = { s.session.withEnv env with paths } →
      o.Quiet tools.store s.env env → s.fate? tools = some (change,.compiled r) → Move tools o s (s.step tools) := by
    rintro r _ env paths reports rfl quiet fate
    obtain ⟨env',reported,told⟩ := report_eq seen change r { s.session.withEnv env with paths }
    have same : s.step tools = s.ended change (.compiled r) { s.session.withEnv env' with paths } := by
      simp only [Scene.step,reports,reported,taking,fate,Option.toList_some,Option.toList_none,List.append_nil]
      rfl
    rw [same]
    exact .built job (quiet.trans told)
  cases rebuilds : s.loop.options.rebuild with
  | none =>
    rw [rebuilds] at stepped
    refine reported (.ok ()) s.session s.env s.session.paths stepped rfl (.refl _ _ _) ?_
    simp only [Scene.fate?,job,rebuilds]
  | some rebuild =>
    rw [rebuilds] at stepped
    obtain ⟨env,paths,same,quiet⟩ := seen.rebuild rebuild rebuilds s.session
    refine reported _ _ env paths stepped same quiet ?_
    simp only [Scene.fate?,job,rebuilds]

/-- Every step of a loop is one of the moves. -/
theorem move_of_step (s : Scene σ) (seen : s.loop.options.Seen o tools.store) : Move tools o s (s.step tools) := by
  cases job : s.loop.job with
  | none => exact move_of_none s seen job
  | reading change call => exact move_of_reading s seen job
  | rebuilding change => exact move_of_rebuilding s seen job

/-! ## The order of the changes -/

/-- The queue, by how far the loop is: accepted changes wait behind those that were taken, the last of which the loop
may still be with. -/
structure Lined (s : Scene σ) : Prop where
  accepted : s.accepted = s.taken ++ s.loop.queue.waiting
  taken : s.taken = s.dealt.map Prod.fst ++ s.loop.job.changes
  pending : s.loop.queue.pending = s.loop.queue.waiting.length + s.loop.job.changes.length
  startable : s.loop.queue.startable = !s.loop.running
  stopped : s.loop.running = false → s.loop.job = .none ∧ s.loop.queue.state = .idle
  resting : s.loop.running = true → s.loop.job = .none → s.loop.queue.state = Queue.restState s.loop.queue.pending
  busy : s.loop.job ≠ .none → s.loop.queue.state = .recompiling

theorem Queue.take?_eq {q q' : Queue} (took : q.take? = some (change,q')) :
    ∃ rest, q.waiting = change :: rest ∧ q' = { q with waiting := rest, state := .recompiling } := by
  unfold take? at took
  split at took
  · cases took
  · rename_i first rest waiting
    split at took <;> cases took
    exact ⟨rest,waiting,rfl⟩

/-- A change that was being processed is done with. -/
theorem Queue.finish_eq {q : Queue} (busy : q.state = .recompiling) :
    q.finish = { q with pending := q.pending - 1, state := restState (q.pending - 1) } := by
  simp [finish,busy]

/-- While a change is being processed the loop runs. -/
theorem Lined.running (lined : Lined s) (job : s.loop.job ≠ .none) : s.loop.running = true := by
  cases running : s.loop.running with
  | true => rfl
  | false => exact absurd (lined.stopped running).1 job

/-- The queue while a change goes on being processed. -/
theorem Lined.goesOn (lined : Lined s) (job : s.loop.job ≠ .none) {next : Job} (here : next ≠ .none)
    (same : next.changes = s.loop.job.changes) (session : Session σ) :
    Lined { s with loop := { s.loop with job := next }, session } where
  accepted := lined.accepted
  taken := lined.taken.trans (by rw [same])
  pending := lined.pending.trans (by rw [same])
  startable := lined.startable
  stopped stopped := absurd (lined.stopped stopped).1 job
  resting _ none := absurd none here
  busy _ := lined.busy job

/-- The queue after a change that has been processed. -/
theorem Lined.ended (lined : Lined s) (busy : s.loop.job.changes = [change]) (fate : Fate) (session : Session σ) :
    Lined (s.ended change fate session) := by
  have job : s.loop.job ≠ .none := by
    intro none
    simp [none,Job.changes] at busy
  have running := lined.running job
  have pending := lined.pending
  rw [busy] at pending
  have finished := Queue.finish_eq (lined.busy job)
  refine ⟨?_,?_,?_,?_,?_,?_,?_⟩
  all_goals simp only [Scene.ended,finished]
  · exact lined.accepted
  · rw [lined.taken,busy]
    simp [Job.changes]
  · simp [pending,Job.changes]
  · exact lined.startable
  · intro stopped
    rw [running] at stopped
    cases stopped
  · exact fun _ _ => trivial
  · exact fun this => absurd rfl this

theorem Lined.move (lined : Lined s) (move : Move tools o s s') : Lined s' := by
  cases move with
  | idles => exact lined
  | @passes change queue job running took absent =>
    obtain ⟨rest,waiting,rfl⟩ := Queue.take?_eq took
    have pending := lined.pending
    rw [waiting,job] at pending
    refine ⟨?_,?_,?_,lined.startable,fun stopped => ?_,fun _ _ => rfl,fun this => absurd job this⟩
    · simp [lined.accepted,waiting,Queue.finish]
    · simp [lined.taken,job,Job.changes]
    · simp [pending,job,Job.changes,Queue.finish]
    · rw [running] at stopped
      cases stopped
  | @takes change queue env job running took present told =>
    obtain ⟨rest,waiting,rfl⟩ := Queue.take?_eq took
    have pending := lined.pending
    rw [waiting,job] at pending
    refine ⟨?_,?_,?_,lined.startable,fun stopped => ?_,fun _ none => ?_,fun _ => rfl⟩
    · simp [lined.accepted,waiting]
    · simp [lined.taken,job,Job.changes]
    · simp [pending,Job.changes]
    · rw [running] at stopped
      cases stopped
    · cases none
  | reads job | builds job =>
    have busy : s.loop.job ≠ .none := by rw [job]; exact nofun
    refine lined.goesOn busy ?_ ?_ _
    · exact nofun
    · rw [job]
      rfl
  | ends job => exact lined.ended (by rw [job]; rfl) _ _
  | built job => exact lined.ended (by rw [job]; rfl) _ _

/-- What is done to the session alone. -/
theorem Lined.session (lined : Lined s) (session : Session σ) : Lined { s with session } := { lined with }

/-- A change is accepted and waits at the end, or nothing has come of it. -/
theorem Scene.push_cases (s : Scene σ) (tools : Toolchain σ) (path : Path) :
    (s.loop.push tools.root.path path).1 = false ∧ s.push tools path = s ∨
      (s.loop.push tools.root.path path).1 = true ∧ s.push tools path = { s with
        loop := { s.loop with queue := { s.loop.queue with
          pending := s.loop.queue.pending + 1
          waiting := s.loop.queue.waiting ++ [tools.root.path.join path]
          state := if s.loop.queue.state = .watching then .queued else s.loop.queue.state } }
        accepted := s.accepted ++ [tools.root.path.join path] } := by
  unfold Scene.push Loop.push Queue.push
  by_cases ignored : s.loop.ignores tools.root.path (tools.root.path.join path)
  · simp [ignored]
  · by_cases disposed : s.loop.queue.state = .disposed
    · simp [ignored,disposed]
    · simp [ignored,disposed]

theorem Lined.push (lined : Lined s) (tools : Toolchain σ) (path : Path) : Lined (s.push tools path) := by
  rcases s.push_cases tools path with ⟨-,same⟩ | ⟨-,same⟩
  · rw [same]
    exact lined
  · rw [same]
    refine ⟨?_,lined.taken,?_,lined.startable,fun stopped => ?_,fun running job => ?_,fun job => ?_⟩
    · simp [lined.accepted]
    · simp only [lined.pending,List.length_append,List.length_singleton]
      omega
    · obtain ⟨job,idle⟩ := lined.stopped stopped
      exact ⟨job,by simp [idle]⟩
    · have resting := lined.resting running job
      simp only [resting,Queue.restState]
      split <;> simp
    · simp [lined.busy job]

theorem Lined.start (lined : Lined s) : Lined s.start := by
  unfold Scene.start Loop.start Queue.start?
  cases startable : s.loop.queue.startable with
  | false => exact lined
  | true =>
    have stopped : s.loop.running = false := by simpa [startable] using lined.startable
    obtain ⟨job,-⟩ := lined.stopped stopped
    exact ⟨lined.accepted,lined.taken,lined.pending,rfl,nofun,fun _ _ => rfl,fun this => absurd job this⟩

/-- Starting a loop, or trying to, calls at most the callback for it. -/
theorem Scene.start_cases (s : Scene σ) {store : FileStore σ} (seen : s.loop.options.Seen o store) :
    ∃ loop env, s.start = { s with loop, session := s.session.withEnv env } ∧ o.Quiet store s.env env ∧
      loop.job = s.loop.job ∧ loop.options = s.loop.options := by
  unfold Scene.start Loop.start
  cases s.loop.queue.start? with
  | none => exact ⟨s.loop,s.env,rfl,.refl o store s.env,rfl,rfl⟩
  | some queue => exact ⟨_,_,rfl,seen.ready s.env,rfl,rfl⟩

/-! ## What the graph and the callbacks are told -/

/-- How the graph is, by how far a loop is with a change: nothing is under way, or nothing but the read of the file. -/
def Job.Fits (tools : Toolchain σ) (g : Graph σ) : Job → Prop
  | .none | .rebuilding _ => g.Resting
  | .reading change call => ∃ x, tools.root.toId change = .ok x ∧
    (call = .asked (.read change) ∧ g.Resting ∨ ∃ n before, call = .under [.task n] ∧ g.Alone n x before)

theorem Job.Fits.unmoved {g after : Graph σ} {job : Job} (fits : job.Fits tools g) (unmoved : g.Unmoved after) :
    job.Fits tools after := by
  cases job with
  | none | rebuilding change => exact Graph.Resting.unmoved fits unmoved
  | reading change call =>
    obtain ⟨x,found,⟨same,resting⟩ | ⟨n,before,same,alone⟩⟩ := fits
    · exact ⟨x,found,.inl ⟨same,resting.unmoved unmoved⟩⟩
    · exact ⟨x,found,.inr ⟨n,before,same,alone.unmoved unmoved⟩⟩

/-- A call that reads a file is carried on from a graph in which a task for it is under way, which is a new one if the
file has only been asked for. -/
inductive Carries (tools : Toolchain σ) (g : Graph σ) (change : Path) (x : ModuleId) :
    Graph.Call → Nat → Registry → Graph σ → Prop where
  | begins (resting : g.Resting) : Carries tools g change x (.asked (.read change)) (g.join x).1 g.registry (g.join x).2
  | goes {n : Nat} {before : Registry} (alone : g.Alone n x before) :
      Carries tools g change x (.under [.task n]) n before g

theorem carries_of_fits {g g' : Graph σ} {call call' : Graph.Call} (fits : (Job.reading change call).Fits tools g)
    (polled : g.poll tools call = (call',g')) :
    ∃ x n before start, tools.root.toId change = .ok x ∧ Carries tools g change x call n before start ∧
      call' = .under [.task n] ∧ g' = Graph.carry tools tools.fuel start n := by
  obtain ⟨x,found,⟨rfl,resting⟩ | ⟨n,before,rfl,alone⟩⟩ := fits
  · rw [Graph.poll_read g found] at polled
    cases polled
    exact ⟨x,_,_,_,found,.begins resting,rfl,rfl⟩
  · cases polled
    exact ⟨x,n,before,g,found,.goes alone,rfl,rfl⟩

section

variable {g start : Graph σ} {x : ModuleId} {call : Graph.Call} {n : Nat} {before : Registry} {R : σ → σ → Prop}

theorem Carries.alone (carries : Carries tools g change x call n before start)
    (found : tools.root.toId change = .ok x) : start.Alone n x before := by
  cases carries with
  | begins resting => exact resting.alone found
  | goes alone => exact alone

theorem Carries.heeds (carries : Carries tools g change x call n before start) (heeds : g.Heeds R) :
    start.Heeds R ∧ start.layer = g.layer := by
  cases carries with
  | begins resting => exact ⟨heeds.join x,by rw [(Graph.grown_join g (List.mem_singleton.mpr rfl : x ∈ [x])).1.same]⟩
  | goes alone => exact ⟨heeds,rfl⟩

/-- What is kept by all steps while the plugins call no callback holds when a task has been carried on. -/
theorem carry_keeps {Q : Graph σ → Prop} (obeys : tools.Heeds (o.Quiet tools.store))
    (heeds : start.Heeds (o.Quiet tools.store))
    (step : ∀ {g : Graph σ} (m : Nat), g.Heeds (o.Quiet tools.store) →
      o.Quiet tools.store g.layer.env (g.step tools m).layer.env → Q g → Q (g.step tools m))
    (n : Nat) (now : Q start) :
    (Graph.carry tools tools.fuel start n).Heeds (o.Quiet tools.store) ∧
      o.Quiet tools.store start.layer.env (Graph.carry tools tools.fuel start n).layer.env ∧
      Q (Graph.carry tools tools.fuel start n) := by
  refine Graph.carry_of_step
    (Q := fun g => g.Heeds (o.Quiet tools.store) ∧ o.Quiet tools.store start.layer.env g.layer.env ∧ Q g)
    (fun {g} m ⟨heeds,quiet,now⟩ => ?_) tools.fuel n ⟨heeds,.refl o tools.store _,now⟩
  obtain ⟨left,steps⟩ := heeds.step obeys m
  have goes := Observer.Goes.of_steps steps
  exact ⟨left,quiet.trans goes,step m heeds goes now⟩

end

/-- The calls for changes that are done with, and for the one that a loop is with. -/
def told (dealt : List (Path × Fate)) (job : Job) : List Note :=
  dealt.flatMap (fun d => d.2.notes d.1) ++ job.changes.map .before

theorem told_ended {dealt : List (Path × Fate)} {job : Job} (busy : job.changes = [change]) (fate : Fate)
    {r : Except BundleError Unit} (notes : fate.notes change = .before change :: ending change r) :
    told dealt job ++ ending change r = told (dealt ++ [(change,fate)]) .none := by
  rw [told,busy,told]
  simp [notes,Job.changes]

/-- What all events keep, from a start with some calls of callbacks on. -/
structure Kept (tools : Toolchain σ) (o : Observer σ) (log : List Note) (s : Scene σ) : Prop extends Lined s where
  seen : s.loop.options.Seen o tools.store
  heeds : s.session.graph.Heeds (o.Quiet tools.store)
  fits : s.loop.job.Fits tools s.session.graph
  log : o.log s.env = log ++ told s.dealt s.loop.job

variable {log : List Note}

/-- What a call that reads a file leads to. -/
theorem Kept.polled (kept : Kept tools o log s) (obeys : tools.Heeds (o.Quiet tools.store)) {call call' : Graph.Call}
    {g : Graph σ} (job : s.loop.job = .reading change call) (polled : s.session.graph.poll tools call = (call',g)) :
    (Job.reading change call').Fits tools g ∧ (∀ {r}, g.result? call' = some r → g.Resting) ∧
      g.Heeds (o.Quiet tools.store) ∧ o.Quiet tools.store s.env g.layer.env := by
  have fits := kept.fits
  rw [job] at fits
  obtain ⟨x,n,before,start,found,carries,rfl,rfl⟩ := carries_of_fits fits polled
  obtain ⟨heeds,layer⟩ := carries.heeds kept.heeds
  obtain ⟨left,quiet,alone⟩ := carry_keeps (Q := fun g => g.Alone n x before) obeys heeds
    (fun m _ _ alone => alone.step tools m) n (carries.alone found)
  rw [layer] at quiet
  refine ⟨⟨x,found,.inr ⟨n,before,rfl,alone⟩⟩,fun {r} result => ?_,left,quiet⟩
  rw [Graph.result?_task] at result
  obtain ⟨outcome,ended,-⟩ := Option.map_eq_some_iff.mp result
  exact alone.resting ended

theorem Kept.move (kept : Kept tools o log s) (obeys : tools.Heeds (o.Quiet tools.store)) (move : Move tools o s s') :
    Kept tools o log s' := by
  have lined := kept.toLined.move move
  cases move with
  | idles => exact kept
  | @passes change queue job running took absent =>
    refine { lined with seen := kept.seen, heeds := kept.heeds, fits := kept.fits, log := kept.log.trans ?_ }
    simp [told,Fate.notes]
  | @takes change queue env job running took present goes =>
    have unmoved := s.session.unmoved_withEnv env
    have fits := kept.fits
    rw [job] at fits
    have found : ∃ x, tools.root.toId change = .ok x := by
      unfold Graph.containsPath at present
      split at present
      · rename_i x found
        exact ⟨x,found⟩
      · cases present
    obtain ⟨x,found⟩ := found
    refine { lined with
      seen := kept.seen
      heeds := kept.heeds.unmoved unmoved
      fits := ⟨x,found,.inl ⟨rfl,Graph.Resting.unmoved fits unmoved⟩⟩
      log := goes.told.trans ?_ }
    rw [kept.log,job]
    simp [told,Job.changes]
  | @reads change call call' g job polled unfinished =>
    obtain ⟨fits,-,heeds,quiet⟩ := kept.polled obeys job polled
    refine { lined with seen := kept.seen, heeds, fits, log := quiet.told.trans ?_ }
    rw [List.append_nil,kept.log,job]
    rfl
  | @builds change call call' g job polled result =>
    obtain ⟨-,resting,heeds,quiet⟩ := kept.polled obeys job polled
    refine { lined with seen := kept.seen, heeds, fits := resting result, log := quiet.told.trans ?_ }
    rw [List.append_nil,kept.log,job]
    rfl
  | @ends change call call' g r env job polled result goes =>
    obtain ⟨-,resting,heeds,quiet⟩ := kept.polled obeys job polled
    have unmoved := Session.unmoved_withEnv { s.session with graph := g } env
    refine { lined with
      seen := kept.seen
      heeds := heeds.unmoved unmoved
      fits := (resting result).unmoved unmoved
      log := goes.told.trans ?_ }
    rw [quiet.told,List.append_nil,kept.log,List.append_assoc,told_ended (by rw [job]; rfl) _ (ending_read change r)]
    rfl
  | @built change r env paths job goes =>
    have fits := kept.fits
    rw [job] at fits
    have unmoved := s.session.unmoved_withEnv env
    refine { lined with
      seen := kept.seen
      heeds := kept.heeds.unmoved unmoved
      fits := Graph.Resting.unmoved fits unmoved
      log := goes.told.trans ?_ }
    rw [kept.log,List.append_assoc,told_ended (by rw [job]; rfl) (.compiled r) rfl]
    rfl

/-- The state of the plugins is acted on in silence, or the clock ticks. -/
theorem Kept.silent (kept : Kept tools o log s) {session : Session σ} (unmoved : s.session.graph.Unmoved session.graph)
    (same : o.log session.graph.layer.env = o.log s.env) : Kept tools o log { s with session } :=
  { kept.toLined.session session with
    seen := kept.seen
    heeds := kept.heeds.unmoved unmoved
    fits := kept.fits.unmoved unmoved
    log := same.trans kept.log }

theorem Kept.apply (kept : Kept tools o log s) (obeys : tools.Heeds (o.Quiet tools.store)) {e : Event σ}
    (silent : e.Silent o tools.store) : Kept tools o log (e.apply tools s) := by
  cases e with
  | edit f => exact kept.silent (s.session.unmoved_withEnv _) ((silent s.env).told.trans (List.append_nil _))
  | push path =>
    have lined := kept.toLined.push tools path
    rcases s.push_cases tools path with ⟨-,same⟩ | ⟨-,same⟩
    all_goals
      show Kept tools o log (s.push tools path)
      rw [same] at lined ⊢
      exact { lined with seen := kept.seen, heeds := kept.heeds, fits := kept.fits, log := kept.log }
  | start =>
    have lined := kept.toLined.start
    obtain ⟨loop,env,same,quiet,job,options⟩ := s.start_cases kept.seen
    show Kept tools o log s.start
    rw [same] at lined ⊢
    refine { lined with
      seen := options ▸ kept.seen
      heeds := kept.heeds.unmoved (s.session.unmoved_withEnv env)
      fits := job ▸ kept.fits.unmoved (s.session.unmoved_withEnv env)
      log := quiet.told.trans ?_ }
    rw [List.append_nil,kept.log,job]
  | tick => exact kept.silent ⟨rfl,rfl,rfl,rfl,rfl,rfl⟩ rfl
  | step => exact kept.move obeys (move_of_step s kept.seen)

theorem Kept.watch (kept : Kept tools o log s) (obeys : tools.Heeds (o.Quiet tools.store)) {events : List (Event σ)}
    (silent : ∀ e ∈ events, e.Silent o tools.store) : Kept tools o log (watch tools s events) := by
  induction events generalizing s with
  | nil => exact kept
  | cons e events ih =>
    exact ih (kept.apply obeys (silent e List.mem_cons_self)) fun e' member => silent e' (List.mem_cons_of_mem _ member)

end

end Watch

end Bundling
