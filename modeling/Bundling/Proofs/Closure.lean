import Bundling.Proofs.Functions
import Bundling.Proofs.Performing
import Bundling.Proofs.Walk

/-!
# Closed registries

An operation in which nothing suspends leaves a registry that lacks an import only where it was lacking before or where
rollbacks let commits stand that nobody who waits knows of. The registries after some operations are therefore all closed
just where no such commit dangles when its operation is over (`registry_closed_iff`).
-/

namespace Bundling.Graph

variable {σ : Type} {g : Graph σ}

/-- An operation on a graph. -/
inductive Operation (σ : Type) where
  | request (r : Request)
  | setEntries (entries : List Path)
  | collect
  /-- Something outside changes what the plugins act on, such as the contents of the store. -/
  | change (f : σ → σ)

/-- What an operation makes of a graph. -/
def Operation.run (tools : Toolchain σ) (g : Graph σ) : Operation σ → Graph σ
  | request r => (g.run tools r).2
  | setEntries entries =>
    match g.setEntries tools.root entries with
    | .ok g => g
    | .error _ => g
  | collect => g.collect.2
  | change f => { g with layer := { g.layer with env := f g.layer.env } }

/-- The graphs after each of some operations. -/
def states (tools : Toolchain σ) : Graph σ → List (Operation σ) → List (Graph σ)
  | _, [] => []
  | g, o :: os => o.run tools g :: states tools (o.run tools g) os

/-- Carries out an operation in which nothing suspends. -/
def Operation.perform (tools : Toolchain σ) (g : Graph σ) : Operation σ → Option (Passage σ)
  | request r => (g.perform tools r).map Prod.snd
  | setEntries entries =>
    match g.setEntries tools.root entries with
    | .ok g => some { graph := g }
    | .error _ => some { graph := g }
  | collect => some { graph := g.collect.2 }
  | change f => some { graph := { g with layer := { g.layer with env := f g.layer.env } } }

/-- Carries out operations one after the other. -/
def performAll (tools : Toolchain σ) : Graph σ → List (Operation σ) → Option (List (Passage σ))
  | _, [] => some []
  | g, o :: os =>
    (o.perform tools g).bind fun p => (performAll tools p.graph os).map fun ps => p :: ps

theorem run_operation {tools : Toolchain σ} (enough : 0 < tools.fuel) {o : Operation σ} {p : Passage σ}
    (found : o.perform tools g = some p) : o.run tools g = p.graph := by
  cases o with
  | request r =>
    obtain ⟨⟨result,q⟩,done,rfl⟩ := Option.map_eq_some_iff.mp found
    exact congrArg Prod.snd (run_of_perform done enough)
  | setEntries entries =>
    simp only [Operation.perform] at found
    simp only [Operation.run]
    split at found <;> cases found <;> simp only [*]
  | collect | change f =>
    cases found
    rfl

theorem states_eq {tools : Toolchain σ} (enough : 0 < tools.fuel) {operations : List (Operation σ)}
    {passages : List (Passage σ)} (performed : performAll tools g operations = some passages) :
    g.states tools operations = passages.map Passage.graph := by
  induction operations generalizing g passages with
  | nil =>
    cases performed
    rfl
  | cons o os ih =>
    rw [performAll] at performed
    obtain ⟨p,first,rest⟩ := Option.bind_eq_some_iff.mp performed
    obtain ⟨ps,later,rfl⟩ := Option.map_eq_some_iff.mp rest
    rw [states,run_operation enough first,ih later,List.map_cons]

theorem performed_perform {tools : Toolchain σ} {r : Request} {result : Except CompileError Unit}
    {p : Passage σ} (resting : g.Resting) (found : g.perform tools r = some (result,p)) : Performed g p := by
  have still : Performed g { graph := g.tick } :=
    ⟨⟨resting.stamped,resting.finished,resting.idle⟩,fun found _ absent => .inl ⟨found,absent⟩⟩
  cases r with
  | compile =>
    obtain ⟨⟨items,q⟩,all,ends⟩ := Option.bind_eq_some_iff.mp found
    obtain ⟨_,-,equal⟩ := Option.map_eq_some_iff.mp ends
    cases equal
    exact (performed_throughItems still.resting all).of_registry rfl
  | read path =>
    unfold Graph.perform at found
    cases id : tools.root.toId path with
    | error e =>
      simp [begin,id,result?] at found
      obtain ⟨-,rfl⟩ := found
      exact still
    | ok id' =>
      simp only [begin,id] at found
      obtain ⟨⟨items,q⟩,all,ends⟩ := Option.bind_eq_some_iff.mp found
      obtain ⟨_,-,equal⟩ := Option.map_eq_some_iff.mp ends
      cases equal
      have all : throughItems tools g.tick ([id'].map .wanted) = some (items,q) := all
      exact (performed_throughItems still.resting all).of_registry rfl
  | push path contents =>
    unfold Graph.perform at found
    cases id : tools.root.toId path with
    | error e =>
      simp [begin,id,result?] at found
      obtain ⟨-,rfl⟩ := found
      exact still
    | ok id' =>
      simp only [begin,id] at found
      obtain ⟨⟨items,q⟩,all,ends⟩ := Option.bind_eq_some_iff.mp found
      obtain ⟨_,-,equal⟩ := Option.map_eq_some_iff.mp ends
      cases equal
      rw [throughItems] at all
      obtain ⟨q',first,rest⟩ := Option.bind_eq_some_iff.mp all
      simp [throughItems] at rest
      obtain ⟨-,rfl⟩ := rest
      have performed := performed_through (still.resting.setout_start id' contents) first
      have idle : Performed q'.graph { graph := q'.graph } :=
        ⟨performed.resting,fun found _ absent => .inl ⟨found,absent⟩⟩
      exact (performed.andThen idle).of_registry rfl

theorem performed_operation {tools : Toolchain σ} {o : Operation σ} {p : Passage σ} (resting : g.Resting)
    (found : o.perform tools g = some p) : Performed g p := by
  cases o with
  | request r =>
    obtain ⟨⟨result,q⟩,done,rfl⟩ := Option.map_eq_some_iff.mp found
    exact performed_perform resting done
  | setEntries entries =>
    simp only [Operation.perform,setEntries] at found
    cases ids : entryIds tools.root entries with
    | error e =>
      rw [ids] at found
      cases found
      exact ⟨resting,fun found _ absent => .inl ⟨found,absent⟩⟩
    | ok ids' =>
      rw [ids] at found
      cases found
      exact ⟨⟨resting.stamped,resting.finished,resting.idle⟩,fun found _ absent => .inl ⟨found,absent⟩⟩
  | collect =>
    cases found
    refine ⟨⟨?_,resting.finished,resting.idle⟩,?_⟩
    · intro i v found
      exact resting.stamped (Registry.get?_collect_iff.mp found).1
    · intro i v k found member absent
      exact .inl ⟨(Registry.get?_collect_iff.mp found).1,Registry.get?_import_of_collect found member absent⟩
  | change f =>
    cases found
    exact ⟨⟨resting.stamped,resting.finished,resting.idle⟩,fun found _ absent => .inl ⟨found,absent⟩⟩

theorem Performed.closed_iff {p : Passage σ} (performed : Performed g p) (closed : g.registry.Closed) :
    p.graph.registry.Closed ↔ ∀ c ∈ p.strays, c.Stands p.graph.registry := by
  constructor
  · intro closed c _ current dangling
    obtain ⟨i,member,absent⟩ := Commit.isDangling_iff.mp dangling
    exact Registry.not_contains_iff.mpr absent (closed _ _ current i member)
  · intro stands i v found k member
    refine Classical.byContradiction fun missing => ?_
    have absent := Registry.not_contains_iff.mp missing
    rcases performed.dangling found member absent with ⟨before,gone⟩ | ⟨c,stray,rfl⟩
    · exact Registry.not_contains_iff.mpr gone (closed i v before k member)
    · have same := Registry.get?_id found
      subst same
      exact stands c stray found (Commit.isDangling_iff.mpr ⟨k,member,absent⟩)

theorem closed_iff_performAll {tools : Toolchain σ} {operations : List (Operation σ)}
    {passages : List (Passage σ)} (resting : g.Resting) (closed : g.registry.Closed)
    (performed : performAll tools g operations = some passages) :
    (∀ p ∈ passages, p.graph.registry.Closed) ↔
      ∀ p ∈ passages, ∀ c ∈ p.strays, c.Stands p.graph.registry := by
  induction operations generalizing g passages with
  | nil =>
    cases performed
    simp
  | cons o os ih =>
    rw [performAll] at performed
    obtain ⟨p,first,rest⟩ := Option.bind_eq_some_iff.mp performed
    obtain ⟨ps,later,rfl⟩ := Option.map_eq_some_iff.mp rest
    have here := performed_operation resting first
    rw [List.forall_mem_cons,List.forall_mem_cons,here.closed_iff closed]
    constructor
    · rintro ⟨stands,others⟩
      exact ⟨stands,(ih here.resting ((here.closed_iff closed).mpr stands) later).mp others⟩
    · rintro ⟨stands,others⟩
      exact ⟨stands,(ih here.resting ((here.closed_iff closed).mpr stands) later).mpr others⟩

/-- From a new graph on, operations in which nothing suspends lead where their passages lead, and the
registry is closed after all of them if and only if no commit that a rollback further below has let
stand dangles when its operation is over. -/
theorem registry_closed_iff {tools : Toolchain σ} (enough : 0 < tools.fuel) {root : ProjectRoot}
    {entries : List Path} {env : σ} (built : build root entries env = .ok g) {operations : List (Operation σ)}
    {passages : List (Passage σ)} (performed : performAll tools g operations = some passages) :
    g.states tools operations = passages.map Passage.graph ∧
      ((∀ g' ∈ g.states tools operations, g'.registry.Closed) ↔
        ∀ p ∈ passages, ∀ c ∈ p.strays, c.Stands p.graph.registry) := by
  have same := states_eq enough performed
  refine ⟨same,?_⟩
  rw [same,List.forall_mem_map]
  unfold build at built
  cases ids : entryIds root entries with
  | error e =>
    rw [ids] at built
    cases built
  | ok ids' =>
    rw [ids] at built
    cases built
    refine closed_iff_performAll ⟨?_,?_,rfl⟩ Registry.closed_empty performed
    · intro i v found
      simp at found
    · intro m i s there
      simp [At] at there

/-- In the ring without `c`, what is compiled fails and leaves nothing. -/
theorem registry_closed_iff_ring :
    ∃ g, build ⟨.absolute []⟩ [⟨"/a"⟩] [(Letter.a,"bc"),(Letter.b,"a")] = .ok g ∧
      (g.states (letterTools (fun _ => 0) 20) [.request .compile,.request (.read ⟨"/b"⟩)]).length = 2 ∧
      ∀ g' ∈ g.states (letterTools (fun _ => 0) 20) [.request .compile,.request (.read ⟨"/b"⟩)],
        g'.registry.Closed := by
  have built : build ⟨.absolute []⟩ [⟨"/a"⟩] [(Letter.a,"bc"),(Letter.b,"a")] =
      .ok { layer := { env := [(Letter.a,"bc"),(Letter.b,"a")] }, entries := [Letter.a] } := by rfl
  obtain ⟨passages,performed,none⟩ : ∃ passages, performAll (letterTools (fun _ => 0) 20)
      { layer := { env := [(Letter.a,"bc"),(Letter.b,"a")] }, entries := [Letter.a] }
        [.request .compile,.request (.read ⟨"/b"⟩)] = some passages ∧
      (passages.all fun p => p.strays.isEmpty) = true := Option.map_eq_some_iff.mp (by decide +kernel)
  refine ⟨_,built,rfl,(registry_closed_iff (by decide) built performed).2.mpr ?_⟩
  intro p member c stray
  have empty := List.all_eq_true.mp none p member
  rw [List.isEmpty_iff.mp empty] at stray
  cases stray

/-- Where `a` needs `b`, `b` needs `d` and `e`, `d` needs `a`, and `e` cannot be compiled, a compile leaves
`d` without `a`: when `b` is taken back, `a` is still there, and who takes back `a` does not know `d`. -/
theorem compile_leaves_open :
    ∃ g, build ⟨.absolute []⟩ [⟨"/a"⟩] [(Letter.a,"b"),(Letter.b,"de"),(Letter.d,"a"),(Letter.e,"x")] = .ok g ∧
      (performAll (letterTools (fun _ => 0) 20) g [.request .compile]).isSome ∧
      ∃ g' ∈ g.states (letterTools (fun _ => 0) 20) [.request .compile], ¬ g'.registry.Closed := by
  refine ⟨{ layer := { env := [(Letter.a,"b"),(Letter.b,"de"),(Letter.d,"a"),(Letter.e,"x")] }, entries := [Letter.a] },
    by rfl,by decide +kernel,_,List.mem_singleton.mpr rfl,?_⟩
  refine Registry.not_closed (show (Registry.get? _ Letter.d).map _ = some [Letter.a] from ?_) List.mem_cons_self ?_
  · decide +kernel
  · decide +kernel

end Bundling.Graph
