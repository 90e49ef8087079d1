import Bundling.Proofs.Functions
import Bundling.Proofs.Termination

/-!
# Full compiles

A compile of a graph with nothing compiled goes well if and only if everything below the entries
compiles in the world that the toolchain follows, and then the registry holds just that, as the world
makes it (`full_compile_exact`). So neither the pauses of the plugins nor the order of the entries
matter.
-/

namespace Bundling

/-- Reachability depends only on which roots there are. -/
theorem World.reaches_congr {w : World} {roots others : List ModuleId} (same : ∀ id, id ∈ others ↔ id ∈ roots)
    {id : ModuleId} : w.Reaches others id ↔ w.Reaches roots id :=
  ⟨fun reached => reached.trans fun i member => .root ((same i).mp member),
    fun reached => reached.trans fun i member => .root ((same i).mpr member)⟩

namespace Graph

section

variable {σ : Type} {tools : Toolchain σ} {P : σ → Prop} {w : World} {start g : Graph σ}

/-- What a compile of a graph with nothing compiled comes to: if it went well, the graph is as the world
has it, and everything compiles; else there is something that does not. -/
theorem exact_of_returned (follows : tools.Follows P w) (resting : start.Resting) (empty : start.registry = .empty)
    (unhooked : start.hooks.registered = []) (fine : P start.layer.env) {limit : Nat} {c : Call}
    (ran : rounds tools limit start [.asked .compile] = ([c],g)) {result : Except CompileError Unit}
    (returned : g.result? c = some result) :
    g.Resting ∧ g.entries = start.entries ∧ g.hooks.registered = [] ∧ P g.layer.env ∧
      (result = .ok () → g.Exact w start.entries ∧ w.Compiles start.entries) ∧
      (result ≠ .ok () → ¬ w.Compiles start.entries) := by
  have asked : Call.Reads tools [] start start.entries (.asked .compile) := ⟨rfl,.inl ⟨rfl,rfl⟩⟩
  obtain ⟨outside,c',same,now,reads⟩ := (lasting_compiling (P := P) (w := w) follows start).rounds
    (fun id member => member) asked (resting.compiling empty unhooked fine) limit
  rw [ran] at same now reads
  obtain rfl : c = c' := by simpa using same
  cases c with
  | asked r => cases returned
  | refused e => exact reads.elim
  | under items =>
    exact ⟨now.orderly.resting (result?_under reads returned).1,now.entries,now.faithful.unhooked,now.faithful.fine,
      now.ended reads returned⟩

/-- Where everything below the entries compiles, the compile goes well, after some rounds. -/
theorem ok_of_compiles (follows : tools.Follows P w) (resting : start.Resting) (empty : start.registry = .empty)
    (unhooked : start.hooks.registered = []) (fine : P start.layer.env)
    (deep : (w.files.length + 1) ^ 2 ≤ tools.fuel) (compiles : w.Compiles start.entries) :
    ∃ limit c g, rounds tools limit start [.asked .compile] = ([c],g) ∧ g.result? c = some (.ok ()) := by
  have asked : Call.Reads tools [] start.tick start.entries (.asked .compile) := ⟨rfl,.inl ⟨rfl,rfl⟩⟩
  have going : Going tools P w start [] start := by
    refine ⟨resting.compiling empty unhooked fine,fun late there => ?_,?_⟩
    · have := there.lt
      omega
    · exact Nat.add_le_add_left List.countP_le_length _
  obtain ⟨outside,items,first,going',reads⟩ := (lasting_going follows compiles).poll (fun id member => member)
    asked going.after_tick.1
  have tasks : ∀ item ∈ items, ∃ n, item = .task n ∧ ∃ i s, (poll tools start.tick (.asked .compile)).2.At n i s := by
    intro item member
    obtain ⟨n,rfl⟩ : ∃ n, item = .task n := by
      obtain rfl := Call.under.inj first
      exact exists_task_of_pollItems member
    obtain ⟨id,-,-,there⟩ := exists_left_of_forall₂ reads.1 member
    exact ⟨n,rfl,id,there⟩
  obtain ⟨limit,result,calls,returned⟩ := going'.ends follows compiles deep tasks
  have ran : rounds tools (limit + 1) start [.asked .compile] =
      ([.under items],(rounds tools limit (poll tools start.tick (.asked .compile)).2 [.under items]).2) := by
    have round : rounds tools (limit + 1) start [.asked .compile] =
        rounds tools limit (poll tools start.tick (.asked .compile)).2 [(poll tools start.tick (.asked .compile)).1] := rfl
    rw [round,first]
    exact Prod.ext calls rfl
  refine ⟨limit + 1,.under items,_,ran,?_⟩
  rw [returned]
  by_contra failed
  refine (exact_of_returned follows resting empty unhooked fine ran returned).2.2.2.2.2 ?_ compiles
  rintro rfl
  exact failed rfl

/-- A graph with nothing compiled, and a toolchain that follows a world. The steps of a round are
enough for tasks that wait for one another in any way. -/
structure Uncompiled (tools : Toolchain σ) (P : σ → Prop) (w : World) (g : Graph σ) : Prop where
  follows : tools.Follows P w
  resting : g.Resting
  empty : g.registry = .empty
  unhooked : g.hooks.registered = []
  fine : P g.layer.env
  deep : (w.files.length + 1) ^ 2 ≤ tools.fuel

theorem uncompiled_build {root : ProjectRoot} {entries : List Path} {env : σ}
    (built : build root entries env = .ok g) (follows : tools.Follows P w) (fine : P env)
    (deep : (w.files.length + 1) ^ 2 ≤ tools.fuel) : g.Uncompiled tools P w := by
  unfold build at built
  cases ids : entryIds root entries with
  | error e =>
    rw [ids] at built
    cases built
  | ok ids' =>
    rw [ids] at built
    cases built
    refine ⟨follows,⟨?_,?_,rfl⟩,rfl,rfl,fine,deep⟩
    · intro i v found
      simp at found
    · intro m i s there
      simp [At] at there

theorem Uncompiled.returns_iff (new : start.Uncompiled tools P w) :
    (∃ limit c g, rounds tools limit start [.asked .compile] = ([c],g) ∧ g.result? c = some (.ok ())) ↔
      w.Compiles start.entries := by
  constructor
  · rintro ⟨limit,c,g,ran,returned⟩
    obtain ⟨-,-,-,-,good,-⟩ := exact_of_returned new.follows new.resting new.empty new.unhooked new.fine ran returned
    exact (good rfl).2
  · exact ok_of_compiles new.follows new.resting new.empty new.unhooked new.fine new.deep

theorem Uncompiled.ok_iff (new : start.Uncompiled tools P w) {limit : Nat} {c : Call}
    (ran : rounds tools limit start [.asked .compile] = ([c],g)) {result : Except CompileError Unit}
    (returned : g.result? c = some result) : result = .ok () ↔ w.Compiles start.entries := by
  obtain ⟨-,-,-,-,good,bad⟩ := exact_of_returned new.follows new.resting new.empty new.unhooked new.fine ran returned
  constructor
  · exact fun well => (good well).2
  · intro compiles
    by_contra failed
    exact bad failed compiles

theorem Uncompiled.get?_eq (new : start.Uncompiled tools P w) {limit : Nat} {c : Call}
    (ran : rounds tools limit start [.asked .compile] = ([c],g)) (returned : g.result? c = some (.ok ()))
    (id : ModuleId) :
    (g.registry.contains id = true ↔ w.Reaches start.entries id) ∧
      (w.Reaches start.entries id → g.get? id = w.compile? id) := by
  obtain ⟨-,-,-,-,good,-⟩ := exact_of_returned new.follows new.resting new.empty new.unhooked new.fine ran returned
  obtain ⟨exact_,compiles⟩ := good rfl
  have same : w.Reaches start.entries id → g.get? id = w.compile? id := by
    intro reached
    obtain ⟨m,compiled⟩ := compiles id reached
    rw [compiled]
    exact (exact_ id m).mpr ⟨reached,compiled⟩
  refine ⟨?_,same⟩
  rw [Registry.contains_iff]
  constructor
  · rintro ⟨v,found⟩
    exact ((exact_ id v.body).mp (get?_iff.mpr ⟨v,found,rfl⟩)).1
  · intro reached
    obtain ⟨m,compiled⟩ := compiles id reached
    obtain ⟨v,found,-⟩ := get?_iff.mp ((same reached).trans compiled)
    exact ⟨v,found⟩

/-- A compile of a graph with nothing compiled comes to a good end if and only if everything below the
entries compiles; whenever it comes to an end, the end is good exactly then, and what is registered is
what is below the entries, each module as the world makes it. A compile with other pauses, and with the
entries in another order, comes to the same. -/
theorem full_compile_exact {σ' : Type} {tools' : Toolchain σ'} {P' : σ' → Prop} {start' : Graph σ'}
    (new : start.Uncompiled tools P w) (new' : start'.Uncompiled tools' P' w)
    (same : ∀ id, id ∈ start'.entries ↔ id ∈ start.entries) :
    ((∃ limit c g, rounds tools limit start [.asked .compile] = ([c],g) ∧ g.result? c = some (.ok ())) ↔
      w.Compiles start.entries) ∧
    (∀ limit c g result, rounds tools limit start [.asked .compile] = ([c],g) → g.result? c = some result →
      (result = .ok () ↔ w.Compiles start.entries) ∧
      (result = .ok () → ∀ id, (g.registry.contains id = true ↔ w.Reaches start.entries id) ∧
        (w.Reaches start.entries id → g.get? id = w.compile? id)) ∧
      ∀ limit' c' g' result', rounds tools' limit' start' [.asked .compile] = ([c'],g') →
        g'.result? c' = some result' →
        (result = .ok () ↔ result' = .ok ()) ∧ (result = .ok () → ∀ id, g.get? id = g'.get? id)) := by
  refine ⟨new.returns_iff,?_⟩
  intro limit c g result ran returned
  refine ⟨new.ok_iff ran returned,?_,?_⟩
  · rintro rfl
    exact new.get?_eq ran returned
  · intro limit' c' g' result' ran' returned'
    have agree : result = .ok () ↔ result' = .ok () := by
      rw [new.ok_iff ran returned,new'.ok_iff ran' returned']
      exact forall_congr' fun id => by rw [World.reaches_congr same]
    refine ⟨agree,?_⟩
    intro well id
    obtain rfl := agree.mp well
    obtain rfl := well
    obtain ⟨present,compiled⟩ := new.get?_eq ran returned id
    obtain ⟨present',compiled'⟩ := new'.get?_eq ran' returned' id
    rw [World.reaches_congr same] at present' compiled'
    by_cases reached : w.Reaches start.entries id
    · rw [compiled reached,compiled' reached]
    · have absent : g.registry.get? id = none := Registry.not_contains_iff.mp (by simpa using mt present.mp reached)
      have absent' : g'.registry.get? id = none := Registry.not_contains_iff.mp (by simpa using mt present'.mp reached)
      simp [Graph.get?,absent,absent']

theorem uncompiled_ring (entries : List ModuleId) (rounds : String → Nat) :
    ({ layer := { env := ring }, entries } : Graph (List (ModuleId × String))).Uncompiled (letterTools rounds 20)
      (· = ring) (letterWorld ring) where
  follows := letterTools_follows rounds 20 ring
  resting := ⟨fun found => by simp at found,fun there => by simp [At] at there,rfl⟩
  empty := rfl
  unhooked := rfl
  fine := rfl
  deep := by simp [letterWorld,Functions.world,letterTools,ring]

theorem full_compile_exact_ring :
    ∃ g g', rounds (letterTools slowly 20) 10 { layer := { env := ring }, entries := [Letter.a,Letter.c] }
        [.asked .compile] = ([.under [.task 0,.task 3]],g) ∧
      rounds (letterTools (fun _ => 0) 20) 10 { layer := { env := ring }, entries := [Letter.c,Letter.a] }
        [.asked .compile] = ([.under [.task 0,.task 1]],g') ∧
      (letterWorld ring).Compiles [Letter.a,Letter.c] ∧ g.get? Letter.b = (letterWorld ring).compile? Letter.b ∧
      ∀ id, g.get? id = g'.get? id := by
  obtain ⟨g,ran,returned,present⟩ : ∃ g, rounds (letterTools slowly 20) 10
      { layer := { env := ring }, entries := [Letter.a,Letter.c] } [.asked .compile] =
        ([.under [.task 0,.task 3]],g) ∧
      g.result? (.under [.task 0,.task 3]) = some (.ok ()) ∧ g.registry.contains Letter.b = true :=
    exists_snd (by decide +kernel) (by decide +kernel)
  obtain ⟨g',ran',returned'⟩ : ∃ g', rounds (letterTools (fun _ => 0) 20) 10
      { layer := { env := ring }, entries := [Letter.c,Letter.a] } [.asked .compile] =
        ([.under [.task 0,.task 1]],g') ∧ g'.result? (.under [.task 0,.task 1]) = some (.ok ()) :=
    exists_snd (by decide +kernel) (by decide +kernel)
  obtain ⟨good,ends⟩ := full_compile_exact (uncompiled_ring [Letter.a,Letter.c] slowly)
    (uncompiled_ring [Letter.c,Letter.a] fun _ => 0) fun _ => (List.Perm.swap Letter.a Letter.c []).mem_iff
  obtain ⟨-,made,others⟩ := ends 10 _ g _ ran returned
  exact ⟨g,g',ran,ran',good.mp ⟨10,_,g,ran,returned⟩,(made rfl Letter.b).2 ((made rfl Letter.b).1.mp present),
    (others 10 _ g' _ ran' returned').2 rfl⟩

end

end Graph

end Bundling
