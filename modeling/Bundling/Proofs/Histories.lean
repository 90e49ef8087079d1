import Bundling.Proofs.Orderly
import Bundling.Proofs.Rounds

/-!
# Histories of an operation

While an operation is under way rounds start, the reads that it asks for are joined, and tasks make
steps, in any order. What no such event takes away holds wherever a history leads (`Lasting.history`),
and the rounds of an operation lead where one of its histories leads (`Lasting.request`).
-/

namespace Bundling.Graph

variable {σ : Type}

/-- The modules whose reads a request asks for. -/
def Request.roots (tools : Toolchain σ) (g : Graph σ) : Request → List ModuleId
  | .compile => g.entries
  | .read path =>
    match tools.root.toId path with
    | .ok id => [id]
    | .error _ => []
  | .push .. => []

/-- A request that asks for reads only. -/
def Request.IsRead : Request → Prop
  | .compile | .read _ => True
  | .push .. => False

/-- An event of an operation that asks for the reads of some modules. -/
def Event.Within (roots : List ModuleId) : Event → Prop
  | .join id => id ∈ roots
  | .tick | .step _ => True

instance (roots : List ModuleId) : (e : Event) → Decidable (e.Within roots)
  | .join id => inferInstanceAs (Decidable (id ∈ roots))
  | .tick | .step _ => .isTrue trivial

/-- What is told of the events of a history, each in the graph that it happens in. -/
def log {α : Type} (tools : Toolchain σ) (tells : Graph σ → Event → List α) : Graph σ → List Event → List α
  | _, [] => []
  | g, e :: events => tells g e ++ log tools tells (e.apply tools g) events

/-- The task of a read that an event asks for. -/
def Event.joined (g : Graph σ) : Event → List Nat
  | .join id => [(g.join id).1]
  | .tick | .step _ => []

/-- The tasks of the reads that a history asks for. -/
def joined (tools : Toolchain σ) (g : Graph σ) (events : List Event) : List Nat := log tools Event.joined g events

/-- A compilation has come to an end in a history: all entries have been asked for, and every read that was asked
for has ended, well or not. -/
structure Ended (tools : Toolchain σ) (g : Graph σ) (events : List Event) : Prop where
  within : ∀ e ∈ events, e.Within g.entries
  asked : ∀ id ∈ g.entries, ∃ n ∈ joined tools g events, ∃ s, (history tools g events).At n id s
  ended : ∀ n ∈ joined tools g events, ∃ r, (history tools g events).outcome? n = some r

/-- A history of an operation has led from one graph to another, and has asked for some tasks. -/
def Traced (tools : Toolchain σ) (roots : List ModuleId) (start : Graph σ) (outside : List Nat) (g : Graph σ) :
    Prop :=
  ∃ events, (∀ e ∈ events, Event.Within roots e) ∧ history tools start events = g ∧
    ∀ n, n ∈ outside ↔ n ∈ joined tools start events

section

variable {tools : Toolchain σ} {roots : List ModuleId} {start g : Graph σ} {outside : List Nat}
  {holds : List Nat → Graph σ → Prop}

theorem log_append {α : Type} (tells : Graph σ → Event → List α) (first second : List Event) :
    log tools tells g (first ++ second) =
      log tools tells g first ++ log tools tells (Graph.history tools g first) second := by
  induction first generalizing g with
  | nil => rfl
  | cons e first ih => rw [List.cons_append,log,ih,log,List.append_assoc]; rfl

theorem Traced.refl : Traced tools roots g [] g := ⟨[],by simp,rfl,fun _ => Iff.rfl⟩

theorem Traced.apply (traced : Traced tools roots start outside g) {e : Event} (within : e.Within roots) :
    Traced tools roots start (e.joined g ++ outside) (e.apply tools g) := by
  obtain ⟨events,all,rfl,same⟩ := traced
  refine ⟨events ++ [e],fun e' member => ?_,by simp [Graph.history],fun n => ?_⟩
  · rcases List.mem_append.mp member with before | last
    · exact all e' before
    · exact List.mem_singleton.mp last ▸ within
  · rw [joined,log_append,List.mem_append,List.mem_append,same n,log,log,List.append_nil]
    exact or_comm

theorem Lasting.apply (lasting : Lasting tools roots holds) (now : holds outside g) {e : Event}
    (within : e.Within roots) : holds (e.joined g ++ outside) (e.apply tools g) := by
  cases e with
  | tick => exact lasting.tick now
  | join id => exact lasting.join within now
  | step n => exact lasting.step n now

/-- What lasts holds wherever a history leads. -/
theorem Lasting.history (lasting : Lasting tools roots holds) {events : List Event}
    (now : holds outside g) (within : ∀ e ∈ events, e.Within roots) :
    ∃ outside', (∀ n, n ∈ outside' ↔ n ∈ outside ∨ n ∈ joined tools g events) ∧
      holds outside' (Graph.history tools g events) := by
  induction events generalizing g outside with
  | nil => exact ⟨outside,by simp [joined,log],now⟩
  | cons e events ih =>
    have next := lasting.apply now (within e List.mem_cons_self)
    obtain ⟨outside',same,after⟩ := ih next fun e' member => within e' (List.mem_cons_of_mem _ member)
    refine ⟨outside',fun n => ?_,after⟩
    rw [same n,joined,joined,log,List.mem_append,List.mem_append]
    constructor
    · rintro ((here | before) | later)
      · exact .inr (.inl here)
      · exact .inl before
      · exact .inr (.inr later)
    · rintro (before | here | later)
      · exact .inl (.inr before)
      · exact .inl (.inl here)
      · exact .inr later

/-- Along with what lasts goes that some history has led there. -/
theorem Lasting.and_traced (lasting : Lasting tools roots holds) (start : Graph σ) :
    Lasting tools roots fun outside g => holds outside g ∧ Traced tools roots start outside g where
  listed now := lasting.listed now.1
  tick now := ⟨lasting.tick now.1,now.2.apply (e := .tick) trivial⟩
  join {_ _ id} asked now := ⟨lasting.join asked now.1,now.2.apply (e := .join id) asked⟩
  step n now := ⟨lasting.step n now.1,now.2.apply (e := .step n) trivial⟩

/-- The rounds of a request lead where a history of it leads. What lasts holds there. Once there is a
result the reads that were asked for have come to their ends, one of each root among them, and all have gone
well if the request has. -/
structure Carried (tools : Toolchain σ) (holds : List Nat → Graph σ → Prop) (r : Request) (start : Graph σ)
    (outside : List Nat) (c : Call) (g : Graph σ) : Prop where
  now : holds outside g
  traced : Traced tools (r.roots tools start) start outside g
  ended : ∀ {result}, g.result? c = some result → ∀ n ∈ outside, ∃ o, g.outcome? n = some o
  asked : ∀ {result}, g.result? c = some result → ∀ id ∈ r.roots tools start, ∃ n ∈ outside, ∃ s, g.At n id s
  well : g.result? c = some (.ok ()) → ∀ n ∈ outside, ∃ cs, g.outcome? n = some (.ok cs)

theorem Lasting.request {r : Request} (reads : r.IsRead) (lasting : Lasting tools (r.roots tools g) holds)
    (now : holds [] g) (limit : Nat) :
    ∃ outside c, (Graph.rounds tools limit g [.asked r]).1 = [c] ∧
      Carried tools holds r g outside c (Graph.rounds tools limit g [.asked r]).2 := by
  have read : ∀ {ids}, r.roots tools g = ids → Call.Reads tools [] g ids (.asked r) →
      ∃ outside c, (Graph.rounds tools limit g [.asked r]).1 = [c] ∧
        Carried tools holds r g outside c (Graph.rounds tools limit g [.asked r]).2 := by
    rintro ids rfl reads
    obtain ⟨outside,c,same,⟨after,traced⟩,reads'⟩ :=
      (lasting.and_traced g).rounds (fun _ member => member) reads ⟨now,.refl⟩ limit
    refine ⟨outside,c,same,after,traced,?_,?_,?_⟩
    all_goals
      cases c with
      | refused e => exact reads'.elim
      | asked r => exact nofun
      | under items => ?_
    · exact fun returned => (result?_under reads' returned).1
    · intro result returned id member
      obtain ⟨n,-,known,there,-⟩ := (result?_under reads' returned).2.1 id member
      exact ⟨n,known,there⟩
    · exact fun returned => (result?_under reads' returned).2.2.mp rfl
  cases r with
  | push path contents => exact reads.elim
  | compile => exact read rfl ⟨rfl,.inl ⟨rfl,rfl⟩⟩
  | read path =>
    cases found : tools.root.toId path with
    | ok id => exact read (by simp only [Request.roots,found]) ⟨rfl,.inr ⟨path,id,rfl,found,rfl⟩⟩
    | error e =>
      have none : (Request.read path).roots tools g = [] := by simp only [Request.roots,found]
      -- The path is refused in the first round, and nothing is read.
      cases limit with
      | zero => exact ⟨[],_,rfl,now,.refl,nofun,nofun,nofun⟩
      | succ limit =>
        have refused : Graph.rounds tools (limit + 1) g [.asked (.read path)] = ([.refused e],g.tick) := by
          cases limit <;> simp [Graph.rounds,result?,Graph.pollAll,Graph.poll,begin,found]
        rw [refused]
        refine ⟨[],_,rfl,lasting.tick now,Traced.refl.apply (e := .tick) trivial,?_,?_,?_⟩
        · exact fun _ _ member => absurd member List.not_mem_nil
        · exact fun _ id member => absurd (none ▸ member) List.not_mem_nil
        · exact fun _ _ member => absurd member List.not_mem_nil

end

/-! ## Order -/

/-- Order lasts where all reads that are asked for are those of entries, or only one is. -/
theorem lasting_orderly (tools : Toolchain σ) {start : Graph σ} {base young : Nat} {roots : List ModuleId}
    (few : (∀ root ∈ roots, root ∈ start.entries) ∨ ∃ root, roots = [root]) :
    Lasting tools roots fun outside g => g.entries = start.entries ∧ g.Orderly base young roots outside where
  listed now member := (now.2.listed member).2
  tick now := ⟨now.1,now.2.congr rfl rfl rfl rfl⟩
  join {_ g id} asked now := by
    have grown := (grown_join g (List.mem_singleton.mpr rfl : id ∈ [id])).1
    exact ⟨by rw [grown.same]; exact now.1,now.2.join asked⟩
  step {_ g} n now := by
    obtain ⟨entries,orderly⟩ := now
    refine ⟨(entries_step tools g n).trans entries,orderly.step tools n ?_⟩
    intro id own children here well m i own' children' other there
    rcases few with all | ⟨root,rfl⟩
    · exact orderly.tidied_of_entries (fun root member => entries ▸ all root member) there
    · refine orderly.tidied_of_single here (fun c child => ?_) other there
      obtain ⟨cs,found⟩ := well c child
      exact ⟨_,found⟩

/-- Order lasts while all entries are read, and the reads are new. -/
theorem lasting_late (tools : Toolchain σ) (g : Graph σ) :
    Lasting tools g.entries fun outside g' =>
      (g'.entries = g.entries ∧ g'.Orderly g.tasks.length g.stamps g.entries outside) ∧ ∀ n ∈ outside, g.tasks.length ≤ n := by
  have orderly := @lasting_orderly σ tools g g.tasks.length g.stamps g.entries (.inl fun _ member => member)
  refine ⟨fun now => orderly.listed now.1,fun now => ⟨orderly.tick now.1,now.2⟩,?_,fun n now => ⟨orderly.step n now.1,now.2⟩⟩
  intro outside g' id asked now
  have order := orderly.join asked now.1
  refine ⟨order,fun n member => ?_⟩
  rcases List.mem_cons.mp member with rfl | before
  · exact (order.2.listed (grown_join g' (List.mem_singleton.mpr rfl : id ∈ [id])).2).1
  · exact now.2 n before

theorem Request.roots_few (tools : Toolchain σ) (g : Graph σ) (r : Request) :
    (∀ root ∈ r.roots tools g, root ∈ g.entries) ∨ ∃ root, r.roots tools g = [root] := by
  cases r with
  | compile => exact .inl fun _ member => member
  | push => exact .inl fun _ member => by cases member
  | read path =>
    cases found : tools.root.toId path with
    | ok id => exact .inr ⟨id,by simp only [Request.roots,found]⟩
    | error e => exact .inl fun root member => by simp [Request.roots,found] at member

end Bundling.Graph
