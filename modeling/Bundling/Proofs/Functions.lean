import Bundling.Graph.Operation
import Bundling.Proofs.Paths
import Bundling.Proofs.World

/-!
# Plugins that are functions

A toolchain follows a world if each of its plugins computes a function, however often it pauses and
whatever it keeps in its state (`Functions.follows`): the transformers run in order, and the first
resolver that has an answer counts.

Toolchains of letters are such toolchains, for examples: the letters of a text are its requests, a
letter stands for the file of that name, and before each answer there are pauses.
-/

namespace Bundling

variable {σ : Type} {P : σ → Prop}

namespace Work

theorem Gives.bind {α β : Type} {work : Work σ α} {a : α} (gives : work.Gives P a) {k : α → Work σ β} {b : β}
    (rest : (k a).Gives P b) : (work.bind k).Gives P b := by
  induction work with
  | done a' =>
    obtain rfl : a' = a := gives
    exact rest
  | step f next ih => exact fun s fine => ⟨(gives s fine).1,ih s (gives s fine).2⟩
  | pause rounds next ih => exact ih gives

end Work

/-- An activity comes to an answer, or leaves the request to others, by itself. -/
inductive Activity.Answers (P : σ → Prop) : Activity σ → Option Resolved → Prop where
  | answer (r : Resolved) : Answers P (.answer r) (some r)
  | defer : Answers P .defer none
  | step {f : σ → Activity σ × σ} {r : Option Resolved} (keeps : ∀ s, P s → P (f s).2)
      (leads : ∀ s, P s → Answers P (f s).1 r) : Answers P (.step f) r
  | pause {rounds : Nat} {next : Activity σ} {r : Option Resolved} (leads : Answers P next r) :
      Answers P (.pause rounds next) r

/-- What each plugin makes of its input, whatever the state. -/
structure Functions (σ : Type) where
  transform : Transformer σ → SourceFile → Except String (Option TransformOutput)
  resolve : Resolver σ → String → Option ModuleId → Option Resolved

namespace Functions

variable (f : Functions σ)

/-- What transformers make of a file, one after the other. -/
def steps (path : Path) (publicPath : String) : List (Transformer σ) → Pipeline.Progress →
    Except TransformFault Pipeline.Progress
  | [], p => .ok p
  | t :: ts, p =>
    match f.transform t ⟨path,p.contents,publicPath⟩ with
    | .error message => .error (.failed t.name message)
    | .ok none => steps path publicPath ts p
    | .ok (some o) => steps path publicPath ts (p.add o)

/-- The answer of the first resolver that has one. -/
def answer (resolvers : List (Resolver σ)) (request : String) (importer : Option ModuleId) : Resolved :=
  match resolvers.findSome? fun r => f.resolve r request importer with
  | some answer => answer
  | none => .error (.notFound request importer)

/-- What is compiled with a toolchain whose plugins compute these functions. -/
def world (tools : Toolchain σ) (files : List (ModuleId × String)) : World where
  files
  transform id contents :=
    (f.steps id.path (tools.root.publicPath id) tools.transformers { contents }).bind Pipeline.finish
  resolve request id := f.answer tools.resolvers request (some id)

variable {f}

theorem gives_steps {ts : List (Transformer σ)} (computes : ∀ t ∈ ts, ∀ file, (t.transform file).Gives P (f.transform t file))
    (path : Path) (publicPath : String) (p : Pipeline.Progress) :
    (Pipeline.steps path publicPath ts p).Gives P (f.steps path publicPath ts p) := by
  induction ts generalizing p with
  | nil => rfl
  | cons t ts ih =>
    have others := ih fun t' member => computes t' (List.mem_cons_of_mem _ member)
    refine Work.Gives.bind (computes t List.mem_cons_self ⟨path,p.contents,publicPath⟩) ?_
    rw [steps]
    cases f.transform t ⟨path,p.contents,publicPath⟩ with
    | error message => rfl
    | ok output =>
      cases output with
      | none => exact others p
      | some o => exact others (p.add o)

/-- A thread whose resolver comes to an answer or leaves the request to the next one. -/
theorem gives_act {chain : List (Resolver σ)} {a : Activity σ} {answer : Option Resolved} (answers : a.Answers P answer)
    {q : Resolution.Query} {i : Nat} {r : Resolved} (same : ∀ r', answer = some r' → r' = r)
    (next : answer = none → (⟨.chain q (i + 1),[],none⟩ : Resolution.Thread σ).Gives chain P r) :
    (⟨.act a,[.resolver q i],none⟩ : Resolution.Thread σ).Gives chain P r := by
  induction answers with
  | answer r' =>
    obtain rfl := same r' rfl
    refine .goes (fun s => (s,⟨.answered r',[],none⟩)) (fun _ _ => rfl) (fun _ fine => fine) fun _ _ => ?_
    exact .goes (fun s => (s,⟨.finished r',[],none⟩)) (fun _ _ => rfl) (fun _ fine => fine) fun _ _ => .ends rfl
  | defer =>
    exact .goes (fun s => (s,⟨.chain q (i + 1),[],none⟩)) (fun _ _ => rfl) (fun _ fine => fine) fun _ _ => next rfl
  | @step g _ keeps _ ih =>
    exact .goes (fun s => ({ s with env := (g s.env).2 },⟨.act (g s.env).1,[.resolver q i],none⟩)) (fun _ _ => rfl)
      (fun s fine => keeps s.env fine) fun s fine => ih s.env fine same next
  | @pause rounds a _ _ ih =>
    refine .goes (fun s => (s,⟨if rounds = 0 then .act a else .paused (s.clock + rounds) a,[.resolver q i],none⟩))
      (fun _ _ => rfl) (fun _ fine => fine) fun s _ => ?_
    by_cases none : rounds = 0
    · simpa [none] using ih same next
    · simp only [if_neg none]
      exact .waits rfl (ih same next)

theorem gives_chain {chain : List (Resolver σ)} (computes : ∀ r ∈ chain, ∀ request importer,
      (r.resolve request importer).Answers P (f.resolve r request importer))
    (request : String) (importer : Option ModuleId) {rest : List (Resolver σ)} {i : Nat} (left : chain.drop i = rest) :
    (⟨.chain { request, importer } i,[],none⟩ : Resolution.Thread σ).Gives chain P (f.answer rest request importer) := by
  induction rest generalizing i with
  | nil =>
    have past : chain[i]? = none := List.getElem?_eq_none (List.drop_eq_nil_iff.mp left)
    refine .goes (fun s => (s,⟨.answered (.error (.notFound request importer)),[],none⟩))
      (fun _ _ => by simp [Resolution.Thread.advance?,past]) (fun _ fine => fine) fun _ _ => ?_
    exact .goes (fun s => (s,⟨.finished _,[],none⟩)) (fun _ _ => rfl) (fun _ fine => fine) fun _ _ => .ends rfl
  | cons r rest ih =>
    have here : chain[i]? = some r := by
      rw [← Nat.add_zero i,← List.getElem?_drop,left]
      rfl
    have next := ih (i := i + 1) (by rw [← List.drop_drop,left]; rfl)
    refine .goes (fun s => (s,⟨.act (r.resolve request importer),[.resolver { request, importer } i],none⟩))
      (fun _ _ => by simp [Resolution.Thread.advance?,here]) (fun _ fine => fine) fun _ _ => ?_
    refine gives_act (computes r (List.mem_of_getElem? here) request importer) ?_ ?_
    · intro answer known
      simp [Functions.answer,known]
    · intro none
      have others : f.answer (r :: rest) request importer = f.answer rest request importer := by
        simp [Functions.answer,none]
      rwa [others]

/-- A toolchain follows the world of the functions that its plugins compute. -/
theorem follows {tools : Toolchain σ} {files : List (ModuleId × String)}
    (reads : ∀ {s} id, P s →
      P (tools.store.read id.path s).2 ∧ (tools.store.read id.path s).1.toOption = files.lookup id)
    (transforms : ∀ t ∈ tools.transformers, ∀ file, (t.transform file).Gives P (f.transform t file))
    (resolves : ∀ r ∈ tools.resolvers, ∀ request importer,
      (r.resolve request importer).Answers P (f.resolve r request importer)) :
    tools.Follows P (f.world tools files) where
  reads := reads
  transforms id contents :=
    (gives_steps transforms id.path (tools.root.publicPath id) { contents }).bind rfl
  resolves request id := gives_chain resolves request (some id) rfl

end Functions

/-! ## Toolchains of letters -/

/-- A file in the root directory. -/
def letterFile (name : String) (isName : IsName name) : ModuleId := ⟨[⟨name,isName⟩]⟩

def Letter.a : ModuleId := letterFile "a" (by decide)

def Letter.b : ModuleId := letterFile "b" (by decide)

def Letter.c : ModuleId := letterFile "c" (by decide)

def Letter.d : ModuleId := letterFile "d" (by decide)

def Letter.e : ModuleId := letterFile "e" (by decide)

/-- Files by their modules, as a store that nothing is written to. -/
def letterStore : FileStore (List (ModuleId × String)) where
  read p := fun files =>
    match files.find? fun f => f.1.path = p with
    | some f => (.ok f.2,files)
    | none => (.error (.notFound p),files)
  write _ _ := pure (.error (.other "read only"))
  stat _ p := .error (.notFound p)
  makeDir _ := pure (.error (.other "read only"))
  has files p := (files.find? fun f => f.1.path = p).isSome

/-- The letters of a text. -/
def letters (text : String) : List String := text.toList.map fun c => String.ofList [c]

/-- What a letter stands for. -/
def letterAnswer (request : String) : Option Resolved :=
  if isName : IsName request then some (.ok (letterFile request isName)) else none

def letterTransformer (rounds : String → Nat) : Transformer (List (ModuleId × String)) where
  name := "letters"
  transform file := .pause (rounds file.contents)
    (.done (.ok (some { contents := file.contents, imports := letters file.contents })))

def letterResolver (rounds : String → Nat) : Resolver (List (ModuleId × String)) where
  name := "letters"
  resolve request _ := .pause (rounds request) <|
    match letterAnswer request with
    | some r => .answer r
    | none => .defer

def letterTools (rounds : String → Nat) (fuel : Nat) : Toolchain (List (ModuleId × String)) where
  root := ⟨.absolute []⟩
  store := letterStore
  transformers := [letterTransformer rounds]
  resolvers := [letterResolver rounds]
  fuel

def letterFunctions : Functions (List (ModuleId × String)) where
  transform _ file := .ok (some { contents := file.contents, imports := letters file.contents })
  resolve _ request _ := letterAnswer request

/-- The world of some files where letters are requests. -/
def letterWorld (files : List (ModuleId × String)) : World :=
  letterFunctions.world (letterTools (fun _ => 0) 0) files

theorem letterStore_read (files : List (ModuleId × String)) (id : ModuleId) :
    (letterStore.read id.path files).2 = files ∧ (letterStore.read id.path files).1.toOption = files.lookup id := by
  have same : (files.find? fun f => f.1.path = id.path).map Prod.snd = files.lookup id := by
    induction files with
    | nil => rfl
    | cons f files ih =>
      rw [List.find?_cons,List.lookup_cons]
      by_cases equal : f.1 = id
      · simp [equal]
      · have paths : f.1.path ≠ id.path := fun same => equal (ModuleId.path_injective same)
        simpa [paths,show (id == f.1) = false by simpa using Ne.symm equal] using ih
  rw [← same]
  simp only [letterStore]
  cases files.find? fun f => f.1.path = id.path with
  | none => exact ⟨rfl,rfl⟩
  | some f => exact ⟨rfl,rfl⟩

/-- Whatever the pauses are, a toolchain of letters follows the world of the files that there are. -/
theorem letterTools_follows (rounds : String → Nat) (fuel : Nat) (files : List (ModuleId × String)) :
    (letterTools rounds fuel).Follows (· = files) (letterWorld files) := by
  have follows : (letterTools rounds fuel).Follows (· = files) (letterFunctions.world (letterTools rounds fuel) files) := by
    refine Functions.follows ?_ ?_ ?_
    · rintro s id rfl
      exact letterStore_read s id
    · intro t member file
      obtain rfl := List.mem_singleton.mp member
      rfl
    · intro r member request importer
      obtain rfl := List.mem_singleton.mp member
      refine .pause ?_
      simp only [letterFunctions]
      cases letterAnswer request with
      | some r => exact .answer r
      | none => exact .defer
  exact follows

/-- What `a` needs are `b` and `c`, and `b` needs `a`. -/
def ring : List (ModuleId × String) := [(Letter.a,"bc"),(Letter.b,"a"),(Letter.c,"")]

/-- A pause of two rounds before each answer on what is called `a`. -/
def slowly (text : String) : Nat := if text = "a" then 2 else 0

/-- A pair that is known by its parts. -/
theorem exists_snd {α β : Type} {p : α × β} {first : α} {Q : β → Prop} (same : p.1 = first) (second : Q p.2) :
    ∃ b, p = (first,b) ∧ Q b := ⟨p.2,Prod.ext same rfl,second⟩

end Bundling
