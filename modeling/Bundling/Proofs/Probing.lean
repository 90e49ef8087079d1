import Bundling.Proofs.Ancestors

/-!
# The first candidate

A request has targets, and a target has candidates, in an order that says nothing of how they are tried (`places`,
`candidates`). What a search among files in memory finds is the first candidate that is a file (`resolve_first`). It fails
where the manifest of a target is no JSON, if it comes to that target before it comes to a file (`Breaks`).
-/

namespace Bundling

/-- A file lies at a path. -/
def MemoryStore.Holds (m : MemoryStore) (p : Path) : Bool := (m.contents? p).isSome

theorem MemoryStore.stat_eq (m : MemoryStore) (p : Path) : m.stat p = match m.contents? p with
    | some text => .ok ⟨some text.utf8ByteSize,false,true,false⟩
    | none =>
      if m.isDir (m.normalize p).components then .ok ⟨some 0,true,false,false⟩
      else .error (.notFound (m.normalize p).toPath) := rfl

namespace Candidates

/-! ## Targets -/

/-- The name of the directories that hold packages, as a step of a path. -/
def packageName : Name := ⟨packageDir,by decide⟩

/-- Where a request leads, seen from the end of a way from the root. -/
def lead (way : List Component) (request : String) : CleanPath :=
  CleanPath.ofComponents (.root :: way ++ Path.inner request)

/-- The ways to a place and to all places above it, the nearest first, but to those that hold packages. -/
def upward (way : List Component) : List (List Component) :=
  way.inits.reverse.filter fun above => above.getLast? ≠ some (.name packageName)

/-- The targets of a request from a place. -/
def places (way : List Component) (request : String) : List CleanPath :=
  if request = "" then []
  else if Request.isPath request then
    if (Path.mk request).isAbsolute then [(Path.mk request).clean] else [lead way request]
  else (upward way).map fun above => lead (above ++ [.name packageName]) request

/-- What a manifest names as the main file: a string that is not empty. -/
def mainName (text : String) : Option String :=
  (Json.parse? text).bind fun j => ((j.get? "main").bind Json.string?).filter (· ≠ "")

/-- What the manifest of a directory names as the main file. -/
def mainFile (m : MemoryStore) (dir : Path) : Option Path :=
  ((m.contents? (dir / manifestName)).bind mainName).map fun main => (dir / main).clean.toPath

/-- The candidates for a target, in their order: the target itself and with each extension; if it is a directory, what
its manifest names, as a file, with each extension and as an index; then its own index. -/
def candidates (m : MemoryStore) (extensions : List String) (target : Path) : List Path :=
  asFile extensions target ++
    if m.isDir (m.normalize target).components then
      (mainFile m target).toList.flatMap (fun main => asFile extensions main ++ asIndex extensions main) ++
        asIndex extensions target
    else []

/-- The manifest of a directory is no JSON. -/
def unreadable (m : MemoryStore) (dir : Path) : Bool :=
  (m.contents? (dir / manifestName)).any fun text => (Json.parse? text).isNone

/-- The target is a directory, and no file either with or without an extension, and its manifest is no JSON. -/
structure Faulty (m : MemoryStore) (extensions : List String) (target : Path) : Prop where
  absent : ∀ p ∈ asFile extensions target, m.Holds p = false
  dir : m.isDir (m.normalize target).components = true
  unreadable : unreadable m target = true

/-- How a search says that the manifest of a target is no JSON. -/
def fault (target : Path) : ResolveError := .plugin "fs" ("invalid " ++ (target / manifestName).text)

theorem mainOf_eq (manifest : Path) (text : String) : mainOf manifest text =
    if (Json.parse? text).isNone then .error (.plugin "fs" ("invalid " ++ manifest.text)) else .ok (mainName text) := by
  unfold mainOf mainName
  cases Json.parse? text with
  | none => rfl
  | some j =>
    simp only [Option.isNone_some,Bool.false_eq_true,if_false,Option.bind_some]
    cases (j.get? "main").bind Json.string? with
    | none => rfl
    | some main => by_cases empty : main = "" <;> simp [Option.filter,empty]

section

variable {σ : Type} {view : σ → MemoryStore} {update : MemoryStore → σ → σ} {m : MemoryStore} {s : σ}

theorem isFile_eq (alike : m.Alike (view s)) (p : Path) : isFile (MemoryStore.store view update) s p = .ok (m.Holds p) := by
  have stat : (MemoryStore.store view update).stat s p = m.stat p := alike.stat p
  rw [isFile,probe,stat,MemoryStore.stat_eq,MemoryStore.Holds]
  cases m.contents? p with
  | some text => rfl
  | none => cases m.isDir (m.normalize p).components <;> rfl

theorem isDir_eq (alike : m.Alike (view s)) {p : Path} (absent : m.Holds p = false) :
    isDir (MemoryStore.store view update) s p = .ok (m.isDir (m.normalize p).components) := by
  have stat : (MemoryStore.store view update).stat s p = m.stat p := alike.stat p
  have none : m.contents? p = none := by simpa [MemoryStore.Holds] using absent
  rw [isDir,probe,stat,MemoryStore.stat_eq,none]
  cases m.isDir (m.normalize p).components <;> rfl

theorem firstFile_eq (alike : m.Alike (view s)) (ps : List Path) :
    firstFile (MemoryStore.store view update) s ps = .ok (ps.find? m.Holds) := by
  induction ps with
  | nil => rfl
  | cons p ps ih =>
    rw [firstFile,isFile_eq alike,List.find?_cons]
    cases m.Holds p with
    | true => rfl
    | false => exact ih

theorem get_bind {α : Type} (next : σ → StateM σ α) (s : σ) : (get >>= next : StateM σ α) s = next s s := rfl

theorem bind_eq {α β : Type} (act : StateM σ α) (next : α → StateM σ β) (s : σ) :
    (act >>= next : StateM σ β) s = next (act s).1 (act s).2 := rfl

theorem mainOfDir_eq (alike : m.Alike (view s)) (dir : Path) : (mainOfDir (MemoryStore.store view update) dir s).1 =
    if unreadable m dir then .error (fault dir) else .ok ((m.contents? (dir / manifestName)).bind mainName) := by
  rw [mainOfDir,get_bind,isFile_eq alike,MemoryStore.Holds,unreadable]
  cases held : m.contents? (dir / manifestName) with
  | none => rfl
  | some text =>
    have read : ((MemoryStore.store view update).read (dir / manifestName) s).1 = .ok text := by
      have here : m.file? (m.normalize (dir / manifestName)) = some text := held
      refine (alike.read (dir / manifestName)).trans ?_
      rw [MemoryStore.read,here]
    simp only [Option.isSome_some,bind_eq,read]
    exact mainOf_eq (dir / manifestName) text

variable (lawful : ∀ m s, view (update m s) = m)

include lawful in
theorem loadDir_eq (alike : m.Alike (view s)) (extensions : List String) {dir : Path} (absent : m.Holds dir = false) :
    (loadDir (MemoryStore.store view update) extensions dir s).1 =
      if m.isDir (m.normalize dir).components then
        if unreadable m dir then .error (fault dir)
        else .ok (((mainFile m dir).toList.flatMap (fun main => asFile extensions main ++ asIndex extensions main) ++
          asIndex extensions dir).find? m.Holds)
      else .ok none := by
  have alike' : m.Alike (view (mainOfDir (MemoryStore.store view update) dir s).2) :=
    alike.trans (((looks_mainOfDir lawful dir).counts s).alike lawful)
  rw [loadDir,get_bind,isDir_eq alike absent]
  cases m.isDir (m.normalize dir).components with
  | false => rfl
  | true =>
    simp only [bind_eq,mainOfDir_eq alike,mainFile,if_true]
    cases unreadable m dir with
    | true => rfl
    | false =>
      refine (firstFile_eq alike' _).trans ?_
      cases (m.contents? (dir / manifestName)).bind mainName with
      | none => rfl
      | some main => simp

include lawful in
/-- A target fails with its manifest, or stands for the first of its candidates that is a file. -/
theorem load_eq (alike : m.Alike (view s)) (extensions : List String) (target : Path) :
    (Faulty m extensions target ∧
        (load (MemoryStore.store view update) extensions target s).1 = .error (fault target)) ∨
      (¬Faulty m extensions target ∧
        (load (MemoryStore.store view update) extensions target s).1 = .ok ((candidates m extensions target).find? m.Holds)) := by
  rw [load,get_bind,firstFile_eq alike,candidates,List.find?_append]
  cases direct : (asFile extensions target).find? m.Holds with
  | some p =>
    refine .inr ⟨fun faulty => ?_,rfl⟩
    have holds := List.find?_some direct
    rw [faulty.absent p (List.mem_of_find?_eq_some direct)] at holds
    cases holds
  | none =>
    have absent : ∀ p ∈ asFile extensions target, m.Holds p = false := fun p member => by
      simpa using List.find?_eq_none.mp direct p member
    have found := loadDir_eq lawful alike extensions (absent target List.mem_cons_self)
    simp only [found]
    by_cases dir : m.isDir (m.normalize target).components = true
    · rw [if_pos dir,if_pos dir]
      by_cases bad : unreadable m target = true
      · exact .inl ⟨⟨absent,dir,bad⟩,if_pos bad⟩
      · exact .inr ⟨fun faulty => bad faulty.unreadable,by rw [if_neg bad]; rfl⟩
    · exact .inr ⟨fun faulty => dir faulty.dir,by rw [if_neg dir,if_neg dir]; rfl⟩

end

/-- Who asks for it. -/
def asker : ModuleId := ⟨[⟨"shop",by decide⟩,⟨"asker",by decide⟩]⟩

end Candidates

end Bundling
