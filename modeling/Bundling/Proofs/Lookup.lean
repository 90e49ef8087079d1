import Mathlib.Logic.Relation
import Bundling.Resolve.Candidates
import Bundling.Store.Memory

/-!
# Looking among files in memory

Who looks for a module reads files and changes nothing but how often they were read (`Looks`), so what is found
depends on the files alone (`looks_resolve`).
-/

namespace Bundling

/-! ## Tables -/

section

variable {α β : Type} [BEq α] [LawfulBEq α] [DecidableEq α]

theorem lookup_cons_eq (p : α × β) (pairs : List (α × β)) (k : α) :
    (p :: pairs).lookup k = if k = p.1 then some p.2 else pairs.lookup k := by
  obtain ⟨k',v⟩ := p
  by_cases same : k = k'
  · simp [same]
  · rw [List.lookup_cons,beq_eq_false_iff_ne.mpr same,if_neg same]

theorem lookup_assign (key k : α) (value : β) (pairs : List (α × β)) :
    (assign key value pairs).lookup k = if k = key then some value else pairs.lookup k := by
  induction pairs with
  | nil => rw [assign,lookup_cons_eq]
  | cons p pairs ih =>
    rw [assign]
    by_cases here : p.1 = key
    · rw [if_pos (beq_iff_eq.mpr here),lookup_cons_eq,lookup_cons_eq,here]
      split <;> rfl
    · rw [if_neg (mt beq_iff_eq.mp here),lookup_cons_eq,lookup_cons_eq,ih]
      by_cases same : k = p.1
      · rw [if_pos same,if_pos same,if_neg (same ▸ here)]
      · rw [if_neg same,if_neg same]

theorem lookup_filter_key (f : α → Bool) (k : α) (pairs : List (α × β)) :
    (pairs.filter fun p => f p.1).lookup k = if f k then pairs.lookup k else none := by
  induction pairs with
  | nil => rw [List.filter_nil,List.lookup_nil,ite_self]
  | cons p pairs ih =>
    rw [lookup_cons_eq]
    cases kept : f p.1 with
    | false =>
      rw [List.filter_cons_of_neg (by simp [kept]),ih]
      by_cases same : k = p.1
      · simp [same,kept]
      · rw [if_neg same]
    | true =>
      rw [List.filter_cons_of_pos (by simp [kept]),lookup_cons_eq,ih]
      by_cases same : k = p.1
      · simp [same,kept]
      · rw [if_neg same,if_neg same]

theorem lookup_filter_ne (key k : α) (pairs : List (α × β)) :
    (pairs.filter (·.1 != key)).lookup k = if k = key then none else pairs.lookup k := by
  rw [lookup_filter_key (· != key)]
  by_cases same : k = key <;> simp [same]

end

namespace MemoryStore

/-- Two stores with the same files, which may have been read differently often. -/
structure Alike (m m' : MemoryStore) : Prop where
  root : m'.root = m.root
  files : m'.files = m.files
  dirs : m'.dirs = m.dirs

namespace Alike

variable {m m' m'' : MemoryStore}

theorem refl (m : MemoryStore) : m.Alike m := ⟨rfl,rfl,rfl⟩

theorem symm (alike : m.Alike m') : m'.Alike m := ⟨alike.root.symm,alike.files.symm,alike.dirs.symm⟩

theorem trans (alike : m.Alike m') (alike' : m'.Alike m'') : m.Alike m'' :=
  ⟨alike'.root.trans alike.root,alike'.files.trans alike.files,alike'.dirs.trans alike.dirs⟩

theorem normalize (alike : m.Alike m') (p : Path) : m'.normalize p = m.normalize p := by
  rw [MemoryStore.normalize,MemoryStore.normalize,alike.root]

theorem file? (alike : m.Alike m') (p : CleanPath) : m'.file? p = m.file? p := by
  rw [MemoryStore.file?,MemoryStore.file?,alike.files]

theorem stat (alike : m.Alike m') (p : Path) : m'.stat p = m.stat p := by
  simp only [MemoryStore.stat,alike.normalize,alike.file?,MemoryStore.isDir,alike.files,alike.dirs]
  rfl

theorem read (alike : m.Alike m') (p : Path) : (m'.read p).1 = (m.read p).1 := by
  simp only [MemoryStore.read,alike.normalize,alike.file?]
  split <;> rfl

end Alike

/-- A file is in its place when it was put there. -/
theorem file?_insert (m : MemoryStore) (p : Path) (text : String) (q : CleanPath) :
    (m.insert p text).file? q = if q = m.normalize p then some text else m.file? q := lookup_assign _ _ _ _

theorem alike_read (m : MemoryStore) (p : Path) : m.Alike (m.read p).2 := by
  unfold read
  simp only
  split
  · exact ⟨rfl,rfl,rfl⟩
  · exact .refl m

end MemoryStore

namespace Candidates

variable {σ α β : Type} {view : σ → MemoryStore} {update : MemoryStore → σ → σ}

/-- Nothing has been done but to count that files were read. -/
abbrev Counted (view : σ → MemoryStore) (update : MemoryStore → σ → σ) : σ → σ → Prop :=
  Relation.ReflTransGen fun s s' => ∃ m, (view s).Alike m ∧ s' = update m s

/-- A computation that only reads, and whose value depends on the files alone. -/
structure Looks (view : σ → MemoryStore) (update : MemoryStore → σ → σ) (m : StateM σ α) : Prop where
  counts : ∀ s, Counted view update s (m s).2
  same : ∀ {s s'}, (view s).Alike (view s') → (m s').1 = (m s).1

theorem Counted.alike (lawful : ∀ m s, view (update m s) = m) {s s' : σ} (counted : Counted view update s s') :
    (view s).Alike (view s') := by
  induction counted with
  | refl => exact .refl _
  | tail _ step ih =>
    obtain ⟨m,alike,rfl⟩ := step
    exact ih.trans (by rwa [lawful])

theorem looks_pure (a : α) : Looks view update (pure a) := ⟨fun _ => .refl,fun _ => rfl⟩

theorem Looks.bind (lawful : ∀ m s, view (update m s) = m) {m : StateM σ α} {next : α → StateM σ β} (first : Looks view update m)
    (then_ : ∀ a, Looks view update (next a)) : Looks view update (m >>= next) where
  counts s := (first.counts s).trans ((then_ (m s).1).counts (m s).2)
  same := by
    intro s s' alike
    have value : (m s').1 = (m s).1 := first.same alike
    have after : (view (m s).2).Alike (view (m s').2) :=
      (((first.counts s).alike lawful).symm.trans alike).trans ((first.counts s').alike lawful)
    have both : (next (m s').1 (m s').2).1 = (next (m s).1 (m s).2).1 := by
      rw [value]
      exact (then_ _).same after
    exact both

/-- A computation that looks at the state first, in a way that depends on the files alone. -/
theorem looks_get {next : σ → StateM σ β} (same : ∀ {s s'}, (view s).Alike (view s') → next s' = next s)
    (then_ : ∀ s, Looks view update (next s)) : Looks view update (get >>= next) where
  counts s := (then_ s).counts s
  same := by
    intro s s' alike
    have both : (next s' s').1 = (next s s).1 := by
      rw [same alike]
      exact (then_ s).same alike
    exact both

section

variable {s s' : σ}

theorem probe_same (alike : (view s).Alike (view s')) (test : FileInfo → Bool) (p : Path) :
    probe (MemoryStore.store view update) test s' p = probe (MemoryStore.store view update) test s p := by
  have stat : (MemoryStore.store view update).stat s' p = (MemoryStore.store view update).stat s p := alike.stat p
  rw [probe,probe,stat]

theorem firstFile_same (alike : (view s).Alike (view s')) (ps : List Path) :
    firstFile (MemoryStore.store view update) s' ps = firstFile (MemoryStore.store view update) s ps := by
  induction ps with
  | nil => rfl
  | cons p ps ih => simp only [firstFile,isFile,probe_same alike,ih]

end

variable (lawful : ∀ m s, view (update m s) = m)

theorem looks_read (p : Path) : Looks view update ((MemoryStore.store view update).read p) where
  counts s := .single ⟨_,(view s).alike_read p,rfl⟩
  same alike := alike.read p

include lawful in
theorem looks_mainOfDir (dir : Path) : Looks view update (mainOfDir (MemoryStore.store view update) dir) := by
  refine looks_get (fun alike => by simp only [isFile,probe_same alike]) fun s => ?_
  split
  · exact looks_pure _
  · exact looks_pure _
  · refine (looks_read _).bind lawful fun text => ?_
    split <;> exact looks_pure _

include lawful in
theorem looks_loadDir (extensions : List String) (dir : Path) :
    Looks view update (loadDir (MemoryStore.store view update) extensions dir) := by
  refine looks_get (fun alike => by simp only [isDir,probe_same alike]) fun s => ?_
  split
  · exact looks_pure _
  · exact looks_pure _
  · refine (looks_mainOfDir lawful dir).bind lawful fun main => ?_
    split
    · exact looks_pure _
    · exact looks_get (fun alike => by simp only [firstFile_same alike]) fun s => looks_pure _

include lawful in
theorem looks_load (extensions : List String) (target : Path) :
    Looks view update (load (MemoryStore.store view update) extensions target) := by
  refine looks_get (fun alike => by simp only [firstFile_same alike]) fun s => ?_
  split
  · exact looks_loadDir lawful extensions target
  · exact looks_pure _

include lawful in
theorem looks_loadFirst (extensions : List String) (ts : List Path) :
    Looks view update (loadFirst (MemoryStore.store view update) extensions ts) := by
  induction ts with
  | nil => exact looks_pure _
  | cons t ts ih =>
    refine (looks_load lawful extensions t).bind lawful fun found => ?_
    split
    · exact ih
    · exact looks_pure _

include lawful in
/-- What is found for a request depends on the files alone, and looking for it leaves them as they are. -/
theorem looks_resolve (root : Path) (extensions : List String) (request : String) (importer : Option ModuleId) :
    Looks view update (resolve (MemoryStore.store view update) root extensions request importer) :=
  (looks_loadFirst lawful extensions _).bind lawful fun _ => looks_pure _

end Candidates

end Bundling
