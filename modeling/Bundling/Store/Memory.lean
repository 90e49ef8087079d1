import Bundling.Module
import Bundling.Store.Basic
import Bundling.Text.Utf8

/-!
# Files in memory

A store that keeps its files by normalised path. Directories exist where they were made, and wherever
a file lies below. Relative paths are seen from the root of the store.
-/

namespace Bundling

/-- Files and directories in memory. -/
structure MemoryStore where
  root : CleanPath
  files : List (CleanPath × String) := []
  /-- The directories that were made. -/
  dirs : List CleanPath
  /-- How often each file was read. -/
  reads : List (CleanPath × Nat) := []

namespace MemoryStore

/-- A store with nothing but its root. -/
def empty (root : Path) : MemoryStore := { root := root.clean, dirs := [root.clean] }

/-- The place that a path names. -/
def normalize (m : MemoryStore) (p : Path) : CleanPath :=
  if p.isAbsolute then p.clean else (m.root.toPath.join p).clean

def file? (m : MemoryStore) (p : CleanPath) : Option String := m.files.lookup p

/-- Whether the place with these components is a directory. -/
def isDir (m : MemoryStore) (cs : List Component) : Bool :=
  m.dirs.any (·.components == cs) || m.files.any fun f => f.1.below cs

def insert (m : MemoryStore) (p : Path) (contents : String) : MemoryStore :=
  { m with files := assign (m.normalize p) contents m.files }

/-- Takes a file out; gives what it held. -/
def remove (m : MemoryStore) (p : Path) : Option String × MemoryStore :=
  let q := m.normalize p
  (m.file? q, { m with files := m.files.filter (·.1 != q) })

/-- What a file holds, without reading it. -/
def contents? (m : MemoryStore) (p : Path) : Option String := m.file? (m.normalize p)

/-- How often a file was read with success. -/
def readCount (m : MemoryStore) (p : Path) : Nat := (m.reads.lookup (m.normalize p)).getD 0

/-! ## The store -/

def read (m : MemoryStore) (p : Path) : Except StoreError String × MemoryStore :=
  let q := m.normalize p
  match m.file? q with
  | some text =>
    (.ok text, { m with reads := assign q ((m.reads.lookup q).getD 0 + 1) m.reads })
  | none => (.error (.notFound q.toPath), m)

def write (m : MemoryStore) (p : Path) (bytes : List UInt8) : Except StoreError Unit × MemoryStore :=
  let q := m.normalize p
  match Text.Utf8.decode bytes with
  | .error f => (.error (.io (q.text ++ " is not UTF-8: " ++ f.message)), m)
  | .ok text =>
    let held : Except StoreError Unit := match q.parent? with
      | some cs =>
        if m.isDir cs then .ok () else .error (.notFound (Component.toPath cs))
      | none => .ok ()
    match held with
    | .ok () => (.ok (), { m with files := assign q (String.ofList text) m.files })
    | .error e => (.error e, m)

def stat (m : MemoryStore) (p : Path) : Except StoreError FileInfo :=
  let q := m.normalize p
  match m.file? q with
  | some text => .ok ⟨some text.utf8ByteSize, false, true, false⟩
  | none =>
    if m.isDir q.components then .ok ⟨some 0, true, false, false⟩ else .error (.notFound q.toPath)

def has (m : MemoryStore) (p : Path) : Bool :=
  let q := m.normalize p
  (m.file? q).isSome || m.isDir q.components

def makeDir (m : MemoryStore) (p : Path) : Except StoreError Unit × MemoryStore :=
  let q := m.normalize p
  if m.has p then (.error (.io (q.text ++ " already exists")), m)
  else (.ok (), { m with dirs := m.dirs ++ [q] })

/-- Files in memory as a store; they may be a part of a larger state. -/
def store {σ : Type} (view : σ → MemoryStore) (update : MemoryStore → σ → σ) : FileStore σ where
  read p s := let (r, m) := (view s).read p; (r, update m s)
  write p bytes s := let (r, m) := (view s).write p bytes; (r, update m s)
  stat s p := (view s).stat p
  makeDir p s := let (r, m) := (view s).makeDir p; (r, update m s)
  has s p := (view s).has p

/-! ## Listing -/

/-- The order of paths: component by component, what a path starts with before what follows it. -/
def componentRank : Component → Nat
  | .root => 0
  | .here => 1
  | .up => 2
  | .name _ => 3

def componentsLe : List Component → List Component → Bool
  | [], _ => true
  | _ :: _, [] => false
  | a :: as, b :: bs =>
    if a = b then componentsLe as bs
    else match a, b with
      | .name m, .name n => m.octets ≤ n.octets
      | a, b => componentRank a < componentRank b

/-- The paths of all files in their order. -/
def paths (m : MemoryStore) : List CleanPath :=
  (m.files.map (·.1)).mergeSort fun p q => componentsLe p.components q.components

end MemoryStore

end Bundling
