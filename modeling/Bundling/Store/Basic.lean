import Bundling.Path

/-!
# File stores

What the rest of the library asks of a place where files are kept. A store acts on a state `σ`;
questions about it leave the state alone.
-/

namespace Bundling

/-- Why a store does not do what it is asked to. -/
inductive StoreError where
  | notFound (path : Path)
  | io (text : String)
  | other (text : String)
  deriving DecidableEq

namespace StoreError

def message : StoreError → String
  | notFound p => "File not found: " ++ p.text
  | io t => "I/O error: " ++ t
  | other t => "Store error: " ++ t

def isNotFound : StoreError → Bool
  | notFound _ => true
  | _ => false

end StoreError

/-- What is known about a path that exists. -/
structure FileInfo where
  /-- In octets; none where the store does not say. -/
  size : Option Nat
  isDir : Bool
  isFile : Bool
  /-- Whether the time of the last change is known. -/
  dated : Bool
  deriving DecidableEq

/-- A place where files are kept. -/
structure FileStore (σ : Type) where
  /-- The text of a file. -/
  read : Path → StateM σ (Except StoreError String)
  write : Path → List UInt8 → StateM σ (Except StoreError Unit)
  stat : σ → Path → Except StoreError FileInfo
  /-- Makes one level of directories. -/
  makeDir : Path → StateM σ (Except StoreError Unit)
  has : σ → Path → Bool

namespace FileStore

variable {σ : Type}

/-- The levels that are missing, the lowest last, up to the first one that exists, which has to be a
directory. -/
def missingLevels (store : FileStore σ) (s : σ) : List Path → Except StoreError (List Path)
  | [] => .ok []
  | p :: above =>
    match store.stat s p with
    | .ok info =>
      if info.isDir then .ok [] else .error (.io (p.text ++ " exists and is not a directory"))
    | .error e =>
      if e.isNotFound then (missingLevels store s above).map (· ++ [p]) else .error e

/-- Makes directories in order; one that exists by now is no failure. -/
def makeLevels (store : FileStore σ) : List Path → StateM σ (Except StoreError Unit)
  | [] => pure (.ok ())
  | p :: below => do
    match ← store.makeDir p with
    | .ok () => makeLevels store below
    | .error e => if store.has (← get) p then makeLevels store below else pure (.error e)

/-- Makes a directory with all the levels above it that are missing. -/
def ensureDir (store : FileStore σ) (path : Path) : StateM σ (Except StoreError Unit) := do
  match missingLevels store (← get) (path.ancestors.takeWhile fun p => !p.isEmpty) with
  | .ok missing => makeLevels store missing
  | .error e => pure (.error e)

end FileStore

end Bundling
