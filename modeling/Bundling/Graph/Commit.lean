import Bundling.Graph.Registry

/-!
# Commits

What one push has registered, and how it is taken back. When a module fails after it was registered,
it is reverted; then everything that was registered below it and that now imports a module that is
not there is reverted too, until there is no more of it.
-/

namespace Bundling

/-- A version that was registered, and the one it took the place of. -/
structure Commit where
  version : Version
  previous : Option Version := none
  deriving DecidableEq

namespace Commit

/-- Whether the version imports a module that is not registered. -/
def isDangling (c : Commit) (r : Registry) : Bool :=
  c.version.body.imports.any fun id => !r.contains id

/-- Puts the previous version back, or removes the module if it was new. Nothing happens once the
version is not the current one. -/
def revert (c : Commit) (r : Registry) : Registry :=
  if r.isCurrent c.version then
    match c.previous with
    | some v => r.insert v
    | none => r.erase c.version.id
  else r

/-- Reverts what is current and dangles. -/
def prune (c : Commit) (r : Registry) : Registry :=
  if r.isCurrent c.version && c.isDangling r then c.revert r else r

/-- One pass over commits, the last one first. -/
def sweep (cs : List Commit) (r : Registry) : Registry := cs.foldr prune r

/-- So many passes. A pass that changes anything reverts a commit, so as many as there are commits
are enough. -/
def sweeps (cs : List Commit) : Nat → Registry → Registry
  | 0, r => r
  | n + 1, r => sweeps cs n (sweep cs r)

/-- Takes back a failed push and, of the commits below it, those that cannot stay. -/
def rollback (failed : Commit) (below : List Commit) (r : Registry) : Registry :=
  sweeps below below.length (failed.revert r)

end Commit

end Bundling
