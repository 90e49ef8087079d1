import Bundling.Pattern.Expression
import Bundling.Resolve.Candidates

/-!
# Installing missing packages

A resolver for bare requests that no other resolver can answer. It installs the package under the lock
of the package's name, so that requests of one package that come at the same time share a single
installation, and each of them is then resolved for itself.
-/

namespace Bundling.Install

variable {σ : Type}

/-- Something that puts a package into the project: what it does, ending in success or failure. -/
abbrev Installer (σ : Type) :=
  (package : String) → (save : Bool) → (root : Path) →
    (done : Except ResolveError Unit → Activity σ) → Activity σ

/-- Importers that start no installation unless told otherwise. -/
def defaultExclude : String := "(node_modules|bower_components)"

structure Options where
  /-- Record the package in the project. -/
  save : Bool := false
  silent : Bool := false
  /-- Importers that may start an installation; all, if there are none. -/
  includes : List String := []
  /-- Importers that never do. -/
  excludes : List String := [defaultExclude]

/-- What watches installations. -/
structure Callbacks (σ : Type) where
  before : String → StateM σ Unit := fun _ => pure ()
  after : String → Except ResolveError Unit → StateM σ Unit := fun _ _ => pure ()

/-- Which importers may start an installation, told by their path from the root. -/
structure Filter where
  includes : List Pattern
  excludes : List Pattern

namespace Filter

/-- The filter of some options, if all their patterns are ones. -/
def ofOptions? (o : Options) : Option Filter := do
  let includes ← o.includes.mapM Pattern.ofExpression?
  let excludes ← o.excludes.mapM Pattern.ofExpression?
  some { includes, excludes }

/-- Whether an importer passes; an entry always does. -/
def admits (f : Filter) (root : Path) : Option ModuleId → Bool
  | none => true
  | some importer =>
    let way := (relativePath root.components importer.components).toList
    !(f.excludes.any (·.matchesIn way)) &&
      (f.includes.isEmpty || f.includes.any (·.matchesIn way))

end Filter

/-- Whether the resolver has nothing to do with a request. -/
def isForeign (request : String) : Bool :=
  request.toList.head? == some '.' || Request.isPath request

/-- Installs a package, then looks again for what was asked. When both fail the installation is to
blame. -/
def attempt (installer : Installer σ) (options : Options) (callbacks : Callbacks σ) (root : Path)
    (package request : String) (importer : Option ModuleId) : Activity σ :=
  .andThen (callbacks.before package) <|
    installer package options.save root fun outcome =>
      .andThen (callbacks.after package outcome) <|
        .ask request importer fun found =>
          match outcome, found with
          | .error e, .error _ => .answer (.error e)
          | _, found => .answer found

/-- The resolver. It asks the others first, and leaves the request to the next resolver when the
importer is filtered out, when there is no package, or when the package is installed already and only
lacks what is asked. -/
def resolver (installer : Installer σ) (options : Options) (filter : Filter)
    (callbacks : Callbacks σ) (root : Path) : Resolver σ where
  name := "install"
  resolve request importer :=
    if isForeign request then .defer
    else .ask request importer fun
      | .ok id => .answer (.ok id)
      | .error _ =>
        if !filter.admits root importer then .defer
        else match Request.package? request with
          | none => .defer
          | some package =>
            .ask (package ++ "/" ++ Candidates.manifestName) importer fun
              | .ok _ => .defer
              | .error _ =>
                .share package (attempt installer options callbacks root package request importer)
                  fun
                  | .error e => .answer (.error e)
                  | .ok _ => .ask request importer .answer

end Bundling.Install
