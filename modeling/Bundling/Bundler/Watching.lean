import Bundling.Bundler.Build
import Bundling.Watch.Loop

/-!
# Watching

Watch loops over the modules of a bundler.
-/

namespace Bundling.Bundler

variable {σ : Type}

/-- The options of a loop, completed by the configuration: its patterns are added, and where nothing
else is to be done after a change, the output is written anew, if that is wanted. -/
def watchOptions (b : Bundler σ) (o : Watch.Options σ) : Watch.Options σ :=
  { o with
    ignored := o.ignored ++ b.config.watch.ignored
    rebuild := o.rebuild <|> (if b.config.watch.generate then some b.rebuild else none) }

/-- Starts to watch. -/
def watch (b : Bundler σ) (o : Watch.Options σ) :
    StateM (Session σ) (Except BundleError (Watch.Loop σ)) := do
  match Watch.Loop.ofOptions (b.watchOptions o) with
  | .error e => return .error e
  | .ok l =>
    match ← l.start with
    | (.ok (), l) => return .ok l
    | (.error e, _) => return .error e

end Bundling.Bundler
