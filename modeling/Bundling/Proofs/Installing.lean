import Bundling.Proofs.Cooperation
import Bundling.Proofs.Packages
import Bundling.Proofs.Placement

/-!
# Resolution with an installer

What becomes of a caller, and of an attempt to install a package, in a layer that looks among files in memory and
installs what it does not find there: each time they are carried on they come to one place, which is said here
once for all (`opening`, `carries_joined`, `carries_settling`, `carries_attempt`).
-/

namespace Bundling

/-! ## Work that is interrupted -/

namespace Work

variable {σ α : Type}

/-- Work whose steps are of one kind, and that comes to what it should, if what others do at its pauses is of
another kind. -/
def Safe (own others : σ → σ → Prop) (goal : α → σ → Prop) : Work σ α → σ → Prop
  | .done a, s => goal a s
  | .step f rest, s => own s (f s) ∧ (rest s).Safe own others goal (f s)
  | .pause _ rest, s => ∀ s', others s s' → rest.Safe own others goal s'

/-- What is known of work where it stops. -/
def Halt.Safe (own others : σ → σ → Prop) (goal : α → σ → Prop) : Halt σ α → σ → Prop
  | .done a, s => goal a s
  | .paused _ rest, s => ∀ s', others s s' → rest.Safe own others goal s'

theorem Safe.go {own others : σ → σ → Prop} {goal : α → σ → Prop} (refl : ∀ s, own s s)
    (trans : ∀ {s s' s''}, own s s' → own s' s'' → own s s'') (idle : ∀ s, others s s) {w : Work σ α} {s : σ}
    (safe : w.Safe own others goal s) : own s (w.go s).2 ∧ (w.go s).1.Safe own others goal (w.go s).2 := by
  induction w generalizing s with
  | done a => exact ⟨refl s,safe⟩
  | step f rest ih =>
    obtain ⟨first,after⟩ := safe
    obtain ⟨further,halt⟩ := ih s after
    exact ⟨trans first further,halt⟩
  | pause rounds rest ih =>
    rw [Work.go]
    split
    · exact ih (safe s (idle s))
    · exact ⟨refl s,safe⟩

end Work

namespace Install

open Resolution Candidates

variable {σ : Type}

/-- A call of an installer, or its end. -/
inductive Note where
  | began (package : String)
  | ended (package : String) (succeeded : Bool)
  deriving DecidableEq

/-- A project whose files are kept in memory, and an installer that keeps a journal of its calls. -/
structure Site (σ : Type) where
  root : Path
  extensions : List String
  view : σ → MemoryStore
  update : MemoryStore → σ → σ
  journal : σ → List Note
  note : Note → StateM σ Unit
  work : (package : String) → (save : Bool) → (root : Path) → Work σ (Except ResolveError Unit)
  options : Options
  filter : Filter
  callbacks : Callbacks σ

/-- What the manifest of a package is asked for by. -/
def manifestOf (package : String) : String := package ++ "/" ++ manifestName

namespace Site

variable (site : Site σ)

def installer : Installer σ := fun package save root done =>
  .andThen (site.note (.began package)) <|
    (site.work package save root).into fun outcome =>
      .andThen (site.note (.ended package outcome.isOk)) (done outcome)

/-- The layer of a project: it looks among the files first, and installs then. -/
def chain : List (Resolver σ) := [
  Candidates.resolver (MemoryStore.store site.view site.update) site.root site.extensions,
  Install.resolver site.installer site.options site.filter site.callbacks site.root]

/-- Looks for a request among the files. -/
def search (request : String) (importer : Option ModuleId) : StateM σ (Except ResolveError (Option ModuleId)) :=
  Candidates.resolve (MemoryStore.store site.view site.update) site.root (site.extensions.map plainExtension) request importer

/-- What the files answer to a request; what they lack is not found. -/
def look (request : String) (importer : Option ModuleId) (s : σ) : Resolved :=
  match (site.search request importer s).1 with
  | .ok (some id) => .ok id
  | .ok none => .error (.notFound request importer)
  | .error e => .error e

/-- The manifest of a package is in its place. -/
def Has (package : String) (s : σ) : Prop := ((site.view s).file? (place site.root (manifestOf package))).isSome

/-- No manifest has gone from its place. -/
def Keeps (s s' : σ) : Prop := ∀ package, site.Has package s → site.Has package s'

/-- No manifest has gone, and nothing has been noted. -/
def Works (s s' : σ) : Prop := site.journal s' = site.journal s ∧ site.Keeps s s'

/-- Work of an installer that takes no manifest away, and has put that of its package in its place when it succeeds. -/
def Sure (package : String) (w : Work σ (Except ResolveError Unit)) (s : σ) : Prop :=
  w.Safe site.Works site.Keeps (fun outcome s => outcome.isOk = true → site.Has package s) s

/-- The files of a project are kept in memory apart from the journal of calls, in which all calls of the installer
are noted and nothing else; nothing takes a manifest away, and an installer that succeeds has put that of the
package in its place. -/
structure Lawful (site : Site σ) : Prop where
  isRoot : IsRoot site.root
  view_update : ∀ m s, site.view (site.update m s) = m
  journal_update : ∀ m s, site.journal (site.update m s) = site.journal s
  journal_note : ∀ n s, site.journal (site.note n s).2 = site.journal s ++ [n]
  view_note : ∀ n s, site.view (site.note n s).2 = site.view s
  before : ∀ package s, site.Works s (site.callbacks.before package s).2
  after : ∀ package outcome s, site.Works s (site.callbacks.after package outcome s).2
  work : ∀ package s, site.Sure package (site.work package site.options.save site.root) s

/-- A request that an installation is made for: it names a package, the files have nothing for it, not even the
manifest of the package, and its importer may start an installation. -/
structure Wants (site : Site σ) (request : String) (importer : Option ModuleId) (package : String) (s : σ) : Prop where
  bare : isForeign request = false
  named : Request.package? request = some package
  admitted : site.filter.admits site.root importer = true
  absent : (site.search request importer s).1 = .ok none
  unmet : ∀ id, (site.search (manifestOf package) importer s).1 ≠ .ok (some id)

/-- The attempt that is made for a request. -/
def attempt (package request : String) (importer : Option ModuleId) : Activity σ :=
  Install.attempt site.installer site.options site.callbacks site.root package request importer

/-- What a caller does when it has the outcome of the attempt that it waited for. -/
def afterwards (request : String) (importer : Option ModuleId) : Resolved → Activity σ
  | .error e => .answer (.error e)
  | .ok _ => .ask request importer .answer

/-- What an attempt comes to: when both the installation and the search after it fail, the installation is to blame. -/
def verdict : Except ResolveError Unit → Resolved → Resolved
  | .error e, .error _ => .error e
  | _, found => found

/-- What an attempt does when its installation has ended. -/
def ending (package request : String) (importer : Option ModuleId) (outcome : Except ResolveError Unit) : Activity σ :=
  .andThen (site.note (.ended package outcome.isOk)) <|
    .andThen (site.callbacks.after package outcome) <|
      .ask request importer fun found => .answer (verdict outcome found)

/-- What a caller answers: the error of the attempt that it waited for, or what the files have for its own request. -/
def answer (request : String) (importer : Option ModuleId) (s : σ) : Resolved → Resolved
  | .error e => .error e
  | .ok _ => site.look request importer s

/-- The frame of a caller whose request has come to the installer. -/
def frame (request : String) (importer : Option ModuleId) : List (Frame σ) := [.resolver ⟨request,importer,none⟩ 1]

variable {site}

/-! ## Files -/

theorem Keeps.refl (s : σ) : site.Keeps s s := fun _ has => has

theorem Keeps.trans {s s' s'' : σ} (keeps : site.Keeps s s') (keeps' : site.Keeps s' s'') : site.Keeps s s'' :=
  fun package has => keeps' package (keeps package has)

theorem Works.refl (s : σ) : site.Works s s := ⟨rfl,.refl s⟩

theorem Works.trans {s s' s'' : σ} (works : site.Works s s') (works' : site.Works s' s'') : site.Works s s'' :=
  ⟨works'.1.trans works.1,works.2.trans works'.2⟩

theorem keeps_of_alike {s s' : σ} (alike : (site.view s).Alike (site.view s')) : site.Keeps s s' := by
  intro package has
  rw [Has,alike.file?]
  exact has

variable (lawful : site.Lawful)

include lawful in
theorem Lawful.keeps_note (n : Note) (s : σ) : site.Keeps s (site.note n s).2 :=
  keeps_of_alike (by rw [lawful.view_note]; exact .refl _)

include lawful in
theorem Lawful.looks (request : String) (importer : Option ModuleId) :
    Looks site.view site.update (site.search request importer) :=
  looks_resolve lawful.view_update _ _ _ _

include lawful in
theorem Lawful.alike (request : String) (importer : Option ModuleId) (s : σ) :
    (site.view s).Alike (site.view (site.search request importer s).2) :=
  ((lawful.looks request importer).counts s).alike lawful.view_update

include lawful in
theorem Lawful.works_of_counted {s s' : σ} (counted : Counted site.view site.update s s') : site.Works s s' := by
  refine ⟨?_,keeps_of_alike (counted.alike lawful.view_update)⟩
  induction counted with
  | refl => rfl
  | tail _ step ih =>
    obtain ⟨m,-,rfl⟩ := step
    exact (lawful.journal_update m _).trans ih

include lawful in
theorem Lawful.look_same (request : String) (importer : Option ModuleId) {s s' : σ}
    (alike : (site.view s).Alike (site.view s')) : site.look request importer s' = site.look request importer s := by
  rw [look,look,(lawful.looks request importer).same alike]

theorem look_eq_ok_iff {request : String} {importer : Option ModuleId} {s : σ} {id : ModuleId} :
    site.look request importer s = .ok id ↔ (site.search request importer s).1 = .ok (some id) := by
  rw [look]
  rcases (site.search request importer s).1 with e | none | id' <;> simp

include lawful in
/-- What is put in its place is found, or the search for it fails. -/
theorem Lawful.fails_of_has {request package : String} {importer : Option ModuleId} {s : σ} (below : Below site.root importer)
    (wants : site.Wants request importer package s) (has : site.Has package s) :
    ∃ e, (site.search (manifestOf package) importer s).1 = .error e := by
  have plain : request.toList.head? ≠ some '.' := by
    have bare := wants.bare
    simp only [isForeign,Bool.or_eq_false_iff,beq_eq_false_iff_ne] at bare
    exact bare.1
  have filled : (manifestOf package).isEmpty = false := by
    rw [← Bool.not_eq_true,String.isEmpty_iff,← String.toList_eq_nil_iff]
    simp [manifestOf,manifestName]
  have found := resolve_ne_none lawful.view_update lawful.isRoot below
    (Request.bare_manifest plain wants.named manifestName) filled (site.extensions.map plainExtension) has
  cases result : (site.search (manifestOf package) importer s).1 with
  | error e => exact ⟨e,rfl⟩
  | ok found' =>
    cases found' with
    | none => exact absurd result found
    | some id => exact absurd result (wants.unmet id)

/-! ## Questions -/

section

variable {s : State σ} {stack : List (Frame σ)} {home : Option Nat} {request : String} {importer : Option ModuleId}

/-- What becomes of a question that the files have been asked. -/
def heard (q : Query) : Except ResolveError (Option ModuleId) → Control σ
  | .ok (some id) => .answered (.ok id)
  | .ok none => .chain q 1
  | .error e => .answered (.error e)

/-- The files are asked first. -/
theorem passes_files {q : Query} (other : q.skip ≠ some 0) :
    Passes site.chain (s,⟨.chain q 0,stack,home⟩) ({ s with env := (site.search q.request q.importer s.env).2 },
      ⟨heard q (site.search q.request q.importer s.env).1,stack,home⟩) := by
  have invoked : Slips site.chain (s,⟨.chain q 0,stack,home⟩)
      (s,⟨.act (.ofState (site.search q.request q.importer)),.resolver q 0 :: stack,home⟩) :=
    ⟨by simp only [Thread.advance?,chain,List.getElem?_cons_zero,if_neg other]; rfl,id⟩
  refine .head invoked (passes_step.trans ?_)
  rcases site.search q.request q.importer s.env with ⟨e | none | found,env⟩
  all_goals exact .single ⟨rfl,id⟩

/-- What the installer asks the others is answered by the files. -/
theorem passes_others {next : Resolved → Activity σ} (worker : Thread.worker ⟨.act (.ask request importer next),stack,home⟩ = some 1) :
    Passes site.chain (s,⟨.act (.ask request importer next),stack,home⟩)
      ({ s with env := (site.search request importer s.env).2 },⟨.act (next (site.look request importer s.env)),stack,home⟩) := by
  have asked : Slips site.chain (s,⟨.act (.ask request importer next),stack,home⟩)
      (s,⟨.chain ⟨request,importer,some 1⟩ 0,.asker next :: stack,home⟩) := ⟨by rw [← worker]; rfl,id⟩
  have files : Passes site.chain (s,⟨.chain ⟨request,importer,some 1⟩ 0,.asker next :: stack,home⟩) _ := passes_files (by simp)
  have answered : ∀ (s : State σ) r, Passes site.chain (s,⟨.answered r,.asker next :: stack,home⟩) (s,⟨.act (next r),stack,home⟩) :=
    fun s r => .single ⟨rfl,id⟩
  refine .head asked (files.trans ?_)
  simp only [look]
  rcases site.search request importer s.env with ⟨e | none | id,env⟩
  · exact answered _ _
  · -- The installer itself is passed over, and nobody is behind it.
    have behind : Slips site.chain ({ s with env },⟨.chain ⟨request,importer,some 1⟩ 1,.asker next :: stack,home⟩)
        ({ s with env },⟨.chain ⟨request,importer,some 1⟩ 2,.asker next :: stack,home⟩) := ⟨rfl,id⟩
    have last : Slips site.chain ({ s with env },⟨.chain ⟨request,importer,some 1⟩ 2,.asker next :: stack,home⟩)
        ({ s with env },⟨.answered (.error (.notFound request importer)),.asker next :: stack,home⟩) := ⟨rfl,id⟩
    exact .head behind (.head last (answered _ _))
  · exact answered _ _

end

/-! ## Callers -/

section

variable (request : String) (importer : Option ModuleId)

/-- What the installer leaves to others nobody answers. -/
theorem passes_defer (s : State σ) : Passes site.chain (s,⟨.act .defer,frame request importer,none⟩)
    (s,⟨.answered (.error (.notFound request importer)),[],none⟩) := by
  have behind : Slips site.chain (s,⟨.act .defer,frame request importer,none⟩) (s,⟨.chain ⟨request,importer,none⟩ 2,[],none⟩) :=
    ⟨rfl,nofun⟩
  have last : Slips site.chain (s,⟨.chain ⟨request,importer,none⟩ 2,[],none⟩)
      (s,⟨.answered (.error (.notFound request importer)),[],none⟩) := ⟨rfl,nofun⟩
  exact .head behind (.single last)

/-- What a caller comes to: it asks for an attempt to install a package, or has an answer from the files. -/
inductive Opens (site : Site σ) (request : String) (importer : Option ModuleId) (s : State σ) : State σ × Thread σ → Prop where
  | wants {package : String} {env : σ} (counted : Counted site.view site.update s.env env)
      (wants : site.Wants request importer package s.env) : Opens site request importer s ({ s with env },
        ⟨.act (.share package (site.attempt package request importer) (afterwards request importer)),frame request importer,none⟩)
  | answers {env : σ} (counted : Counted site.view site.update s.env env)
      (unwanted : ∀ package, ¬ site.Wants request importer package s.env) :
      Opens site request importer s ({ s with env },⟨.answered (site.look request importer s.env),[],none⟩)

include lawful in
theorem opening (s : State σ) : ∃ a, Passes site.chain (s,.resolving request importer) a ∧ site.Opens request importer s a := by
  have files : Passes site.chain (s,.resolving request importer) _ := passes_files (by simp)
  have counted := (lawful.looks request importer).counts s.env
  have alike := lawful.alike request importer s.env
  cases found : (site.search request importer s.env).1 with
  | error e =>
    have look : site.look request importer s.env = .error e := by rw [look,found]
    simp only [found,heard,← look] at files
    exact ⟨_,files,.answers counted fun package wants => by simp [wants.absent] at found⟩
  | ok answer =>
    cases answer with
    | some id =>
      have look : site.look request importer s.env = .ok id := by rw [look,found]
      simp only [found,heard,← look] at files
      exact ⟨_,files,.answers counted fun package wants => by simp [wants.absent] at found⟩
    | none =>
      have look : site.look request importer s.env = .error (.notFound request importer) := by rw [look,found]
      simp only [found,heard] at files
      generalize (site.search request importer s.env).2 = env₁ at files counted alike
      have invoked : Slips site.chain ({ s with env := env₁ },⟨.chain ⟨request,importer,none⟩ 1,[],none⟩)
          ({ s with env := env₁ },⟨.act ((Install.resolver site.installer site.options site.filter site.callbacks site.root).resolve
            request importer),frame request importer,none⟩) := ⟨rfl,nofun⟩
      replace files := files.tail invoked
      -- Where the installer leaves the request to others, nothing is found.
      have defers : ∀ {env}, Counted site.view site.update s.env env → (∀ package, ¬ site.Wants request importer package s.env) →
          Passes site.chain (s,.resolving request importer) ({ s with env },⟨.act .defer,frame request importer,none⟩) →
          ∃ a, Passes site.chain (s,.resolving request importer) a ∧ site.Opens request importer s a :=
        fun counted unwanted passes => ⟨_,passes.trans (passes_defer request importer _),look ▸ .answers counted unwanted⟩
      simp only [Install.resolver] at files
      by_cases foreign : isForeign request = true
      · rw [if_pos foreign] at files
        exact defers counted (fun package wants => by simp [wants.bare] at foreign) files
      · rw [if_neg foreign] at files
        replace files := files.trans (passes_others rfl)
        have look' : site.look request importer env₁ = .error (.notFound request importer) :=
          (lawful.look_same _ _ alike).trans look
        replace counted := counted.trans ((lawful.looks request importer).counts env₁)
        replace alike := alike.trans (lawful.alike request importer env₁)
        simp only [look'] at files
        generalize (site.search request importer env₁).2 = env₂ at files counted alike
        by_cases admitted : site.filter.admits site.root importer = true
        · rw [if_neg (by simp [admitted])] at files
          cases named : Request.package? request with
          | none =>
            simp only [named] at files
            exact defers counted (fun package wants => by simp [wants.named] at named) files
          | some package =>
            simp only [named] at files
            replace files := files.trans (passes_others rfl)
            replace counted := counted.trans ((lawful.looks (manifestOf package) importer).counts env₂)
            have same := lawful.look_same (manifestOf package) importer alike
            have text : package ++ "/" ++ manifestName = manifestOf package := rfl
            rw [text,same] at files
            cases met : site.look (manifestOf package) importer s.env with
            | ok id =>
              simp only [met] at files
              refine defers counted (fun package' wants => ?_) files
              obtain rfl : package = package' := Option.some.inj (named.symm.trans wants.named)
              exact wants.unmet id (look_eq_ok_iff.mp met)
            | error e =>
              simp only [met] at files
              refine ⟨_,files,.wants counted ⟨by simpa using foreign,named,admitted,found,fun id known => ?_⟩⟩
              rw [look_eq_ok_iff.mpr known] at met
              cases met
        · rw [if_pos (by simpa using admitted)] at files
          exact defers counted (fun package wants => admitted wants.admitted) files

/-- Where a caller that begins gives way. -/
inductive Begun (site : Site σ) (request : String) (importer : Option ModuleId) (s : State σ) : State σ × Thread σ → Prop where
  | joins {package : String} {env : σ} (counted : Counted site.view site.update s.env env)
      (wants : site.Wants request importer package s.env) : Begun site request importer s
        (({ s with env }.lock package (some 1) (site.attempt package request importer)).2,
          ⟨.joined ({ s with env }.lock package (some 1) (site.attempt package request importer)).1 (afterwards request importer),
            frame request importer,none⟩)
  | answers {env : σ} (counted : Counted site.view site.update s.env env)
      (unwanted : ∀ package, ¬ site.Wants request importer package s.env) :
      Begun site request importer s ({ s with env },⟨.finished (site.look request importer s.env),[],none⟩)

include lawful in
theorem carries_resolving (s : State σ) :
    ∃ b, Carries site.chain (s,.resolving request importer) b ∧ site.Begun request importer s b := by
  obtain ⟨a,passes,opens⟩ := opening lawful request importer s
  cases opens with
  | wants counted wants => exact ⟨_,passes.carries (carries_of_advance? rfl trivial),.joins counted wants⟩
  | answers counted unwanted => exact ⟨_,passes.carries (carries_of_advance? rfl trivial),.answers counted unwanted⟩

variable {request : String} {importer : Option ModuleId} {s : State σ} {b : State σ × Thread σ}

/-- A caller that waits for an attempt goes on when it has an outcome, and sees then which others are being made. -/
theorem carries_joined {chain : List (Resolver σ)} {n : Nat} {next : Resolved → Activity σ} {stack : List (Frame σ)} {home : Option Nat} :
    Carries chain (s,⟨.joined n next,stack,home⟩) b ↔
      ∃ r, s.outcome? n = some r ∧ b = (s,⟨.settling (s.locks.map (·.2)) r next,stack,home⟩) := by
  constructor
  · rintro ⟨m,passes,advanced,-⟩
    rcases passes.cases_head with rfl | ⟨a,⟨advanced',free⟩,-⟩
    · obtain ⟨r,known,rfl⟩ := Option.map_eq_some_iff.mp advanced
      exact ⟨r,known,rfl⟩
    · obtain ⟨r,-,rfl⟩ := Option.map_eq_some_iff.mp advanced'
      exact absurd trivial free
  · rintro ⟨r,known,rfl⟩
    exact carries_of_advance? (by simp [Thread.advance?,known]) trivial

include lawful in
/-- A caller that has been told the outcome of its attempt answers when all others have ended that were being made. -/
theorem carries_settling {others : List Nat} {r : Resolved} (settled : ∀ n ∈ others, (s.outcome? n).isSome) :
    ∃ env, Counted site.view site.update s.env env ∧
      Carries site.chain (s,⟨.settling others r (afterwards request importer),frame request importer,none⟩)
        ({ s with env },⟨.finished (site.answer request importer s.env r),[],none⟩) := by
  have returns : Slips site.chain (s,⟨.settling others r (afterwards request importer),frame request importer,none⟩)
      (s,⟨.act (afterwards request importer r),frame request importer,none⟩) :=
    ⟨if_pos (List.all_eq_true.mpr settled),nofun⟩
  have answers : ∀ env r, Carries site.chain ({ s with env },⟨.act (.answer r),frame request importer,none⟩)
      ({ s with env },⟨.finished r,[],none⟩) := fun env r =>
    Passes.carries (b := ({ s with env },⟨.answered r,[],none⟩)) (.single ⟨rfl,nofun⟩) (carries_of_advance? rfl trivial)
  cases r with
  | error e => exact ⟨s.env,.refl,Passes.carries (.single returns) (answers _ _)⟩
  | ok id =>
    have asked : Passes site.chain (s,⟨.act (.ask request importer .answer),frame request importer,none⟩) _ := passes_others rfl
    exact ⟨_,(lawful.looks request importer).counts s.env,Passes.carries (.head returns asked) (answers _ _)⟩

theorem settled_of_carries {chain : List (Resolver σ)} {others : List Nat} {r : Resolved} {next : Resolved → Activity σ}
    {stack : List (Frame σ)} {home : Option Nat} (carries : Carries chain (s,⟨.settling others r next,stack,home⟩) b) :
    ∀ n ∈ others, (s.outcome? n).isSome := by
  obtain ⟨m,passes,advanced,-⟩ := carries
  have first : (Thread.advance? chain s ⟨.settling others r next,stack,home⟩).isSome := by
    rcases passes.cases_head with rfl | ⟨a,⟨advanced',-⟩,-⟩
    · exact Option.isSome_iff_exists.mpr ⟨_,advanced⟩
    · exact Option.isSome_iff_exists.mpr ⟨_,advanced'⟩
  simp only [Thread.advance?] at first
  split at first
  · rename_i settled
    exact List.all_eq_true.mp settled
  · cases first

/-! ## Attempts -/

/-- What happens before an installer begins its work. -/
def opened (site : Site σ) (package : String) (env : σ) : σ := (site.note (.began package) (site.callbacks.before package env).2).2

/-- What happens when an installer has ended its work. -/
def closed (site : Site σ) (package : String) (outcome : Except ResolveError Unit) (env : σ) : σ :=
  (site.callbacks.after package outcome (site.note (.ended package outcome.isOk) env).2).2

variable {package : String}

include lawful in
theorem Lawful.opened (package : String) (env : σ) :
    site.journal (site.opened package env) = site.journal env ++ [.began package] ∧ site.Keeps env (site.opened package env) := by
  obtain ⟨same,keeps⟩ := lawful.before package env
  exact ⟨(lawful.journal_note _ _).trans (by rw [same]),keeps.trans (lawful.keeps_note _ _)⟩

include lawful in
theorem Lawful.closed (package : String) (outcome : Except ResolveError Unit) (env : σ) :
    site.journal (site.closed package outcome env) = site.journal env ++ [.ended package outcome.isOk] ∧
      site.Keeps env (site.closed package outcome env) := by
  obtain ⟨same,keeps⟩ := lawful.after package outcome (site.note (.ended package outcome.isOk) env).2
  exact ⟨same.trans (lawful.journal_note _ _),(lawful.keeps_note _ _).trans keeps⟩

theorem passes_attempt : Passes site.chain (s,⟨.act (site.attempt package request importer),[],some 1⟩)
    ({ s with env := site.opened package s.env },
      ⟨.act ((site.work package site.options.save site.root).into (site.ending package request importer)),[],some 1⟩) := by
  have attempt : site.attempt package request importer = .andThen (site.callbacks.before package)
      (.andThen (site.note (.began package))
        ((site.work package site.options.save site.root).into (site.ending package request importer))) := by
    have ending : site.ending package request importer = fun outcome =>
        .andThen (site.note (.ended package outcome.isOk)) <| .andThen (site.callbacks.after package outcome) <|
          .ask request importer fun found => match outcome,found with
            | .error e,.error _ => .answer (.error e)
            | _,found => .answer found := by
      funext outcome
      have same : (fun found => .answer (verdict outcome found)) = fun found => (match outcome,found with
          | .error e,.error _ => .answer (.error e)
          | _,found => .answer found : Activity σ) := by
        funext found
        cases outcome <;> cases found <;> rfl
      rw [Site.ending,same]
    rw [ending]
    rfl
  rw [attempt]
  exact passes_andThen.trans passes_andThen

/-- Where an attempt gives way: at a pause of its installer, or where it ends. -/
inductive Worked (site : Site σ) (package request : String) (importer : Option ModuleId) (w : Work σ (Except ResolveError Unit))
    (s : State σ) : State σ × Thread σ → Prop where
  | pauses {rounds : Nat} {rest : Work σ (Except ResolveError Unit)} {env : σ} (went : w.go s.env = (.paused rounds rest,env)) :
      Worked site package request importer w s
        ({ s with env },⟨.paused (s.clock + rounds) (rest.into (site.ending package request importer)),[],some 1⟩)
  | ends {outcome : Except ResolveError Unit} {env env' : σ} (went : w.go s.env = (.done outcome,env))
      (counted : Counted site.view site.update (site.closed package outcome env) env') : Worked site package request importer w s
        ({ s with env := env' },⟨.finished (verdict outcome (site.look request importer (site.closed package outcome env))),[],some 1⟩)

include lawful in
theorem carries_work (w : Work σ (Except ResolveError Unit)) : ∃ b,
    Carries site.chain (s,⟨.act (w.into (site.ending package request importer)),[],some 1⟩) b ∧
      site.Worked package request importer w s b := by
  obtain ⟨halt,env,went⟩ : ∃ halt env, w.go s.env = (halt,env) := ⟨_,_,rfl⟩
  cases halt with
  | paused rounds rest => exact ⟨_,carries_into went,.pauses went⟩
  | done outcome =>
    have ended : Passes site.chain ({ s with env },⟨.act (site.ending package request importer outcome),[],some 1⟩)
        ({ s with env := site.closed package outcome env },
          ⟨.act (.ask request importer fun found => .answer (verdict outcome found)),[],some 1⟩) :=
      passes_andThen.trans passes_andThen
    have worked := ((passes_into went).trans ended).trans (passes_others rfl)
    exact ⟨_,Passes.carries worked (carries_of_advance? rfl trivial),.ends went ((lawful.looks request importer).counts _)⟩

end

/-! ## Moves -/

/-- What a caller with a request can be; only some of them make attempts. -/
inductive Caller (makers : List (String × Option ModuleId)) (request : String) (importer : Option ModuleId) : Thread σ → Prop where
  | begins (may : (request,importer) ∈ makers) : Caller makers request importer (.resolving request importer)
  | joined (n : Nat) : Caller makers request importer ⟨.joined n (afterwards request importer),frame request importer,none⟩
  | told (others : List Nat) (r : Resolved) :
      Caller makers request importer ⟨.settling others r (afterwards request importer),frame request importer,none⟩
  | finished (r : Resolved) : Caller makers request importer ⟨.finished r,[],none⟩

/-- The thread of an attempt that has not been carried on yet. -/
def ready (site : Site σ) (package request : String) (importer : Option ModuleId) : Thread σ :=
  ⟨.act (site.attempt package request importer),[],some 1⟩

/-- The thread of an attempt whose installer is at a pause. -/
def waiting (site : Site σ) (package request : String) (importer : Option ModuleId) (wake : Nat)
    (w : Work σ (Except ResolveError Unit)) : Thread σ :=
  ⟨.paused wake (w.into (site.ending package request importer)),[],some 1⟩

/-- How far an attempt to install a package can be that one of these requests has made. -/
inductive Attempting (site : Site σ) (makers : List (String × Option ModuleId)) (package : String) (env : σ) : Progress σ → Prop where
  | ready {request : String} {importer : Option ModuleId} (made : (request,importer) ∈ makers) :
      Attempting site makers package env (.running (site.ready package request importer))
  | waiting {request : String} {importer : Option ModuleId} {wake : Nat} {w : Work σ (Except ResolveError Unit)}
      (made : (request,importer) ∈ makers) (sure : ∀ env', site.Keeps env env' → site.Sure package w env') :
      Attempting site makers package env (.running (site.waiting package request importer wake w))
  | settled (r : Resolved) : Attempting site makers package env (.settled r)

/-- Callers with these requests, and attempts that some of them have made to install packages. -/
structure Formed (site : Site σ) (requests makers : List (String × Option ModuleId)) (c : Scene σ) : Prop where
  callers : ∀ {i : Nat} {t : Thread σ}, c.callers[i]? = some t →
    ∃ request importer, requests[i]? = some (request,importer) ∧ Caller makers request importer t
  attempts : ∀ {n : Nat} {package : String} {p : Progress σ}, c.state.attempts[n]? = some ⟨package,p⟩ →
    site.Attempting makers package c.state.env p

/-- What the installer has still to do for an attempt that is carried on, and on which state. -/
inductive Resumes (site : Site σ) (package request : String) (importer : Option ModuleId) (env : σ) :
    Thread σ → Work σ (Except ResolveError Unit) → σ → Prop where
  | opens : Resumes site package request importer env (site.ready package request importer)
      (site.work package site.options.save site.root) (site.opened package env)
  | resumes (wake : Nat) (w : Work σ (Except ResolveError Unit)) :
      Resumes site package request importer env (site.waiting package request importer wake w) w env

/-- All moves that there are. -/
inductive Moves (site : Site σ) (requests makers : List (String × Option ModuleId)) (c : Scene σ) : Scene σ → Prop where
  | ticks : Moves site requests makers c { c with state := c.state.tick }
  | joins {i : Nat} {request package : String} {importer : Option ModuleId} {env : σ} (asked : requests[i]? = some (request,importer))
      (here : c.callers[i]? = some (.resolving request importer)) (may : (request,importer) ∈ makers)
      (counted : Counted site.view site.update c.state.env env) (wants : site.Wants request importer package c.state.env) :
      Moves site requests makers c
        ⟨({ c.state with env }.lock package (some 1) (site.attempt package request importer)).2,c.callers.set i
          ⟨.joined ({ c.state with env }.lock package (some 1) (site.attempt package request importer)).1
            (afterwards request importer),frame request importer,none⟩⟩
  | answers {i : Nat} {request : String} {importer : Option ModuleId} {env : σ} (asked : requests[i]? = some (request,importer))
      (here : c.callers[i]? = some (.resolving request importer)) (counted : Counted site.view site.update c.state.env env)
      (unwanted : ∀ package, ¬ site.Wants request importer package c.state.env) : Moves site requests makers c
        ⟨{ c.state with env },c.callers.set i ⟨.finished (site.look request importer c.state.env),[],none⟩⟩
  | learns {i n : Nat} {request : String} {importer : Option ModuleId} {r : Resolved} (asked : requests[i]? = some (request,importer))
      (here : c.callers[i]? = some ⟨.joined n (afterwards request importer),frame request importer,none⟩)
      (known : c.state.outcome? n = some r) : Moves site requests makers c
        ⟨c.state,c.callers.set i
          ⟨.settling (c.state.locks.map (·.2)) r (afterwards request importer),frame request importer,none⟩⟩
  | returns {i : Nat} {request : String} {importer : Option ModuleId} {others : List Nat} {r : Resolved} {env : σ}
      (asked : requests[i]? = some (request,importer))
      (here : c.callers[i]? = some ⟨.settling others r (afterwards request importer),frame request importer,none⟩)
      (counted : Counted site.view site.update c.state.env env) : Moves site requests makers c
        ⟨{ c.state with env },c.callers.set i ⟨.finished (site.answer request importer c.state.env r),[],none⟩⟩
  | pauses {n rounds : Nat} {package request : String} {importer : Option ModuleId} {t : Thread σ}
      {w rest : Work σ (Except ResolveError Unit)} {env env' : σ} (running : c.state.attempts[n]? = some ⟨package,.running t⟩)
      (made : (request,importer) ∈ makers) (resumes : site.Resumes package request importer c.state.env t w env)
      (sure : site.Sure package w env) (went : w.go env = (.paused rounds rest,env')) :
      Moves site requests makers c ⟨{ c.state with env := env' }.setProgress n
        (.running (site.waiting package request importer (c.state.clock + rounds) rest)),c.callers⟩
  | ends {n : Nat} {package request : String} {importer : Option ModuleId} {t : Thread σ} {w : Work σ (Except ResolveError Unit)}
      {outcome : Except ResolveError Unit} {env env' env'' : σ} (running : c.state.attempts[n]? = some ⟨package,.running t⟩)
      (made : (request,importer) ∈ makers) (resumes : site.Resumes package request importer c.state.env t w env)
      (sure : site.Sure package w env) (went : w.go env = (.done outcome,env'))
      (counted : Counted site.view site.update (site.closed package outcome env') env'') : Moves site requests makers c
        ⟨{ c.state with env := env'' }.settle n
          (verdict outcome (site.look request importer (site.closed package outcome env'))),c.callers⟩

section

variable {requests makers : List (String × Option ModuleId)} {c c' : Scene σ}

include lawful in
theorem worked_of_carries {s : State σ} {b : State σ × Thread σ} {package : String} {t : Thread σ}
    (attempting : site.Attempting makers package s.env (.running t)) (carries : Carries site.chain (s,t) b) :
    ∃ request importer w env, (request,importer) ∈ makers ∧ site.Resumes package request importer s.env t w env ∧
      site.Sure package w env ∧ site.Worked package request importer w { s with env } b := by
  cases attempting with
  | ready made =>
    obtain ⟨b',carries',worked⟩ := carries_work (s := { s with env := site.opened package s.env }) lawful
      (site.work package site.options.save site.root)
    obtain rfl := carries.unique (Passes.carries passes_attempt carries')
    exact ⟨_,_,_,_,made,.opens,lawful.work package _,worked⟩
  | @waiting request importer wake w made sure =>
    have due : wake ≤ s.clock := by
      obtain ⟨m,passes,advanced,-⟩ := carries
      by_contra late
      have stays : Thread.advance? site.chain s (site.waiting package request importer wake w) = none := if_neg late
      rcases passes.cases_head with rfl | ⟨a,⟨advanced',-⟩,-⟩
      · rw [stays] at advanced
        cases advanced
      · rw [stays] at advanced'
        cases advanced'
    obtain ⟨b',carries',worked⟩ := carries_work (s := s) lawful w
    obtain rfl := ((carries_paused due).mp carries).unique carries'
    exact ⟨request,importer,w,s.env,made,.resumes wake w,sure s.env (.refl _),worked⟩

include lawful in
theorem Formed.moves (formed : site.Formed requests makers c) (move : Move site.chain c c') : site.Moves requests makers c c' := by
  cases move with
  | tick => exact .ticks
  | @goes i t t' s here carries =>
    obtain ⟨request,importer,asked,caller⟩ := formed.callers here
    cases caller with
    | begins may =>
      obtain ⟨b,carries',begun⟩ := carries_resolving lawful request importer c.state
      obtain rfl := carries.unique carries'
      cases begun with
      | joins counted wants => exact .joins asked here may counted wants
      | answers counted unwanted => exact .answers asked here counted unwanted
    | joined n =>
      obtain ⟨r,known,equal⟩ := carries_joined.mp carries
      cases equal
      exact .learns asked here known
    | told others r =>
      obtain ⟨env,counted,carries'⟩ := carries_settling lawful (settled_of_carries carries)
      cases carries.unique carries'
      exact .returns asked here counted
    | finished r =>
      obtain ⟨m,passes,advanced,-⟩ := carries
      rcases passes.cases_head with rfl | ⟨a,⟨advanced',-⟩,-⟩
      · cases advanced
      · cases advanced'
  | works here carries going =>
    obtain ⟨package,running⟩ := Scene.thread?_attempt_iff.mp here
    obtain ⟨request,importer,w,env,made,resumes,sure,worked⟩ := worked_of_carries lawful (formed.attempts running) carries
    cases worked with
    | pauses went => exact .pauses running made resumes sure went
    | ends went counted => cases going
  | settles here carries done =>
    obtain ⟨package,running⟩ := Scene.thread?_attempt_iff.mp here
    obtain ⟨request,importer,w,env,made,resumes,sure,worked⟩ := worked_of_carries lawful (formed.attempts running) carries
    cases worked with
    | pauses went => cases done
    | ends went counted =>
      cases done
      exact .ends running made resumes sure went counted

theorem getElem?_set_cases {α : Type} {l : List α} {i j : Nat} {x y : α} (here : (l.set i x)[j]? = some y) :
    j = i ∧ y = x ∨ j ≠ i ∧ l[j]? = some y := by
  by_cases same : j = i
  · subst same
    refine .inl ⟨rfl,?_⟩
    rw [List.getElem?_set_self (by simpa using (List.getElem?_eq_some_iff.mp here).1)] at here
    exact (Option.some.inj here).symm
  · rw [List.getElem?_set_ne (Ne.symm same)] at here
    exact .inr ⟨same,here⟩

theorem Attempting.keeps {package : String} {env env' : σ} {p : Progress σ} (attempting : site.Attempting makers package env p)
    (keeps : site.Keeps env env') : site.Attempting makers package env' p := by
  cases attempting with
  | ready made => exact .ready made
  | waiting made sure => exact .waiting made fun env'' further => sure env'' (keeps.trans further)
  | settled r => exact .settled r

/-- One of the callers has gone on. -/
theorem Formed.caller (formed : site.Formed requests makers c) {i : Nat} {t : Thread σ} {request : String} {importer : Option ModuleId}
    (asked : requests[i]? = some (request,importer)) (caller : Caller makers request importer t) {s : State σ}
    (attempts : ∀ {n : Nat} {package : String} {p : Progress σ}, s.attempts[n]? = some ⟨package,p⟩ →
      site.Attempting makers package s.env p) : site.Formed requests makers ⟨s,c.callers.set i t⟩ := by
  refine ⟨fun {j t'} here => ?_,attempts⟩
  rcases getElem?_set_cases here with ⟨rfl,rfl⟩ | ⟨-,here⟩
  · exact ⟨request,importer,asked,caller⟩
  · exact formed.callers here

/-- One of the attempts has gone on. -/
theorem Formed.attempt (formed : site.Formed requests makers c) {n : Nat} {package : String} {p q : Progress σ} {env : σ}
    (keeps : site.Keeps c.state.env env) (here : c.state.attempts[n]? = some ⟨package,p⟩)
    (attempting : site.Attempting makers package env q) :
    site.Formed requests makers ⟨{ c.state with env }.setProgress n q,c.callers⟩ := by
  refine ⟨formed.callers,fun {m package' p'} there => ?_⟩
  rcases State.attempts_setProgress_cases there with ⟨rfl,rfl,p'',same⟩ | ⟨-,before⟩
  · obtain rfl : package = package' := congrArg Attempt.key (Option.some.inj (here.symm.trans same))
    exact attempting
  · exact (formed.attempts before).keeps keeps

end

end Site

end Install

end Bundling
