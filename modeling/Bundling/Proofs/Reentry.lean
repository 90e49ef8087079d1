import Mathlib.Data.Nat.Find
import Bundling.Proofs.Sharing
import Bundling.Resolve.Install

/-!
# Resolvers that ask the others

A resolver that asks is passed over while the others answer, but only by the question that it asked itself:
when another one asks in turn, only that one is passed over. So one resolver that asks is not invoked again
before it has its answer, whatever is asked (`lone_asker_straight`), and two of them that ask for what they
were given invoke each other without end (`reentrant_iff_twoAsk`).
-/

namespace Bundling

variable {σ : Type} {kind : String → Option ModuleId → Prop}

namespace Activity

/-- The questions of an activity, and of the attempts that it shares, are of some kind, whatever it is told. -/
inductive AsksOnly (kind : String → Option ModuleId → Prop) : Activity σ → Prop where
  | answer (r : Resolved) : AsksOnly kind (.answer r)
  | defer : AsksOnly kind .defer
  | step {f : σ → Activity σ × σ} (leads : ∀ s, AsksOnly kind (f s).1) : AsksOnly kind (.step f)
  | pause {rounds : Nat} {next : Activity σ} (leads : AsksOnly kind next) : AsksOnly kind (.pause rounds next)
  | ask {request : String} {importer : Option ModuleId} {next : Resolved → Activity σ} (this : kind request importer)
      (leads : ∀ r, AsksOnly kind (next r)) : AsksOnly kind (.ask request importer next)
  | share {key : String} {a : Activity σ} {next : Resolved → Activity σ} (this : AsksOnly kind a)
      (leads : ∀ r, AsksOnly kind (next r)) : AsksOnly kind (.share key a next)
  | pending {next : List String → Activity σ} (leads : ∀ keys, AsksOnly kind (next keys)) : AsksOnly kind (.pending next)

/-- An activity may come to ask the others, itself or by an attempt. -/
inductive MayAsk : Activity σ → Prop where
  | ask {request : String} {importer : Option ModuleId} {next : Resolved → Activity σ} : MayAsk (.ask request importer next)
  | step {f : σ → Activity σ × σ} (s : σ) (leads : MayAsk (f s).1) : MayAsk (.step f)
  | pause {rounds : Nat} {next : Activity σ} (leads : MayAsk next) : MayAsk (.pause rounds next)
  | attempt {key : String} {a : Activity σ} {next : Resolved → Activity σ} (leads : MayAsk a) : MayAsk (.share key a next)
  | share {key : String} {a : Activity σ} {next : Resolved → Activity σ} (r : Resolved) (leads : MayAsk (next r)) :
      MayAsk (.share key a next)
  | pending {next : List String → Activity σ} (keys : List String) (sorted : keys.Pairwise (· ≤ ·))
      (leads : MayAsk (next keys)) : MayAsk (.pending next)

/-- An activity may come to leave the request to the next resolver before it asks anything. -/
inductive MayDefer : Activity σ → Prop where
  | defer : MayDefer .defer
  | step {f : σ → Activity σ × σ} (s : σ) (leads : MayDefer (f s).1) : MayDefer (.step f)
  | pause {rounds : Nat} {next : Activity σ} (leads : MayDefer next) : MayDefer (.pause rounds next)
  | share {key : String} {a : Activity σ} {next : Resolved → Activity σ} (r : Resolved) (leads : MayDefer (next r)) :
      MayDefer (.share key a next)
  | pending {next : List String → Activity σ} (keys : List String) (sorted : keys.Pairwise (· ≤ ·))
      (leads : MayDefer (next keys)) : MayDefer (.pending next)

/-- What is asked after this activity may be asked of the resolvers behind it. -/
def MayPass (a : Activity σ) : Prop := a.MayAsk ∨ a.MayDefer

/-- Every activity asks what it likes. -/
theorem asksOnly_true (a : Activity σ) : a.AsksOnly fun _ _ => True :=
  @Activity.rec σ (fun a => a.AsksOnly fun _ _ => True) (fun p => p.1.AsksOnly fun _ _ => True)
    .answer .defer (fun _ leads => .step leads) (fun _ _ leads => .pause leads) (fun _ _ _ leads => .ask trivial leads)
    (fun _ _ _ this leads => .share this leads) (fun _ leads => .pending leads) (fun _ _ leads => leads) a

end Activity

namespace Resolution

variable {chain : List (Resolver σ)}

/-- The place of a resolver that is at work. -/
def Frame.place? : Frame σ → Option Nat
  | .resolver _ i => some i
  | .asker _ => none

/-- The places of the resolvers that are at work on a stack. -/
def places (stack : List (Frame σ)) : List Nat := stack.filterMap Frame.place?

@[simp] theorem places_nil : places (σ := σ) [] = [] := rfl

@[simp] theorem places_resolver (q : Query) (i : Nat) (stack : List (Frame σ)) :
    places (.resolver q i :: stack) = i :: places stack := rfl

@[simp] theorem places_asker (next : Resolved → Activity σ) (stack : List (Frame σ)) :
    places (.asker next :: stack) = places stack := rfl

/-- A thread, with the resolvers that were at work where it was made. -/
structure Errand (σ : Type) where
  thread : Thread σ
  above : List Nat := []

namespace Errand

/-- The places of all resolvers that have been invoked and are at work still. -/
def calls (e : Errand σ) : List Nat := places e.thread.stack ++ e.above

/-- A resolver has been invoked again while it waits for an answer of the others. -/
def Reentrant (e : Errand σ) : Prop := ¬ e.calls.Nodup

/-- The thread makes a step, or makes an attempt. -/
inductive Next (chain : List (Resolver σ)) : Errand σ → Errand σ → Prop where
  | goes {t t' : Thread σ} {above : List Nat} (next : Thread.Next chain t t') : Next chain ⟨t,above⟩ ⟨t',above⟩
  | makes {e : Errand σ} {key : String} {a : Activity σ} {next : Resolved → Activity σ}
      (control : e.thread.control = .act (.share key a next)) :
      Next chain e ⟨{ control := .act a, home := e.thread.worker },e.calls⟩

/-- However it goes on, it comes to an end, and no resolver is invoked again while it waits for the others. -/
inductive Straight (chain : List (Resolver σ)) : Errand σ → Prop where
  | intro {e : Errand σ} (once : e.calls.Nodup) (next : ∀ {e'}, Next chain e e' → Straight chain e') : Straight chain e

/-- There is no way to go on for ever. -/
def Ends (chain : List (Resolver σ)) (e : Errand σ) : Prop := Acc (fun e' e => Next chain e e') e

variable {e e' : Errand σ}

theorem Straight.ends (straight : e.Straight chain) : e.Ends chain := by
  induction straight with
  | intro _ _ ih => exact ⟨_,fun _ next => ih next⟩

theorem Straight.reaches (straight : e.Straight chain) (reaches : Relation.ReflTransGen (Next chain) e e') :
    e'.Straight chain := by
  induction reaches with
  | refl => exact straight
  | tail _ next ih =>
    cases ih with
    | intro _ onward => exact onward next

theorem Straight.not_reentrant (straight : e.Straight chain) : ¬ e.Reentrant := by
  cases straight with
  | intro once => exact fun again => again once

end Errand

/-! ## One resolver that asks -/

theorem pairwise_pendingKeys (s : State σ) : s.pendingKeys.Pairwise (· ≤ ·) := by
  have sorted : s.pendingKeys.Pairwise fun a b => decide (a ≤ b) = true :=
    List.pairwise_mergeSort (by simpa using fun a b c => String.le_trans) (by simpa using String.le_total) _
  exact sorted.imp of_decide_eq_true

section

open Errand

variable {stack : List (Frame σ)} {home : Option Nat} {above : List Nat} {i : Nat} {a : Activity σ}

/-- Only a thread that is about to share makes an attempt. -/
theorem straight_of_advance? {control : Control σ} (once : (places stack ++ above).Nodup)
    (alone : ∀ key a next, control ≠ .act (.share key a next))
    (onward : ∀ {s s' t'}, Thread.advance? chain s ⟨control,stack,home⟩ = some (s',t') → Straight chain ⟨t',above⟩) :
    Straight chain ⟨⟨control,stack,home⟩,above⟩ := by
  refine ⟨once,fun {e'} next => ?_⟩
  cases next with
  | goes next =>
    obtain ⟨s,s',advanced⟩ := next
    exact onward advanced
  | makes control' => exact absurd control' (alone _ _ _)

theorem straight_finished (once : (places stack ++ above).Nodup) (r : Resolved) :
    Straight chain ⟨⟨.finished r,stack,home⟩,above⟩ :=
  straight_of_advance? once nofun fun advanced => by simp [Thread.advance?] at advanced

theorem straight_returning {others : List Nat} {r : Resolved} {next : Resolved → Activity σ} (once : (places stack ++ above).Nodup)
    (leads : Straight chain ⟨⟨.act (next r),stack,home⟩,above⟩) : Straight chain ⟨⟨.settling others r next,stack,home⟩,above⟩ :=
  straight_of_advance? once nofun fun advanced => by
    simp only [Thread.advance?] at advanced
    split at advanced <;> cases advanced
    exact leads

theorem straight_joined {n : Nat} {next : Resolved → Activity σ} (once : (places stack ++ above).Nodup)
    (leads : ∀ r, Straight chain ⟨⟨.act (next r),stack,home⟩,above⟩) : Straight chain ⟨⟨.joined n next,stack,home⟩,above⟩ :=
  straight_of_advance? once nofun fun advanced => by
    obtain ⟨r,-,equal⟩ := Option.map_eq_some_iff.mp advanced
    cases equal
    exact straight_returning once (leads r)

theorem straight_paused {wake : Nat} {next : Activity σ} (once : (places stack ++ above).Nodup)
    (leads : Straight chain ⟨⟨.act next,stack,home⟩,above⟩) : Straight chain ⟨⟨.paused wake next,stack,home⟩,above⟩ :=
  straight_of_advance? once nofun fun advanced => by
    simp only [Thread.advance?] at advanced
    split at advanced <;> cases advanced
    exact leads

/-- What an activity does goes straight if all questions that it asks do. -/
theorem straight_act (asks : a.AsksOnly kind)
    (asked : a.MayAsk → ∀ {stack home above request importer} {next : Resolved → Activity σ}, kind request importer →
      places stack ++ above = [i] → (∀ r, Straight chain ⟨⟨.act (next r),stack,home⟩,above⟩) →
      Straight chain ⟨⟨.chain ⟨request,importer,some i⟩ 0,.asker next :: stack,home⟩,above⟩)
    (worker : Thread.worker ⟨.act a,stack,home⟩ = some i) (once : (places stack ++ above).Nodup)
    (only : a.MayAsk → places stack ++ above = [i]) (answers : ∀ r, Straight chain ⟨⟨.act (.answer r),stack,home⟩,above⟩)
    (defers : a.MayPass → Straight chain ⟨⟨.act .defer,stack,home⟩,above⟩) :
    Straight chain ⟨⟨.act a,stack,home⟩,above⟩ := by
  induction asks generalizing stack home above with
  | answer r => exact answers r
  | defer => exact defers (.inr .defer)
  | @step f leads ih =>
    refine straight_of_advance? once nofun fun {s s' t'} advanced => ?_
    cases advanced
    exact ih s.env (fun may => asked (.step _ may)) worker once (fun may => only (.step _ may)) answers
      fun pass => defers (pass.imp (.step _) (.step _))
  | @pause rounds a leads ih =>
    refine straight_of_advance? once nofun fun {s s' t'} advanced => ?_
    cases advanced
    have onward := ih (fun may => asked (.pause may)) worker once (fun may => only (.pause may)) answers
      fun pass => defers (pass.imp .pause .pause)
    by_cases none : rounds = 0
    · simpa only [none,if_true] using onward
    · simpa only [none,if_false] using straight_paused once onward
  | @ask request importer next this leads ih =>
    refine straight_of_advance? once nofun fun {s s' t'} advanced => ?_
    cases advanced
    have onward := asked .ask this (only .ask) fun r => ih r (fun _ => asked .ask) worker once (fun _ => only .ask) answers
      fun _ => defers (.inl .ask)
    exact worker ▸ onward
  | @share key a next this leads made ih =>
    have onward : ∀ r, Straight chain ⟨⟨.act (next r),stack,home⟩,above⟩ := fun r =>
      ih r (fun may => asked (.share r may)) worker once (fun may => only (.share r may)) answers
        fun pass => defers (pass.imp (.share r) (.share r))
    refine ⟨once,fun {e'} next => ?_⟩
    cases next with
    | goes next =>
      obtain ⟨s,s',advanced⟩ := next
      cases advanced
      exact straight_joined once onward
    | makes control =>
      cases control
      have finished : ∀ r, Straight chain ⟨⟨.finished r,[],some i⟩,places stack ++ above⟩ := straight_finished once
      have past : ∀ a, (a = .defer ∨ ∃ r, a = .answer r) →
          Straight chain ⟨⟨.act a,[],some i⟩,places stack ++ above⟩ := by
        intro a last
        refine straight_of_advance? once (by rintro key b next ⟨⟩; simp at last) fun {s s' t'} advanced => ?_
        rcases last with rfl | ⟨r,rfl⟩ <;> cases advanced <;> exact finished _
      have attempt : Straight chain ⟨⟨.act a,[],some i⟩,places stack ++ above⟩ := made
        (fun may => asked (.attempt may)) rfl once (fun may => only (.attempt may)) (fun r => past _ (.inr ⟨r,rfl⟩))
        fun _ => past _ (.inl rfl)
      exact worker ▸ attempt
  | @pending next leads ih =>
    refine straight_of_advance? once nofun fun {s s' t'} advanced => ?_
    cases advanced
    have sorted := pairwise_pendingKeys s
    exact ih _ (fun may => asked (.pending _ sorted may)) worker once (fun may => only (.pending _ sorted may)) answers
      fun pass => defers (pass.imp (.pending _ sorted) (.pending _ sorted))

/-- A resolver goes straight if the questions that it asks do, and so do those who come after it. -/
theorem straight_invoked {q : Query} (asks : a.AsksOnly kind)
    (asked : a.MayAsk → ∀ {stack home above request importer} {next : Resolved → Activity σ}, kind request importer →
      places stack ++ above = [i] → (∀ r, Straight chain ⟨⟨.act (next r),stack,home⟩,above⟩) →
      Straight chain ⟨⟨.chain ⟨request,importer,some i⟩ 0,.asker next :: stack,home⟩,above⟩)
    (once : (places stack ++ above).Nodup) (fresh : i ∉ places stack ++ above) (only : a.MayAsk → places stack ++ above = [])
    (answered : ∀ r, Straight chain ⟨⟨.answered r,stack,home⟩,above⟩)
    (behind : a.MayPass → Straight chain ⟨⟨.chain q (i + 1),stack,home⟩,above⟩) :
    Straight chain ⟨⟨.act a,.resolver q i :: stack,home⟩,above⟩ := by
  have once' : (places (.resolver q i :: stack) ++ above).Nodup := List.nodup_cons.mpr ⟨fresh,once⟩
  refine straight_act asks asked rfl once' (fun may => congrArg (i :: ·) (only may)) (fun r => ?_) fun pass => ?_
  · refine straight_of_advance? once' nofun fun advanced => ?_
    cases advanced
    exact answered r
  · refine straight_of_advance? once' nofun fun advanced => ?_
    cases advanced
    exact behind pass

/-- A chain goes straight from each place that is reached if its resolvers do. -/
theorem straight_chain {q : Query} {reach : Nat → Prop} (once : (places stack ++ above).Nodup)
    (answered : ∀ r, Straight chain ⟨⟨.answered r,stack,home⟩,above⟩)
    (behind : ∀ {j resolver}, reach j → chain[j]? = some resolver →
      (q.skip ≠ some j → (resolver.resolve q.request q.importer).MayPass) → reach (j + 1))
    (invoked : ∀ {j resolver}, reach j → chain[j]? = some resolver → q.skip ≠ some j →
      ((resolver.resolve q.request q.importer).MayPass → Straight chain ⟨⟨.chain q (j + 1),stack,home⟩,above⟩) →
      Straight chain ⟨⟨.act (resolver.resolve q.request q.importer),.resolver q j :: stack,home⟩,above⟩)
    {j : Nat} (here : reach j) : Straight chain ⟨⟨.chain q j,stack,home⟩,above⟩ := by
  induction left : chain.length - j generalizing j with
  | zero =>
    refine straight_of_advance? once nofun fun advanced => ?_
    simp only [Thread.advance?,List.getElem?_eq_none (Nat.sub_eq_zero_iff_le.mp left)] at advanced
    cases advanced
    exact answered _
  | succ n ih =>
    obtain ⟨resolver,at_⟩ : ∃ resolver, chain[j]? = some resolver := ⟨_,List.getElem?_eq_getElem (by omega)⟩
    refine straight_of_advance? once nofun fun advanced => ?_
    simp only [Thread.advance?,at_] at advanced
    split at advanced <;> rename_i skipped <;> cases advanced
    · exact ih (behind here at_ fun other => absurd skipped other) (by omega)
    · exact invoked here at_ skipped fun pass => ih (behind here at_ fun _ => pass) (by omega)

/-- If one resolver at most asks, of those that are reached, then whoever asks the chain goes straight. -/
theorem straight_resolving (kind : String → Option ModuleId → Prop) (lone : Nat) (reach : String → Option ModuleId → Nat → Prop)
    (asks : ∀ {request importer}, kind request importer → ∀ resolver ∈ chain, (resolver.resolve request importer).AsksOnly kind)
    (front : ∀ {request importer}, kind request importer → reach request importer 0)
    (behind : ∀ {request importer j resolver}, reach request importer j → chain[j]? = some resolver →
      (j ≠ lone → (resolver.resolve request importer).MayPass) → reach request importer (j + 1))
    (silent : ∀ {request importer j resolver}, kind request importer → reach request importer j → chain[j]? = some resolver →
      j ≠ lone → ¬ (resolver.resolve request importer).MayAsk)
    {request : String} {importer : Option ModuleId} (this : kind request importer) :
    Straight chain { thread := .resolving request importer } := by
  have others : ∀ {stack home above request importer} {next : Resolved → Activity σ}, kind request importer →
      places stack ++ above = [lone] → (∀ r, Straight chain ⟨⟨.act (next r),stack,home⟩,above⟩) →
      Straight chain ⟨⟨.chain ⟨request,importer,some lone⟩ 0,.asker next :: stack,home⟩,above⟩ := by
    intro stack home above request importer next this only leads
    have once : (places (.asker next :: stack) ++ above).Nodup := by simp [only]
    have answered : ∀ r, Straight chain ⟨⟨.answered r,.asker next :: stack,home⟩,above⟩ := by
      intro r
      refine straight_of_advance? once nofun fun advanced => ?_
      cases advanced
      exact leads r
    refine straight_chain once answered (fun here at_ pass => behind here at_ fun other => pass (by simpa using other.symm))
      (fun {j resolver} here at_ other onward => ?_) (front this)
    have other : j ≠ lone := fun same => other (same ▸ rfl)
    have quiet := silent this here at_ other
    exact straight_invoked (asks this resolver (List.mem_of_getElem? at_)) (fun may => absurd may quiet) once (by simp [only,other])
      (fun may => absurd may quiet) answered onward
  have once : (places ([] : List (Frame σ)) ++ []).Nodup := List.nodup_nil
  have answered : ∀ r, Straight chain ⟨⟨.answered r,[],none⟩,[]⟩ := by
    intro r
    refine straight_of_advance? once nofun fun advanced => ?_
    cases advanced
    exact straight_finished once r
  refine straight_chain once answered (fun here at_ pass => behind here at_ fun _ => pass (by simp))
    (fun {j resolver} here at_ _ onward => ?_) (front this)
  refine straight_invoked (asks this resolver (List.mem_of_getElem? at_)) (fun may => ?_) once (by simp) (fun _ => rfl) answered onward
  obtain rfl : j = lone := by
    by_contra other
    exact silent this here at_ other may
  exact others

/-- A resolver that asks, if it is the only one, is never invoked again before it has its answer, whatever it
asks and whatever the others do, and every question comes to an end. -/
theorem lone_asker_straight (lone : Nat)
    (silent : ∀ {j resolver}, chain[j]? = some resolver → j ≠ lone → ∀ request importer, ¬ (resolver.resolve request importer).MayAsk)
    (request : String) (importer : Option ModuleId) : Straight chain { thread := .resolving request importer } :=
  straight_resolving (fun _ _ => True) lone (fun _ _ _ => True) (fun _ _ _ => Activity.asksOnly_true _) (fun _ => trivial)
    (fun _ _ _ => trivial) (fun _ _ at_ other => silent at_ other _ _) trivial

/-- Who looks among files asks nobody. -/
theorem files_not_mayAsk (store : FileStore σ) (root : Path) (extensions : List String) (request : String)
    (importer : Option ModuleId) : ¬ ((Candidates.resolver store root extensions).resolve request importer).MayAsk := by
  intro may
  cases may with
  | step s leads =>
    dsimp only at leads
    split at leads <;> cases leads

/-- A layer that looks among files and installs what it does not find always comes to an answer, whatever its
installer does. -/
theorem files_install_straight (store : FileStore σ) (root : Path) (extensions : List String) (installer : Install.Installer σ)
    (options : Install.Options) (filter : Install.Filter) (callbacks : Install.Callbacks σ) (request : String)
    (importer : Option ModuleId) :
    Straight [Candidates.resolver store root extensions,Install.resolver installer options filter callbacks root]
      { thread := .resolving request importer } := by
  refine lone_asker_straight 1 (fun {j resolver} at_ other request importer => ?_) request importer
  match j with
  | 0 =>
    cases at_
    exact files_not_mayAsk store root extensions request importer
  | 1 => exact absurd rfl other
  | j + 2 => cases at_

end

/-! ## Two resolvers that ask -/

section

open Errand Relation

variable {stack : List (Frame σ)} {home : Option Nat} {above : List Nat} {i : Nat} {a : Activity σ}
variable {request : String} {importer : Option ModuleId}

theorem next_step {f : σ → Activity σ × σ} (s : σ) :
    Next chain ⟨⟨.act (.step f),stack,home⟩,above⟩ ⟨⟨.act (f s).1,stack,home⟩,above⟩ :=
  .goes ⟨{ env := s },{ env := (f s).2 },rfl⟩

variable [Nonempty σ]

/-- A step that is made in whatever state the layer is. -/
theorem next_of_advance? {t t' : Thread σ} (advances : ∀ s, t.advance? chain s = some (s,t')) :
    Next chain ⟨t,above⟩ ⟨t',above⟩ := by
  obtain ⟨env⟩ := ‹Nonempty σ›
  exact .goes ⟨_,_,advances { env }⟩

theorem reaches_pause {rounds : Nat} {next : Activity σ} :
    ReflTransGen (Next chain) ⟨⟨.act (.pause rounds next),stack,home⟩,above⟩ ⟨⟨.act next,stack,home⟩,above⟩ := by
  obtain ⟨env⟩ := ‹Nonempty σ›
  by_cases none : rounds = 0
  · exact .single (.goes ⟨{ env },{ env },by simp [Thread.advance?,none]⟩)
  · refine .head (b := ⟨⟨.paused rounds next,stack,home⟩,above⟩) (.goes ⟨{ env },{ env },by simp [Thread.advance?,none]⟩) ?_
    exact .single (.goes ⟨{ env, clock := rounds },{ env, clock := rounds },by simp [Thread.advance?]⟩)

/-- Whatever comes of an attempt, some state of the layer tells the thread so. -/
theorem reaches_share {key : String} {b : Activity σ} {next : Resolved → Activity σ} (r : Resolved) :
    ReflTransGen (Next chain) ⟨⟨.act (.share key b next),stack,home⟩,above⟩ ⟨⟨.act (next r),stack,home⟩,above⟩ := by
  obtain ⟨env⟩ := ‹Nonempty σ›
  have joins : Next chain ⟨⟨.act (.share key b next),stack,home⟩,above⟩ ⟨⟨.joined 0 next,stack,home⟩,above⟩ :=
    .goes ⟨{ env },_,rfl⟩
  have learns : Next chain ⟨⟨.joined 0 next,stack,home⟩,above⟩ ⟨⟨.settling [] r next,stack,home⟩,above⟩ :=
    .goes ⟨{ env, attempts := [⟨key,.settled r⟩] },_,rfl⟩
  have returns : Next chain ⟨⟨.settling [] r next,stack,home⟩,above⟩ ⟨⟨.act (next r),stack,home⟩,above⟩ :=
    next_of_advance? fun s => rfl
  exact .head joins (.head learns (.single returns))

theorem next_pending {next : List String → Activity σ} {keys : List String} (sorted : keys.Pairwise (· ≤ ·)) :
    Next chain ⟨⟨.act (.pending next),stack,home⟩,above⟩ ⟨⟨.act (next keys),stack,home⟩,above⟩ := by
  obtain ⟨env⟩ := ‹Nonempty σ›
  let s : State σ := { env, locks := keys.map (·,0) }
  have locked : s.pendingKeys = keys := by
    have names : s.locks.map Prod.fst = keys := by simp [s,Function.comp_def]
    rw [State.pendingKeys,names,List.mergeSort_of_pairwise (by simpa using sorted)]
  exact .goes ⟨s,s,by simp [Thread.advance?,locked]⟩

theorem reaches_behind (may : a.MayDefer) (q : Query) (i : Nat) :
    ReflTransGen (Next chain) ⟨⟨.act a,.resolver q i :: stack,home⟩,above⟩ ⟨⟨.chain q (i + 1),stack,home⟩,above⟩ := by
  induction may with
  | defer => exact .single (next_of_advance? fun s => rfl)
  | step s _ ih => exact .head (next_step s) ih
  | pause _ ih => exact reaches_pause.trans ih
  | share r _ ih => exact (reaches_share r).trans ih
  | pending keys sorted _ ih => exact .head (next_pending sorted) ih

/-- An activity that may ask comes to ask, on the way of its own thread or on that of an attempt. -/
theorem reaches_ask (may : a.MayAsk) (stack : List (Frame σ)) (home : Option Nat) (above : List Nat)
    (asks : a.AsksOnly fun r f => r = request ∧ f = importer) (worker : Thread.worker ⟨.act a,stack,home⟩ = some i) :
    ∃ stack' home' above', places stack' ++ above' = places stack ++ above ∧
      TransGen (Next chain) ⟨⟨.act a,stack,home⟩,above⟩ ⟨⟨.chain ⟨request,importer,some i⟩ 0,stack',home'⟩,above'⟩ := by
  induction may generalizing stack home above with
  | @ask r f next =>
    cases asks with
    | ask this =>
      obtain ⟨rfl,rfl⟩ := this
      exact ⟨.asker next :: stack,home,above,rfl,.single (worker ▸ next_of_advance? fun s => rfl)⟩
  | step s _ ih =>
    cases asks with
    | step leads =>
      obtain ⟨stack',home',above',same,reaches⟩ := ih stack home above (leads s) worker
      exact ⟨stack',home',above',same,.head (next_step s) reaches⟩
  | pause _ ih =>
    cases asks with
    | pause leads =>
      obtain ⟨stack',home',above',same,reaches⟩ := ih stack home above leads worker
      exact ⟨stack',home',above',same,.trans_right reaches_pause reaches⟩
  | @attempt key b next _ ih =>
    cases asks with
    | share this =>
      obtain ⟨stack',home',above',same,reaches⟩ := ih [] (some i) (places stack ++ above) this rfl
      exact ⟨stack',home',above',same,.head (worker ▸ .makes rfl) reaches⟩
  | share r _ ih =>
    cases asks with
    | share _ leads =>
      obtain ⟨stack',home',above',same,reaches⟩ := ih stack home above (leads r) worker
      exact ⟨stack',home',above',same,.trans_right (reaches_share r) reaches⟩
  | pending keys sorted _ ih =>
    cases asks with
    | pending leads =>
      obtain ⟨stack',home',above',same,reaches⟩ := ih stack home above (leads keys) worker
      exact ⟨stack',home',above',same,.head (next_pending sorted) reaches⟩

/-- A question comes to a place of the chain if the resolvers in front of it are passed over or may leave it to
the next one. -/
theorem reaches_place {q : Query} {i : Nat} (passes : ∀ k < i, q.skip = some k ∨
      q.skip ≠ some k ∧ ∃ resolver, chain[k]? = some resolver ∧ (resolver.resolve q.request q.importer).MayDefer)
    (inside : i ≤ chain.length) :
    ReflTransGen (Next chain) ⟨⟨.chain q 0,stack,home⟩,above⟩ ⟨⟨.chain q i,stack,home⟩,above⟩ := by
  induction i with
  | zero => exact .refl
  | succ i ih =>
    have before := ih (fun k less => passes k (by omega)) (by omega)
    rcases passes i (Nat.lt_succ_self i) with skipped | ⟨other,resolver,at_,may⟩
    · obtain ⟨resolver,at_⟩ : ∃ resolver, chain[i]? = some resolver := ⟨_,List.getElem?_eq_getElem inside⟩
      exact before.tail (next_of_advance? fun s => by simp [Thread.advance?,at_,skipped])
    · have invoked : Next chain ⟨⟨.chain q i,stack,home⟩,above⟩
          ⟨⟨.act (resolver.resolve q.request q.importer),.resolver q i :: stack,home⟩,above⟩ :=
        next_of_advance? fun s => by simp [Thread.advance?,at_,other]
      exact (before.tail invoked).trans (reaches_behind may q i)

/-- A question that comes to a resolver that asks leads to the question that this one asks, of all others. -/
theorem reaches_question (skip : Option Nat) (stack : List (Frame σ)) (home : Option Nat) (above : List Nat)
    {resolver : Resolver σ} (at_ : chain[i]? = some resolver)
    (may : (resolver.resolve request importer).MayAsk)
    (asks : (resolver.resolve request importer).AsksOnly fun r f => r = request ∧ f = importer) (other : skip ≠ some i)
    (passes : ∀ k < i, skip = some k ∨
      skip ≠ some k ∧ ∃ resolver, chain[k]? = some resolver ∧ (resolver.resolve request importer).MayDefer) :
    ∃ stack' home' above', places stack' ++ above' = i :: (places stack ++ above) ∧
      TransGen (Next chain) ⟨⟨.chain ⟨request,importer,skip⟩ 0,stack,home⟩,above⟩
        ⟨⟨.chain ⟨request,importer,some i⟩ 0,stack',home'⟩,above'⟩ := by
  have comes : ReflTransGen (Next chain) ⟨⟨.chain ⟨request,importer,skip⟩ 0,stack,home⟩,above⟩
      ⟨⟨.chain ⟨request,importer,skip⟩ i,stack,home⟩,above⟩ :=
    reaches_place passes (Nat.le_of_lt (List.getElem?_eq_some_iff.mp at_).1)
  have invoked : Next chain ⟨⟨.chain ⟨request,importer,skip⟩ i,stack,home⟩,above⟩
      ⟨⟨.act (resolver.resolve request importer),.resolver ⟨request,importer,skip⟩ i :: stack,home⟩,above⟩ :=
    next_of_advance? fun s => by simp [Thread.advance?,at_,other]
  obtain ⟨stack',home',above',same,asked⟩ := reaches_ask may (.resolver ⟨request,importer,skip⟩ i :: stack) home above asks rfl
  exact ⟨stack',home',above',same,.trans_right comes (.head invoked asked)⟩

end

/-! ## Which chains are re-entered -/

section

variable (chain : List (Resolver σ)) (request : String) (importer : Option ModuleId)

/-- The resolver at this place may ask the others. -/
def Asker (i : Nat) : Prop := ∃ resolver, chain[i]? = some resolver ∧ (resolver.resolve request importer).MayAsk

/-- All resolvers in front of a place may leave the request to those behind them, if only while they ask. -/
def Reached (i : Nat) : Prop := ∀ resolver ∈ chain.take i, (resolver.resolve request importer).MayPass

/-- Two resolvers ask, and the request may come to the second one. -/
def TwoAsk : Prop := ∃ i j, i < j ∧ Asker chain request importer i ∧ Asker chain request importer j ∧ Reached chain request importer j

end

section

open Errand Relation

variable {request : String} {importer : Option ModuleId}

theorem Reached.succ {j : Nat} {resolver : Resolver σ} (reached : Reached chain request importer j)
    (at_ : chain[j]? = some resolver) (pass : (resolver.resolve request importer).MayPass) :
    Reached chain request importer (j + 1) := by
  intro resolver' member
  rw [List.take_add_one,at_] at member
  rcases List.mem_append.mp member with before | last
  · exact reached resolver' before
  · obtain rfl : resolver' = resolver := by simpa using last
    exact pass

/-- Where not two of them ask, a chain goes straight. -/
theorem straight_of_not_twoAsk
    (asks : ∀ resolver ∈ chain, (resolver.resolve request importer).AsksOnly fun r f => r = request ∧ f = importer)
    (alone : ¬ TwoAsk chain request importer) : Straight chain { thread := .resolving request importer } := by
  obtain ⟨lone,only,passes⟩ : ∃ lone, (∀ j, Asker chain request importer j → Reached chain request importer j → j = lone) ∧
      ∀ resolver, chain[lone]? = some resolver → (resolver.resolve request importer).MayPass := by
    by_cases some : ∃ i, Asker chain request importer i ∧ Reached chain request importer i
    · obtain ⟨i,⟨resolver,at_,may⟩,reached⟩ := some
      refine ⟨i,fun j asker' reached' => ?_,fun resolver' at' => ?_⟩
      · rcases Nat.lt_trichotomy i j with less | same | less
        · exact absurd ⟨i,j,less,⟨resolver,at_,may⟩,asker',reached'⟩ alone
        · exact same.symm
        · exact absurd ⟨j,i,less,asker',⟨resolver,at_,may⟩,reached⟩ alone
      · obtain rfl : resolver = resolver' := Option.some.inj (at_.symm.trans at')
        exact .inl may
    · exact ⟨chain.length,fun j asker reached => absurd ⟨j,asker,reached⟩ some,by simp⟩
  refine straight_resolving (fun r f => r = request ∧ f = importer) lone
    (fun r f j => r = request → f = importer → Reached chain request importer j) ?_ ?_ ?_ ?_ ⟨rfl,rfl⟩
  · rintro _ _ ⟨rfl,rfl⟩
    exact asks
  · rintro _ _ - - -
    simp [Reached]
  · rintro _ _ j resolver here at_ pass rfl rfl
    refine (here rfl rfl).succ at_ ?_
    by_cases same : j = lone
    · exact passes resolver (same ▸ at_)
    · exact pass same
  · rintro _ _ j resolver ⟨rfl,rfl⟩ here at_ other may
    exact other (only j ⟨resolver,at_,may⟩ (here rfl rfl))

/-- The first two resolvers that ask, with none between them or in front of them that keeps the request. -/
theorem TwoAsk.first (two : TwoAsk chain request importer) :
    ∃ i j, i < j ∧ Asker chain request importer i ∧ Asker chain request importer j ∧
      ∀ k < j, k ≠ i → ∃ resolver, chain[k]? = some resolver ∧ (resolver.resolve request importer).MayDefer := by
  classical
  obtain ⟨i',j',less',first',second',reached⟩ := two
  obtain ⟨i,first,least⟩ : ∃ i, Asker chain request importer i ∧ ∀ k, Asker chain request importer k → i ≤ k :=
    ⟨Nat.find ⟨i',first'⟩,Nat.find_spec _,fun k asker => Nat.find_min' _ asker⟩
  have later : ∃ j, i < j ∧ Asker chain request importer j := ⟨j',Nat.lt_of_le_of_lt (least i' first') less',second'⟩
  obtain ⟨j,⟨less,second⟩,next⟩ : ∃ j, (i < j ∧ Asker chain request importer j) ∧
      ∀ k, i < k → Asker chain request importer k → j ≤ k :=
    ⟨Nat.find later,Nat.find_spec later,fun k less asker => Nat.find_min' later ⟨less,asker⟩⟩
  refine ⟨i,j,less,first,second,fun k before other => ?_⟩
  have silent : ¬ Asker chain request importer k := fun asker => by
    have := least k asker
    have := next k (by omega) asker
    omega
  have bound : j ≤ j' := next j' (Nat.lt_of_le_of_lt (least i' first') less') second'
  obtain ⟨resolver',at',-⟩ := second'
  have inside : k < chain.length := by
    have := (List.getElem?_eq_some_iff.mp at').1
    omega
  have pass := reached chain[k] (List.mem_take_iff_getElem.mpr ⟨k,lt_min (by omega) inside,rfl⟩)
  exact ⟨_,List.getElem?_eq_getElem inside,pass.resolve_left fun may => silent ⟨_,List.getElem?_eq_getElem inside,may⟩⟩

/-- What can be repeated for ever does not end. -/
theorem not_ends_of_again (again : Errand σ → Prop) (leads : ∀ e, again e → ∃ e', TransGen (Next chain) e e' ∧ again e')
    {e : Errand σ} (this : again e) : ¬ e.Ends chain := by
  intro ends
  have ends' := ends.transGen
  clear ends
  induction ends' with
  | intro e _ ih =>
    obtain ⟨e',reaches,this'⟩ := leads e this
    exact ih e' (transGen_swap.mp reaches) this'

/-- Where two of them ask, the first one asks, then the second one, then the first one again, and so on. -/
theorem TwoAsk.again [Nonempty σ]
    (asks : ∀ resolver ∈ chain, (resolver.resolve request importer).AsksOnly fun r f => r = request ∧ f = importer)
    (two : TwoAsk chain request importer) :
    (∃ e, ReflTransGen (Next chain) { thread := .resolving request importer } e ∧ e.Reentrant) ∧
      ¬ Ends chain { thread := .resolving request importer } := by
  obtain ⟨i,j,less,⟨first,at_,may⟩,⟨second,at',may'⟩,between⟩ := two.first
  have asks_first : ∀ skip : Option Nat, skip ≠ some i → (∀ k < i, skip ≠ some k) → ∀ stack home above, _ :=
    fun skip other clear stack home above => reaches_question skip stack home above at_ may
      (asks first (List.mem_of_getElem? at_)) other fun k before => .inr ⟨clear k before,between k (by omega) (by omega)⟩
  have asks_second : ∀ stack home above, _ :=
    fun stack home above => reaches_question (some i) stack home above at' may'
      (asks second (List.mem_of_getElem? at')) (by simpa using Nat.ne_of_lt less) fun k before => by
        by_cases same : k = i
        · exact .inl (same ▸ rfl)
        · exact .inr ⟨by simpa using Ne.symm same,between k before same⟩
  have front : ∀ k : Nat, none ≠ some k := by simp
  have back : some j ≠ some i := by simp [Nat.ne_of_gt less]
  have clear : ∀ k < i, some j ≠ some k := fun k before => by simp; omega
  constructor
  · obtain ⟨stack₁,home₁,above₁,calls₁,first⟩ := asks_first none (front i) (fun k _ => front k) [] none []
    obtain ⟨stack₂,home₂,above₂,calls₂,second⟩ := asks_second stack₁ home₁ above₁
    obtain ⟨stack₃,home₃,above₃,calls₃,third⟩ := asks_first (some j) back clear stack₂ home₂ above₂
    refine ⟨_,((first.trans second).trans third).to_reflTransGen,?_⟩
    rw [Reentrant,calls,calls₃,calls₂,calls₁]
    simp
  · let asking : Errand σ → Prop := fun e => ∃ skip stack home above, skip ≠ some i ∧ (∀ k < i, skip ≠ some k) ∧
      e = ⟨⟨.chain ⟨request,importer,skip⟩ 0,stack,home⟩,above⟩
    refine not_ends_of_again asking ?_ ⟨none,[],none,[],front i,fun k _ => front k,rfl⟩
    rintro _ ⟨skip,stack,home,above,other,clear',rfl⟩
    obtain ⟨stack₁,home₁,above₁,-,first⟩ := asks_first skip other clear' stack home above
    obtain ⟨stack₂,home₂,above₂,-,second⟩ := asks_second stack₁ home₁ above₁
    exact ⟨_,first.trans second,some j,stack₂,home₂,above₂,back,clear,rfl⟩

/-- Of resolvers that ask for nothing but what they were given one is invoked again while it waits for the others
just if two of them ask and the request may come to the second one. Where this is so the question has no end, and
anywhere else it has. -/
theorem reentrant_iff_twoAsk [Nonempty σ]
    (asks : ∀ resolver ∈ chain, (resolver.resolve request importer).AsksOnly fun r f => r = request ∧ f = importer) :
    ((∃ e, ReflTransGen (Next chain) { thread := .resolving request importer } e ∧ e.Reentrant) ↔ TwoAsk chain request importer) ∧
      (Ends chain { thread := .resolving request importer } ↔ ¬ TwoAsk chain request importer) := by
  have straight := straight_of_not_twoAsk asks
  refine ⟨⟨fun ⟨e,reaches,again⟩ => ?_,fun two => (two.again asks).1⟩,⟨fun ends two => (two.again asks).2 ends,fun alone => (straight alone).ends⟩⟩
  by_contra alone
  exact ((straight alone).reaches reaches).not_reentrant again

end

/-- A resolver that asks the others for what it was given, and hands on what they answer. -/
def curious (name : String) : Resolver Unit := { name, resolve := fun request importer => .ask request importer .answer }

/-- A resolver that has no answers. -/
def ignorant (name : String) : Resolver Unit := { name, resolve := fun _ _ => .defer }

theorem asksOnly_curious (name request : String) (importer : Option ModuleId) :
    ((curious name).resolve request importer).AsksOnly fun r f => r = request ∧ f = importer := .ask ⟨rfl,rfl⟩ .answer

/-- One resolver that asks, behind one that has no answers. -/
theorem reentrant_iff_twoAsk_lone :
    Errand.Ends [ignorant "first",curious "second"] { thread := .resolving "x" none } ∧
      ¬ ∃ e, Relation.ReflTransGen (Errand.Next [ignorant "first",curious "second"]) { thread := .resolving "x" none } e ∧
        e.Reentrant := by
  have asks : ∀ resolver ∈ [ignorant "first",curious "second"],
      (resolver.resolve "x" none).AsksOnly fun r f => r = "x" ∧ f = none := by
    simp only [List.forall_mem_cons,List.not_mem_nil,false_imp_iff,implies_true,and_true]
    exact ⟨.defer,asksOnly_curious _ _ _⟩
  have alone : ¬ TwoAsk [ignorant "first",curious "second"] "x" none := by
    rintro ⟨i,j,less,⟨resolver,at_,may⟩,⟨_,at',-⟩,-⟩
    obtain ⟨rfl,rfl⟩ : i = 0 ∧ j = 1 := by
      have := (List.getElem?_eq_some_iff.mp at').1
      simp at this
      omega
    cases at_
    cases may
  obtain ⟨again,ends⟩ := reentrant_iff_twoAsk asks
  exact ⟨ends.mpr alone,fun reentrant => alone (again.mp reentrant)⟩

/-- Two resolvers that ask. -/
def pair : List (Resolver Unit) := [curious "first",curious "second"]

/-- A thread on which the two resolvers ask each other. -/
inductive Circling : Thread Unit → Prop where
  | front (q : Query) (stack : List (Frame Unit)) : Circling { control := .chain q 0, stack }
  | behind {q : Query} (skipped : q.skip = some 0) (stack : List (Frame Unit)) : Circling { control := .chain q 1, stack }
  | asks (q : Query) (i : Nat) (stack : List (Frame Unit)) :
      Circling { control := .act (.ask q.request q.importer .answer), stack := .resolver q i :: stack }

theorem Circling.advances {t : Thread Unit} (circling : Circling t) (s : State Unit) :
    ∃ t', t.advance? pair s = some (s,t') ∧ Circling t' := by
  cases circling with
  | front q stack =>
    by_cases skipped : q.skip = some 0
    · exact ⟨_,by simp [Thread.advance?,pair,skipped],.behind skipped stack⟩
    · exact ⟨_,by simp [Thread.advance?,pair,skipped,curious],.asks q 0 stack⟩
  | @behind q skipped stack => exact ⟨_,by simp [Thread.advance?,pair,skipped,curious],.asks q 1 stack⟩
  | asks q i stack => exact ⟨_,rfl,.front _ _⟩

/-- However long it is carried on, it has no answer. -/
theorem Circling.unanswered {t : Thread Unit} (circling : Circling t) (fuel : Nat) (s : State Unit) :
    (poll pair fuel s t).2.result? = none := by
  induction fuel generalizing t with
  | zero => cases circling <;> rfl
  | succ fuel ih =>
    obtain ⟨t',advanced,circling'⟩ := circling.advances s
    rw [poll,advanced]
    exact ih circling'

/-- Two resolvers that ask: the first one is invoked again before it has its answer, and there is never an
answer. -/
theorem pair_reentrant :
    (∃ e, Relation.ReflTransGen (Errand.Next pair) { thread := .resolving "x" none } e ∧ e.Reentrant) ∧
      ¬ Errand.Ends pair { thread := .resolving "x" none } ∧
      ∀ fuel, (poll pair fuel { env := () } (.resolving "x" none)).2.result? = none := by
  have asks : ∀ resolver ∈ pair, (resolver.resolve "x" none).AsksOnly fun r f => r = "x" ∧ f = none := by
    simp only [pair,List.forall_mem_cons,List.not_mem_nil,false_imp_iff,implies_true,and_true]
    exact ⟨asksOnly_curious _ _ _,asksOnly_curious _ _ _⟩
  have reached : Reached pair "x" none 1 := by
    rintro resolver member
    obtain rfl : resolver = curious "first" := by simpa [pair] using member
    exact .inl .ask
  obtain ⟨again,ends⟩ := TwoAsk.again asks ⟨0,1,Nat.zero_lt_one,⟨_,rfl,.ask⟩,⟨_,rfl,.ask⟩,reached⟩
  exact ⟨again,ends,fun fuel => Circling.unanswered (.front _ _) fuel _⟩

end Resolution

end Bundling
