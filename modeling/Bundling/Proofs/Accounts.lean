import Bundling.Proofs.Journal

/-!
# What has been noted for a module

The stage of a task tells which calls have been made for its module so far, if no other task has made any
(`Stage.Account`): those of the hooks before the transformers, of the transformers, of the hooks after them and of those that
are told of the compiled module, in this order. Going from one stage to the next adds to the journal just what is missing
there (`Graph.account_advance`).
-/

namespace Bundling

open Bundling.Graph (Deed Note)

variable {σ : Type} {journal : σ → List Note} {tools : Toolchain σ}

/-- The calls of the hooks for an occasion. -/
def Hooks.told (h : Hooks σ) (o : Occasion) : List Deed := (h.places o).map .tell

/-- The calls of the transformers. -/
def Toolchain.worked (tools : Toolchain σ) : List Deed := (List.range tools.transformers.length).map .transform

section

variable {h : Hooks σ} {o : Occasion} {d : Deed}

theorem Hooks.mem_told_iff : d ∈ h.told o ↔ ∃ k, h.occasion? k = some o ∧ d = .tell k := by
  simp only [Hooks.told,List.mem_map,Hooks.mem_places_iff,eq_comm]

theorem Hooks.nodup_told (h : Hooks σ) (o : Occasion) : (h.told o).Nodup :=
  List.pairwise_map.mpr ((h.nodup_places o).imp fun other equal => other (Deed.tell.inj equal))

/-- No hook is called on two occasions. -/
theorem Hooks.told_disjoint {o' : Occasion} (other : o ≠ o') : ∀ d ∈ h.told o, ∀ d' ∈ h.told o', d ≠ d' := by
  rintro d one d' two rfl
  obtain ⟨k,known,rfl⟩ := mem_told_iff.mp one
  obtain ⟨k',known',equal⟩ := mem_told_iff.mp two
  cases equal
  exact other (Option.some.inj (known.symm.trans known'))

theorem Toolchain.mem_worked_iff : d ∈ tools.worked ↔ ∃ k < tools.transformers.length, d = .transform k := by
  simp only [Toolchain.worked,List.mem_map,List.mem_range,eq_comm]

theorem Toolchain.nodup_worked (tools : Toolchain σ) : tools.worked.Nodup :=
  List.pairwise_map.mpr (List.nodup_range.imp fun other equal => other (Deed.transform.inj equal))

theorem worked_disjoint_told : ∀ d ∈ tools.worked, ∀ d' ∈ h.told o, d ≠ d' := by
  rintro d one d' two rfl
  obtain ⟨k,-,rfl⟩ := Toolchain.mem_worked_iff.mp one
  obtain ⟨k',-,equal⟩ := Hooks.mem_told_iff.mp two
  cases equal

end

namespace Graph

/-- The calls that have been made for a module. Each had to do with the module, as far as the hooks leave the modules of
events as they are. -/
structure Called (h : Hooks σ) (id : ModuleId) (deeds : List Deed) (noted : List Note) : Prop where
  order : noted.map Note.deed = deeds
  worked : ∀ note ∈ noted, ∀ k, note.deed = .transform k → note.file = id.path
  told : h.KeepIds → ∀ note ∈ noted, note.file = id.path

/-- All calls that are made when a module is compiled. -/
def due (tools : Toolchain σ) (h : Hooks σ) : List Deed :=
  h.told .before ++ tools.worked ++ h.told .after ++ h.told .compiled

section

variable {h : Hooks σ} {id : ModuleId} {deeds deeds' : List Deed} {noted noted' : List Note}

theorem nodup_due (tools : Toolchain σ) (h : Hooks σ) : (due tools h).Nodup := by
  have early : (h.told .before ++ tools.worked).Nodup := List.nodup_append.mpr
    ⟨h.nodup_told _,tools.nodup_worked,fun d one d' two => (worked_disjoint_told d' two d one).symm⟩
  have middle : (h.told .before ++ tools.worked ++ h.told .after).Nodup := by
    refine List.nodup_append.mpr ⟨early,h.nodup_told _,fun d one => ?_⟩
    rcases List.mem_append.mp one with told | worked
    · exact Hooks.told_disjoint (by decide) d told
    · exact worked_disjoint_told d worked
  refine List.nodup_append.mpr ⟨middle,h.nodup_told _,fun d one => ?_⟩
  rcases List.mem_append.mp one with sooner | told
  · rcases List.mem_append.mp sooner with told | worked
    · exact Hooks.told_disjoint (by decide) d told
    · exact worked_disjoint_told d worked
  · exact Hooks.told_disjoint (by decide) d told

theorem mem_due_iff {d : Deed} : d ∈ due tools h ↔ (∃ k < tools.transformers.length, d = .transform k) ∨
    ∃ k o, h.occasion? k = some o ∧ o ≠ .destroyed ∧ d = .tell k := by
  simp only [due,List.mem_append,Hooks.mem_told_iff,Toolchain.mem_worked_iff]
  constructor
  · rintro (((⟨k,known,equal⟩ | worked) | ⟨k,known,equal⟩) | ⟨k,known,equal⟩)
    · exact .inr ⟨k,_,known,nofun,equal⟩
    · exact .inl worked
    · exact .inr ⟨k,_,known,nofun,equal⟩
    · exact .inr ⟨k,_,known,nofun,equal⟩
  · rintro (worked | ⟨k,o,known,other,equal⟩)
    · exact .inl (.inl (.inr worked))
    · cases o with
      | before => exact .inl (.inl (.inl ⟨k,known,equal⟩))
      | after => exact .inl (.inr ⟨k,known,equal⟩)
      | compiled => exact .inr ⟨k,known,equal⟩
      | destroyed => exact absurd rfl other

theorem Called.append (first : Called h id deeds noted) (second : Called h id deeds' noted') :
    Called h id (deeds ++ deeds') (noted ++ noted') where
  order := by rw [List.map_append,first.order,second.order]
  worked note member := (List.mem_append.mp member).elim (first.worked note) (second.worked note)
  told keeps note member := (List.mem_append.mp member).elim (first.told keeps note) (second.told keeps note)

/-- Hooks have been told of an event. -/
theorem called_of_told {o : Occasion} (order : noted.map Note.deed = h.told o)
    (files : h.KeepIds → ∀ note ∈ noted, note.file = id.path) : Called h id (h.told o) noted := by
  refine ⟨order,fun note member k equal => ?_,files⟩
  have deed : note.deed ∈ h.told o := order ▸ List.mem_map_of_mem member
  obtain ⟨j,-,other⟩ := List.mem_map.mp deed
  rw [equal] at other
  cases other

theorem called_of_worked (h : Hooks σ) (id : ModuleId) (tools : Toolchain σ) :
    Called h id tools.worked (notesFrom id.path 0 tools.transformers.length) := by
  have files : ∀ note ∈ notesFrom id.path 0 tools.transformers.length, note.file = id.path := by
    intro note member
    obtain ⟨k,-,rfl⟩ := List.mem_map.mp member
    rfl
  refine ⟨?_,fun note member _ _ => files note member,fun _ => files⟩
  rw [notesFrom,List.map_map,Toolchain.worked,List.range_eq_range']
  rfl

end

end Graph

/-- What has been noted for a module whose task is at a stage, or is going to be noted before it goes on. -/
def Stage.Account (journal : σ → List Note) (tools : Toolchain σ) (h : Hooks σ) (id : ModuleId) :
    Stage σ → List Note → Prop
  | .transforming draft, noted => Graph.Called h id (h.told .before) noted ∧ (h.KeepIds → draft.event.id = id)
  | .paused draft _ rest, noted => (h.KeepIds → draft.event.id = id) ∧ rest.Tells journal
      (fun r all => (∃ made, r = .ok made) → Graph.Called h id (h.told .before ++ tools.worked) all) noted
  | .resolving draft _ callers, noted => Graph.Called h id (h.told .before ++ tools.worked) noted ∧
      (h.KeepIds → draft.event.id = id) ∧ ∀ t ∈ callers, t.Heeds (Still journal)
  | .announcing _ _ _ _ rest, noted => rest.Tells journal (fun _ all => Graph.Called h id (Graph.due tools h) all) noted
  | .awaiting .., noted | .done (.ok (_ :: _)), noted => Graph.Called h id (Graph.due tools h) noted
  | .reading, noted | .given _, noted | .done (.ok []), noted => noted = []
  | .done (.error _), _ => True

namespace Graph

variable {g after : Graph σ} {id : ModuleId} {stage next : Stage σ} {noted : List Note}

/-- Going on from some stage has added to the journal what is told of the next stage. -/
structure Adds (journal : σ → List Note) (tools : Toolchain σ) (g : Graph σ) (id : ModuleId) (noted : List Note)
    (next : Stage σ) (after : Graph σ) (new : List Note) : Prop where
  grows : journal after.layer.env = journal g.layer.env ++ new
  account : next.Account journal tools g.hooks id (noted ++ new)
  attempts : after.layer.Heeds (Still journal)

theorem Adds.none (account : next.Account journal tools g.hooks id noted) (attempts : after.layer.Heeds (Still journal))
    (still : Still journal g.layer.env after.layer.env) : Adds journal tools g id noted next after [] :=
  ⟨by rw [List.append_nil]; exact still,by rwa [List.append_nil],attempts⟩

theorem account_accept (seen : Seen journal tools g) (id : ModuleId) (contents : String) :
    ∃ new, Adds journal tools g id [] (g.accept id contents).1 (g.accept id contents).2 new := by
  rcases accept_cases g id contents with ⟨v,-,-,same⟩ | ⟨event,layer,-,same,ran,still⟩
  all_goals rw [same]
  · exact ⟨[],.none rfl seen.attempts rfl⟩
  · obtain ⟨new,grows,order,mine⟩ := Hooks.notes_runBefore seen.hooks
      { id, contents, old := (g.registry.get? id).map Version.body } g.layer.env
    rw [ran] at grows mine
    exact ⟨new,grows,⟨called_of_told order fun keeps => (mine keeps).2,fun keeps => (mine keeps).1⟩,
      by rw [still]; exact seen.attempts⟩

theorem account_transform (seen : Seen journal tools g) {draft : Draft} (keeps : g.hooks.KeepIds → draft.event.id = id)
    {work : Work σ (Except TransformFault Transformed)} (tells : work.Tells journal
      (fun r all => (∃ made, r = .ok made) → Called g.hooks id (g.hooks.told .before ++ tools.worked) all) noted) :
    ∃ new, Adds journal tools g id noted (g.transform id draft work).1 (g.transform id draft work).2 new := by
  obtain ⟨new,grows,ended,halted⟩ := tells.go g.layer.env
  refine ⟨new,?_⟩
  rcases transform_cases g id draft work with ⟨rounds,rest,layer,went,equal,same⟩ | ⟨fault,layer,went,equal,same⟩ |
    ⟨made,layer,went,equal,same⟩
  all_goals
    rw [went] at grows ended halted
    have attempts : layer.Heeds (Still journal) := by rw [equal]; exact seen.attempts
    rw [same]
  · exact ⟨grows,⟨keeps,halted rounds rest rfl⟩,attempts⟩
  · exact ⟨grows,trivial,attempts⟩
  · refine ⟨grows,⟨ended _ rfl ⟨made,rfl⟩,keeps,fun t member => ?_⟩,attempts⟩
    obtain ⟨request,-,rfl⟩ := List.mem_map.mp member
    exact Resolution.Thread.heeds_resolving request (some id)

theorem account_announce (seen : Seen journal tools g) (id : ModuleId) (draft : Draft) (event : CompileEvent)
    (requests : List (String × ModuleId)) {work : Work σ Unit}
    (tells : work.Tells journal (fun _ all => Called g.hooks id (due tools g.hooks) all) noted) :
    ∃ new, Adds journal tools g id noted (g.announce id draft event requests work).1
      (g.announce id draft event requests work).2 new := by
  obtain ⟨new,grows,ended,halted⟩ := tells.go g.layer.env
  refine ⟨new,?_⟩
  rcases announce_cases g id draft event requests work with ⟨rounds,rest,layer,went,equal,same⟩ | ⟨layer,went,equal,same⟩
  all_goals
    rw [went] at grows ended halted
    have attempts : layer.Heeds (Still journal) := by rw [equal]; exact seen.attempts
    rw [same]
  · exact ⟨grows,halted rounds rest rfl,attempts⟩
  · exact ⟨by rw [layer_enters]; exact grows,ended () rfl,by rwa [layer_enters]⟩

/-- The hooks after the transformers, and after them those that are told of the compiled module. -/
theorem account_finish (seen : Seen journal tools g) {draft : Draft} (keeps : g.hooks.KeepIds → draft.event.id = id)
    (called : Called g.hooks id (g.hooks.told .before ++ tools.worked) noted) (made : Transformed)
    (imports : List ModuleId) :
    ∃ new, Adds journal tools g id noted (g.finish id draft made imports).1 (g.finish id draft made imports).2 new := by
  let event : CompileEvent := { draft.event with contents := made.contents, sourceMap := made.sourceMap, imports }
  obtain ⟨first,grows,order,mine⟩ := Hooks.notes_runAfter seen.hooks event g.layer.env
  obtain ⟨event',layer,ran,still,finished⟩ := finish_cases g id draft made imports
  rw [ran] at grows mine
  have kept : g.hooks.KeepIds → event'.id = id := fun all => ((mine all).1).trans (keeps all)
  have told : Called g.hooks id (g.hooks.told .after) first :=
    called_of_told order fun all note member => ((mine all).2 note member).trans (congrArg ModuleId.path (keeps all))
  have seen' : ({ g with layer } : Graph σ).Seen journal tools :=
    { seen with attempts := by rw [still]; exact seen.attempts }
  have tells : (g.hooks.runCompiled event').Tells journal
      (fun _ all => Called g.hooks id (due tools g.hooks) all) (noted ++ first) := by
    refine (Hooks.tells_runCompiled seen.hooks event' (noted ++ first)).mono fun _ all equal => ?_
    rw [equal]
    refine (called.append told).append (called_of_told ?_ fun all note member => ?_)
    · rw [List.map_map]
      rfl
    · obtain ⟨k,-,rfl⟩ := List.mem_map.mp member
      exact congrArg ModuleId.path (kept all)
  obtain ⟨second,adds⟩ := account_announce seen' id draft event' (made.imports.zip imports) tells
  rw [finished]
  refine ⟨first ++ second,?_,?_,adds.attempts⟩
  · rw [adds.grows,← List.append_assoc,← grows]
  · rw [← List.append_assoc]
    exact adds.account

theorem account_settle (attempts : g.layer.Heeds (Still journal)) {own : Commit}
    (called : Called g.hooks id (due tools g.hooks) noted) (outcomes : List Compiled) :
    Adds journal tools g id noted (g.settle own outcomes).1 (g.settle own outcomes).2 [] := by
  cases bad : firstError outcomes with
  | some e =>
    rw [settle_eq_rollback g own bad]
    exact .none trivial attempts rfl
  | none =>
    rw [settle_eq g own bad]
    exact .none called attempts rfl

/-- Going from one stage to the next adds to the journal what the next one accounts for besides. -/
theorem account_advance (seen : Seen journal tools g) (account : stage.Account journal tools g.hooks id noted) :
    ∃ new, Adds journal tools g id noted (g.advance tools id stage).1 (g.advance tools id stage).2 new := by
  cases stage with
  | reading =>
    obtain rfl : noted = [] := account
    rcases read_cases tools g id with ⟨e,layer,-,equal,same⟩ | ⟨contents,layer,-,equal,same⟩
    all_goals
      have attempts : layer.Heeds (Still journal) := by rw [equal]; exact seen.attempts
      have still : Still journal g.layer.env layer.env := by rw [equal]; exact seen.store id.path g.layer.env
      rw [advance,same]
    · exact ⟨[],.none trivial attempts still⟩
    · obtain ⟨new,grows,account,attempts⟩ :=
        account_accept (g := { g with layer }) { seen with attempts } id contents
      exact ⟨new,grows.trans (congrArg (· ++ new) still),account,attempts⟩
  | given contents =>
    obtain rfl : noted = [] := account
    exact account_accept seen id contents
  | transforming draft =>
    obtain ⟨called,keeps⟩ := account
    refine account_transform seen keeps ?_
    refine (Pipeline.tells_run seen.transformers id.path draft.event.contents (tools.root.publicPath id) noted).mono ?_
    intro r all good made
    rw [good made]
    exact called.append (called_of_worked g.hooks id tools)
  | paused draft wake rest =>
    rw [advance]
    split
    · exact account_transform seen account.1 account.2
    · exact ⟨[],.none account seen.attempts rfl⟩
  | resolving draft made callers =>
    obtain ⟨called,keeps,heed⟩ := account
    obtain ⟨⟨attempts,steps⟩,heed'⟩ := Resolution.led_pollAll seen.resolvers tools.fuel seen.attempts heed
    have still := still_of_steps steps
    rcases resolve_cases tools g id draft made callers with ⟨-,same⟩ | ⟨results,-,⟨e,-,same⟩ | ⟨imports,-,same⟩⟩
    all_goals rw [advance,same]
    · exact ⟨[],.none ⟨called,keeps,heed'⟩ attempts still⟩
    · exact ⟨[],.none trivial attempts still⟩
    · obtain ⟨new,grows,account,attempts⟩ := account_finish
        (g := { g with layer := (Resolution.pollAll tools.resolvers tools.fuel g.layer callers).1 })
        { seen with attempts } keeps called made imports
      exact ⟨new,grows.trans (congrArg (· ++ new) still),account,attempts⟩
  | announcing draft event requests wake rest =>
    rw [advance]
    split
    · exact account_announce seen id draft event requests account
    · exact ⟨[],.none account seen.attempts rfl⟩
  | awaiting own children =>
    rw [advance]
    split
    · exact ⟨[],account_settle seen.attempts account _⟩
    · exact ⟨[],.none account seen.attempts rfl⟩
  | done r => exact ⟨[],.none account seen.attempts rfl⟩

end Graph

end Bundling
