import Bundling.Proofs.Heeding

/-!
# A journal of calls

What plugins and hooks act on may hold a journal, in which every call of a transformer or of a hook is noted, by whoever
is called, and nothing else is (`Graph.Seen`). The steps of a call may be spread over many rounds; what has been noted when
it has come to its end is told beforehand (`Work.Tells`), for the pipeline (`Pipeline.tells_run`) as for the hooks.
-/

namespace Bundling

variable {σ : Type}

/-! ## Work that notes what it does -/

namespace Work

variable {α β ν : Type} {journal : σ → List ν} {final : α → List ν → Prop} {told : List ν}

/-- However the work goes, what has been noted by its end is as is told for the value that it comes to. Something has been
noted before. -/
def Tells (journal : σ → List ν) (final : α → List ν → Prop) : Work σ α → List ν → Prop
  | .done a, told => final a told
  | .step f next, told => ∀ s, ∃ new, journal (f s) = journal s ++ new ∧ (next s).Tells journal final (told ++ new)
  | .pause _ next, told => next.Tells journal final told

theorem Tells.mono {work : Work σ α} {final' : α → List ν → Prop} (tells : work.Tells journal final told)
    (weaker : ∀ a noted, final a noted → final' a noted) : work.Tells journal final' told := by
  induction work generalizing told with
  | done a => exact weaker a told tells
  | step f next ih =>
    intro s
    obtain ⟨new,grows,left⟩ := tells s
    exact ⟨new,grows,ih s left⟩
  | pause rounds next ih => exact ih tells

/-- What comes after some work goes on from what it has noted. -/
theorem Tells.bind {work : Work σ α} {k : α → Work σ β} {final' : β → List ν → Prop} {before : List ν}
    (tells : work.Tells journal final told)
    (rest : ∀ a noted, final a noted → (k a).Tells journal final' (before ++ noted)) :
    (work.bind k).Tells journal final' (before ++ told) := by
  induction work generalizing told with
  | done a => exact rest a told tells
  | step f next ih =>
    intro s
    obtain ⟨new,grows,left⟩ := tells s
    exact ⟨new,grows,by rw [List.append_assoc]; exact ih s left⟩
  | pause rounds next ih => exact ih tells

theorem Tells.andThen {work : Work σ α} {k : α → Work σ β} {final' : β → List ν → Prop} {before : List ν}
    (tells : work.Tells journal final [])
    (rest : ∀ a noted, final a noted → (k a).Tells journal final' (before ++ noted)) :
    (work.bind k).Tells journal final' before := by
  have both := tells.bind rest
  rwa [List.append_nil] at both

/-- Up to its next halt. -/
theorem Tells.go {work : Work σ α} (tells : work.Tells journal final told) (s : σ) :
    ∃ new, journal (work.go s).2 = journal s ++ new ∧ (∀ a, (work.go s).1 = .done a → final a (told ++ new)) ∧
      ∀ rounds rest, (work.go s).1 = .paused rounds rest → rest.Tells journal final (told ++ new) := by
  induction work generalizing told s with
  | done a =>
    refine ⟨[],(List.append_nil _).symm,fun a' same => ?_,fun rounds rest same => ?_⟩
    · cases same
      rwa [List.append_nil]
    · cases same
  | step f next ih =>
    obtain ⟨new,grows,left⟩ := tells s
    obtain ⟨further,grows',ended,halted⟩ := ih s left (f s)
    refine ⟨new ++ further,?_,fun a same => ?_,fun rounds rest same => ?_⟩
    · rw [← List.append_assoc,← grows]
      exact grows'
    · rw [← List.append_assoc]
      exact ended a same
    · rw [← List.append_assoc]
      exact halted rounds rest same
  | pause rounds next ih =>
    unfold Work.go
    split
    · exact ih tells s
    · refine ⟨[],(List.append_nil _).symm,fun a same => ?_,fun rounds' rest same => ?_⟩
      · cases same
      · cases same
        rwa [List.append_nil]

end Work

/-! ## Hooks by their places -/

/-- When a hook is called. -/
inductive Occasion where
  | before
  | after
  | compiled
  | destroyed
  deriving DecidableEq

def Hook.occasion : Hook σ → Occasion
  | .before _ => .before
  | .after _ => .after
  | .compiled _ => .compiled
  | .destroyed _ => .destroyed

namespace Hooks

/-- The occasion of the hook at a place in the order of registration. -/
def occasion? (h : Hooks σ) (k : Nat) : Option Occasion := (h.registered[k]?).map fun p => p.2.occasion

/-- The places of the hooks in a list that are called on an occasion, where the first place has some number. -/
def placesFrom (o : Occasion) : Nat → List (Nat × Hook σ) → List Nat
  | _, [] => []
  | k, (_,hook) :: rest => if hook.occasion = o then k :: placesFrom o (k + 1) rest else placesFrom o (k + 1) rest

/-- The places of the hooks that are called on an occasion. -/
def places (h : Hooks σ) (o : Occasion) : List Nat := placesFrom o 0 h.registered

section

variable {o : Occasion} {k j : Nat} {hooks : List (Nat × Hook σ)}

theorem mem_placesFrom_iff :
    j ∈ placesFrom o k hooks ↔ ∃ i, j = k + i ∧ (hooks[i]?).map (fun p => p.2.occasion) = some o := by
  induction hooks generalizing k with
  | nil => simp [placesFrom]
  | cons p rest ih =>
    have later : (∃ i, j = k + 1 + i ∧ (rest[i]?).map (fun p => p.2.occasion) = some o) ↔
        ∃ i, j = k + (i + 1) ∧ ((p :: rest)[i + 1]?).map (fun p => p.2.occasion) = some o :=
      exists_congr fun i => by rw [List.getElem?_cons_succ,Nat.add_assoc,Nat.add_comm 1 i]
    have split : (∃ i, j = k + i ∧ ((p :: rest)[i]?).map (fun p => p.2.occasion) = some o) ↔
        (j = k ∧ p.2.occasion = o) ∨ ∃ i, j = k + 1 + i ∧ (rest[i]?).map (fun p => p.2.occasion) = some o := by
      rw [later]
      constructor
      · rintro ⟨_ | i,rfl,there⟩
        · exact .inl ⟨rfl,Option.some.inj there⟩
        · exact .inr ⟨i,rfl,there⟩
      · rintro (⟨rfl,rfl⟩ | ⟨i,rfl,there⟩)
        · exact ⟨0,rfl,rfl⟩
        · exact ⟨i + 1,rfl,there⟩
    rw [split,← ih,placesFrom]
    split <;> simp_all

theorem mem_places_iff {h : Hooks σ} : j ∈ h.places o ↔ h.occasion? j = some o := by
  rw [places,mem_placesFrom_iff]
  simp [occasion?]

theorem nodup_places (h : Hooks σ) (o : Occasion) : (h.places o).Nodup := by
  have from_ : ∀ (k : Nat) (hooks : List (Nat × Hook σ)), (placesFrom o k hooks).Nodup := by
    intro k hooks
    induction hooks generalizing k with
    | nil => exact List.nodup_nil
    | cons p rest ih =>
      rw [placesFrom]
      split
      · refine List.nodup_cons.mpr ⟨fun member => ?_,ih (k + 1)⟩
        obtain ⟨i,equal,-⟩ := mem_placesFrom_iff.mp member
        omega
      · exact ih (k + 1)
  exact from_ 0 h.registered

end

end Hooks

namespace Graph

/-! ## Calls -/

/-- A call that is made for a module: the transformer at some place in the pipeline is set to work, or the hook at some
place is told. -/
inductive Deed where
  | transform (place : Nat)
  | tell (place : Nat)
  deriving DecidableEq

/-- A call as it is noted: with the file that the transformer was given, or that of the module the hook was told of. -/
structure Note where
  deed : Deed
  file : Path
  deriving DecidableEq

end Graph

open Bundling.Graph (Deed Note)

/-- A hook at some place notes each of its calls, and nothing else. -/
def Hook.Notes (journal : σ → List Note) (place : Nat) : Hook σ → Prop
  | .before run | .after run => ∀ e s, journal (run e s).2 = journal s ++ [⟨.tell place,e.id.path⟩]
  | .compiled run => ∀ e, (run e).Tells journal (fun _ told => told = [⟨.tell place,e.id.path⟩]) []
  | .destroyed _ => True

/-- A hook leaves the module of an event as it is. -/
def Hook.KeepsId : Hook σ → Prop
  | .before run | .after run => ∀ e s, (run e s).1.id = e.id
  | .compiled _ | .destroyed _ => True

def Hooks.KeepIds (h : Hooks σ) : Prop := ∀ p ∈ h.registered, p.2.KeepsId

/-- A transformer at some place notes each of its calls, and nothing else. -/
def Transformer.Notes (journal : σ → List Note) (place : Nat) (t : Transformer σ) : Prop :=
  ∀ file, (t.transform file).Tells journal (fun _ told => told = [⟨.transform place,file.path⟩]) []

/-- The transformers of a list note their calls; the first place has some number. -/
def Pipeline.NoteFrom (journal : σ → List Note) (place : Nat) (ts : List (Transformer σ)) : Prop :=
  ∀ (k : Nat) (t : Transformer σ), ts[k]? = some t → t.Notes journal (place + k)

/-- The hooks of a list note their calls; the first place has some number. -/
def Hooks.NoteFrom (journal : σ → List Note) (place : Nat) (hooks : List (Nat × Hook σ)) : Prop :=
  ∀ (k : Nat) (p : Nat × Hook σ), hooks[k]? = some p → p.2.Notes journal (place + k)

/-- Nothing is noted. -/
def Still (journal : σ → List Note) (s s' : σ) : Prop := journal s' = journal s

/-- In a journal all calls of transformers and hooks are noted, and nothing else. -/
structure Graph.Seen (journal : σ → List Note) (tools : Toolchain σ) (g : Graph σ) : Prop where
  transformers : Pipeline.NoteFrom journal 0 tools.transformers
  hooks : Hooks.NoteFrom journal 0 g.hooks.registered
  store : ∀ path s, Still journal s (tools.store.read path s).2
  resolvers : ∀ r ∈ tools.resolvers, ∀ request importer, (r.resolve request importer).Heeds (Still journal)
  attempts : g.layer.Heeds (Still journal)

section

variable {journal : σ → List Note}

theorem Graph.Seen.congr {tools : Toolchain σ} {g after : Graph σ} (seen : Seen journal tools g)
    (hooks : after.hooks = g.hooks) (attempts : after.layer.Heeds (Still journal)) : Seen journal tools after :=
  { seen with hooks := hooks ▸ seen.hooks, attempts }

theorem still_of_steps {s s' : σ} (steps : Relation.ReflTransGen (Still journal) s s') : Still journal s s' := by
  induction steps with
  | refl => rfl
  | tail _ step ih => exact step.trans ih

theorem Pipeline.NoteFrom.tail {place : Nat} {t : Transformer σ} {ts : List (Transformer σ)}
    (each : NoteFrom journal place (t :: ts)) : NoteFrom journal (place + 1) ts := fun k t' found => by
  rw [Nat.add_assoc,Nat.add_comm 1 k]
  exact each (k + 1) t' found

theorem Hooks.NoteFrom.tail {place : Nat} {p : Nat × Hook σ} {hooks : List (Nat × Hook σ)}
    (each : NoteFrom journal place (p :: hooks)) : NoteFrom journal (place + 1) hooks := fun k p' found => by
  rw [Nat.add_assoc,Nat.add_comm 1 k]
  exact each (k + 1) p' found

/-- The calls of the transformers from some place on, for a file. -/
def notesFrom (path : Path) (place count : Nat) : List Note :=
  (List.range' place count).map fun k => ⟨.transform k,path⟩

/-- If no transformer fails, all have been set to work on the file, in order. -/
theorem Pipeline.tells_steps {ts : List (Transformer σ)} {place : Nat} (each : NoteFrom journal place ts) (path : Path) (publicPath : String) (p : Progress)
    (before : List Note) : (steps path publicPath ts p).Tells journal
      (fun r told => (∃ q, r = .ok q) → told = before ++ notesFrom path place ts.length) before := by
  induction ts generalizing p place before with
  | nil => exact fun _ => (List.append_nil before).symm
  | cons t ts ih =>
    have rest : ∀ q, (steps path publicPath ts q).Tells journal
        (fun r told => (∃ q, r = .ok q) → told = before ++ notesFrom path place (t :: ts).length)
        (before ++ [⟨.transform place,path⟩]) := by
      intro q
      have same : before ++ notesFrom path place (t :: ts).length =
          before ++ [⟨.transform place,path⟩] ++ notesFrom path (place + 1) ts.length := by
        simp [notesFrom,List.range'_succ]
      rw [same]
      exact ih each.tail q _
    refine Work.Tells.andThen (each 0 t rfl ⟨path,p.contents,publicPath⟩) ?_
    rintro made _ rfl
    cases made with
    | error message => exact fun ⟨_,same⟩ => nomatch same
    | ok output =>
      cases output with
      | none => exact rest p
      | some o => exact rest (p.add o)

theorem Pipeline.tells_run {ts : List (Transformer σ)} (each : NoteFrom journal 0 ts)
    (path : Path) (contents publicPath : String) (before : List Note) :
    (run ts path contents publicPath).Tells journal
      (fun r told => (∃ made, r = .ok made) → told = before ++ notesFrom path 0 ts.length) before := by
  have all := tells_steps each path publicPath { contents } before
  have ran : ((steps path publicPath ts { contents }).bind fun r => .done (r.bind finish)).Tells journal
      (fun r told => (∃ made, r = .ok made) → told = before ++ notesFrom path 0 ts.length) ([] ++ before) := by
    refine all.bind fun r noted told => ?_
    rintro ⟨made,same⟩
    cases r with
    | error fault => cases same
    | ok q => exact told ⟨q,rfl⟩
  exact ran

/-! ## Hooks -/

namespace Hooks

variable {hooks : List (Nat × Hook σ)} {place : Nat}

/-- The hooks for one occasion, in order. -/
theorem notes_runAll {pick : Hook σ → Option (CompileEvent → StateM σ CompileEvent)} {o : Occasion}
    (picks : ∀ hook run, pick hook = some run → hook.occasion = o ∧ (hook = .before run ∨ hook = .after run))
    (skips : ∀ hook, pick hook = none → hook.occasion ≠ o)
    (seen : NoteFrom journal place hooks) (e : CompileEvent) (s : σ) :
    ∃ new, journal (runAll pick hooks e s).2 = journal s ++ new ∧
      new.map Note.deed = (placesFrom o place hooks).map .tell ∧
      ((∀ p ∈ hooks, p.2.KeepsId) → (runAll pick hooks e s).1.id = e.id ∧ ∀ note ∈ new, note.file = e.id.path) := by
  induction hooks generalizing place e s with
  | nil => exact ⟨[],(List.append_nil _).symm,rfl,fun _ => ⟨rfl,nofun⟩⟩
  | cons p rest ih =>
    obtain ⟨number,hook⟩ := p
    have others := ih seen.tail
    cases picked : pick hook with
    | none =>
      obtain ⟨new,grows,order,mine⟩ := others e s
      have skipped : runAll pick ((number,hook) :: rest) e = runAll pick rest e := by
        rw [runAll]
        simp only [picked]
      refine ⟨new,by rw [skipped]; exact grows,by rw [placesFrom,if_neg (skips hook picked)]; exact order,fun keeps => ?_⟩
      rw [skipped]
      exact mine fun p member => keeps p (List.mem_cons_of_mem _ member)
    | some run =>
      obtain ⟨occasion,kind⟩ := picks hook run picked
      have told : ∀ e s, journal (run e s).2 = journal s ++ [⟨.tell place,e.id.path⟩] := by
        have noted := seen 0 (number,hook) rfl
        rcases kind with rfl | rfl <;> exact noted
      obtain ⟨new,grows,order,mine⟩ := others (run e s).1 (run e s).2
      have goes : runAll pick ((number,hook) :: rest) e s = runAll pick rest (run e s).1 (run e s).2 := by
        rw [runAll]
        simp only [picked]
        rfl
      rw [goes]
      refine ⟨⟨.tell place,e.id.path⟩ :: new,?_,?_,fun keeps => ?_⟩
      · rw [grows,told,List.append_assoc]
        rfl
      · rw [placesFrom,if_pos occasion,List.map_cons,List.map_cons,order]
      · have kept : (run e s).1.id = e.id := by
          have this := keeps (number,hook) List.mem_cons_self
          rcases kind with rfl | rfl <;> exact this e s
        obtain ⟨same,files⟩ := mine fun p member => keeps p (List.mem_cons_of_mem _ member)
        refine ⟨same.trans kept,fun note member => ?_⟩
        rcases List.mem_cons.mp member with rfl | later
        · rfl
        · exact kept ▸ files note later

variable {h : Hooks σ}

theorem notes_runBefore (seen : NoteFrom journal 0 h.registered) (e : CompileEvent) (s : σ) :
    ∃ new, journal (h.runBefore e s).2 = journal s ++ new ∧ new.map Note.deed = (h.places .before).map .tell ∧
      (h.KeepIds → (h.runBefore e s).1.id = e.id ∧ ∀ note ∈ new, note.file = e.id.path) := by
  refine notes_runAll ?_ ?_ seen e s
  · rintro (_ | _ | _ | _) run picked <;> cases picked
    exact ⟨rfl,.inl rfl⟩
  · rintro (_ | _ | _ | _) picked <;> cases picked <;> simp [Hook.occasion]

theorem notes_runAfter (seen : NoteFrom journal 0 h.registered) (e : CompileEvent) (s : σ) :
    ∃ new, journal (h.runAfter e s).2 = journal s ++ new ∧ new.map Note.deed = (h.places .after).map .tell ∧
      (h.KeepIds → (h.runAfter e s).1.id = e.id ∧ ∀ note ∈ new, note.file = e.id.path) := by
  refine notes_runAll ?_ ?_ seen e s
  · rintro (_ | _ | _ | _) run picked <;> cases picked
    exact ⟨rfl,.inr rfl⟩
  · rintro (_ | _ | _ | _) picked <;> cases picked <;> simp [Hook.occasion]

/-- The hooks that are told of the compiled module, which may let others go on in between. -/
theorem tells_announceAll (seen : NoteFrom journal place hooks) (e : CompileEvent)
    (before : List Note) : (announceAll e hooks).Tells journal (fun _ told => told =
      before ++ (placesFrom .compiled place hooks).map fun k => ⟨.tell k,e.id.path⟩) before := by
  induction hooks generalizing place before with
  | nil => exact (List.append_nil before).symm
  | cons p rest ih =>
    obtain ⟨number,hook⟩ := p
    have others := ih seen.tail
    cases hook with
    | compiled run =>
      refine Work.Tells.andThen (seen 0 (number,.compiled run) rfl e) ?_
      rintro - _ rfl
      have later := others (before ++ [⟨.tell place,e.id.path⟩])
      rw [List.append_assoc] at later
      exact later
    | _ => exact others before

theorem tells_runCompiled (seen : NoteFrom journal 0 h.registered) (e : CompileEvent)
    (before : List Note) : (h.runCompiled e).Tells journal (fun _ told => told =
      before ++ (h.places .compiled).map fun k => ⟨.tell k,e.id.path⟩) before :=
  tells_announceAll seen e before

end Hooks

end

end Bundling
