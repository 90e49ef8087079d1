import Bundling.Proofs.Functions
import Bundling.Proofs.Occurrences

/-!
# Pipelines one behind the other

Where transformers compute functions, a pipeline is what they make of a text one after the other (`Functions.Passes`): the last
text, the last source map that any of them gave, and all imports. So what two pipelines make one behind the other is told from
what each of them makes (`Functions.pipelines_compose`). A transformer that fails ends the run, and nothing behind it is done.
-/

namespace Bundling

variable {σ : Type} {P : σ → Prop}

namespace Work

variable {α β : Type}

theorem Gives.run {work : Work σ α} {a : α} (gives : work.Gives P a) {s : σ} (fine : P s) :
    (work.run s).1 = a ∧ P (work.run s).2 := by
  induction work generalizing s with
  | done b => exact ⟨gives,fine⟩
  | step f next ih => exact ih s (gives s fine).2 (gives s fine).1
  | pause rounds next ih => exact ih gives fine

theorem run_bind (work : Work σ α) (k : α → Work σ β) (s : σ) :
    (work.bind k).run s = (k (work.run s).1).run (work.run s).2 := by
  induction work generalizing s with
  | done a => rfl
  | step f next ih => exact ih s (f s)
  | pause rounds next ih => exact ih s

end Work

namespace Pipeline

variable {path : Path} {contents publicPath : String}

theorem run_steps_cons (t : Transformer σ) (ts : List (Transformer σ)) (p : Progress) (s : σ) :
    (steps path publicPath (t :: ts) p).run s =
      match (t.transform ⟨path,p.contents,publicPath⟩).run s with
      | (.error message,s') => (.error (.failed t.name message),s')
      | (.ok none,s') => (steps path publicPath ts p).run s'
      | (.ok (some o),s') => (steps path publicPath ts (p.add o)).run s' := by
  refine (Work.run_bind (t.transform ⟨path,p.contents,publicPath⟩) _ s).trans ?_
  obtain ⟨output,s'⟩ := (t.transform ⟨path,p.contents,publicPath⟩).run s
  cases output with
  | error message => rfl
  | ok output => cases output <;> rfl

/-- A run goes as far as the transformers in front go, and on from there. -/
theorem run_steps_append (ts us : List (Transformer σ)) (p : Progress) (s : σ) :
    (steps path publicPath (ts ++ us) p).run s =
      match (steps path publicPath ts p).run s with
      | (.error fault,s') => (.error fault,s')
      | (.ok p',s') => (steps path publicPath us p').run s' := by
  induction ts generalizing p s with
  | nil => rfl
  | cons t ts ih =>
    rw [List.cons_append,run_steps_cons,run_steps_cons]
    obtain ⟨output,s'⟩ := (t.transform ⟨path,p.contents,publicPath⟩).run s
    cases output with
    | error message => rfl
    | ok output =>
      cases output with
      | none => exact ih p s'
      | some o => exact ih (p.add o) s'

theorem run_run (ts : List (Transformer σ)) (s : σ) : (run ts path contents publicPath).run s =
    (((steps path publicPath ts { contents }).run s).1.bind finish,((steps path publicPath ts { contents }).run s).2) :=
  Work.run_bind ..

theorem finish_eq_ok_iff {p : Progress} {made : Transformed} : finish p = .ok made ↔
    made.contents = p.contents ∧ p.mapText.map SourceMap.ofText? = made.sourceMap.map some ∧ made.imports = p.imports := by
  obtain ⟨text,map,found⟩ := made
  unfold finish
  cases p.mapText with
  | none => cases map <;> simp [eq_comm]
  | some given =>
    cases read : SourceMap.ofText? given with
    | none => cases map <;> simp [read]
    | some m => cases map <;> simp [read,eq_comm]

theorem finish_eq_error_iff {p : Progress} {fault : TransformFault} : finish p = .error fault ↔
    fault = .invalidMap ∧ ∃ text, p.mapText = some text ∧ SourceMap.ofText? text = none := by
  unfold finish
  cases p.mapText with
  | none => simp
  | some given => cases read : SourceMap.ofText? given <;> simp [read,eq_comm]

end Pipeline

namespace Functions

variable (f : Functions σ) (path : Path) (publicPath : String)

/-- What transformers make of a text one after the other, none of which fails: the outputs of those that are applicable, in
order, and the text at the end. -/
inductive Passes : List (Transformer σ) → String → List TransformOutput → String → Prop where
  | nil (contents : String) : Passes [] contents [] contents
  | skips {t : Transformer σ} {ts : List (Transformer σ)} {contents last : String} {outputs : List TransformOutput}
      (skipped : f.transform t ⟨path,contents,publicPath⟩ = .ok none) (rest : Passes ts contents outputs last) :
      Passes (t :: ts) contents outputs last
  | makes {t : Transformer σ} {ts : List (Transformer σ)} {contents last : String} {o : TransformOutput}
      {outputs : List TransformOutput} (made : f.transform t ⟨path,contents,publicPath⟩ = .ok (some o))
      (rest : Passes ts o.contents outputs last) : Passes (t :: ts) contents (o :: outputs) last

/-- A transformer fails on what those before it have made, and it is the first that does. -/
structure FailsAt (ts : List (Transformer σ)) (contents : String) (before : List (Transformer σ)) (t : Transformer σ)
    (message : String) : Prop where
  place : ∃ after, ts = before ++ t :: after
  fails : ∃ outputs last, f.Passes path publicPath before contents outputs last ∧
    f.transform t ⟨path,last,publicPath⟩ = .error message

/-- The text of the source map that counts: the last one given. -/
def mapText (outputs : List TransformOutput) : Option String := (outputs.filterMap TransformOutput.sourceMap).getLast?

/-- Where transformers that have given these outputs are. -/
def reached (outputs : List TransformOutput) (last : String) : Pipeline.Progress where
  contents := last
  mapText := mapText outputs
  imports := firstOccurrences (outputs.flatMap TransformOutput.imports)

variable {f path publicPath} {ts us : List (Transformer σ)} {contents last : String} {outputs : List TransformOutput}

theorem mapText_append (outputs outputs' : List TransformOutput) :
    mapText (outputs ++ outputs') = (mapText outputs').or (mapText outputs) := by
  rw [mapText,List.filterMap_append,List.getLast?_append,mapText,mapText]

theorem mapText_singleton (o : TransformOutput) : mapText [o] = o.sourceMap := by
  rw [mapText,List.filterMap_cons]
  cases o.sourceMap <;> rfl

theorem reached_add (outputs : List TransformOutput) (o : TransformOutput) (last : String) :
    (reached outputs last).add o = reached (outputs ++ [o]) o.contents := by
  simp only [reached,Pipeline.Progress.add,mapText_append,mapText_singleton,Option.orElse_eq_orElse,Option.orElse_eq_or,
    firstOccurrences_front_append,List.flatMap_append,List.flatMap_singleton]

theorem Passes.append {mid : String} {outputs' : List TransformOutput} (passes : f.Passes path publicPath ts contents outputs mid)
    (rest : f.Passes path publicPath us mid outputs' last) :
    f.Passes path publicPath (ts ++ us) contents (outputs ++ outputs') last := by
  induction passes with
  | nil => exact rest
  | skips skipped _ ih => exact .skips skipped (ih rest)
  | makes made _ ih => exact .makes made (ih rest)

/-- The run of transformers that do not fail takes along all that they give. -/
theorem Passes.steps (passes : f.Passes path publicPath ts contents outputs last) (given : List TransformOutput) :
    f.steps path publicPath ts (reached given contents) = .ok (reached (given ++ outputs) last) := by
  induction passes generalizing given with
  | nil => rw [List.append_nil]; rfl
  | @skips t ts contents last outputs skipped _ ih =>
    have here : f.transform t ⟨path,(reached given contents).contents,publicPath⟩ = .ok none := skipped
    rw [Functions.steps,here]
    exact ih given
  | @makes t ts contents last o outputs made _ ih =>
    have here : f.transform t ⟨path,(reached given contents).contents,publicPath⟩ = .ok (some o) := made
    have next := ih (given ++ [o])
    rw [List.append_assoc,← reached_add given o contents] at next
    rw [Functions.steps,here]
    exact next

variable (f path publicPath) in
/-- Some transformer fails, or none does. -/
theorem passes_or_failsAt (ts : List (Transformer σ)) (contents : String) :
    (∃ outputs last, f.Passes path publicPath ts contents outputs last) ∨
      ∃ before t message, f.FailsAt path publicPath ts contents before t message := by
  induction ts generalizing contents with
  | nil => exact .inl ⟨[],contents,.nil contents⟩
  | cons t ts ih =>
    cases made : f.transform t ⟨path,contents,publicPath⟩ with
    | error message => exact .inr ⟨[],t,message,⟨ts,rfl⟩,[],contents,.nil contents,made⟩
    | ok output =>
      cases output with
      | none =>
        obtain ⟨outputs,last,passes⟩ | ⟨before,u,message,⟨after,rfl⟩,outputs,last,passes,fails⟩ := ih contents
        · exact .inl ⟨outputs,last,.skips made passes⟩
        · exact .inr ⟨t :: before,u,message,⟨after,rfl⟩,outputs,last,.skips made passes,fails⟩
      | some o =>
        obtain ⟨outputs,last,passes⟩ | ⟨before,u,message,⟨after,rfl⟩,outputs,last,passes,fails⟩ := ih o.contents
        · exact .inl ⟨o :: outputs,last,.makes made passes⟩
        · exact .inr ⟨t :: before,u,message,⟨after,rfl⟩,o :: outputs,last,.makes made passes,fails⟩

theorem gives_run (computes : ∀ t ∈ ts, ∀ file, (t.transform file).Gives P (f.transform t file)) :
    (Pipeline.run ts path contents publicPath).Gives P ((f.steps path publicPath ts { contents }).bind Pipeline.finish) :=
  (gives_steps computes path publicPath { contents }).bind rfl

section

variable {before : List (Transformer σ)} {t : Transformer σ} {message : String} {s : σ}

/-- The run of a pipeline ends with the first transformer that fails, whatever there is behind it. -/
theorem FailsAt.run (fails : f.FailsAt path publicPath ts contents before t message)
    (computes : ∀ u ∈ before ++ [t], ∀ file, (u.transform file).Gives P (f.transform u file)) (fine : P s) :
    (Pipeline.run ts path contents publicPath).run s = (.error (.failed t.name message),
      ((Pipeline.run (before ++ [t]) path contents publicPath).run s).2) := by
  obtain ⟨⟨after,rfl⟩,outputs,last,passes,failed⟩ := fails
  obtain ⟨front,fine₁⟩ :=
    (gives_steps (fun u member => computes u (List.mem_append_left _ member)) path publicPath (reached [] contents)).run fine
  obtain ⟨s₁,went,fine₁⟩ := exists_snd (front.trans (passes.steps [])) fine₁
  obtain ⟨here,fine₂⟩ := (computes t (List.mem_append_right _ (List.mem_singleton_self t)) ⟨path,last,publicPath⟩).run fine₁
  obtain ⟨s₂,stopped,-⟩ := exists_snd (here.trans failed) fine₂
  -- What is behind the transformer that fails may be anything, so it may be nothing as well.
  have stops (rest : List (Transformer σ)) :
      (Pipeline.steps path publicPath (before ++ t :: rest) { contents }).run s = (.error (.failed t.name message),s₂) := by
    have there : (t.transform ⟨path,(reached ([] ++ outputs) last).contents,publicPath⟩).run s₁ = (.error message,s₂) := stopped
    rw [Pipeline.run_steps_append,show ({ contents } : Pipeline.Progress) = reached [] contents from rfl,went]
    simp only [Pipeline.run_steps_cons,there]
  rw [Pipeline.run_run,Pipeline.run_run,stops after,stops []]
  rfl

variable (computes : ∀ u ∈ ts, ∀ file, (u.transform file).Gives P (f.transform u file)) (fine : P s)
include computes fine

/-- What a pipeline without failures makes: the map that counts is read, and no other. -/
theorem Passes.run (passes : f.Passes path publicPath ts contents outputs last) :
    ((Pipeline.run ts path contents publicPath).run s).1 = Pipeline.finish (reached outputs last) :=
  ((gives_run computes).run fine).1.trans (congrArg (·.bind Pipeline.finish) (passes.steps []))

theorem run_cases : (∃ outputs last, f.Passes path publicPath ts contents outputs last ∧
      ((Pipeline.run ts path contents publicPath).run s).1 = Pipeline.finish (reached outputs last)) ∨
    ∃ before t message, f.FailsAt path publicPath ts contents before t message ∧
      ((Pipeline.run ts path contents publicPath).run s).1 = .error (.failed t.name message) := by
  obtain ⟨outputs,last,passes⟩ | ⟨before,t,message,fails⟩ := f.passes_or_failsAt path publicPath ts contents
  · exact .inl ⟨outputs,last,passes,passes.run computes fine⟩
  · refine .inr ⟨before,t,message,fails,?_⟩
    obtain ⟨after,rfl⟩ := fails.place
    rw [fails.run (fun u member => computes u ?_) fine]
    exact (List.append_cons before t after) ▸ List.mem_append_left _ member

theorem run_eq_ok_iff {made : Transformed} : ((Pipeline.run ts path contents publicPath).run s).1 = .ok made ↔
    ∃ outputs last, f.Passes path publicPath ts contents outputs last ∧ Pipeline.finish (reached outputs last) = .ok made := by
  constructor
  · intro ran
    obtain ⟨outputs,last,passes,same⟩ | ⟨before,t,message,-,failed⟩ := run_cases computes fine
    · exact ⟨outputs,last,passes,same.symm.trans ran⟩
    · cases failed.symm.trans ran
  · rintro ⟨outputs,last,passes,finished⟩
    exact (passes.run computes fine).trans finished

theorem run_eq_invalidMap_iff : ((Pipeline.run ts path contents publicPath).run s).1 = .error .invalidMap ↔
    ∃ outputs last text, f.Passes path publicPath ts contents outputs last ∧ mapText outputs = some text ∧
      SourceMap.ofText? text = none := by
  constructor
  · intro ran
    obtain ⟨outputs,last,passes,same⟩ | ⟨before,t,message,-,failed⟩ := run_cases computes fine
    · obtain ⟨-,text,given,unread⟩ := Pipeline.finish_eq_error_iff.mp (same.symm.trans ran)
      exact ⟨outputs,last,text,passes,given,unread⟩
    · cases failed.symm.trans ran
  · rintro ⟨outputs,last,text,passes,given,unread⟩
    exact (passes.run computes fine).trans (Pipeline.finish_eq_error_iff.mpr ⟨rfl,text,given,unread⟩)

theorem exists_failsAt {name message : String}
    (failed : ((Pipeline.run ts path contents publicPath).run s).1 = .error (.failed name message)) :
    ∃ before t, f.FailsAt path publicPath ts contents before t message ∧ t.name = name := by
  obtain ⟨outputs,last,-,same⟩ | ⟨before,t,said,fails,same⟩ := run_cases computes fine
  · cases (Pipeline.finish_eq_error_iff.mp (same.symm.trans failed)).1
  · cases same.symm.trans failed
    exact ⟨before,t,fails,rfl⟩

end

/-- Pipelines compose. Where two of them make something, one behind the other they make what the second makes of what the first
has made: with its own source map if it has one, and else with that of the first; and with the imports of both, each at its first
place. A transformer that fails is named and none behind it does anything, and a source map that is none is an error where no
later one has taken its place. -/
theorem pipelines_compose {ps qs : List (Transformer σ)}
    (computes : ∀ t ∈ ps ++ qs, ∀ file, (t.transform file).Gives P (f.transform t file)) (path : Path)
    (contents publicPath : String) {s : σ} (fine : P s) :
    (∀ s₁ s₂ first second, P s₁ → P s₂ → ((Pipeline.run ps path contents publicPath).run s₁).1 = .ok first →
      ((Pipeline.run qs path first.contents publicPath).run s₂).1 = .ok second →
      ((Pipeline.run (ps ++ qs) path contents publicPath).run s).1 = .ok {
        contents := second.contents
        sourceMap := second.sourceMap.or first.sourceMap
        imports := firstOccurrences (first.imports ++ second.imports) }) ∧
    (∀ before t message, f.FailsAt path publicPath (ps ++ qs) contents before t message →
      (Pipeline.run (ps ++ qs) path contents publicPath).run s =
        (.error (.failed t.name message),((Pipeline.run (before ++ [t]) path contents publicPath).run s).2)) ∧
    (∀ name message, ((Pipeline.run (ps ++ qs) path contents publicPath).run s).1 = .error (.failed name message) →
      ∃ before t, f.FailsAt path publicPath (ps ++ qs) contents before t message ∧ t.name = name) ∧
    (((Pipeline.run (ps ++ qs) path contents publicPath).run s).1 = .error .invalidMap ↔
      ∃ outputs last text, f.Passes path publicPath (ps ++ qs) contents outputs last ∧ mapText outputs = some text ∧
        SourceMap.ofText? text = none) := by
  refine ⟨?_,?_,fun name message failed => exists_failsAt computes fine failed,run_eq_invalidMap_iff computes fine⟩
  · intro s₁ s₂ first second fine₁ fine₂ ran₁ ran₂
    obtain ⟨outputs₁,last₁,passes₁,finished₁⟩ :=
      (run_eq_ok_iff (fun t member => computes t (List.mem_append_left _ member)) fine₁).mp ran₁
    obtain ⟨text₁,map₁,imports₁⟩ := Pipeline.finish_eq_ok_iff.mp finished₁
    obtain ⟨outputs₂,last₂,passes₂,finished₂⟩ :=
      (run_eq_ok_iff (fun t member => computes t (List.mem_append_right _ member)) fine₂).mp ran₂
    obtain ⟨text₂,map₂,imports₂⟩ := Pipeline.finish_eq_ok_iff.mp finished₂
    have passes := passes₁.append (text₁ ▸ passes₂)
    refine (run_eq_ok_iff computes fine).mpr ⟨_,_,passes,Pipeline.finish_eq_ok_iff.mpr ⟨text₂,?_,?_⟩⟩
    · calc (mapText (outputs₁ ++ outputs₂)).map SourceMap.ofText?
          = ((mapText outputs₂).map SourceMap.ofText?).or ((mapText outputs₁).map SourceMap.ofText?) := by
            rw [mapText_append,Option.map_or]
        _ = (second.sourceMap.map some).or (first.sourceMap.map some) := congrArg₂ Option.or map₂ map₁
        _ = (second.sourceMap.or first.sourceMap).map some := Option.map_or.symm
    · calc firstOccurrences (first.imports ++ second.imports)
          = firstOccurrences (firstOccurrences (outputs₁.flatMap TransformOutput.imports) ++
              firstOccurrences (outputs₂.flatMap TransformOutput.imports)) := by rw [imports₁,imports₂]; rfl
        _ = firstOccurrences ((outputs₁ ++ outputs₂).flatMap TransformOutput.imports) := by
            rw [firstOccurrences_each_append,List.flatMap_append]
  · intro before t message fails
    obtain ⟨after,split⟩ := fails.place
    refine fails.run (fun u member => computes u ?_) fine
    rw [split,List.append_cons]
    exact List.mem_append_left _ member

/-! ## Transformers that write their names down -/

/-- A transformer that writes its name down and has its answer from the text alone. -/
def signing (name : String) (answer : String → Except String (Option TransformOutput)) : Transformer (List String) where
  name
  transform file := .step (· ++ [name]) fun _ => .done (answer file.contents)

def signed : Functions (List String) where
  transform t file := ((t.transform file).run []).1
  resolve _ _ _ := none

theorem gives_signing (name : String) (answer : String → Except String (Option TransformOutput)) (file : SourceFile) :
    ((signing name answer).transform file).Gives (fun _ => True) (signed.transform (signing name answer) file) :=
  fun _ _ => ⟨trivial,rfl⟩

def passing : Transformer (List String) := signing "passing" fun _ => .ok none

def opening : Transformer (List String) :=
  signing "opening" fun text => .ok (some { contents := text ++ "b", imports := ["./a","./b"] })

def closing : Transformer (List String) :=
  signing "closing" fun text => .ok (some { contents := text ++ "c", imports := ["./b","./c"] })

def failing : Transformer (List String) := signing "failing" fun _ => .error "unexpected token"

theorem pipelines_compose_signed :
    ((Pipeline.run [passing,opening] Letter.a.path "a" "").run []).1 = .ok { contents := "ab", imports := ["./a","./b"] } ∧
    ((Pipeline.run [closing] Letter.a.path "ab" "").run []).1 = .ok { contents := "abc", imports := ["./b","./c"] } ∧
    ((Pipeline.run ([passing,opening] ++ [closing]) Letter.a.path "a" "").run []).1 =
      .ok { contents := "abc", imports := ["./a","./b","./c"] } ∧
    (Pipeline.run ([opening] ++ [failing,closing]) Letter.a.path "a" "").run [] =
      (.error (.failed "failing" "unexpected token"),["opening","failing"]) := by
  have first : ((Pipeline.run [passing,opening] Letter.a.path "a" "").run []).1 =
      .ok { contents := "ab", imports := ["./a","./b"] } := rfl
  have second : ((Pipeline.run [closing] Letter.a.path "ab" "").run []).1 =
      .ok { contents := "abc", imports := ["./b","./c"] } := rfl
  refine ⟨first,second,?_,?_⟩
  · have computes : ∀ t ∈ [passing,opening] ++ [closing], ∀ file,
        (t.transform file).Gives (fun _ => True) (signed.transform t file) :=
      List.forall_mem_cons.mpr ⟨gives_signing _ _,List.forall_mem_cons.mpr ⟨gives_signing _ _,
        List.forall_mem_singleton.mpr (gives_signing _ _)⟩⟩
    exact ((pipelines_compose computes Letter.a.path "a" "" trivial).1 _ _ _ _ trivial trivial first second).trans rfl
  · have computes : ∀ t ∈ [opening] ++ [failing,closing], ∀ file,
        (t.transform file).Gives (fun _ => True) (signed.transform t file) :=
      List.forall_mem_cons.mpr ⟨gives_signing _ _,List.forall_mem_cons.mpr ⟨gives_signing _ _,
        List.forall_mem_singleton.mpr (gives_signing _ _)⟩⟩
    have fails : signed.FailsAt Letter.a.path "" ([opening] ++ [failing,closing]) "a" [opening] failing "unexpected token" :=
      ⟨⟨[closing],rfl⟩,_,_,.makes rfl (.nil _),rfl⟩
    exact (pipelines_compose computes Letter.a.path "a" "" trivial).2.1 _ _ _ fails

end Functions

end Bundling
