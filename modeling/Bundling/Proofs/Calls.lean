import Bundling.Proofs.Naming

/-!
# What bundles ask of the runtime

A bundle is a row of calls of the runtime. Here the calls are data and their text is spelled out, apart from how a generator
comes to write them: which contents are registered under which keys, which chunks are waited for, and what is required then.
All bundles that are generated in a row make the calls of their chunks, with one way to call modules (`generateAll_makes`).
-/

namespace Bundling

/-- What a bundle asks of the runtime: it registers contents under keys, hands over what is known of the modules of its chunk,
and requires modules, if need be once other chunks are there. -/
structure Calls where
  chunk : Nat
  registered : List (String × String)
  names : List (String × Json)
  requests : List (String × Json)
  waits : List Nat
  required : List String

namespace Calls

/-- The calls that require modules. Where chunks are waited for, they stand inside of the call that does so. -/
def loading (k : Calls) : List String :=
  let requires := k.required.map fun key => "__bale.require(" ++ Json.quote key ++ ")"
  match k.waits with
  | [] => requires
  | ids => ("__bale.ensure([" ++ ",".intercalate (ids.map fun n => "\"" ++ toString n ++ "\"") ++
      "], '$root', function() \x7b") :: requires ++ ["\x7d)"]

/-- The text of all calls, in order. -/
def parts (k : Calls) : List String :=
  k.registered.map (fun m => "__bale.registerModule(" ++ Json.quote m.1 ++
    ", function(__filename, __dirname, require, module, exports) \x7b\n" ++ m.2 ++ "\n\x7d);") ++
  ("__bale.registerMappings(\"" ++ toString k.chunk ++ "\", " ++ (Json.object k.names).compact ++ ", " ++
    (Json.object k.requests).compact ++ ")") :: k.loading

end Calls

/-- A bundle installs a runtime, the built-in one unless another is wanted, and makes some calls of it; nothing but comments
follows. -/
def Bundle.Makes (b : Bundle) (o : GeneratorOptions) (k : Calls) : Prop :=
  ∃ runtime comments, (o.wrapper = "normal" → runtime = Runtime.text) ∧
    b.contents = "\n".intercalate (";(function() \x7b" :: runtime :: k.parts ++ "\x7d)();\n" :: comments) ∧
    ∀ line ∈ comments, ∃ address, line = "//# sourceMappingURL=" ++ address

/-- What has to be called for a chunk: each of its modules is registered under its name, and the modules of its entries are
required under theirs. -/
def Chunk.calls (name : ModuleId → String) (location : ModuleId → Json) (waits : List Nat) (c : Chunk) : Calls where
  chunk := c.id
  registered := c.files.map fun m => (name m.id,m.contents)
  names := Json.sortMembers (c.files.map fun m => (name m.id,location m.id))
  requests := Json.sortMembers (c.files.flatMap (Module.targets name))
  waits := waits
  required := (c.entries.filterMap ChunkRequest.target).map name

/-! ## The text of calls -/

namespace Json

/-- Digits stand in quotes as they are. -/
theorem quote_toString (n : Nat) : quote (toString n) = "\"" ++ toString n ++ "\"" := by
  rw [quote,if_neg]
  rw [String.any,String.contains_bool_eq,Bool.not_eq_true,List.any_eq_false]
  intro c member
  rw [Nat.toString_eq_repr,Nat.toList_repr] at member
  have digit := Nat.isDigit_of_mem_toDigits (by decide) (by decide) member
  have low : 48 ≤ c.toNat := by
    simp [Char.isDigit] at digit
    exact digit.1
  rintro special
  simp at special
  rcases special with (rfl | rfl) | control
  · exact absurd digit (by decide)
  · exact absurd digit (by decide)
  · omega

theorem compactItems_numbers (ids : List Nat) :
    compactItems (ids.map fun n => .string (toString n)) = ids.map fun n => "\"" ++ toString n ++ "\"" := by
  induction ids with
  | nil => rfl
  | cons n ids ih => rw [List.map_cons,List.map_cons,compactItems,ih,compact,quote_toString]

end Json

namespace Generator

open PublicPaths

variable {σ : Type} {root : ProjectRoot} {o : GeneratorOptions} {t : PathType} {asked : List ModuleId}

theorem ensure_eq (ids : List Nat) :
    ensure ids = "__bale.ensure([" ++ ",".intercalate (ids.map fun n => "\"" ++ toString n ++ "\"") ++
      "], '$root', function() \x7b" := by
  rw [ensure,Json.compact,Json.compactItems_numbers]
  simp [Runtime.globalName,rootToken,← String.toList_inj]

theorem block_eq (key contents : String) :
    block key contents = "__bale.registerModule(" ++ Json.quote key ++
      ", function(__filename, __dirname, require, module, exports) \x7b\n" ++ contents ++ "\n\x7d);" := by
  simp [block,Runtime.globalName]

theorem tables_eq (chunk : Nat) (p : Progress) :
    tables chunk p = "__bale.registerMappings(\"" ++ toString chunk ++ "\", " ++
      (Json.object (Json.sortMembers p.names)).compact ++ ", " ++
      (Json.object (Json.sortMembers p.requests)).compact ++ ")" := by
  rw [tables,Json.quote_toString]
  simp [Runtime.globalName,← String.toList_inj]

theorem resolvedFront_eq {es : List ChunkRequest} (resolved : ∀ e ∈ es, e.target ≠ none) :
    resolvedFront es = es.filterMap ChunkRequest.target := by
  induction es with
  | nil => rfl
  | cons e es ih =>
    cases target : e.target with
    | none => exact absurd target (resolved e List.mem_cons_self)
    | some id =>
      rw [resolvedFront,target,List.filterMap_cons_some target]
      exact congrArg (id :: ·) (ih fun e' member => resolved e' (List.mem_cons_of_mem _ member))

/-- The end of a bundle, as calls. -/
theorem loading_eq (k : Calls) : k.loading =
    let calls := k.required.map fun key => "__bale.require(" ++ Json.quote key ++ ")"
    if k.waits.isEmpty then calls else ensure k.waits :: calls ++ ["\x7d)"] := by
  rw [Calls.loading]
  cases k.waits with
  | nil => rfl
  | cons n ids => rw [ensure_eq]; rfl

/-- A chunk is written as the calls that it needs. -/
theorem render_makes {runtime : String} {c : Chunk} {paths : PublicPaths} {b : Bundle}
    (built : o.wrapper = "normal" → runtime = Runtime.text)
    (made : render root o runtime c (after t asked) = (.ok b,paths)) (more : List ModuleId) :
    b.Makes o (c.calls (called root t (asked ++ c.asked ++ more)) (location root o) (external c)) := by
  have added := @foldl_addModule root o t asked c.files (resolvedFront c.entries ++ more)
    (start c.outputName runtime (after t asked)) rfl
  have all : asked ++ c.files.flatMap Module.asked ++ (resolvedFront c.entries ++ more) = asked ++ c.asked ++ more := by
    simp [Chunk.asked]
  unfold render at made
  split at made
  · cases made
  · rename_i found
    have resolved : ∀ e ∈ c.entries, e.target ≠ none := by
      intro e member none
      have := List.find?_eq_none.mp found e member
      simp [none] at this
    have keys : (getAll root (after t (asked ++ c.files.flatMap Module.asked)) (resolvedFront c.entries)).1 =
        (c.entries.filterMap ChunkRequest.target).map (called root t (asked ++ c.asked ++ more)) := by
      rw [getAll_after,← resolvedFront_eq resolved]
      refine List.map_congr_left fun id member => ?_
      rw [Chunk.asked,← List.append_assoc]
      exact (called_append (List.mem_append_right _ member) more).symm
    cases made
    generalize c.files.foldl (addModule root o) (start c.outputName runtime (after t asked)) = p at added ⊢
    simp only [all] at added
    obtain ⟨last,parts,names,requests⟩ := added
    refine ⟨runtime,if o.sourceMap ∧ o.mapPlacement = .inlined then ["//# sourceMappingURL=" ++ p.map.dataAddress] else [],
      built,congrArg ("\n".intercalate ·) ?_,fun line member => ?_⟩
    · rw [last,keys,parts,tables_eq,names,requests,Calls.parts,loading_eq]
      simp only [Chunk.calls,start,prologue,epilogue,List.map_map,List.nil_append,List.cons_append,List.append_assoc]
      exact congrArg (fun blocks => _ :: runtime :: (blocks ++ _)) (List.map_congr_left fun m _ => block_eq ..)
    · split at member
      · exact ⟨_,List.mem_singleton.mp member⟩
      · cases member

/-! ## Chunks in a row -/

section

variable {context : GenerateContext σ} {c : Chunk} {chunks : List Chunk} {s s' : PublicPaths × σ}

theorem standard_makes {b : Bundle} (paths : s.1 = after t asked) (made : standard.generate context c s = (.ok b,s'))
    (more : List ModuleId) :
    s'.1 = after t (asked ++ c.asked) ∧
    b.Makes context.options
      (c.calls (called context.root t (asked ++ c.asked ++ more)) (location context.root context.options) (external c)) := by
  obtain ⟨text,found,rendered⟩ := standard_ok made
  rw [paths] at rendered
  refine ⟨?_,render_makes (fun normal => ?_) rendered more⟩
  · rw [← render_paths context.root context.options text c t asked,rendered]
  · rw [Generator.runtime,if_pos normal] at found
    exact (Except.ok.inj found).symm

/-- With the built-in runtime a chunk is generated unless one of its entries has no module. -/
theorem exists_standard (normal : context.options.wrapper = "normal") (resolved : ∀ e ∈ c.entries, e.target ≠ none)
    (s : PublicPaths × σ) : ∃ b s', standard.generate context c s = (.ok b,s') := by
  obtain ⟨paths,env⟩ := s
  have found : Generator.runtime context env = (.ok Runtime.text,env) := by
    rw [Generator.runtime,if_pos normal]
    rfl
  have targets : c.entries.find? (fun e => e.target.isNone) = none :=
    List.find?_eq_none.mpr fun e member none => resolved e member (Option.isNone_iff_eq_none.mp none)
  simp only [standard,found,render,targets]
  exact ⟨_,_,rfl⟩

/-- So are chunks in a row. -/
theorem exists_generateAll (normal : context.options.wrapper = "normal")
    (resolved : ∀ c ∈ chunks, ∀ e ∈ c.entries, e.target ≠ none) (s : PublicPaths × σ) :
    ∃ bs s', generateAll standard context chunks s = (.ok bs,s') := by
  induction chunks generalizing s with
  | nil => exact ⟨[],s,rfl⟩
  | cons c chunks ih =>
    obtain ⟨b,s₁,first⟩ := exists_standard normal (resolved c List.mem_cons_self) s
    obtain ⟨bs,s₂,rest⟩ := ih (fun c member => resolved c (List.mem_cons_of_mem _ member)) s₁
    rw [generateAll_cons,first]
    exact ⟨b :: bs,s₂,by simp only [rest]⟩

/-- All bundles that are generated in a row make the calls of their chunks, with the names that all their modules have in the
end. -/
theorem generateAll_makes {bs : List Bundle} (paths : s.1 = after t asked)
    (made : generateAll standard context chunks s = (.ok bs,s')) (more : List ModuleId) :
    let name := called context.root t (asked ++ chunks.flatMap Chunk.asked ++ more)
    s'.1 = after t (asked ++ chunks.flatMap Chunk.asked) ∧
    List.Forall₂ (fun c b => b.Makes context.options
      (c.calls name (location context.root context.options) (external c))) chunks bs := by
  induction chunks generalizing s asked bs with
  | nil =>
    cases made
    exact ⟨by simpa using paths,.nil⟩
  | cons c chunks ih =>
    rw [generateAll_cons] at made
    split at made
    · cases made
    · rename_i b s₁ first
      split at made
      · cases made
      · rename_i rest s₂ others
        cases made
        obtain ⟨next,here⟩ := standard_makes paths first (chunks.flatMap Chunk.asked ++ more)
        obtain ⟨last,each⟩ := ih next others
        rw [List.flatMap_cons,← List.append_assoc asked]
        rw [← List.append_assoc] at here
        exact ⟨last,.cons here each⟩

end

end Generator

end Bundling
