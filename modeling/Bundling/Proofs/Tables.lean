import Mathlib.Data.List.Nodup
import Bundling.Proofs.Calls

/-!
# Tables of names

Chunks ask for their modules one after the other, so all chunks that are written with the same public paths share one way to
call modules (`Generator.names_stable`): the keys a bundle registers its modules under and those of its table are these names.
-/

namespace Bundling

namespace Json

variable {α : Type} {key : String} {ms acc : List (String × α)}

theorem insertSorted_perm (value : α) (new : key ∉ ms.map Prod.fst) : (insertSorted key value ms).Perm ((key,value) :: ms) := by
  induction ms with
  | nil => exact .refl _
  | cons m ms ih =>
    obtain ⟨k,v⟩ := m
    obtain ⟨other,new⟩ := not_or.mp (mt List.mem_cons.mpr new)
    rw [insertSorted,if_neg other]
    split
    · exact .refl _
    · exact ((ih new).cons _).trans (.swap ..)

/-- Sorting keeps members whose keys are different. -/
theorem sortMembers_perm (distinct : (ms.map Prod.fst).Nodup) : (sortMembers ms).Perm ms := by
  suffices onto : ∀ acc, ((acc ++ ms).map Prod.fst).Nodup →
      (ms.foldl (fun acc m => insertSorted m.1 m.2 acc) acc).Perm (acc ++ ms) from onto [] distinct
  clear distinct
  induction ms with
  | nil => exact fun acc _ => .of_eq (List.append_nil acc).symm
  | cons m ms ih =>
    intro acc distinct
    have moved : (acc ++ m :: ms).Perm (m :: (acc ++ ms)) := List.perm_middle
    have apart := (moved.map Prod.fst).nodup_iff.mp distinct
    have new : m.1 ∉ acc.map Prod.fst := fun member =>
      (List.nodup_cons.mp apart).1 (List.map_append ▸ List.mem_append_left _ member)
    have inserted : (insertSorted m.1 m.2 acc ++ ms).Perm (m :: (acc ++ ms)) := (insertSorted_perm m.2 new).append_right ms
    exact (ih _ ((inserted.map Prod.fst).nodup_iff.mpr apart)).trans (inserted.trans moved.symm)

end Json

/-- A bundle registers each module of its chunk under another name, and its table says of just these names where the modules
lie. -/
def Bundle.Tells (b : Bundle) (o : GeneratorOptions) (c : Chunk) (name : ModuleId → String) (location : ModuleId → Json) : Prop :=
  (c.files.map fun m => name m.id).Nodup ∧ ∃ k : Calls, b.Makes o k ∧
    k.registered = c.files.map (fun m => (name m.id,m.contents)) ∧ k.names.Perm (c.files.map fun m => (name m.id,location m.id))

namespace Generator

open PublicPaths

variable {σ : Type} {root : ProjectRoot} {o : GeneratorOptions} {t : PathType} {asked : List ModuleId}

section

variable {context : GenerateContext σ} {c : Chunk} {chunks : List Chunk} {s s' : PublicPaths × σ}

theorem standard_paths (context : GenerateContext σ) (c : Chunk) (paths : s.1 = after t asked) :
    ∃ front, front <+: c.asked ∧ (standard.generate context c s).2.1 = after t (asked ++ front) := by
  obtain ⟨_,env⟩ := s
  obtain rfl := paths
  cases ran : Generator.runtime context env with
  | mk found env' =>
    cases found with
    | error e =>
      refine ⟨[],List.nil_prefix,?_⟩
      simp only [standard,ran,List.append_nil]
    | ok text =>
      refine ⟨c.asked,List.prefix_rfl,?_⟩
      simp only [standard,ran,render_paths]

/-- Chunks ask for their modules one after the other, as far as they come. -/
theorem generateAll_paths (context : GenerateContext σ) (chunks : List Chunk) (paths : s.1 = after t asked) :
    ∃ front, front <+: chunks.flatMap Chunk.asked ∧ (generateAll standard context chunks s).2.1 = after t (asked ++ front) := by
  induction chunks generalizing s asked with
  | nil => exact ⟨[],List.nil_prefix,by rw [List.append_nil]; exact paths⟩
  | cons c chunks ih =>
    rw [generateAll_cons,List.flatMap_cons]
    cases made : standard.generate context c s with
    | mk first s₁ =>
      cases first with
      | error e =>
        obtain ⟨front,early,last⟩ := standard_paths context c paths
        rw [made] at last
        exact ⟨front,early.trans (List.prefix_append ..),last⟩
      | ok b =>
        obtain ⟨front,early,last⟩ := ih (standard_makes paths made []).1
        rw [List.append_assoc] at last
        refine ⟨c.asked ++ front,(List.prefix_append_right_inj _).mpr early,?_⟩
        simp only
        cases others : generateAll standard context chunks s₁ with
        | mk rest s₂ =>
          rw [others] at last
          cases rest <;> exact last

end

/-- Where modules have different names, none is lost from the table when it is sorted. -/
theorem tells_of_makes {b : Bundle} {c : Chunk} {waits : List Nat} {name : ModuleId → String}
    (apart : (c.files.map fun m => name m.id).Nodup) (makes : b.Makes o (c.calls name (location root o) waits)) :
    b.Tells o c name (location root o) :=
  ⟨apart,_,makes,rfl,Json.sortMembers_perm (by rwa [List.map_map])⟩

/-- Public paths give every module one name, which later requests do not change. Where they are numbers, no other module gets
the name, and they count the modules in the order of first sight; where they are paths, just the modules get the same name
to which the ways are shown alike, which does not happen to modules with names that are texts. Chunks that are generated ask
for more modules, and every bundle whose modules have different names registers them under these names, each once, with a
table that has just these names as its keys. -/
theorem names_stable (root : ProjectRoot) (t : PathType) (ids : List ModuleId) (enough : Enough t ids) :
    (getAll root { pathType := t } ids).1 = ids.map (called root t ids) ∧
    (∀ a ∈ ids, ∀ b ∈ ids, (called root t ids a = called root t ids b ↔
      a = b ∨ t = .filePath ∧ (root.way a).map Component.text = (root.way b).map Component.text) ∧
      (Told root t a → Told root t b → (called root t ids a = called root t ids b ↔ a = b))) ∧
    (t = .number → (firstOccurrences ids).map (called root t ids) = (List.range (firstOccurrences ids).length).map toString) ∧
    (∀ more, ∀ id ∈ ids, called root t (ids ++ more) id = called root t ids id) ∧
    ∀ (context : GenerateContext σ) (chunks : List Chunk) (env : σ), context.root = root →
      let run := generateAll standard context chunks ((getAll root { pathType := t } ids).2,env)
      ∃ more, more <+: chunks.flatMap Chunk.asked ∧ run.2.1 = (getAll root { pathType := t } (ids ++ more)).2 ∧
        ∀ bs, run.1 = .ok bs → more = chunks.flatMap Chunk.asked ∧ (Enough t (ids ++ more) →
          List.Forall₂ (fun c b =>
            ((c.files.map Module.id).Nodup → (∀ m ∈ c.files, Told root t m.id) →
              (c.files.map fun m => called root t (ids ++ more) m.id).Nodup) ∧
            ((c.files.map fun m => called root t (ids ++ more) m.id).Nodup →
              b.Tells context.options c (called root t (ids ++ more)) (location root context.options))) chunks bs) := by
  have all : ∀ ids, getAll root { pathType := t } ids = (ids.map (called root t ids),after t ids) := fun ids =>
    after_nil t ▸ getAll_after root t [] ids
  simp only [all]
  refine ⟨True.intro,fun a first b second => ⟨called_eq_iff enough first second,fun told told' =>
    ⟨eq_of_called enough first second told told',congrArg _⟩⟩,?_,fun more id known => called_append known more,?_⟩
  · rintro rfl
    exact map_called_firstOccurrences enough
  · rintro context chunks env rfl
    cases made : (generateAll standard context chunks (after t ids,env)).1 with
    | error e =>
      obtain ⟨front,early,last⟩ := @generateAll_paths σ t ids (after t ids,env) context chunks rfl
      exact ⟨front,early,last,fun bs ok => nomatch ok⟩
    | ok bs =>
      obtain ⟨last,each⟩ := generateAll_makes rfl (Prod.ext made rfl) []
      rw [List.append_nil] at each
      refine ⟨chunks.flatMap Chunk.asked,List.prefix_rfl,last,fun _ ok => ⟨rfl,fun enough => ?_⟩⟩
      cases ok
      have known : ∀ c ∈ chunks, ∀ m ∈ c.files, m.id ∈ ids ++ chunks.flatMap Chunk.asked := fun c member m inside =>
        List.mem_append_right _ (List.mem_flatMap.mpr ⟨c,member,Chunk.mem_asked inside⟩)
      refine ((List.forall₂_and_left _ _).mpr ⟨known,each⟩).imp ?_
      rintro c b ⟨known,makes⟩
      exact ⟨nodup_called enough known,fun apart => tells_of_makes apart makes⟩

/-- Modules that were asked for in another order than the one they are written in keep their numbers. -/
theorem names_stable_couple : Enough .number [oneWord.id,twoLines.id,oneWord.id] ∧
    (getAll bareContext.root { pathType := .number } [oneWord.id,twoLines.id,oneWord.id]).1 = ["0","1","0"] ∧
    ∃ b, (generateAll standard bareContext [couple]
        ((getAll bareContext.root { pathType := .number } [oneWord.id,twoLines.id,oneWord.id]).2,())).1 = .ok [b] ∧
      ∃ k : Calls, b.Makes bareContext.options k ∧ k.registered.map Prod.fst = ["1","0"] ∧
        k.names.Perm [("1",.string "$app/plain.js"),("0",.string "$app/typed.ts")] := by
  have enough : Enough .number [oneWord.id,twoLines.id,oneWord.id] := fun _ => by decide
  obtain ⟨names,-,-,-,run⟩ := names_stable bareContext.root .number [oneWord.id,twoLines.id,oneWord.id] enough
  obtain ⟨b,made⟩ : ∃ b, (generateAll standard bareContext [couple]
      ((getAll bareContext.root { pathType := .number } [oneWord.id,twoLines.id,oneWord.id]).2,())).1 = .ok [b] := ⟨_,rfl⟩
  obtain ⟨more,-,-,bundles⟩ := run bareContext [couple] () rfl
  obtain ⟨rfl,tells⟩ := bundles _ made
  obtain ⟨⟨apart,tells⟩,-⟩ := List.forall₂_cons.mp (tells fun _ => by decide)
  obtain ⟨-,k,makes,registered,members⟩ := tells (apart (by decide) fun _ _ => .inl rfl)
  exact ⟨enough,names.trans (by decide +kernel),b,made,k,makes,congrArg (List.map Prod.fst) registered,members⟩

/-- A module whose name is not a text. -/
def illegible : Module := Module.ofSources ⟨[⟨"odd",by decide⟩,⟨[0x61,0xFF,0x2E,0x6A,0x73],by decide⟩]⟩ ""

/-- Another module that is shown in the same way. -/
def alike : Module := Module.ofSources ⟨[⟨"odd",by decide⟩,⟨[0x61,0xFE,0x2E,0x6A,0x73],by decide⟩]⟩ ""

/-- Paths that are shown are not always different: a bundle registers two modules under one key, which its table has once. -/
theorem name_shared : let c : Chunk := { id := 0, files := [illegible,alike] }
    let context := { bareContext with root := ⟨.absolute [⟨"odd",by decide⟩]⟩ }
    illegible.id ≠ alike.id ∧
    (getAll context.root { pathType := .filePath } [illegible.id,alike.id]).1 = ["$root/a\uFFFD.js","$root/a\uFFFD.js"] ∧
    ∃ b s', standard.generate context c ({},()) = (.ok b,s') ∧ ∃ k : Calls, b.Makes context.options k ∧
      k.registered.map Prod.fst = ["$root/a\uFFFD.js","$root/a\uFFFD.js"] ∧ k.names.map Prod.fst = ["$root/a\uFFFD.js"] := by
  intro c context
  obtain ⟨b,s',made⟩ : ∃ b s', standard.generate context c ({},()) = (.ok b,s') := ⟨_,_,rfl⟩
  have makes := (standard_makes (after_nil .filePath).symm made []).2
  exact ⟨by decide,by decide +kernel,b,s',made,_,makes,by decide +kernel,by decide +kernel⟩

end Generator

end Bundling
