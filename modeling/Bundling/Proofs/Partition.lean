import Mathlib.Data.List.Forall2
import Mathlib.Data.List.Nodup
import Bundling.Chunk.Commons
import Bundling.Chunk.Partition
import Bundling.Proofs.Origins

/-!
# Chunks of entries

The chunk of an entry holds what can be reached from it (`ForEntry.contains_iff`), so with a module it
holds all that the module needs. A module that is in several chunks is shared (`mem_shared_iff`). As each
of them holds all that can be reached from it, that is shared as well (`shared_of_reaches`).
-/

namespace Bundling

/-- What a module needs while it runs: what it imports, and what its requests stand for. -/
def Module.needs (m : Module) : List ModuleId := m.imports ++ m.requests.map Prod.snd

theorem Module.Linked.needs {m : Module} (linked : m.Linked) {i : ModuleId} (member : i ∈ m.needs) :
    i = m.id ∨ i ∈ m.imports := by
  rcases List.mem_append.mp member with imported | requested
  · exact .inr imported
  · obtain ⟨r,inside,rfl⟩ := List.mem_map.mp requested
    exact linked r inside

namespace Chunk

theorem contains_iff {c : Chunk} {id : ModuleId} : c.contains id = true ↔ id ∈ c.files.map Module.id := by
  simp [contains]

theorem putFile_new {m : Module} {ms : List Module} (new : m.id ∉ ms.map Module.id) : putFile m ms = ms ++ [m] := by
  induction ms with
  | nil => rfl
  | cons n ns ih =>
    rw [List.map_cons,List.mem_cons,not_or] at new
    rw [putFile,if_neg (Ne.symm new.1),ih new.2,List.cons_append]

/-- Modules that are all different are left as they are. -/
theorem gather_eq {ms : List Module} (nodup : (ms.map Module.id).Nodup) : gather ms = ms := by
  have onto : ∀ acc : List Module, ((acc ++ ms).map Module.id).Nodup →
      ms.foldl (fun acc m => putFile m acc) acc = acc ++ ms := by
    clear nodup
    induction ms with
    | nil => exact fun acc _ => (List.append_nil acc).symm
    | cons m ms ih =>
      intro acc nodup
      rw [List.append_cons] at nodup ⊢
      have new : m.id ∉ acc.map Module.id := by
        rw [List.map_append,List.map_append] at nodup
        have apart := (List.nodup_append.mp (List.nodup_append.mp nodup).1).2.2
        exact fun member => apart _ member _ List.mem_cons_self rfl
      rw [List.foldl_cons,putFile_new new,ih _ nodup]
  exact onto [] nodup

/-- Where no chunk holds a module twice, it is in the files of all chunks as often as it is in a chunk. -/
theorem count_files {cs : List Chunk} (nodup : ∀ c ∈ cs, (c.files.map Module.id).Nodup) (id : ModuleId) :
    ((cs.flatMap files).map Module.id).count id = cs.countP (·.contains id) := by
  induction cs with
  | nil => rfl
  | cons c cs ih =>
    rw [List.flatMap_cons,List.map_append,List.count_append,ih fun d member => nodup d (List.mem_cons_of_mem _ member),
      (nodup c List.mem_cons_self).count,List.countP_cons,Nat.add_comm]
    simp only [contains_iff]

end Chunk

/-! ## Modules that are shared -/

namespace Commons

/-- What has been seen before or is there twice is found. -/
theorem mem_repeated_iff {seen : List ModuleId} {common ms : List Module} {id : ModuleId} :
    id ∈ (repeated seen common ms).map Module.id ↔
      id ∈ common.map Module.id ∨ 2 ≤ (ms.map Module.id).count id + if id ∈ seen then 1 else 0 := by
  induction ms generalizing seen common with
  | nil =>
    rw [repeated]
    refine (or_iff_left fun twice => ?_).symm
    split at twice <;> simp at twice
  | cons m ms ih =>
    rw [repeated]
    split
    · rename_i known
      have more : id ∈ (if common.any fun n => n.id = m.id then common else common ++ [m]).map Module.id ↔
          id ∈ common.map Module.id ∨ id = m.id := by
        split
        · rename_i there
          obtain ⟨n,inside,same⟩ := List.any_eq_true.mp there
          refine (or_iff_left_of_imp ?_).symm
          rintro rfl
          exact List.mem_map.mpr ⟨n,inside,of_decide_eq_true same⟩
        · simp
      rw [ih,more,List.map_cons,List.count_cons]
      by_cases same : id = m.id
      · subst same
        simp [known]
      · simp [same,Ne.symm same]
    · rename_i new
      rw [ih,List.map_cons,List.count_cons]
      by_cases same : id = m.id
      · subst same
        simp [new]
      · simp [same,Ne.symm same]

theorem nodup_repeated {seen : List ModuleId} {common ms : List Module} (nodup : (common.map Module.id).Nodup) :
    ((repeated seen common ms).map Module.id).Nodup := by
  induction ms generalizing seen common with
  | nil => exact nodup
  | cons m ms ih =>
    rw [repeated]
    split
    · refine ih ?_
      split
      · exact nodup
      · rename_i new
        rw [List.map_append]
        refine List.nodup_append.mpr ⟨nodup,by simp,?_⟩
        rintro i before _ last rfl
        obtain ⟨n,inside,same⟩ := List.mem_map.mp before
        refine new (List.any_eq_true.mpr ⟨n,inside,decide_eq_true ?_⟩)
        exact same.trans (List.mem_singleton.mp last)
    · exact ih nodup

theorem of_mem_repeated {seen : List ModuleId} {common ms : List Module} {m : Module}
    (member : m ∈ repeated seen common ms) : m ∈ common ∨ m ∈ ms := by
  induction ms generalizing seen common with
  | nil => exact .inl member
  | cons n ms ih =>
    rw [repeated] at member
    split at member
    · rcases ih member with before | later
      · split at before
        · exact .inl before
        · refine (List.mem_append.mp before).imp_right fun last => ?_
          rw [List.mem_singleton.mp last]
          exact List.mem_cons_self
      · exact .inr (List.mem_cons_of_mem _ later)
    · exact (ih member).imp_right (List.mem_cons_of_mem _)

/-- A module is shared if it is in at least two chunks. -/
theorem mem_shared_iff {cs : List Chunk} (nodup : ∀ c ∈ cs, (c.files.map Module.id).Nodup) {id : ModuleId} :
    id ∈ (shared cs).map Module.id ↔ 2 ≤ cs.countP (·.contains id) := by
  rw [shared,mem_repeated_iff,Chunk.count_files nodup]
  simp

theorem nodup_shared (cs : List Chunk) : ((shared cs).map Module.id).Nodup := nodup_repeated List.nodup_nil

theorem exists_chunk_of_shared {cs : List Chunk} {m : Module} (member : m ∈ shared cs) : ∃ c ∈ cs, m ∈ c.files :=
  List.mem_flatMap.mp ((of_mem_repeated member).resolve_left List.not_mem_nil)

theorem contains_strip_iff {common : List Module} {c : Chunk} {id : ModuleId} :
    (strip common c).contains id = true ↔ c.contains id = true ∧ id ∉ common.map Module.id := by
  simp only [Chunk.contains_iff,strip,List.mem_map,List.mem_filter]
  constructor
  · rintro ⟨m,⟨inside,other⟩,rfl⟩
    refine ⟨⟨m,inside,rfl⟩,?_⟩
    rintro ⟨n,shared,same⟩
    simp only [Bool.not_eq_true',List.any_eq_false,decide_eq_true_eq] at other
    exact other n shared same
  · rintro ⟨⟨m,inside,rfl⟩,other⟩
    refine ⟨m,⟨inside,?_⟩,rfl⟩
    simp only [Bool.not_eq_true',List.any_eq_false,decide_eq_true_eq]
    exact fun n shared same => other ⟨n,shared,same⟩

/-- With the shared modules in a chunk of their own, a shared module is in that chunk only, and any other one where it was. -/
theorem countP_moved {cs : List Chunk} {c : Chunk} (files : c.files = shared cs) (id : ModuleId) :
    (c :: cs.map (strip (shared cs))).countP (·.contains id) =
      if id ∈ (shared cs).map Module.id then 1 else cs.countP (·.contains id) := by
  have held : c.contains id = true ↔ id ∈ (shared cs).map Module.id := by rw [Chunk.contains_iff,files]
  rw [List.countP_cons,List.countP_map]
  by_cases moved : id ∈ (shared cs).map Module.id
  · rw [if_pos (held.mpr moved),if_pos moved,List.countP_eq_zero.mpr]
    exact fun d _ there => (contains_strip_iff.mp there).2 moved
  · rw [if_neg fun there => moved (held.mp there),if_neg moved,Nat.add_zero]
    exact List.countP_congr fun d _ => contains_strip_iff.trans (and_iff_left moved)

end Commons

/-! ## A chunk for each entry -/

/-- The chunk of an entry requests it, and holds what can be reached from it, all of which is registered. -/
structure Chunk.ForEntry {σ : Type} (g : Graph σ) (root : ProjectRoot) (id : ModuleId) (c : Chunk) : Prop where
  entries : c.entries = [ChunkList.entryRequest root id]
  files : c.files = (g.registry.reachable [id]).map Version.body
  present : ∀ i, g.registry.Reaches [id] i → g.registry.contains i = true

namespace Chunk.ForEntry

variable {σ : Type} {g : Graph σ} {root : ProjectRoot} {id i : ModuleId} {c : Chunk} {m : Module}

theorem nodup (made : c.ForEntry g root id) : (c.files.map Module.id).Nodup := by
  rw [made.files,List.map_map]
  exact g.registry.nodup_reachable [id]

theorem contains_iff (made : c.ForEntry g root id) : c.contains i = true ↔ g.registry.Reaches [id] i := by
  rw [Chunk.contains_iff,made.files,List.map_map,List.mem_map]
  constructor
  · rintro ⟨v,member,rfl⟩
    exact (Registry.mem_reachable_iff.mp member).2
  · intro reached
    obtain ⟨v,found⟩ := Registry.contains_iff.mp (made.present i reached)
    obtain rfl := Registry.get?_id found
    exact ⟨v,Registry.mem_reachable_iff.mpr ⟨found,reached⟩,rfl⟩

theorem current (made : c.ForEntry g root id) (member : m ∈ c.files) :
    ∃ v, g.registry.get? m.id = some v ∧ v.body = m := by
  rw [made.files] at member
  obtain ⟨v,inside,rfl⟩ := List.mem_map.mp member
  exact ⟨v,(Registry.mem_reachable_iff.mp inside).1,rfl⟩

/-- With a module, the chunk holds all that can be reached from it. -/
theorem contains_of_reaches (made : c.ForEntry g root id) (there : c.contains i = true) {j : ModuleId}
    (reached : g.registry.Reaches [i] j) : c.contains j = true :=
  made.contains_iff.mpr (reached.trans fun k member => by
    rw [List.mem_singleton.mp member]
    exact made.contains_iff.mp there)

end Chunk.ForEntry

namespace ChunkList

variable {σ : Type} {g : Graph σ} {root : ProjectRoot}

theorem perEntry_ok {ids : List ModuleId} {l l' : ChunkList} (ok : perEntry g root ids l = .ok l') :
    ∃ cs, l'.chunks = l.chunks ++ cs ∧ List.Forall₂ (Chunk.ForEntry g root) ids cs ∧
      cs.map Chunk.id = List.range' l.next ids.length ∧ l'.next = l.next + ids.length := by
  induction ids generalizing l with
  | nil =>
    cases ok
    exact ⟨[],(List.append_nil _).symm,.nil,rfl,rfl⟩
  | cons id ids ih =>
    rw [perEntry] at ok
    cases made : g.below [id] with
    | error e => simp [made] at ok
    | ok files =>
      simp only [made] at ok
      obtain ⟨cs,chunks,each,numbers,next⟩ := ih ok
      obtain ⟨vs,walked,rfl⟩ : ∃ vs, g.registry.closure [id] = .ok vs ∧ vs.map Version.body = files := by
        unfold Graph.below at made
        cases walked : g.registry.closure [id] with
        | error e => simp [walked] at made
        | ok vs => exact ⟨vs,rfl,by simpa [walked] using made⟩
      obtain ⟨rfl,present⟩ := Registry.closure_ok walked
      have different : (((g.registry.reachable [id]).map Version.body).map Module.id).Nodup := by
        rw [List.map_map]
        exact g.registry.nodup_reachable [id]
      let c : Chunk :=
        { id := l.next
          entries := [entryRequest root id]
          files := Chunk.gather ((g.registry.reachable [id]).map Version.body) }
      refine ⟨c :: cs,?_,.cons ⟨rfl,Chunk.gather_eq different,present⟩ each,?_,?_⟩
      · exact chunks.trans (List.append_assoc ..)
      · rw [List.map_cons,numbers]
        rfl
      · rw [next,List.length_cons]
        exact Nat.succ_add_eq_add_succ ..

end ChunkList

end Bundling
