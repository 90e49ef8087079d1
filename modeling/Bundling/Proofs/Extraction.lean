import Bundling.Proofs.Functions
import Bundling.Proofs.Partition

/-!
# Common chunks of any chunks

Modules that are in several chunks move to a new chunk, which comes first and takes over all entries; all else stays where it
is (`extract_exact`). This holds of any chunks with numbers of their own (`ChunkList.Apart`), which they have again
afterwards, so what has been moved once is not moved again.
-/

namespace Bundling

/-- Chunks as they are made: each has a number of its own, which is below the next one, and holds no module twice. -/
structure ChunkList.Apart (l : ChunkList) : Prop where
  numbers : (l.chunks.map Chunk.id).Nodup
  used : ∀ c ∈ l.chunks, c.id < l.next
  files : ∀ c ∈ l.chunks, (c.files.map Module.id).Nodup

namespace Chunk

theorem id_mem_putFile {m : Module} {ms : List Module} {id : ModuleId} (member : id ∈ (putFile m ms).map Module.id) :
    id = m.id ∨ id ∈ ms.map Module.id := by
  induction ms with
  | nil => exact .inl (List.mem_singleton.mp member)
  | cons n ns ih =>
    rw [putFile] at member
    split at member
    · exact (List.mem_cons.mp member).imp_right (List.mem_cons_of_mem _)
    · rcases List.mem_cons.mp member with rfl | later
      · exact .inr List.mem_cons_self
      · exact (ih later).imp_right (List.mem_cons_of_mem _)

theorem nodup_putFile {m : Module} {ms : List Module} (nodup : (ms.map Module.id).Nodup) :
    ((putFile m ms).map Module.id).Nodup := by
  induction ms with
  | nil => exact List.nodup_singleton _
  | cons n ns ih =>
    obtain ⟨new,rest⟩ := List.nodup_cons.mp nodup
    rw [putFile]
    split
    · rename_i same
      exact List.nodup_cons.mpr ⟨same ▸ new,rest⟩
    · rename_i other
      refine List.nodup_cons.mpr ⟨fun member => ?_,ih rest⟩
      exact (id_mem_putFile member).elim other new

theorem nodup_gather (ms : List Module) : ((gather ms).map Module.id).Nodup := by
  have kept : ∀ acc : List Module, (acc.map Module.id).Nodup →
      ((ms.foldl (fun acc m => putFile m acc) acc).map Module.id).Nodup := by
    induction ms with
    | nil => exact fun acc nodup => nodup
    | cons m ms ih => exact fun acc nodup => ih _ (nodup_putFile nodup)
  exact kept [] List.nodup_nil

end Chunk

namespace ChunkList.Apart

variable {l : ChunkList}

theorem nil (next : Nat) : Apart { next } := ⟨List.nodup_nil,nofun,nofun⟩

/-- A chunk may be put in any place, in front or at the end, once it has been given a number. -/
theorem cons (apart : l.Apart) {c : Chunk} (number : c.id = l.next) (files : (c.files.map Module.id).Nodup) :
    Apart { next := l.next + 1, chunks := c :: l.chunks } where
  numbers := by
    refine List.nodup_cons.mpr ⟨fun member => ?_,apart.numbers⟩
    obtain ⟨d,inside,same⟩ := List.mem_map.mp member
    have less := apart.used d inside
    rw [same,number] at less
    exact Nat.lt_irrefl _ less
  used := List.forall_mem_cons.mpr ⟨by rw [number]; exact Nat.lt_succ_self _,fun d inside => Nat.lt_succ_of_lt (apart.used d inside)⟩
  files := List.forall_mem_cons.mpr ⟨files,apart.files⟩

theorem perm (apart : l.Apart) {cs : List Chunk} (perm : cs.Perm l.chunks) : Apart { l with chunks := cs } where
  numbers := (perm.map Chunk.id).nodup_iff.mpr apart.numbers
  used c member := apart.used c (perm.mem_iff.mp member)
  files c member := apart.files c (perm.mem_iff.mp member)

theorem add (apart : l.Apart) (entries : List ChunkRequest) (files : List Module) : (l.add entries files).Apart :=
  (apart.cons (c := (l.new entries files).1) rfl (Chunk.nodup_gather files)).perm (List.perm_append_singleton ..)

end ChunkList.Apart

/-! ## What is moved -/

namespace Commons

/-- The chunks after modules have moved: the new chunk holds what was in at least two chunks, with a request for each of its
modules and all the entries; the others have kept what was in them alone. -/
structure Moved (cs : List Chunk) (common : Chunk) (others : List Chunk) : Prop where
  number : ∀ c ∈ cs, c.id ≠ common.id
  files : ∀ id, common.contains id = true ↔ 2 ≤ cs.countP (·.contains id)
  distinct : (common.files.map Module.id).Nodup
  origin : ∀ m ∈ common.files, ∃ c ∈ cs, m ∈ c.files
  imports : common.imports = common.files.map fun m => { request := m.id.text, target := some m.id }
  entries : common.entries = cs.flatMap Chunk.entries
  kept : others = cs.map fun c =>
    { c with entries := [], files := c.files.filter fun m => cs.countP (·.contains m.id) < 2 }
  once : ∀ id, (common :: others).countP (·.contains id) = if ∃ c ∈ cs, c.contains id = true then 1 else 0

section

variable {l : ChunkList}

theorem shared_eq_nil_iff (apart : l.Apart) : shared l.chunks = [] ↔ ∀ id, l.chunks.countP (·.contains id) ≤ 1 := by
  constructor
  · intro none id
    have few : ¬2 ≤ l.chunks.countP (·.contains id) := mt (mem_shared_iff apart.files).mpr (by simp [none])
    omega
  · intro few
    refine List.eq_nil_iff_forall_not_mem.mpr fun m member => ?_
    have twice := (mem_shared_iff apart.files).mp (List.mem_map_of_mem member)
    have once := few m.id
    omega

/-- A chunk keeps the modules that no other chunk holds. -/
theorem strip_eq (apart : l.Apart) (c : Chunk) : strip (shared l.chunks) c =
    { c with entries := [], files := c.files.filter fun m => l.chunks.countP (·.contains m.id) < 2 } := by
  have kept : (c.files.filter fun m => !(shared l.chunks).any fun n => n.id = m.id) =
      c.files.filter fun m => l.chunks.countP (·.contains m.id) < 2 := by
    refine List.filter_congr fun m _ => ?_
    have known : ((shared l.chunks).any fun n => n.id = m.id) = true ↔ 2 ≤ l.chunks.countP (·.contains m.id) := by
      rw [← mem_shared_iff apart.files]
      simp
    rw [Bool.eq_iff_iff,Bool.not_eq_true',Bool.eq_false_iff,ne_eq,known,decide_eq_true_eq,Nat.not_le]
  rw [strip,kept]

/-- A module that some chunk holds is in one chunk afterwards. -/
theorem countP_once (apart : l.Apart) {common : Chunk} (files : common.files = shared l.chunks) (id : ModuleId) :
    (common :: l.chunks.map (strip (shared l.chunks))).countP (·.contains id) =
      if ∃ c ∈ l.chunks, c.contains id = true then 1 else 0 := by
  rw [countP_moved files]
  by_cases held : ∃ c ∈ l.chunks, c.contains id = true
  · have some := List.countP_pos_iff.mpr held
    rw [if_pos held]
    split
    · rfl
    · rename_i alone
      have few := mt (mem_shared_iff apart.files).mpr alone
      omega
  · have none : l.chunks.countP (·.contains id) = 0 :=
      List.countP_eq_zero.mpr fun c member there => held ⟨c,member,there⟩
    rw [if_neg held,if_neg fun moved => ?_,none]
    have twice := (mem_shared_iff apart.files).mp moved
    omega

theorem extract_of_shared (apart : l.Apart) (filled : shared l.chunks ≠ []) : ∃ common others,
    extract l = { next := l.next + 1, chunks := common :: others } ∧ common.id = l.next ∧ Moved l.chunks common others := by
  let common : Chunk := {
    id := l.next
    entries := l.chunks.flatMap Chunk.entries
    imports := (shared l.chunks).map fun m => { request := m.id.text, target := some m.id }
    files := shared l.chunks }
  have extracted : extract l = { next := l.next + 1, chunks := common :: l.chunks.map (strip (shared l.chunks)) } := by
    rw [extract,if_neg (mt List.isEmpty_iff.mp filled)]
    simp only [ChunkList.new,Chunk.gather_eq (nodup_shared l.chunks),common]
  refine ⟨common,_,extracted,rfl,?_⟩
  exact {
    number := fun c member => Nat.ne_of_lt (apart.used c member)
    files := fun id => Chunk.contains_iff.trans (mem_shared_iff apart.files)
    distinct := nodup_shared l.chunks
    origin := fun m member => exists_chunk_of_shared member
    imports := rfl
    entries := rfl
    kept := List.map_congr_left fun c _ => strip_eq apart c
    once := countP_once apart rfl }

/-- The chunks are apart again. -/
theorem Moved.apart (apart : l.Apart) {common : Chunk} {others : List Chunk} (number : common.id = l.next)
    (moved : Moved l.chunks common others) : ChunkList.Apart { next := l.next + 1, chunks := common :: others } := by
  have rest : ChunkList.Apart { next := l.next, chunks := others } := by
    rw [moved.kept]
    refine ⟨?_,fun c member => ?_,fun c member => ?_⟩
    · rw [List.map_map]
      exact apart.numbers
    · obtain ⟨d,inside,rfl⟩ := List.mem_map.mp member
      exact apart.used d inside
    · obtain ⟨d,inside,rfl⟩ := List.mem_map.mp member
      exact (apart.files d inside).sublist (List.filter_sublist.map _)
  exact rest.cons number moved.distinct

/-- Moving what several chunks share gives each module one place, and leaves all else where it was, in its order. If nothing
is shared, nothing changes at all; neither does it the second time. -/
theorem extract_exact (apart : l.Apart) :
    ∃ after, transformer.transform l = (.ok (),after) ∧
      ((∀ id, l.chunks.countP (·.contains id) ≤ 1) → after = l) ∧
      ((∃ id, 2 ≤ l.chunks.countP (·.contains id)) →
        ∃ common others, after.chunks = common :: others ∧ Moved l.chunks common others) ∧
      after.chunks.flatMap Chunk.entries = l.chunks.flatMap Chunk.entries ∧
      after.Apart ∧ transformer.transform after = (.ok (),after) := by
  have still : ∀ {l : ChunkList}, shared l.chunks = [] → extract l = l := fun none => by rw [extract,none]; rfl
  refine ⟨extract l,rfl,fun few => still ((shared_eq_nil_iff apart).mpr few),?_⟩
  by_cases none : shared l.chunks = []
  · have few := (shared_eq_nil_iff apart).mp none
    rw [still none]
    refine ⟨fun ⟨id,twice⟩ => ?_,rfl,apart,congrArg _ (still none)⟩
    have := few id
    omega
  · obtain ⟨common,others,extracted,number,moved⟩ := extract_of_shared apart none
    have apart' := moved.apart apart number
    rw [extracted]
    refine ⟨fun _ => ⟨common,others,rfl,moved⟩,?_,apart',congrArg _ (still ((shared_eq_nil_iff apart').mpr fun id => ?_))⟩
    · have quiet : others.flatMap Chunk.entries = [] := by simp [moved.kept]
      rw [List.flatMap_cons,quiet,moved.entries,List.append_nil]
    · show (common :: others).countP (·.contains id) ≤ 1
      rw [moved.once]
      split <;> decide

end

/-- Of what the entries `a` and `b` need, `c` is in two chunks, and `d` is in three. -/
def overlapping : ChunkList :=
  let module (id : ModuleId) : Module := .ofSources id ""
  (((({} : ChunkList).add [{ request := "a" }] ([Letter.a,Letter.c,Letter.d].map module)).add
    [{ request := "b" }] ([Letter.b,Letter.d,Letter.c].map module)).add [] ([Letter.d,Letter.e].map module))

theorem extract_exact_overlapping : overlapping.Apart ∧ ∃ after, transformer.transform overlapping = (.ok (),after) ∧
    after.chunks.map (fun c => (c.id,c.files.map Module.id,c.entries.map ChunkRequest.request)) =
      [(3,[Letter.d,Letter.c],["a","b"]),(0,[Letter.a],[]),(1,[Letter.b],[]),(2,[Letter.e],[])] ∧
    ∃ common others, after.chunks = common :: others ∧ Moved overlapping.chunks common others := by
  have apart : overlapping.Apart := (((ChunkList.Apart.nil 0).add _ _).add _ _).add _ _
  obtain ⟨after,ok,-,moved,-⟩ := extract_exact apart
  obtain ⟨common,others,chunks,moved⟩ := moved ⟨Letter.d,by decide⟩
  refine ⟨apart,after,ok,?_,common,others,chunks,moved⟩
  obtain rfl : extract overlapping = after := congrArg Prod.snd ok
  decide

end Commons

end Bundling
