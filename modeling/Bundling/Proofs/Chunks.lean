import Bundling.Bundler.Build
import Bundling.Proofs.Calls
import Bundling.Proofs.Functions
import Bundling.Proofs.Partition

/-!
# Output that can be loaded

With a chunk for each entry, and what they share moved to a chunk of its own, the common chunk comes
first and needs no other one while its modules are registered. It lists the entries and waits for every
chunk that has any files. Those are the ones whose entry has not moved: once an entry is shared, so is all
that can be reached from it, and its chunk is empty (`Division.owns`).
-/

namespace Bundling

variable {σ : Type}

/-! ## Entries in other chunks -/

namespace Chunk

theorem mem_mappingsOf_iff {cs : List Chunk} {c : Chunk} {m : ChunkMapping} :
    m ∈ mappingsOf cs c ↔ (∃ e ∈ c.entries, e.target = some m.module) ∧ c.contains m.module = false ∧
      ∃ d, owner? cs c m.module = some d ∧ d.id = m.chunk := by
  obtain ⟨id,k⟩ := m
  simp only [mappingsOf,List.mem_filterMap,Option.bind_eq_bind,Option.bind_eq_some_iff]
  constructor
  · rintro ⟨e,member,i,target,found⟩
    split at found
    · cases found
    · rename_i other
      obtain ⟨d,owner,equal⟩ := Option.bind_eq_some_iff.mp found
      cases equal
      exact ⟨⟨e,member,target⟩,by simpa using other,d,owner,rfl⟩
  · rintro ⟨⟨e,member,target⟩,other,d,owner,rfl⟩
    refine ⟨e,member,id,target,?_⟩
    rw [if_neg (by simp [other]),owner]
    rfl

/-- A bundle waits for the chunks that own those of its entries that it does not hold itself. -/
theorem mem_external_iff {cs : List Chunk} {c : Chunk} {k : Nat} :
    k ∈ Generator.external { c with mappings := mappingsOf cs c } ↔
      ∃ e ∈ c.entries, ∃ id, e.target = some id ∧ c.contains id = false ∧
        ∃ d, owner? cs c id = some d ∧ d.id = k := by
  have mapped : ∀ {id m}, (mappingsOf cs c).find? (fun m => m.module = id) = some m →
      c.contains id = false ∧ ∃ d, owner? cs c id = some d ∧ d.id = m.chunk := by
    intro id m found
    have same := List.find?_some found
    obtain rfl : m.module = id := of_decide_eq_true same
    exact (mem_mappingsOf_iff.mp (List.mem_of_find?_eq_some found)).2
  simp only [Generator.external,mem_firstOccurrences,List.mem_filterMap,Option.bind_eq_bind,Option.bind_eq_some_iff]
  constructor
  · rintro ⟨e,member,id,target,m,found,equal⟩
    cases equal
    exact ⟨e,member,id,target,mapped found⟩
  · rintro ⟨e,member,id,target,other,d,owner,rfl⟩
    have known : ⟨id,d.id⟩ ∈ mappingsOf cs c := mem_mappingsOf_iff.mpr ⟨⟨e,member,target⟩,other,d,owner,rfl⟩
    obtain ⟨m,found⟩ := Option.isSome_iff_exists.mp
      (List.find?_isSome.mpr ⟨_,known,decide_eq_true rfl⟩ : ((mappingsOf cs c).find? fun m => m.module = id).isSome)
    obtain ⟨-,d',owner',equal⟩ := mapped found
    rw [owner] at owner'
    cases owner'
    exact ⟨e,member,id,target,m,found,congrArg some equal.symm⟩

/-- Where a chunk holds all its entries, there is nothing to wait for. -/
theorem mappingsOf_eq_nil {cs : List Chunk} {c : Chunk}
    (holds : ∀ e ∈ c.entries, ∀ id, e.target = some id → c.contains id = true) : mappingsOf cs c = [] := by
  refine List.eq_nil_iff_forall_not_mem.mpr fun m member => ?_
  obtain ⟨⟨e,inside,target⟩,other,-⟩ := mem_mappingsOf_iff.mp member
  rw [holds e inside _ target] at other
  cases other

theorem external_eq_nil {c : Chunk} (none : c.mappings = []) : Generator.external c = [] := by
  refine List.eq_nil_iff_forall_not_mem.mpr fun k member => ?_
  obtain ⟨e,-,found⟩ := List.mem_filterMap.mp (mem_firstOccurrences.mp member)
  simp [none] at found

theorem owner?_some {cs : List Chunk} {c d : Chunk} {id : ModuleId} (found : owner? cs c id = some d) :
    d ∈ cs ∧ d.id ≠ c.id ∧ d.contains id = true := by
  have holds := List.find?_some found
  exact ⟨List.mem_of_find?_eq_some found,of_decide_eq_true holds⟩

theorem exists_owner {cs : List Chunk} {c d : Chunk} {id : ModuleId} (member : d ∈ cs) (other : d.id ≠ c.id)
    (there : d.contains id = true) : ∃ d', owner? cs c id = some d' :=
  Option.isSome_iff_exists.mp (List.find?_isSome.mpr ⟨d,member,decide_eq_true ⟨other,there⟩⟩)

theorem nodup_external (c : Chunk) : (Generator.external c).Nodup := nodup_firstOccurrences _

/-- What the chunks of a list wait for, by their numbers. -/
def waitsOf (cs : List Chunk) (k : Nat) : List Nat := ((cs.find? (·.id = k)).map Generator.external).getD []

theorem waitsOf_eq {cs : List Chunk} {c : Chunk} (apart : (cs.map Chunk.id).Nodup) (member : c ∈ cs) :
    waitsOf cs c.id = Generator.external c := by
  have found : cs.find? (·.id = c.id) = some c := by
    induction cs with
    | nil => cases member
    | cons d cs ih =>
      obtain ⟨new,apart⟩ := List.nodup_cons.mp apart
      rcases List.mem_cons.mp member with rfl | rest
      · rw [List.find?_cons_of_pos (by simp)]
      · have other : d.id ≠ c.id := fun same => new (same ▸ List.mem_map_of_mem rest)
        rw [List.find?_cons_of_neg (by simpa using other),ih apart rest]
  rw [waitsOf,found]
  rfl

end Chunk

/-! ## Divisions -/

/-- A chunk for each entry, in order, with different numbers. -/
structure Division (g : Graph σ) (root : ProjectRoot) (l : ChunkList) : Prop where
  each : List.Forall₂ (Chunk.ForEntry g root) g.entries l.chunks
  apart : (l.chunks.map Chunk.id).Nodup
  new : ∀ c ∈ l.chunks, c.id ≠ l.next

section

variable {g : Graph σ} {root : ProjectRoot} {l : ChunkList} {c : Chunk} {id i : ModuleId}

theorem partition_division (ok : ChunkList.partition g root .perEntry = .ok l) : Division g root l := by
  obtain ⟨cs,chunks,each,numbers,next⟩ := ChunkList.perEntry_ok ok
  obtain rfl : l.chunks = cs := chunks
  have counted : l.chunks.map Chunk.id = List.range' 0 g.entries.length := numbers
  refine ⟨each,counted ▸ List.nodup_range',fun c member equal => ?_⟩
  have known : c.id ∈ List.range' 0 g.entries.length := counted ▸ List.mem_map_of_mem member
  have less := (List.mem_range'_1.mp known).2
  rw [equal,next] at less
  exact Nat.lt_irrefl _ less

theorem Division.forEntry (division : Division g root l) (member : c ∈ l.chunks) :
    ∃ e ∈ g.entries, c.ForEntry g root e := Graph.exists_left_of_forall₂ division.each member

theorem Division.nodup (division : Division g root l) (member : c ∈ l.chunks) : (c.files.map Module.id).Nodup := by
  obtain ⟨e,-,made⟩ := division.forEntry member
  exact made.nodup

theorem Division.reaches_iff (division : Division g root l) :
    g.registry.Reaches g.entries id ↔ ∃ c ∈ l.chunks, c.contains id = true := by
  constructor
  · intro reached
    obtain ⟨e,entry,reached⟩ := reached.exists_root
    obtain ⟨c,member,made⟩ := Graph.exists_right_of_forall₂ division.each entry
    exact ⟨c,member,made.contains_iff.mpr reached⟩
  · rintro ⟨c,member,there⟩
    obtain ⟨e,entry,made⟩ := division.forEntry member
    exact (made.contains_iff.mp there).trans fun i same => List.mem_singleton.mp same ▸ .root entry

/-- What can be reached from a shared module is shared. -/
theorem Division.shared_of_reaches (division : Division g root l)
    (common : id ∈ (Commons.shared l.chunks).map Module.id) (reached : g.registry.Reaches [id] i) :
    i ∈ (Commons.shared l.chunks).map Module.id := by
  rw [Commons.mem_shared_iff fun c => division.nodup] at common ⊢
  refine Nat.le_trans common (List.countP_mono_left fun c member there => ?_)
  obtain ⟨e,-,made⟩ := division.forEntry member
  exact made.contains_of_reaches there reached

/-- A chunk that has files left has kept its entry. -/
theorem Division.owns (division : Division g root l) (member : c ∈ l.chunks)
    (left : (Commons.strip (Commons.shared l.chunks) c).files ≠ []) :
    ∃ e ∈ g.entries, (Commons.strip (Commons.shared l.chunks) c).contains e = true := by
  obtain ⟨e,entry,made⟩ := division.forEntry member
  refine ⟨e,entry,Commons.contains_strip_iff.mpr
    ⟨made.contains_iff.mpr (.root (List.mem_singleton.mpr rfl)),fun common => left ?_⟩⟩
  refine List.eq_nil_iff_forall_not_mem.mpr fun m inside => ?_
  have there : (Commons.strip (Commons.shared l.chunks) c).contains m.id = true :=
    Chunk.contains_iff.mpr (List.mem_map_of_mem inside)
  obtain ⟨before,other⟩ := Commons.contains_strip_iff.mp there
  exact other (division.shared_of_reaches common (made.contains_iff.mp before))

/-- What a module needs can be reached from it, if the modules of the graph are linked. -/
theorem Chunk.ForEntry.needs {e : ModuleId} (made : c.ForEntry g root e)
    (linked : ∀ {i v}, g.registry.get? i = some v → v.body.Linked) {m : Module} (member : m ∈ c.files)
    (needed : i ∈ m.needs) : g.registry.Reaches [m.id] i := by
  obtain ⟨v,found,rfl⟩ := made.current member
  rcases (linked found).needs needed with rfl | imported
  · exact .root (List.mem_singleton.mpr rfl)
  · exact .step (.root (List.mem_singleton.mpr rfl)) found imported

end

/-! ## What is written can be loaded -/

/-- Every module that can be reached from the entries is in one of the chunks, once, and no other module is in
any. -/
structure Chunk.Divide (g : Graph σ) (cs : List Chunk) : Prop where
  apart : (cs.map Chunk.id).Nodup
  once : ∀ id, g.registry.Reaches g.entries id → cs.countP (·.contains id) = 1
  only : ∀ c ∈ cs, (c.files.map Module.id).Nodup ∧
    ∀ m ∈ c.files, g.registry.Reaches g.entries m.id ∧ g.get? m.id = some m

/-- A common chunk stands before the others. It is closed, and what the others need is in them or in it. It has all the entries,
and waits for those of the others that have any files: what can be reached from the entries is in it or in one of these. The
others have no entries and wait for nothing. -/
structure Chunk.Extracted (g : Graph σ) (root : ProjectRoot) (waits : Nat → List Nat) (common : Chunk) (others : List Chunk) :
    Prop where
  moved : common.files ≠ []
  entries : common.entries = g.entries.map (ChunkList.entryRequest root)
  closed : ∀ m ∈ common.files, ∀ i ∈ m.needs, common.contains i = true
  needs : ∀ c ∈ others, ∀ m ∈ c.files, ∀ i ∈ m.needs, c.contains i = true ∨ common.contains i = true
  once : (waits common.id).Nodup
  waits_iff : ∀ k, k ∈ waits common.id ↔ ∃ c ∈ others, c.id = k ∧ c.files ≠ []
  before : ∀ id, g.registry.Reaches g.entries id → common.contains id = true ∨
    ∃ c ∈ others, c.contains id = true ∧ c.id ∈ waits common.id
  quiet : ∀ c ∈ others, c.entries = [] ∧ c.mappings = [] ∧ waits c.id = []

/-- Each entry has a chunk of its own, which holds it and all that its modules need, and waits for nothing. -/
structure Chunk.Separate (g : Graph σ) (root : ProjectRoot) (waits : Nat → List Nat) (cs : List Chunk) : Prop where
  own : List.Forall₂ (fun id c => c.entries = [ChunkList.entryRequest root id] ∧ c.contains id = true) g.entries cs
  needs : ∀ c ∈ cs, ∀ m ∈ c.files, ∀ i ∈ m.needs, c.contains i = true
  quiet : ∀ c ∈ cs, c.mappings = [] ∧ waits c.id = []

section

variable {g : Graph σ} {root : ProjectRoot} {l : ChunkList}

/-- No two chunks hold a module. -/
theorem Chunk.Divide.unique {cs : List Chunk} (divide : Divide g cs) {c d : Chunk} {id : ModuleId}
    (reached : g.registry.Reaches g.entries id) (first : c ∈ cs) (second : d ∈ cs) (one : c.contains id = true)
    (other : d.contains id = true) : c = d := by
  have once := divide.once id reached
  rw [List.countP_eq_length_filter] at once
  obtain ⟨only,all⟩ := List.length_eq_one_iff.mp once
  have same : ∀ {e}, e ∈ cs → e.contains id = true → e = only := fun {e} member there =>
    List.mem_singleton.mp (all ▸ List.mem_filter.mpr ⟨member,there⟩)
  rw [same first one,same second other]

/-- The mappings that are recorded change nothing else. -/
theorem Chunk.Divide.computeMappings {cs : List Chunk} (divide : Divide g cs) : Divide g (computeMappings cs) := by
  refine ⟨?_,fun id reached => ?_,fun c member => ?_⟩
  · rw [Chunk.computeMappings,List.map_map]
    exact divide.apart
  · rw [Chunk.computeMappings,List.countP_map]
    exact divide.once id reached
  · obtain ⟨d,inside,rfl⟩ := List.mem_map.mp member
    exact divide.only d inside

/-- Every chunk holds modules that can be reached from the entries, as they are registered. -/
theorem Division.only (division : Division g root l) {c : Chunk} (member : c ∈ l.chunks) {m : Module}
    (inside : m ∈ c.files) : g.registry.Reaches g.entries m.id ∧ g.get? m.id = some m := by
  obtain ⟨e,-,made⟩ := division.forEntry member
  obtain ⟨v,found,rfl⟩ := made.current inside
  refine ⟨division.reaches_iff.mpr ⟨c,member,Chunk.contains_iff.mpr (List.mem_map_of_mem inside)⟩,?_⟩
  rw [Graph.get?,found]
  rfl

/-- A module is shared, or in one chunk only. -/
theorem Division.once (division : Division g root l) {id : ModuleId} (reached : g.registry.Reaches g.entries id)
    (apart : id ∉ (Commons.shared l.chunks).map Module.id) : l.chunks.countP (·.contains id) = 1 := by
  have some := List.countP_pos_iff.mpr (division.reaches_iff.mp reached)
  have few := mt (Commons.mem_shared_iff fun c => division.nodup).mpr apart
  omega

theorem Division.divide (division : Division g root l) (none : Commons.shared l.chunks = []) :
    Chunk.Divide g l.chunks :=
  ⟨division.apart,fun _ reached => division.once reached (by simp [none]),
    fun _ member => ⟨division.nodup member,fun _ inside => division.only member inside⟩⟩

/-- It is the same with the shared modules in a chunk of their own. -/
theorem Division.divide_moved (division : Division g root l) {c : Chunk} (files : c.files = Commons.shared l.chunks)
    (number : c.id = l.next) : Chunk.Divide g (c :: l.chunks.map (Commons.strip (Commons.shared l.chunks))) := by
  refine ⟨?_,fun id reached => ?_,fun d member => ?_⟩
  · rw [List.map_cons,List.map_map,List.nodup_cons]
    refine ⟨fun member => ?_,division.apart⟩
    obtain ⟨d,inside,same⟩ := List.mem_map.mp member
    exact division.new d inside (same.trans number)
  · rw [Commons.countP_moved files]
    split
    · rfl
    · rename_i apart
      exact division.once reached apart
  · rcases List.mem_cons.mp member with rfl | rest
    · rw [files]
      refine ⟨Commons.nodup_shared _,fun m member => ?_⟩
      obtain ⟨d,inside,there⟩ := Commons.exists_chunk_of_shared member
      exact division.only inside there
    · obtain ⟨d,inside,rfl⟩ := List.mem_map.mp rest
      exact ⟨(division.nodup inside).sublist (List.filter_sublist.map _),fun m member =>
        division.only inside (List.mem_filter.mp member).1⟩

/-- The entries of all chunks are those of the graph, in order. -/
theorem Division.entries (division : Division g root l) :
    l.chunks.flatMap Chunk.entries = g.entries.map (ChunkList.entryRequest root) := by
  have all : ∀ {ids cs}, List.Forall₂ (Chunk.ForEntry g root) ids cs →
      cs.flatMap Chunk.entries = ids.map (ChunkList.entryRequest root) := by
    intro ids cs each
    induction each with
    | nil => rfl
    | cons made _ ih => rw [List.flatMap_cons,made.entries,ih]; rfl
  exact all division.each

theorem Division.separate (division : Division g root l)
    (linked : ∀ {i v}, g.registry.get? i = some v → v.body.Linked) {waits : Nat → List Nat}
    (each : ∀ c ∈ Chunk.computeMappings l.chunks, waits c.id = Generator.external c) :
    Chunk.Separate g root waits (Chunk.computeMappings l.chunks) := by
  have holds : ∀ c ∈ l.chunks, ∀ e ∈ c.entries, ∀ id, e.target = some id → c.contains id = true := by
    intro c member e entry id target
    obtain ⟨i,-,made⟩ := division.forEntry member
    rw [made.entries,List.mem_singleton] at entry
    subst entry
    cases target
    exact made.contains_iff.mpr (.root (List.mem_singleton.mpr rfl))
  refine ⟨?_,fun c member m there i needed => ?_,fun c member => ?_⟩
  · rw [Chunk.computeMappings,List.forall₂_map_right_iff]
    exact division.each.imp fun e c made =>
      ⟨made.entries,made.contains_iff.mpr (.root (List.mem_singleton.mpr rfl))⟩
  · obtain ⟨d,inside,rfl⟩ := List.mem_map.mp member
    obtain ⟨e,-,made⟩ := division.forEntry inside
    exact made.contains_of_reaches (Chunk.contains_iff.mpr (List.mem_map_of_mem there))
      (made.needs linked there needed)
  · have same := each c member
    obtain ⟨d,inside,rfl⟩ := List.mem_map.mp member
    have none := @Chunk.mappingsOf_eq_nil l.chunks d (holds d inside)
    exact ⟨none,same.trans (Chunk.external_eq_nil none)⟩

/-- What has become of the chunks when their shared modules have moved. -/
theorem Division.extracted (division : Division g root l)
    (linked : ∀ {i v}, g.registry.get? i = some v → v.body.Linked) (c : Chunk)
    (files : c.files = Commons.shared l.chunks) (some : c.files ≠ []) (number : c.id = l.next)
    (entries : c.entries = g.entries.map (ChunkList.entryRequest root)) {waits : Nat → List Nat}
    (each : ∀ d ∈ Chunk.computeMappings (c :: l.chunks.map (Commons.strip (Commons.shared l.chunks))),
      waits d.id = Generator.external d) :
    ∃ common others, Chunk.computeMappings (c :: l.chunks.map (Commons.strip (Commons.shared l.chunks))) =
      common :: others ∧ others.length = g.entries.length ∧ Chunk.Extracted g root waits common others := by
  let K := Commons.shared l.chunks
  let all := c :: l.chunks.map (Commons.strip K)
  let mapped (d : Chunk) : Chunk := { d with mappings := Chunk.mappingsOf all d }
  have divide : Chunk.Divide g all := division.divide_moved files number
  have held : ∀ {id}, c.contains id = true ↔ id ∈ K.map Module.id := fun {id} => by
    rw [Chunk.contains_iff,files]
  have closed : ∀ {d m i}, d ∈ l.chunks → m ∈ d.files → i ∈ m.needs → d.contains i = true := by
    intro d m i inside there needed
    obtain ⟨e,-,made⟩ := division.forEntry inside
    exact made.contains_of_reaches (Chunk.contains_iff.mpr (List.mem_map_of_mem there)) (made.needs linked there needed)
  have first : waits c.id = Generator.external (mapped c) := each (mapped c) List.mem_cons_self
  have waited : ∀ k, k ∈ waits c.id ↔ ∃ d ∈ l.chunks.map (Commons.strip K), d.id = k ∧ d.files ≠ [] := by
    intro k
    rw [first,Chunk.mem_external_iff]
    constructor
    · rintro ⟨e,-,id,-,-,d,owner,rfl⟩
      obtain ⟨member,other,there⟩ := Chunk.owner?_some owner
      refine ⟨d,(List.mem_cons.mp member).resolve_left (fun same => other (same ▸ rfl)),rfl,fun none => ?_⟩
      rw [Chunk.contains_iff,none] at there
      exact List.not_mem_nil there
    · rintro ⟨d,inside,rfl,left⟩
      obtain ⟨a,member,rfl⟩ := List.mem_map.mp inside
      obtain ⟨e,entry,there⟩ := division.owns member left
      have apart : (Commons.strip K a).id ≠ c.id := fun same => division.new a member (same.trans number)
      obtain ⟨d,owner⟩ := Chunk.exists_owner (List.mem_cons_of_mem c inside) apart there
      obtain ⟨known,-,there'⟩ := Chunk.owner?_some owner
      -- The entry is in no other chunk.
      obtain rfl := divide.unique (.root entry) known (List.mem_cons_of_mem c inside) there' there
      refine ⟨ChunkList.entryRequest root e,entries ▸ List.mem_map_of_mem entry,e,rfl,?_,_,owner,rfl⟩
      exact Bool.eq_false_iff.mpr fun moved => (Commons.contains_strip_iff.mp there).2 (held.mp moved)
  refine ⟨mapped c,(l.chunks.map (Commons.strip K)).map mapped,rfl,?length,?extracted⟩
  case length =>
    rw [List.length_map,List.length_map]
    exact division.each.length_eq.symm
  case extracted => exact {
    moved := some
    entries := entries
    once := first ▸ Chunk.nodup_external _
    closed := by
      intro m member i needed
      have there : m ∈ Commons.shared l.chunks := by rwa [← files]
      obtain ⟨d,inside,known⟩ := Commons.exists_chunk_of_shared there
      obtain ⟨e,-,made⟩ := division.forEntry inside
      exact held.mpr (division.shared_of_reaches (List.mem_map_of_mem there) (made.needs linked known needed))
    needs := by
      intro d' member m there i needed
      obtain ⟨d,inside,rfl⟩ := List.mem_map.mp member
      obtain ⟨a,before,rfl⟩ := List.mem_map.mp inside
      by_cases moved : i ∈ K.map Module.id
      · exact .inr (held.mpr moved)
      · exact .inl (Commons.contains_strip_iff.mpr ⟨closed before (List.mem_filter.mp there).1 needed,moved⟩)
    waits_iff := by
      intro k
      rw [waited]
      constructor
      · rintro ⟨d,inside,same,left⟩
        exact ⟨mapped d,List.mem_map_of_mem inside,same,left⟩
      · rintro ⟨d',member,same,left⟩
        obtain ⟨d,inside,rfl⟩ := List.mem_map.mp member
        exact ⟨d,inside,same,left⟩
    before := by
      intro id reached
      have counted := divide.once id reached
      obtain ⟨d,member,there⟩ := List.countP_pos_iff.mp (show 0 < all.countP (·.contains id) by omega)
      rcases List.mem_cons.mp member with rfl | inside
      · exact .inl there
      · refine .inr ⟨mapped d,List.mem_map_of_mem inside,there,(waited _).mpr ⟨d,inside,rfl,fun none => ?_⟩⟩
        rw [Chunk.contains_iff,none] at there
        exact List.not_mem_nil there
    quiet := by
      intro d' member
      have same := each d' (List.mem_cons_of_mem _ member)
      obtain ⟨d,inside,rfl⟩ := List.mem_map.mp member
      obtain ⟨a,-,rfl⟩ := List.mem_map.mp inside
      exact ⟨rfl,rfl,same.trans (Chunk.external_eq_nil rfl)⟩ }

theorem Chunk.Extracted.resolved {waits : Nat → List Nat} {common : Chunk} {others : List Chunk}
    (extracted : Chunk.Extracted g root waits common others) :
    ∀ c ∈ common :: others, ∀ e ∈ c.entries, e.target ≠ none := by
  intro c member e inside none
  rcases List.mem_cons.mp member with rfl | other
  · obtain ⟨id,-,rfl⟩ := List.mem_map.mp (extracted.entries ▸ inside)
    cases none
  · rw [(extracted.quiet c other).1] at inside
    cases inside

theorem Chunk.Separate.resolved {waits : Nat → List Nat} {cs : List Chunk} (separate : Chunk.Separate g root waits cs) :
    ∀ c ∈ cs, ∀ e ∈ c.entries, e.target ≠ none := by
  intro c member e inside none
  obtain ⟨id,-,entries,-⟩ := Graph.exists_left_of_forall₂ separate.own member
  obtain rfl := List.mem_singleton.mp (entries ▸ inside)
  cases none

/-- The chunks of a graph without hooks that are made for each entry, and from which common modules are
moved, hold what can be reached from the entries, each module once. Either a common chunk comes first, which
waits for the others that have any files before it requires the entries; or nothing is shared, and no chunk
needs another one. With the built-in runtime bundles are generated of them, and whatever is generated makes just the
calls that say so: each bundle registers the modules of its chunk, waits for what the chunk waits for, and requires its
entries. -/
theorem Bundler.chunks_loadable {b : Bundler σ} {cs : List Chunk} (hookless : g.Hookless)
    (strategy : b.config.chunking.strategy = .perEntry) (commons : b.chunkTransformers = [Commons.transformer])
    (ok : b.chunks g = .ok cs) :
    Chunk.Divide g cs ∧ ∃ waits : Nat → List Nat,
      ((∃ common others, cs = common :: others ∧ others.length = g.entries.length ∧
          Chunk.Extracted g b.tools.root waits common others) ∨
        Chunk.Separate g b.tools.root waits cs) ∧
      ∀ {context : GenerateContext σ} {t : PathType} {asked : List ModuleId} {env : σ},
        let paths := (PublicPaths.getAll context.root { pathType := t } asked).2
        (context.options.wrapper = "normal" →
          ∃ bundles s', Generator.generateAll Generator.standard context cs (paths,env) = (.ok bundles,s')) ∧
        ∀ {bundles : List Bundle} {s' : PublicPaths × σ},
          Generator.generateAll Generator.standard context cs (paths,env) = (.ok bundles,s') →
          List.Forall₂ (fun c bundle => bundle.Makes context.options
            (c.calls (PublicPaths.called context.root t (asked ++ cs.flatMap Chunk.asked))
              (Generator.location context.root context.options) (waits c.id))) cs bundles := by
  have linked : ∀ {i v}, g.registry.get? i = some v → v.body.Linked := fun found =>
    hookless.linked (.registered found)
  -- What is known of the chunks themselves is enough: whatever is generated makes the calls of its chunk.
  suffices shaped : Chunk.Divide g cs ∧ ∀ waits : Nat → List Nat, (∀ c ∈ cs, waits c.id = Generator.external c) →
      ((∃ common others, cs = common :: others ∧ others.length = g.entries.length ∧
          Chunk.Extracted g b.tools.root waits common others) ∨
        Chunk.Separate g b.tools.root waits cs) by
    obtain ⟨divide,shape⟩ := shaped
    have each : ∀ c ∈ cs, Chunk.waitsOf cs c.id = Generator.external c := fun c => Chunk.waitsOf_eq divide.apart
    have resolved : ∀ c ∈ cs, ∀ e ∈ c.entries, e.target ≠ none := by
      rcases shape _ each with ⟨common,others,rfl,-,extracted⟩ | separate
      · exact extracted.resolved
      · exact separate.resolved
    refine ⟨divide,Chunk.waitsOf cs,shape _ each,fun {context t asked env} => ⟨fun normal => ?_,fun generated => ?_⟩⟩
    · exact Generator.exists_generateAll normal resolved _
    · have all : (PublicPaths.getAll context.root { pathType := t } asked).2 = PublicPaths.after t asked := by
        rw [← PublicPaths.after_nil,PublicPaths.getAll_after,List.nil_append]
      have makes := (Generator.generateAll_makes all generated []).2
      rw [List.append_nil] at makes
      exact ((List.forall₂_and_left _ _).mpr ⟨each,makes⟩).imp fun c bundle both => both.1.symm ▸ both.2
  unfold Bundler.chunks at ok
  rw [strategy] at ok
  cases divided : ChunkList.partition g b.tools.root .perEntry with
  | error e => simp [divided] at ok
  | ok l =>
    have division := partition_division divided
    have made : Chunk.computeMappings (Commons.extract l).chunks = cs := by
      simpa [divided,commons,ChunkList.transformAll,Commons.transformer] using ok
    subst made
    by_cases none : Commons.shared l.chunks = []
    · have same : Commons.extract l = l := by rw [Commons.extract,none]; rfl
      rw [same]
      exact ⟨(division.divide none).computeMappings,fun waits each => .inr (division.separate linked each)⟩
    · let c : Chunk :=
        { id := l.next
          entries := l.chunks.flatMap Chunk.entries
          files := Chunk.gather (Commons.shared l.chunks)
          imports := (Commons.shared l.chunks).map fun m => { request := m.id.text, target := some m.id } }
      have chunks : (Commons.extract l).chunks = c :: l.chunks.map (Commons.strip (Commons.shared l.chunks)) := by
        rw [Commons.extract,if_neg (mt List.isEmpty_iff.mp none)]
        rfl
      have files : c.files = Commons.shared l.chunks := Chunk.gather_eq (Commons.nodup_shared l.chunks)
      rw [chunks]
      exact ⟨(division.divide_moved files rfl).computeMappings,fun waits each =>
        .inl (division.extracted linked c files (files ▸ none) rfl division.entries each)⟩

/-- A bundler of letters, with a chunk for each entry. -/
def letterBundler : Bundler (List (ModuleId × String)) where
  config := { chunking := { strategy := .perEntry, commons := true } }
  host := {
    store := letterStore
    disk := fun _ => { workingDir := [] }
    setDisk := fun _ files => files
    run := fun _ _ _ => pure (.error "no commands")
    fuel := 20 }
  tools := letterTools slowly 20
  generator := Generator.standard
  chunkTransformers := [Commons.transformer]

/-- What `a` needs are `c` and `d`, and `b` needs `c`. -/
def fork : List (ModuleId × String) := [(Letter.a,"cd"),(Letter.b,"c"),(Letter.c,""),(Letter.d,"")]

/-- How bundles of letters are written. -/
def letterContext : GenerateContext (List (ModuleId × String)) where
  root := letterBundler.tools.root
  store := letterStore
  options := {}

/-- The common chunk holds `c`. Its bundle registers that, and requires `a` and `b` once their chunks are there. -/
theorem Bundler.chunks_loadable_fork :
    ∃ g common others, Graph.Hookless g ∧ letterBundler.chunks g = .ok (common :: others) ∧
      (common :: others).map (fun c => (c.id,c.files.map Module.id)) =
        [(2,[Letter.c]),(0,[Letter.a,Letter.d]),(1,[Letter.b])] ∧
      Chunk.Divide g (common :: others) ∧
      ∃ first rest s, Generator.generateAll Generator.standard letterContext (common :: others) ({},fork) =
          (.ok (first :: rest),s) ∧
        ∃ k : Calls, first.Makes letterContext.options k ∧ k.registered.map Prod.fst = ["$root/c"] ∧
          (k.waits.Nodup ∧ ∀ n, n ∈ k.waits ↔ n = 0 ∨ n = 1) ∧ k.required = ["$root/a","$root/b"] := by
  let start : Graph (List (ModuleId × String)) := { layer := { env := fork }, entries := [Letter.a,Letter.b] }
  let g := (Graph.rounds letterBundler.tools 10 start [.asked .compile]).2
  have built : Graph.build letterBundler.tools.root [⟨"a"⟩,⟨"b"⟩] fork = .ok start := by rfl
  have hookless : g.Hookless := (Graph.Hookless.build built).rounds letterBundler.tools 10 [.asked .compile]
  let numbers (c : Chunk) := (c.id,c.files.map Module.id)
  have shape : (letterBundler.chunks g).toOption.map (List.map numbers) =
      some [(2,[Letter.c]),(0,[Letter.a,Letter.d]),(1,[Letter.b])] := by decide +kernel
  obtain ⟨cs,made,shape⟩ := Option.map_eq_some_iff.mp shape
  have ok : letterBundler.chunks g = .ok cs := by
    cases result : letterBundler.chunks g with
    | error e => simp [result,Except.toOption] at made
    | ok cs' => simpa [result,Except.toOption] using made
  obtain ⟨divide,waits,⟨common,others,rfl,-,extracted⟩ | separate,generated⟩ :=
    @Bundler.chunks_loadable _ g letterBundler cs hookless rfl rfl ok
  · obtain ⟨head,rest⟩ := List.cons.inj shape
    have number : common.id = 2 := congrArg Prod.fst head
    have waited : ∀ n, n ∈ waits common.id ↔ n = 0 ∨ n = 1 := by
      intro n
      obtain ⟨one,others,rfl,first,rest⟩ := List.map_eq_cons_iff.mp rest
      obtain ⟨two,others,rfl,second,rest⟩ := List.map_eq_cons_iff.mp rest
      obtain rfl := List.map_eq_nil_iff.mp rest
      have filled : ∀ {c : Chunk} {i is n}, numbers c = (n,i :: is) → c.id = n ∧ c.files ≠ [] := fun same =>
        ⟨congrArg Prod.fst same,fun none => by simp [numbers,none] at same⟩
      simp [extracted.waits_iff,filled first,filled second,eq_comm]
    obtain ⟨written,calls⟩ := @generated letterContext .filePath [] fork
    obtain ⟨bundles,s,result⟩ := written rfl
    obtain ⟨first,rest,makes,-,rfl⟩ := List.forall₂_cons_left_iff.mp (calls result)
    refine ⟨g,common,others,hookless,ok,shape,divide,first,rest,s,result,_,makes,?_,⟨extracted.once,waited⟩,?_⟩
    · have files : common.files.map Module.id = [Letter.c] := congrArg Prod.snd head
      refine (List.map_map ..).trans ?_
      change common.files.map (letterContext.root.publicPath ∘ Module.id) = _
      rw [← List.map_map,files]
      decide +kernel
    · have entries : g.entries = [Letter.a,Letter.b] := by decide +kernel
      change (common.entries.filterMap ChunkRequest.target).map letterContext.root.publicPath = _
      rw [extracted.entries,entries]
      decide +kernel
  · have two : g.entries.length = 2 := by decide +kernel
    have three := congrArg List.length shape
    rw [List.length_map,← separate.own.length_eq,two] at three
    cases three

end

end Bundling
