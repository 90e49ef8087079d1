import Mathlib.Data.List.Nodup
import Bundling.Proofs.Occurrences
import Bundling.Proofs.Regions

/-!
# Names at run time

What a module is called depends on what has been asked for up to its first sight only (`PublicPaths.called_append`). As long as
there are numbers enough, two modules are called the same only by their paths, and only if the ways to them are shown alike
(`PublicPaths.called_eq_iff`). While a chunk is written its modules are asked for one after the other, each with what it
requests, and added under the names that they have from then on (`Generator.foldl_addModule`).
-/

namespace Bundling

namespace PublicPaths

variable {root : ProjectRoot} {t : PathType} {asked : List ModuleId} {id a b : ModuleId}

/-! ## What modules are called -/

/-- What a module is called where modules have been asked for, itself among them. -/
def called (root : ProjectRoot) (t : PathType) (asked : List ModuleId) (id : ModuleId) : String :=
  match t with
  | .filePath => root.publicPath id
  | .number => numberAt ((firstOccurrences asked).idxOf id)

/-- Public paths after modules have been asked for. -/
def after (t : PathType) (asked : List ModuleId) : PublicPaths where
  pathType := t
  numbered := match t with
    | .filePath => []
    | .number => firstOccurrences asked

theorem after_nil (t : PathType) : after t [] = { pathType := t } := by cases t <;> rfl

/-- A module keeps its name, whatever is asked for afterwards. -/
theorem called_append (known : id ∈ asked) (more : List ModuleId) : called root t (asked ++ more) id = called root t asked id := by
  cases t with
  | filePath => rfl
  | number =>
    obtain ⟨new,numbered⟩ := firstOccurrences_prefix asked more
    rw [called,called,← numbered,List.idxOf_append_of_mem (mem_firstOccurrences.mpr known)]

theorem get_after (root : ProjectRoot) (t : PathType) (asked : List ModuleId) (id : ModuleId) :
    (after t asked).get root id = (called root t (asked ++ [id]) id,after t (asked ++ [id])) := by
  cases t with
  | filePath => rfl
  | number =>
    rw [get,called,after,after]
    by_cases known : id ∈ asked
    · have numbered : id ∈ firstOccurrences asked := mem_firstOccurrences.mpr known
      obtain ⟨place,found⟩ := Option.isSome_iff_exists.mp (List.isSome_idxOf?.mpr numbered)
      have first : (firstOccurrences asked).idxOf id = place := by rw [List.idxOf_eq_getD_idxOf?,found,Option.getD_some]
      simp only [found,first,firstOccurrences_concat_of_mem known]
    · have numbered : id ∉ firstOccurrences asked := fun member => known (mem_firstOccurrences.mp member)
      simp only [List.idxOf?_eq_none_iff.mpr numbered,firstOccurrences_concat_of_not_mem known,List.idxOf_append_of_notMem numbered,
        List.idxOf_cons_self,Nat.add_zero]

theorem getAll_after (root : ProjectRoot) (t : PathType) (asked ids : List ModuleId) :
    getAll root (after t asked) ids = (ids.map (called root t (asked ++ ids)),after t (asked ++ ids)) := by
  induction ids generalizing asked with
  | nil => rw [getAll,List.append_nil,List.map_nil]
  | cons id ids ih =>
    rw [getAll,get_after]
    simp only [ih,List.map_cons,List.append_cons asked id ids]
    rw [called_append (List.mem_append_right _ (List.mem_singleton.mpr rfl))]

/-! ## Different names -/

/-- There are numbers of 32 bits for all modules that have been asked for, if numbers are used. -/
def Enough (t : PathType) (asked : List ModuleId) : Prop := t = .number → (firstOccurrences asked).length ≤ UInt32.size

theorem numberAt_of_lt {n : Nat} (small : n < UInt32.size) : numberAt n = toString n := by
  change toString (UInt32.ofNat n).toNat = _
  rw [UInt32.toNat_ofNat',Nat.mod_eq_of_lt small]

theorem called_number (enough : Enough .number asked) (known : id ∈ asked) :
    called root .number asked id = toString ((firstOccurrences asked).idxOf id) :=
  numberAt_of_lt (Nat.lt_of_lt_of_le (List.idxOf_lt_length_of_mem (mem_firstOccurrences.mpr known)) (enough rfl))

/-- Modules are called the same by their paths, if the ways to them are shown alike; numbers are given once. -/
theorem called_eq_iff (enough : Enough t asked) (first : a ∈ asked) (second : b ∈ asked) :
    called root t asked a = called root t asked b ↔
      a = b ∨ t = .filePath ∧ (root.way a).map Component.text = (root.way b).map Component.text := by
  cases t with
  | filePath =>
    have paths : called root .filePath asked a = called root .filePath asked b ↔ root.relative a = root.relative b :=
      String.append_right_inj _
    rw [paths,ProjectRoot.relative_eq_iff]
    exact ⟨fun same => .inr ⟨rfl,same⟩,fun either => either.elim (fun same => same ▸ rfl) And.right⟩
  | number =>
    rw [called_number enough first,called_number enough second]
    refine ⟨fun same => .inl ?_,fun either => either.elim (fun same => same ▸ rfl) fun paths => absurd paths.1 (by decide)⟩
    exact (List.idxOf_inj (mem_firstOccurrences.mpr first)).mp (eq_of_toString same)

/-- What a module is called tells it from others: it is a number, or the names on the way to the module are texts. -/
def Told (root : ProjectRoot) (t : PathType) (id : ModuleId) : Prop := t = .number ∨ root.Legible id

theorem eq_of_called (enough : Enough t asked) (first : a ∈ asked) (second : b ∈ asked) (told : Told root t a) (told' : Told root t b)
    (same : called root t asked a = called root t asked b) : a = b := by
  rcases (called_eq_iff enough first second).mp same with same | ⟨rfl,shown⟩
  · exact same
  · have legible : ∀ {id}, Told root .filePath id → root.Legible id := fun told => told.resolve_left (by decide)
    exact ProjectRoot.eq_of_relative (legible told) (legible told') (ProjectRoot.relative_eq_iff.mpr shown)

theorem nodup_called (enough : Enough t asked) {ms : List Module} (known : ∀ m ∈ ms, m.id ∈ asked)
    (distinct : (ms.map Module.id).Nodup) (told : ∀ m ∈ ms, Told root t m.id) :
    (ms.map fun m => called root t asked m.id).Nodup := by
  refine List.Nodup.map_on (fun m first n second same => ?_) distinct.of_map
  exact List.inj_on_of_nodup_map distinct first second
    (eq_of_called enough (known m first) (known n second) (told m first) (told n second) same)

/-- Numbers are given from zero on, in the order of first sight. -/
theorem map_called_firstOccurrences (enough : Enough .number asked) :
    (firstOccurrences asked).map (called root .number asked) = (List.range (firstOccurrences asked).length).map toString := by
  refine List.ext_getElem (by simp) fun n inside _ => ?_
  rw [List.length_map] at inside
  rw [List.getElem_map,List.getElem_map,List.getElem_range,called_number enough (mem_firstOccurrences.mp (List.getElem_mem _)),
    (nodup_firstOccurrences asked).idxOf_getElem]

end PublicPaths

/-! ## Writing chunks -/

/-- What a module makes public paths be asked for while it is written. -/
def Module.asked (m : Module) : List ModuleId := m.id :: m.requests.map (·.2)

/-- What a module asks for, by what it is called, under the name of the module; nothing if there are no requests. -/
def Module.targets (name : ModuleId → String) (m : Module) : List (String × Json) :=
  if m.requests.isEmpty then []
  else [(name m.id,.object (Json.sortMembers (m.requests.map fun r => (r.1,.string (name r.2)))))]

theorem Module.targets_congr {m : Module} {name other : ModuleId → String} (same : ∀ id ∈ m.asked, name id = other id) :
    m.targets name = m.targets other := by
  have requests : m.requests.map (fun r => (r.1,Json.string (name r.2))) =
      m.requests.map fun r => (r.1,Json.string (other r.2)) :=
    List.map_congr_left fun r member => by
      rw [same r.2 (List.mem_cons_of_mem _ (List.mem_map_of_mem member))]
  rw [targets,targets,requests,same m.id List.mem_cons_self]

/-- What a chunk makes public paths be asked for. -/
def Chunk.asked (c : Chunk) : List ModuleId := c.files.flatMap Module.asked ++ Generator.resolvedFront c.entries

theorem Chunk.mem_asked {c : Chunk} {m : Module} (member : m ∈ c.files) : m.id ∈ c.asked :=
  List.mem_append_left _ (List.mem_flatMap.mpr ⟨m,member,List.mem_cons_self⟩)

namespace Generator

open PublicPaths

variable {σ : Type} {root : ProjectRoot} {o : GeneratorOptions} {t : PathType} {asked : List ModuleId}

/-- Where a module lies, as the table of a bundle says it. -/
def location (root : ProjectRoot) (o : GeneratorOptions) (id : ModuleId) : Json :=
  .string ("$" ++ o.sourceNamespace ++ "/" ++ root.relative id)

theorem requests_addModule (m : Module) {p : Progress} (paths : p.paths = after t asked) :
    (addModule root o p m).requests = p.requests ++ m.targets (called root t (asked ++ m.asked)) := by
  have own : called root t (asked ++ m.asked) m.id = called root t (asked ++ [m.id]) m.id := by
    rw [Module.asked,List.append_cons,called_append (List.mem_append_right _ (List.mem_singleton.mpr rfl))]
  simp only [addModule,paths,get_after,getAll_after,Module.targets,own,List.map_map,List.zip_map']
  simp only [Module.asked,List.append_assoc,List.singleton_append]
  rfl

/-- Modules are added under the names that they have from then on, whatever is asked for afterwards. -/
theorem foldl_addModule (ms : List Module) (more : List ModuleId) {p : Progress} (paths : p.paths = after t asked) :
    let q := ms.foldl (addModule root o) p
    let name := called root t (asked ++ ms.flatMap Module.asked ++ more)
    q.paths = after t (asked ++ ms.flatMap Module.asked) ∧
    q.parts = p.parts ++ ms.map (fun m => block (name m.id) m.contents) ∧
    q.names = p.names ++ ms.map (fun m => (name m.id,location root o m.id)) ∧
    q.requests = p.requests ++ ms.flatMap (Module.targets name) := by
  induction ms generalizing p asked with
  | nil => exact ⟨by simpa using paths,(List.append_nil _).symm,(List.append_nil _).symm,(List.append_nil _).symm⟩
  | cons m ms ih =>
    have first : p.paths.get root m.id = (called root t (asked ++ [m.id]) m.id,after t (asked ++ [m.id])) :=
      paths ▸ get_after root t asked m.id
    have next : (addModule root o p m).paths = after t (asked ++ m.asked) := by
      rw [Module.asked,List.append_cons]
      simp only [addModule,first,getAll_after]
    obtain ⟨last,parts,names,requests⟩ := ih next
    have whole : asked ++ m.asked ++ ms.flatMap Module.asked = asked ++ (m :: ms).flatMap Module.asked := by simp
    have early : asked ++ (m :: ms).flatMap Module.asked ++ more =
        (asked ++ [m.id]) ++ (m.requests.map (·.2) ++ ms.flatMap Module.asked ++ more) := by simp [Module.asked]
    have name : called root t (asked ++ (m :: ms).flatMap Module.asked ++ more) m.id = (p.paths.get root m.id).1 := by
      rw [early,called_append (List.mem_append_right _ (List.mem_singleton.mpr rfl)),first]
    have added : (addModule root o p m).requests =
        p.requests ++ m.targets (called root t (asked ++ (m :: ms).flatMap Module.asked ++ more)) := by
      have split : asked ++ (m :: ms).flatMap Module.asked ++ more =
          asked ++ m.asked ++ (ms.flatMap Module.asked ++ more) := by simp
      rw [split,Module.targets_congr fun id known => called_append (List.mem_append_right _ known) _]
      exact requests_addModule m paths
    rw [whole] at last parts names requests
    refine ⟨last,?_,?_,?_⟩
    · rw [List.foldl_cons,parts,List.map_cons,name,List.append_cons]
      rfl
    · rw [List.foldl_cons,names,List.map_cons,name,List.append_cons]
      rfl
    · rw [List.foldl_cons,requests,added,List.append_assoc]
      rfl

theorem render_paths (root : ProjectRoot) (o : GeneratorOptions) (runtime : String) (c : Chunk) (t : PathType)
    (asked : List ModuleId) : (render root o runtime c (after t asked)).2 = after t (asked ++ c.asked) := by
  obtain ⟨last,-,-,-⟩ := @foldl_addModule root o t asked c.files [] (start c.outputName runtime (after t asked)) rfl
  rw [Chunk.asked,← List.append_assoc]
  simp only [render,last,getAll_after]
  split <;> rfl

end Generator

end Bundling
