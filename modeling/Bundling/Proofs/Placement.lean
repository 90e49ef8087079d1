import Bundling.Proofs.Lookup
import Bundling.Proofs.Paths
import Bundling.Resolve.Install

/-!
# Where packages are looked for

The directory of packages below the root of a project is among those where a bare request is looked for, whatever
module below the root it comes from (`mem_targets`). So what has been put there is found, unless the search fails
on its way (`resolve_ne_none`).
-/

namespace Bundling

open Bundling.Path (slash dot)

/-! ## Components of paths that are joined -/

namespace Path

/-- The components of a relative path, but for a dot in front. -/
def inner (octets : List UInt8) : List Component := (segments octets).filterMap Component.ofSegment?

theorem octets_of_isAbsolute {p : Path} (absolute : p.isAbsolute = true) : ∃ rest, p.octets = slash :: rest := by
  cases chars : p.octets with
  | nil => simp [isAbsolute,chars] at absolute
  | cons c rest => exact ⟨rest,by simpa [isAbsolute,chars] using absolute⟩

theorem components_of_isAbsolute {p : Path} (absolute : p.isAbsolute = true) :
    p.components = .root :: inner p.octets := by
  simp only [components,absolute,if_true]
  rfl

theorem inner_append_slash (s t : List UInt8) : inner (s ++ slash :: t) = inner s ++ inner t := by
  rw [inner,segments_append_slash,List.filterMap_append]
  rfl

theorem inner_nil : inner [] = [] := by decide

/-- Whether a text starts at the root. -/
theorem isAbsolute_mk (text : String) : (mk text).isAbsolute = (text.toList.head? == some '/') := by
  rw [Bool.eq_iff_iff,isAbsolute,octets_mk,beq_iff_eq,beq_iff_eq]
  exact Text.Utf8.head?_encode_iff (c := '/') (by decide)

theorem isEmpty_mk (text : String) : (mk text).isEmpty = text.isEmpty := by
  rw [Bool.eq_iff_iff,isEmpty,octets_mk,List.isEmpty_iff,Text.Utf8.encode_eq_nil_iff,String.isEmpty_iff]

/-- What is seen from an absolute path has the components of both. -/
theorem components_join {p q : Path} (absolute : p.isAbsolute = true) (relative : q.isAbsolute = false) :
    (p.join q).components = p.components ++ inner q.octets ∧ (p.join q).isAbsolute = true := by
  obtain ⟨rest,start⟩ := octets_of_isAbsolute absolute
  have filled : p.isEmpty = false := by
    simp [isEmpty,start]
  -- A separator at the end of the first path is not doubled.
  have text : ∃ before, (p.join q).octets = before ++ slash :: q.octets ∧ inner p.octets = inner before ∧
      (before ++ slash :: q.octets).head? = some slash := by
    by_cases closed : p.octets.getLast? = some slash
    · obtain ⟨before,split⟩ := List.getLast?_eq_some_iff.mp closed
      refine ⟨before,by simp [join,relative,filled,split],by rw [split,inner_append_slash,inner_nil,List.append_nil],?_⟩
      cases before with
      | nil => rfl
      | cons c before =>
        rw [start] at split
        cases split
        rfl
    · refine ⟨p.octets,by simp [join,relative,filled,closed],rfl,by simp [start]⟩
  obtain ⟨before,chars,same,head⟩ := text
  have absolute' : (p.join q).isAbsolute = true := by rw [isAbsolute,chars,head]; rfl
  refine ⟨?_,absolute'⟩
  rw [components_of_isAbsolute absolute',components_of_isAbsolute absolute,chars,inner_append_slash,same]
  rfl

theorem isAbsolute_join {p : Path} (absolute : p.isAbsolute = true) (q : Path) : (p.join q).isAbsolute = true := by
  cases relative : q.isAbsolute with
  | true => rwa [join,if_pos relative]
  | false => exact (components_join absolute relative).2

/-- Where a path leads, seen from an absolute one, depends on where that one leads. -/
theorem clean_join {p q : Path} (absolute : p.isAbsolute = true) (relative : q.isAbsolute = false) :
    (p.join q).clean = (inner q.octets).foldl CleanPath.push p.clean := by
  rw [clean,(components_join absolute relative).1,CleanPath.ofComponents,List.foldl_append]
  rfl

end Path

/-! ## Absolute paths -/

namespace CleanPath

theorem push_absolute (ns : List Name) (c : Component) : ∃ ns', push (absolute ns) c = absolute ns' := by
  cases c <;> exact ⟨_,rfl⟩

theorem foldl_push_absolute (cs : List Component) (ns : List Name) : ∃ ns', cs.foldl push (absolute ns) = absolute ns' := by
  induction cs generalizing ns with
  | nil => exact ⟨ns,rfl⟩
  | cons c cs ih =>
    obtain ⟨ns',pushed⟩ := push_absolute ns c
    rw [List.foldl_cons,pushed]
    exact ih ns'

theorem foldl_push_names (ns ms : List Name) : (ms.map Component.name).foldl push (absolute ns) = absolute (ns ++ ms) := by
  induction ms generalizing ns with
  | nil => simp
  | cons m ms ih =>
    rw [List.map_cons,List.foldl_cons,push,ih]
    simp

/-- The components of an absolute path, behind the separator in front. -/
theorem inner_toPath (ns : List Name) : Path.inner (absolute ns).toPath.octets = ns.map Component.name := by
  cases ns with
  | nil => decide
  | cons n ns =>
    rw [Path.inner,segments_toPath (List.cons_ne_nil n ns),List.filterMap_cons_none (by decide),List.filterMap_map,
      ← List.filterMap_eq_map]
    exact List.filterMap_congr fun m _ => Component.ofSegment?_name m

theorem isAbsolute_toPath (ns : List Name) : (absolute ns).toPath.isAbsolute = true := by
  rw [Path.isAbsolute,octets_toPath]
  rfl

theorem components_toPath (ns : List Name) : (absolute ns).toPath.components = .root :: ns.map .name := by
  rw [Path.components_of_isAbsolute (isAbsolute_toPath ns)]
  exact congrArg _ (inner_toPath ns)

theorem clean_toPath (ns : List Name) : (absolute ns).toPath.clean = absolute ns := by
  rw [Path.clean,components_toPath,ofComponents,List.foldl_cons]
  exact foldl_push_names [] ns

theorem components_eq_iff {q : CleanPath} {ns : List Name} : q.components = (absolute ns).components ↔ q = absolute ns := by
  constructor
  · intro same
    cases q with
    | «absolute» ms => rw [Component.name_injective.list_map (List.cons.inj same).2]
    | relative ups ms =>
      cases ups with
      | zero => cases ms <;> cases same
      | succ ups => cases same
  · exact congrArg _

/-- What lies below an absolute place. -/
theorem below_iff {q : CleanPath} {ns : List Name} :
    q.below (absolute ns).components = true ↔ ∃ n more, q = absolute (ns ++ n :: more) := by
  rw [below,Bool.and_eq_true,List.isPrefixOf_iff_prefix,bne_iff_ne]
  constructor
  · rintro ⟨⟨behind,split⟩,other⟩
    obtain ⟨ms,rfl⟩ : ∃ ms, q = absolute ms := by
      cases q with
      | «absolute» ms => exact ⟨ms,rfl⟩
      | relative ups ms =>
        cases ups with
        | zero => cases ms <;> cases split
        | succ ups => cases split
    obtain ⟨back,rfl,-⟩ := Component.exists_append_of_names (List.cons.inj split).2
    cases back with
    | nil => exact absurd (by rw [List.append_nil]) other
    | cons n more => exact ⟨n,more,rfl⟩
  · rintro ⟨n,more,rfl⟩
    refine ⟨⟨(n :: more).map .name,by rw [components,components,List.map_append]; rfl⟩,fun same => ?_⟩
    have equal := CleanPath.absolute.inj (components_eq_iff.mp same)
    simp at equal

end CleanPath

/-- An absolute path leads to a place. -/
theorem Path.clean_of_isAbsolute {p : Path} (absolute : p.isAbsolute = true) : ∃ ns, p.clean = .absolute ns := by
  rw [clean,components_of_isAbsolute absolute,CleanPath.ofComponents,List.foldl_cons]
  exact CleanPath.foldl_push_absolute _ _

theorem MemoryStore.normalize_toPath (m : MemoryStore) (ns : List Name) : m.normalize (CleanPath.absolute ns).toPath = .absolute ns := by
  rw [normalize,if_pos (CleanPath.isAbsolute_toPath ns),CleanPath.clean_toPath]

/-! ## What lies above a path -/

theorem Path.counts_of_name (n : Name) (absolute : Bool) (index : Nat) : counts absolute index n.octets = true := by
  simp [counts,n.isName.1,n.isName.2.1]

theorem Path.map_counts_names (ns : List Name) (absolute : Bool) (index : Nat) :
    ((ns.map Name.octets).zipIdx index).map (fun x => (x.1,counts absolute x.2 x.1)) =
      ns.map fun n => (n.octets,true) := by
  induction ns generalizing index with
  | nil => rfl
  | cons n ns ih => simp only [List.map_cons,List.zipIdx_cons,Path.counts_of_name,ih]

namespace CleanPath

theorem parent?_toPath (ns : List Name) (n : Name) : (absolute (ns ++ [n])).toPath.parent? = some (absolute ns).toPath := by
  have tagged : (Path.segments (absolute (ns ++ [n])).toPath.octets).zipIdx.map (fun x => (x.1,Path.counts true x.2 x.1)) =
      ([],false) :: (ns ++ [n]).map fun n => (n.octets,true) := by
    rw [segments_toPath (by simp),List.zipIdx_cons,List.map_cons,Path.map_counts_names]
    rfl
  -- The last name goes, and the separators in front of it go with it, but for that of the root.
  have before : ((([],false) :: ns.map fun n => (n.octets,true)).reverse.dropWhile (!·.2)).reverse.map Prod.fst =
      if ns = [] then [] else [] :: ns.map Name.octets := by
    rcases List.eq_nil_or_concat ns with rfl | ⟨ms,m,rfl⟩
    · rfl
    · simp
  simp only [Path.parent?,isAbsolute_toPath,tagged,List.map_append,List.map_cons,List.map_nil,List.reverse_cons,
    List.reverse_append,List.reverse_nil,List.nil_append,List.cons_append,List.dropWhile_cons]
  rw [List.reverse_cons] at before
  simp only [Bool.not_true,Bool.false_eq_true,if_false,before]
  cases ns with
  | nil => rfl
  | cons m ms =>
    rw [if_neg (by simp),if_neg (by simp),List.map_cons,List.intercalate_cons_cons]
    exact congrArg some (Path.ext (octets_toPath (m :: ms)).symm)

/-- What lies above an absolute path, the path itself with it. -/
theorem mem_ancestorsUpTo (ns rest : List Name) {limit : Nat} (enough : rest.length < limit) :
    (absolute ns).toPath ∈ Path.ancestorsUpTo limit (absolute (ns ++ rest)).toPath := by
  induction limit generalizing rest with
  | zero => exact absurd enough (Nat.not_lt_zero _)
  | succ limit ih =>
    rcases List.eq_nil_or_concat rest with rfl | ⟨before,last,rfl⟩
    · rw [List.append_nil,Path.ancestorsUpTo]
      split <;> exact List.mem_cons_self
    · rw [List.concat_eq_append,← List.append_assoc,Path.ancestorsUpTo,parent?_toPath]
      exact List.mem_cons_of_mem _ (ih before (by simpa using enough))

theorem length_le_octets (ns : List Name) : ns.length ≤ (absolute ns).toPath.octets.length := by
  have parts : ns.length ≤ ([slash].intercalate (ns.map Name.octets)).length + 1 := by
    induction ns with
    | nil => simp
    | cons n ns ih =>
      cases ns with
      | nil => simp
      | cons m ms =>
        simp only [List.map_cons,List.intercalate_cons_cons,List.length_append,List.length_cons,List.length_nil] at ih ⊢
        omega
  rw [octets_toPath]
  exact parts

theorem mem_ancestors (ns rest : List Name) : (absolute ns).toPath ∈ (absolute (ns ++ rest)).toPath.ancestors := by
  have enough := length_le_octets (ns ++ rest)
  rw [List.length_append] at enough
  have fuel : rest.length < (absolute (ns ++ rest)).toPath.octets.length + 1 := by omega
  exact mem_ancestorsUpTo ns rest fuel

end CleanPath

theorem Path.mem_ancestors_self (p : Path) : p ∈ p.ancestors := by
  rw [ancestors,ancestorsUpTo]
  split <;> exact List.mem_cons_self

/-! ## The directory of packages below the root -/

namespace Candidates

/-- The root of a project: an absolute directory that is not a directory of packages. -/
structure IsRoot (root : Path) : Prop where
  absolute : root.isAbsolute = true
  named : root.clean.toPath.fileName? ≠ some (Text.Utf8.encode packageDir)

/-- A module below the root, or none. -/
def Below (root : Path) (importer : Option ModuleId) : Prop := ∀ id ∈ importer, id.clean.below root.clean.components = true

instance (root : Path) (importer : Option ModuleId) : Decidable (Below root importer) := by
  unfold Below
  infer_instance

/-- Where a package's file is put, and where it is looked for last. -/
def place (root : Path) (request : String) : CleanPath := (root / packageDir / request).clean

theorem fileName?_of_clean {p : Path} (absolute : p.isAbsolute = true) {name : List UInt8} (named : p.fileName? = some name) :
    p.clean.toPath.fileName? = some name := by
  obtain ⟨n,last,rfl⟩ : ∃ n, p.components.getLast? = some (.name n) ∧ n.octets = name := by
    unfold Path.fileName? at named
    split at named
    · rename_i n last
      cases named
      exact ⟨n,last,rfl⟩
    · cases named
  obtain ⟨before,split⟩ := List.getLast?_eq_some_iff.mp last
  obtain ⟨front,first⟩ : ∃ front, before = .root :: front := by
    rw [Path.components_of_isAbsolute absolute] at split
    cases before with
    | nil => simp at split
    | cons c front =>
      obtain ⟨same,-⟩ := List.cons.inj split
      exact ⟨front,by rw [same]⟩
  obtain ⟨ns,led⟩ := CleanPath.foldl_push_absolute front []
  have start : CleanPath.push (.relative 0 []) .root = .absolute [] := rfl
  have clean : p.clean = .absolute (ns ++ [n]) := by
    rw [Path.clean,split,first,CleanPath.ofComponents,List.foldl_append,List.foldl_cons,List.foldl_nil,List.foldl_cons,start,led]
    rfl
  rw [clean,Path.fileName?,CleanPath.components_toPath,List.map_append,List.map_singleton,← List.cons_append,List.getLast?_concat]

theorem mem_packageDirs {base d : Path} (above : d ∈ base.ancestors) (other : d.fileName? ≠ some (Text.Utf8.encode packageDir)) :
    d / packageDir ∈ packageDirs base :=
  List.mem_map_of_mem (List.mem_filter.mpr ⟨above,by simpa using other⟩)

/-- A module below the root lies in a directory below it, or in the root itself. -/
theorem dir_of_below {root : Path} {ns : List Name} (led : root.clean = .absolute ns) {id : ModuleId}
    (below : id.clean.below root.clean.components = true) : ∃ rest, id.names.dropLast = ns ++ rest := by
  rw [led] at below
  obtain ⟨n,more,place⟩ := CleanPath.below_iff.mp below
  have names : id.names = ns ++ n :: more := CleanPath.absolute.inj place
  exact ⟨(n :: more).dropLast,by rw [names,List.dropLast_append_of_ne_nil (List.cons_ne_nil n more)]⟩

theorem isAbsolute_of_bare {request : String} (bare : Request.isPath request = false) : (Path.mk request).isAbsolute = false := by
  rw [Path.isAbsolute_mk]
  cases chars : request.toList with
  | nil => rfl
  | cons c cs =>
    by_cases first : c = '/'
    · subst first
      simp [Request.isPath,chars,Request.firstSegment] at bare
    · simp [first]

/-- A bare request is looked for in the directory of packages below the root, wherever it comes from. -/
theorem mem_targets {root : Path} (isRoot : IsRoot root) {importer : Option ModuleId} (below : Below root importer)
    {request : String} (bare : Request.isPath request = false) (filled : request.isEmpty = false) :
    (place root request).toPath ∈ targets (baseOf root importer) request := by
  have relative := isAbsolute_of_bare bare
  have inside : (Path.mk packageDir).isAbsolute = false := by decide
  rw [targets,if_neg (by simp [filled]),if_neg (by simp [bare])]
  -- The directory that stands for the root among those above the importer.
  obtain ⟨d,above,absolute,clean,other⟩ : ∃ d ∈ (baseOf root importer).ancestors, d.isAbsolute = true ∧ d.clean = root.clean ∧
      d.fileName? ≠ some (Text.Utf8.encode packageDir) := by
    cases importer with
    | none =>
      exact ⟨root,root.mem_ancestors_self,isRoot.absolute,rfl,fun named => isRoot.named (fileName?_of_clean isRoot.absolute named)⟩
    | some id =>
      obtain ⟨ns,led⟩ := Path.clean_of_isAbsolute isRoot.absolute
      obtain ⟨rest,dir⟩ := dir_of_below led (below id rfl)
      have named := isRoot.named
      rw [led] at named ⊢
      refine ⟨(CleanPath.absolute ns).toPath,?_,CleanPath.isAbsolute_toPath ns,CleanPath.clean_toPath ns,named⟩
      rw [baseOf,ModuleId.dir,dir]
      exact CleanPath.mem_ancestors ns rest
  refine List.mem_map.mpr ⟨d / packageDir,mem_packageDirs above other,congrArg CleanPath.toPath ?_⟩
  have joined : ∀ {d : Path}, d.isAbsolute = true → (d / packageDir / request).clean =
      (Path.inner (Path.mk request).octets).foldl CleanPath.push ((Path.inner (Path.mk packageDir).octets).foldl CleanPath.push d.clean) := by
    intro d absolute
    have first : (d / packageDir).isAbsolute = true := (Path.components_join absolute inside).2
    have second : (d / packageDir).clean = (Path.inner (Path.mk packageDir).octets).foldl CleanPath.push d.clean :=
      Path.clean_join absolute inside
    rw [← second]
    exact Path.clean_join first relative
  rw [place,joined absolute,joined isRoot.absolute,clean]

/-! ## What has been put there is found -/

section

variable {σ : Type} {view : σ → MemoryStore} {update : MemoryStore → σ → σ} (lawful : ∀ m s, view (update m s) = m)

theorem firstFile_of_file {s : σ} {ns : List Name} {text : String} (here : (view s).file? (.absolute ns) = some text) (ps : List Path) :
    firstFile (MemoryStore.store view update) s ((CleanPath.absolute ns).toPath :: ps) = .ok (some (CleanPath.absolute ns).toPath) := by
  have stat : (MemoryStore.store view update).stat s (CleanPath.absolute ns).toPath = .ok ⟨some text.utf8ByteSize,false,true,false⟩ := by
    have known : (view s).stat (CleanPath.absolute ns).toPath = .ok ⟨some text.utf8ByteSize,false,true,false⟩ := by
      rw [MemoryStore.stat]
      simp only [MemoryStore.normalize_toPath,here]
    exact known
  rw [firstFile,isFile,probe,stat]
  rfl

/-- The first target that fails, or stands for a file, decides. -/
theorem loadFirst_cons (store : FileStore σ) (extensions : List String) (t : Path) (ts : List Path) (s : σ) :
    (loadFirst store extensions (t :: ts) s).1 = match (load store extensions t s).1 with
      | .ok none => (loadFirst store extensions ts (load store extensions t s).2).1
      | found => found := by
  have unfolded : loadFirst store extensions (t :: ts) s = (match (load store extensions t s).1 with
      | .ok none => loadFirst store extensions ts
      | found => pure found : StateM σ _) (load store extensions t s).2 := rfl
  rw [unfolded]
  generalize (load store extensions t s).1 = found
  rcases found with e | none | p <;> rfl

include lawful in
theorem loadFirst_ne_none (extensions : List String) {s : σ} {ns : List Name} {text : String}
    (here : (view s).file? (.absolute ns) = some text) {ts : List Path} (member : (CleanPath.absolute ns).toPath ∈ ts) :
    (loadFirst (MemoryStore.store view update) extensions ts s).1 ≠ .ok none := by
  induction ts generalizing s with
  | nil => cases member
  | cons t ts ih =>
    rw [loadFirst_cons]
    split
    · rename_i absent
      rcases List.mem_cons.mp member with rfl | later
      · have found : (load (MemoryStore.store view update) extensions (CleanPath.absolute ns).toPath s).1 =
            .ok (some (CleanPath.absolute ns).toPath) := by
          have first : firstFile (MemoryStore.store view update) s (asFile extensions (CleanPath.absolute ns).toPath) =
              .ok (some (CleanPath.absolute ns).toPath) := firstFile_of_file here _
          have unfolded : load (MemoryStore.store view update) extensions (CleanPath.absolute ns).toPath s =
              (match firstFile (MemoryStore.store view update) s (asFile extensions (CleanPath.absolute ns).toPath) with
                | .ok none => loadDir (MemoryStore.store view update) extensions (CleanPath.absolute ns).toPath
                | found => pure found : StateM σ _) s := rfl
          rw [unfolded,first]
          rfl
        rw [found] at absent
        cases absent
      · have alike := ((looks_load lawful extensions t).counts s).alike lawful
        exact ih ((alike.file? _).trans here) later
    · rename_i other
      exact other

include lawful in
/-- The search for what lies in the directory of packages below the root finds something, or fails. -/
theorem resolve_ne_none {root : Path} (isRoot : IsRoot root) {importer : Option ModuleId} (below : Below root importer)
    {request : String} (bare : Request.isPath request = false) (filled : request.isEmpty = false) (extensions : List String) {s : σ}
    (here : ((view s).file? (place root request)).isSome) :
    (resolve (MemoryStore.store view update) root extensions request importer s).1 ≠ .ok none := by
  obtain ⟨text,here⟩ := Option.isSome_iff_exists.mp here
  obtain ⟨ns,led⟩ : ∃ ns, place root request = .absolute ns := by
    have first : (root / packageDir).isAbsolute = true := (Path.components_join isRoot.absolute (by decide)).2
    exact Path.clean_of_isAbsolute (Path.components_join first (isAbsolute_of_bare bare)).2
  have member := mem_targets isRoot below bare filled
  rw [led] at here member
  have some := loadFirst_ne_none lawful extensions here member
  have value : (resolve (MemoryStore.store view update) root extensions request importer s).1 =
      asModule (loadFirst (MemoryStore.store view update) extensions (targets (baseOf root importer) request) s).1 := rfl
  rw [value]
  generalize (loadFirst (MemoryStore.store view update) extensions (targets (baseOf root importer) request) s).1 = found at some
  rcases found with e | none | p
  · nofun
  · exact absurd rfl some
  · simp only [asModule]
    split <;> nofun

end

end Candidates

end Bundling
