import Mathlib.Data.List.TakeWhile
import Bundling.Proofs.Ancestors
import Bundling.Proofs.Lookup

/-!
# Levels of directories

A directory in memory was made, or a file lies below it (`MemoryStore.dirAt_iff`). To make a directory with all that is missing
above it, a store looks for the nearest place above that exists (`MemoryStore.missingLevels_cases`) and makes one directory for
each level below that place (`MemoryStore.ensureDir_cases`); if a file lies there, nothing is done.
-/

namespace Bundling

namespace CleanPath

theorem parent?_concat (ns : List Name) (n : Name) : (absolute (ns ++ [n])).parent? = some (absolute ns).components := by
  have cut : (absolute (ns ++ [n])).components.dropLast = (absolute ns).components := by
    rw [components,components,List.map_append,List.map_singleton,← List.cons_append,List.dropLast_concat]
  cases ns <;> exact congrArg some cut

theorem isEmpty_toPath (ns : List Name) : (absolute ns).toPath.isEmpty = false := by
  have absolute := isAbsolute_toPath ns
  cases empty : (CleanPath.absolute ns).toPath.isEmpty with
  | false => rfl
  | true =>
    rw [Path.isAbsolute,List.isEmpty_iff.mp empty] at absolute
    cases absolute

/-- The places from below one place down to another. -/
def levels (above : List Name) : List Name → List CleanPath
  | [] => []
  | n :: rest => absolute (above ++ [n]) :: levels (above ++ [n]) rest

theorem levels_concat (above rest : List Name) (n : Name) :
    levels above (rest ++ [n]) = levels above rest ++ [absolute (above ++ rest ++ [n])] := by
  induction rest generalizing above with
  | nil => rw [List.append_nil]; rfl
  | cons k rest ih => rw [List.cons_append,levels,ih,levels,List.append_assoc above,List.cons_append]; rfl

end CleanPath

namespace MemoryStore

open CleanPath

/-- A file lies at a place. -/
def FileAt (m : MemoryStore) (ns : List Name) : Prop := (m.file? (.absolute ns)).isSome = true

/-- There is a directory at a place. -/
def DirAt (m : MemoryStore) (ns : List Name) : Prop := m.isDir (CleanPath.absolute ns).components = true

instance (m : MemoryStore) (ns : List Name) : Decidable (m.FileAt ns) := inferInstanceAs (Decidable (_ = true))

instance (m : MemoryStore) (ns : List Name) : Decidable (m.DirAt ns) := inferInstanceAs (Decidable (_ = true))

/-- Nothing is there on the way down from a place. -/
def Clear (m : MemoryStore) (above rest : List Name) : Prop :=
  ∀ front, front <+: rest → front ≠ [] → ¬m.FileAt (above ++ front) ∧ ¬m.DirAt (above ++ front)

variable {m : MemoryStore} {ns : List Name}

theorem isSome_file?_iff {q : CleanPath} : (m.file? q).isSome = true ↔ q ∈ m.files.map Prod.fst := by
  rw [file?]
  induction m.files with
  | nil => simp
  | cons f files ih =>
    rw [lookup_cons_eq,List.map_cons,List.mem_cons]
    split
    · rename_i same
      simp [same]
    · rename_i other
      rw [ih]
      exact ⟨.inr,fun either => either.resolve_left other⟩

/-- There is a directory where one was made, and above each file. -/
theorem dirAt_iff : m.DirAt ns ↔ CleanPath.absolute ns ∈ m.dirs ∨ ∃ n more, m.FileAt (ns ++ n :: more) := by
  rw [DirAt,isDir,Bool.or_eq_true,List.any_eq_true,List.any_eq_true]
  refine or_congr ⟨?_,fun member => ⟨_,member,by simp⟩⟩ ⟨?_,?_⟩
  · rintro ⟨q,member,same⟩
    exact components_eq_iff.mp (beq_iff_eq.mp same) ▸ member
  · rintro ⟨f,member,below⟩
    obtain ⟨n,more,place⟩ := below_iff.mp below
    exact ⟨n,more,isSome_file?_iff.mpr (place ▸ List.mem_map_of_mem member)⟩
  · rintro ⟨n,more,file⟩
    obtain ⟨f,member,place⟩ := List.mem_map.mp (isSome_file?_iff.mp file)
    exact ⟨f,member,below_iff.mpr ⟨n,more,place⟩⟩

theorem has_toPath (m : MemoryStore) (ns : List Name) :
    m.has (CleanPath.absolute ns).toPath = true ↔ m.FileAt ns ∨ m.DirAt ns := by
  rw [has,normalize_toPath,Bool.or_eq_true]
  rfl

/-- A file is written where a directory holds it; what stood there goes. -/
theorem write_cases (m : MemoryStore) (ns : List Name) (bytes : List UInt8) :
    (∃ e, m.write (CleanPath.absolute ns).toPath bytes = (.error e,m)) ∨
      ∃ text, m.write (CleanPath.absolute ns).toPath bytes = (.ok (),{ m with files := assign (.absolute ns) text m.files }) ∧
        ∀ above n, ns = above ++ [n] → m.DirAt above := by
  rw [write,normalize_toPath]
  simp only
  split
  · exact .inl ⟨_,rfl⟩
  · rename_i text _
    rcases List.eq_nil_or_concat ns with rfl | ⟨above,n,rfl⟩
    · exact .inr ⟨String.ofList text,rfl,fun above n split => by simp at split⟩
    · rw [List.concat_eq_append,parent?_concat]
      by_cases held : m.DirAt above
      · refine .inr ⟨String.ofList text,by simp only [show m.isDir _ = true from held,if_true],fun above' n' same => ?_⟩
        exact (List.append_inj_left' same rfl) ▸ held
      · exact .inl ⟨_,by simp only [show ¬m.isDir _ = true from held]; rfl⟩

/-- A directory is made where nothing is, whether a directory holds it or not. -/
theorem makeDir_cases (m : MemoryStore) (ns : List Name) :
    ((∃ e, m.makeDir (CleanPath.absolute ns).toPath = (.error e,m)) ∧ (m.FileAt ns ∨ m.DirAt ns)) ∨
      (m.makeDir (CleanPath.absolute ns).toPath = (.ok (),{ m with dirs := m.dirs ++ [.absolute ns] }) ∧
        ¬m.FileAt ns ∧ ¬m.DirAt ns) := by
  rw [makeDir,normalize_toPath]
  by_cases stands : m.FileAt ns ∨ m.DirAt ns
  · exact .inl ⟨⟨_,if_pos ((m.has_toPath ns).mpr stands)⟩,stands⟩
  · exact .inr ⟨if_neg (mt (m.has_toPath ns).mp stands),not_or.mp stands⟩

theorem dirAt_append_dirs {dirs : List CleanPath} :
    { m with dirs := m.dirs ++ dirs }.DirAt ns ↔ m.DirAt ns ∨ CleanPath.absolute ns ∈ dirs := by
  rw [dirAt_iff,dirAt_iff,List.mem_append,or_right_comm]
  rfl

/-! ## Making what is missing -/

/-- A store as it is. -/
abbrev plain : FileStore MemoryStore := store (fun m => m) fun m _ => m

theorem Clear.nil (m : MemoryStore) (above : List Name) : m.Clear above [] :=
  fun _ below some => absurd (List.prefix_nil.mp below) some

theorem Clear.concat {above rest : List Name} {n : Name} (clear : m.Clear above rest) (file : ¬m.FileAt (above ++ rest ++ [n]))
    (dir : ¬m.DirAt (above ++ rest ++ [n])) : m.Clear above (rest ++ [n]) := by
  intro front below some
  rcases List.prefix_concat_iff.mp below with rfl | shorter
  · rw [← List.append_assoc]
    exact ⟨file,dir⟩
  · exact clear front shorter some

theorem Clear.tail {above rest : List Name} {n : Name} (clear : m.Clear above (n :: rest)) : m.Clear (above ++ [n]) rest := by
  intro front below _
  rw [← List.append_cons]
  exact clear (n :: front) (List.cons_prefix_cons.mpr ⟨rfl,below⟩) (List.cons_ne_nil _ _)

/-- What is below a place stays as it is when a directory is made there. -/
theorem Clear.made {above rest : List Name} (clear : m.Clear above rest) :
    Clear { m with dirs := m.dirs ++ [.absolute above] } above rest := by
  intro front below some
  obtain ⟨file,dir⟩ := clear front below some
  refine ⟨file,fun there => (dirAt_append_dirs.mp there).elim dir fun new => some ?_⟩
  exact List.append_right_eq_self.mp (CleanPath.absolute.inj (List.mem_singleton.mp new))

theorem makeLevels_cons (file : ¬m.FileAt ns) (dir : ¬m.DirAt ns) (below : List Path) :
    FileStore.makeLevels plain ((absolute ns).toPath :: below) m =
      FileStore.makeLevels plain below { m with dirs := m.dirs ++ [absolute ns] } := by
  have step : plain.makeDir (absolute ns).toPath m = (.ok (),{ m with dirs := m.dirs ++ [absolute ns] }) := by
    obtain ⟨-,stands⟩ | ⟨made,-⟩ := makeDir_cases m ns
    · exact absurd stands (not_or.mpr ⟨file,dir⟩)
    · exact made
  rw [FileStore.makeLevels]
  simp only [bind,StateT.bind,step]

/-- Where nothing is in the way, all levels are made, one below the other. -/
theorem makeLevels_of_clear {above rest : List Name} (clear : m.Clear above rest) :
    FileStore.makeLevels plain ((levels above rest).map toPath) m = (.ok (),{ m with dirs := m.dirs ++ levels above rest }) := by
  induction rest generalizing m above with
  | nil => rw [levels,List.append_nil]; rfl
  | cons n rest ih =>
    obtain ⟨file,dir⟩ := clear [n] (List.prefix_append [n] rest) (List.cons_ne_nil _ _)
    rw [levels,List.map_cons,makeLevels_cons file dir,ih clear.tail.made,List.append_assoc]
    rfl

theorem stat_cases (m : MemoryStore) (ns : List Name) :
    (m.FileAt ns ∧ ∃ info, m.stat (absolute ns).toPath = .ok info ∧ info.isDir = false) ∨
    (¬m.FileAt ns ∧ m.DirAt ns ∧ ∃ info, m.stat (absolute ns).toPath = .ok info ∧ info.isDir = true) ∨
    (¬m.FileAt ns ∧ ¬m.DirAt ns ∧ m.stat (absolute ns).toPath = .error (.notFound (absolute ns).toPath)) := by
  rw [stat,normalize_toPath]
  cases file : m.file? (absolute ns) with
  | some text => exact .inl ⟨by rw [FileAt,file]; rfl,_,rfl,rfl⟩
  | none =>
    have absent : ¬m.FileAt ns := by rw [FileAt,file]; exact Bool.false_ne_true
    by_cases dir : m.DirAt ns
    · exact .inr (.inl ⟨absent,dir,_,if_pos dir,rfl⟩)
    · exact .inr (.inr ⟨absent,dir,if_neg dir⟩)

theorem missingLevels_cons (m : MemoryStore) (ns : List Name) (above : List Path) :
    (m.FileAt ns ∧ ∃ e, FileStore.missingLevels plain m ((absolute ns).toPath :: above) = .error e) ∨
    (¬m.FileAt ns ∧ m.DirAt ns ∧ FileStore.missingLevels plain m ((absolute ns).toPath :: above) = .ok []) ∨
    (¬m.FileAt ns ∧ ¬m.DirAt ns ∧ FileStore.missingLevels plain m ((absolute ns).toPath :: above) =
      (FileStore.missingLevels plain m above).map (· ++ [(absolute ns).toPath])) := by
  rw [FileStore.missingLevels,show plain.stat m _ = m.stat _ from rfl]
  rcases m.stat_cases ns with ⟨file,info,known,isDir⟩ | ⟨file,dir,info,known,isDir⟩ | ⟨file,dir,known⟩
  · exact .inl ⟨file,_,by simp only [known,isDir]; rfl⟩
  · exact .inr (.inl ⟨file,dir,by simp only [known,isDir]; rfl⟩)
  · exact .inr (.inr ⟨file,dir,by rw [known]; rfl⟩)

/-- A store looks for the nearest place above that exists. If a file lies there, nothing can be made; otherwise all levels below
it are missing, and the root is as well if nothing exists. -/
theorem missingLevels_cases (m : MemoryStore) (ns : List Name) :
    (∃ e above rest, ns = above ++ rest ∧ m.FileAt above ∧ m.Clear above rest ∧
      FileStore.missingLevels plain m (absolute ns).toPath.ancestors = .error e) ∨
    (∃ above rest, ns = above ++ rest ∧ ¬m.FileAt above ∧ m.DirAt above ∧ m.Clear above rest ∧
      FileStore.missingLevels plain m (absolute ns).toPath.ancestors = .ok ((levels above rest).map toPath)) ∨
    (¬m.FileAt [] ∧ ¬m.DirAt [] ∧ m.Clear [] ns ∧
      FileStore.missingLevels plain m (absolute ns).toPath.ancestors = .ok ((absolute [] :: levels [] ns).map toPath)) := by
  rw [ancestors_toPath]
  -- The search begins at the place itself and goes up, so the last name is the first to be looked at.
  induction ns using List.reverseRecOn with
  | nil =>
    rw [show ([] : List Name).inits.reverse = [[]] from rfl,List.map_singleton]
    obtain ⟨file,e,fails⟩ | ⟨file,dir,none⟩ | ⟨file,dir,all⟩ := m.missingLevels_cons [] []
    · exact .inl ⟨e,[],[],rfl,file,.nil m [],fails⟩
    · exact .inr (.inl ⟨[],[],rfl,file,dir,.nil m [],none⟩)
    · exact .inr (.inr ⟨file,dir,.nil m [],all⟩)
  | append_singleton ns n ih =>
    rw [inits_concat,List.map_cons]
    obtain ⟨file,e,fails⟩ | ⟨file,dir,none⟩ | ⟨file,dir,all⟩ :=
      m.missingLevels_cons (ns ++ [n]) (ns.inits.reverse.map fun ms => (absolute ms).toPath)
    · exact .inl ⟨e,ns ++ [n],[],(List.append_nil _).symm,file,.nil m _,fails⟩
    · exact .inr (.inl ⟨ns ++ [n],[],(List.append_nil _).symm,file,dir,.nil m _,none⟩)
    · rw [all]
      obtain ⟨e,above,rest,rfl,found,clear,fails⟩ | ⟨above,rest,rfl,absent,found,clear,missing⟩ | ⟨absent,nowhere,clear,missing⟩ := ih
      · exact .inl ⟨e,above,rest ++ [n],List.append_assoc ..,found,clear.concat file dir,by rw [fails]; rfl⟩
      · refine .inr (.inl ⟨above,rest ++ [n],List.append_assoc ..,absent,found,clear.concat file dir,?_⟩)
        rw [missing,levels_concat,List.map_append]
        rfl
      · refine .inr (.inr ⟨absent,nowhere,clear.concat file dir,?_⟩)
        rw [missing,levels_concat,← List.cons_append,List.map_append]
        rfl

/-- A directory is made with all that is missing above it, or nothing is done as a file is in the way. -/
theorem ensureDir_cases (m : MemoryStore) (ns : List Name) :
    (∃ e above rest, ns = above ++ rest ∧ m.FileAt above ∧ m.Clear above rest ∧
      FileStore.ensureDir plain (absolute ns).toPath m = (.error e,m)) ∨
    (∃ above rest, ns = above ++ rest ∧ ¬m.FileAt above ∧ m.DirAt above ∧ m.Clear above rest ∧
      FileStore.ensureDir plain (absolute ns).toPath m = (.ok (),{ m with dirs := m.dirs ++ levels above rest })) ∨
    (¬m.FileAt [] ∧ ¬m.DirAt [] ∧ m.Clear [] ns ∧
      FileStore.ensureDir plain (absolute ns).toPath m = (.ok (),{ m with dirs := m.dirs ++ absolute [] :: levels [] ns })) := by
  have whole : ((absolute ns).toPath.ancestors.takeWhile fun p => !p.isEmpty) = (absolute ns).toPath.ancestors := by
    refine List.takeWhile_eq_self_iff.mpr fun p member => ?_
    rw [ancestors_toPath] at member
    obtain ⟨ms,-,rfl⟩ := List.mem_map.mp member
    rw [isEmpty_toPath]
    rfl
  have ended (found : Except StoreError (List Path))
      (looked : FileStore.missingLevels plain m (absolute ns).toPath.ancestors = found) :
      FileStore.ensureDir plain (absolute ns).toPath m =
        found.casesOn (fun e => (.error e,m)) fun missing => FileStore.makeLevels plain missing m := by
    simp only [FileStore.ensureDir,whole,bind,StateT.bind,get,getThe,MonadStateOf.get,StateT.get,pure,looked]
    cases found <;> rfl
  obtain ⟨e,above,rest,split,found,clear,fails⟩ | ⟨above,rest,split,absent,found,clear,missing⟩ | ⟨absent,nowhere,clear,missing⟩ :=
    m.missingLevels_cases ns
  · exact .inl ⟨e,above,rest,split,found,clear,ended _ fails⟩
  · exact .inr (.inl ⟨above,rest,split,absent,found,clear,(ended _ missing).trans (makeLevels_of_clear clear)⟩)
  · refine .inr (.inr ⟨absent,nowhere,clear,(ended _ missing).trans ?_⟩)
    simp only [List.map_cons]
    rw [makeLevels_cons absent nowhere,makeLevels_of_clear clear.made,List.append_assoc]
    rfl

end MemoryStore

end Bundling
