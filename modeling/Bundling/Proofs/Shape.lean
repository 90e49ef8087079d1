import Bundling.Proofs.Levels

/-!
# The shape of the files in memory

In a file system nothing is a file and a directory at once, and each file and each directory is held by a directory
(`MemoryStore.Shaped`). A store that begins empty keeps this shape exactly as long as it does nothing heedless: it writes no file
over a directory and makes no directory where none holds it (`MemoryStore.shaped_iff`). It refuses neither (`MemoryStore.shape_lost`).
Making a directory with all the levels above it, and removing files, is never heedless.
-/

namespace Bundling

namespace MemoryStore

open CleanPath

/-! ## Calls -/

/-- What is asked of a store. -/
inductive Demand where
  | write (bytes : List UInt8)
  | makeDir
  | ensureDir
  | remove

/-- Does what is asked at a path, and tells whether it is done. -/
def perform (m : MemoryStore) (p : Path) : Demand → Except StoreError Unit × MemoryStore
  | .write bytes => m.write p bytes
  | .makeDir => m.makeDir p
  | .ensureDir => plain.ensureDir p m
  | .remove => (.ok (),(m.remove p).2)

/-- A call, at a place below the root. -/
structure Call where
  names : List Name
  demand : Demand

/-- A store with its root there, after calls. -/
def after (roots : List Name) (m : MemoryStore) (calls : List Call) : MemoryStore :=
  calls.foldl (fun m c => (m.perform (absolute (roots ++ c.names)).toPath c.demand).2) m

/-- Nothing is a file and a directory at once, and below the root each file and each directory that was made is held by a
directory. -/
structure Shaped (m : MemoryStore) (roots : List Name) : Prop where
  apart : ∀ q, (m.file? q).isSome = true → m.isDir q.components = false
  held : ∀ ns n, m.FileAt (roots ++ ns ++ [n]) ∨ absolute (roots ++ ns ++ [n]) ∈ m.dirs → m.DirAt (roots ++ ns)

/-- Something is done without heed to what is there: a file is written over a directory, or a directory is made where none
holds it. -/
def Heedless (m : MemoryStore) (ns : List Name) : Demand → Prop
  | .write bytes => (m.write (absolute ns).toPath bytes).1 = .ok () ∧ m.DirAt ns
  | .makeDir => (m.makeDir (absolute ns).toPath).1 = .ok () ∧ ∃ above n, ns = above ++ [n] ∧ ¬m.DirAt above
  | .ensureDir | .remove => False

/-! ## What calls keep -/

/-- The shape, with what carries it on: each directory from the root down was made, and so was what holds it. -/
structure Sound (m : MemoryStore) (roots : List Name) : Prop where
  root : absolute roots ∈ m.dirs
  inside : ∀ q, (m.file? q).isSome = true → ∃ ns, q = absolute (roots ++ ns)
  apart : ∀ ns, m.FileAt ns → ¬m.DirAt ns
  made : ∀ ns, m.DirAt (roots ++ ns) → absolute (roots ++ ns) ∈ m.dirs
  held : ∀ ns n, absolute (roots ++ ns ++ [n]) ∈ m.dirs → absolute (roots ++ ns) ∈ m.dirs

variable {m : MemoryStore} {roots ns names : List Name} {n : Name}

theorem fileAt_assign {text : String} :
    FileAt { m with files := assign (absolute names) text m.files } ns ↔ ns = names ∨ m.FileAt ns := by
  rw [FileAt,file?,lookup_assign]
  split
  · rename_i same
    exact ⟨fun _ => .inl (CleanPath.absolute.inj same),fun _ => rfl⟩
  · rename_i other
    exact ⟨.inr,fun either => either.resolve_left fun same => other (congrArg _ same)⟩

theorem dirAt_assign {text : String} :
    DirAt { m with files := assign (absolute names) text m.files } ns ↔ m.DirAt ns ∨ ∃ n more, names = ns ++ n :: more := by
  rw [dirAt_iff,dirAt_iff]
  simp only [fileAt_assign,exists_or]
  constructor
  · rintro (old | ⟨n,more,same⟩ | old)
    · exact .inl (.inl old)
    · exact .inr ⟨n,more,same.symm⟩
    · exact .inl (.inr old)
  · rintro ((old | old) | ⟨n,more,same⟩)
    · exact .inl old
    · exact .inr (.inr old)
    · exact .inr (.inl ⟨n,more,same.symm⟩)

namespace Sound

theorem shaped (sound : m.Sound roots) : m.Shaped roots where
  apart q file := by
    obtain ⟨ns,rfl⟩ := sound.inside q file
    exact Bool.eq_false_iff.mpr (sound.apart _ file)
  held ns n := by
    rintro (file | dir)
    · exact dirAt_iff.mpr (.inr ⟨n,[],file⟩)
    · exact dirAt_iff.mpr (.inl (sound.held ns n dir))

/-- What is above a directory that was made was made as well. -/
theorem up {more : List Name} (sound : m.Sound roots) (dir : absolute (roots ++ (ns ++ more)) ∈ m.dirs) :
    absolute (roots ++ ns) ∈ m.dirs := by
  induction more using List.reverseRecOn with
  | nil => rwa [List.append_nil] at dir
  | append_singleton more n ih =>
    rw [← List.append_assoc ns more,← List.append_assoc roots] at dir
    exact ih (sound.held _ n dir)

/-- A file is written in a directory, where there is none. -/
theorem write (sound : m.Sound roots) (text : String) (holds : ∀ above n, roots ++ names = above ++ [n] → m.DirAt above)
    (free : ¬m.DirAt (roots ++ names)) : Sound { m with files := assign (absolute (roots ++ names)) text m.files } roots := by
  -- What is above the new file was made before, as the directory that holds it was.
  have above : ∀ ns n more, names = ns ++ n :: more → absolute (roots ++ ns) ∈ m.dirs := by
    rintro ns n more rfl
    obtain ⟨between,last,split⟩ : ∃ between last, n :: more = between ++ [last] :=
      ⟨_,_,(List.dropLast_append_getLast (List.cons_ne_nil n more)).symm⟩
    rw [split] at holds
    exact sound.up (sound.made (ns ++ between) (holds _ last (by simp only [List.append_assoc])))
  exact {
    root := sound.root
    inside := by
      intro q file
      rw [file?,lookup_assign] at file
      split at file
      · rename_i same
        exact ⟨names,same⟩
      · exact sound.inside q file
    apart := by
      intro ns file dir
      rcases dirAt_assign.mp dir with old | ⟨n,more,below⟩
      · rcases fileAt_assign.mp file with rfl | before
        · exact free old
        · exact sound.apart ns before old
      · rcases fileAt_assign.mp file with rfl | before
        · simp at below
        · obtain ⟨ms,place⟩ := sound.inside _ before
          obtain rfl := CleanPath.absolute.inj place
          rw [List.append_assoc] at below
          exact sound.apart _ before (dirAt_iff.mpr (.inl (above ms n more (List.append_cancel_left below))))
    made := by
      intro ns dir
      rcases dirAt_assign.mp dir with old | ⟨n,more,below⟩
      · exact sound.made ns old
      · rw [List.append_assoc] at below
        exact above ns n more (List.append_cancel_left below)
    held := sound.held }

/-- A directory is made in a directory, where there is no file. -/
theorem makeDir (sound : m.Sound roots) (holds : m.DirAt (roots ++ ns)) (free : ¬m.FileAt (roots ++ ns ++ [n])) :
    Sound { m with dirs := m.dirs ++ [absolute (roots ++ ns ++ [n])] } roots where
  root := List.mem_append_left _ sound.root
  inside := sound.inside
  apart := by
    intro ms file dir
    rcases dirAt_append_dirs.mp dir with old | new
    · exact sound.apart ms file old
    · exact free (CleanPath.absolute.inj (List.mem_singleton.mp new) ▸ file)
  made := by
    intro ms dir
    rcases dirAt_append_dirs.mp dir with old | new
    · exact List.mem_append_left _ (sound.made ms old)
    · exact List.mem_append_right _ new
  held := by
    intro ms k member
    refine List.mem_append_left _ ?_
    rcases List.mem_append.mp member with old | new
    · exact sound.held ms k old
    · have same := CleanPath.absolute.inj (List.mem_singleton.mp new)
      obtain rfl := List.append_cancel_left (List.append_inj_left' same rfl)
      exact sound.made ms holds

theorem levels {above rest : List Name} (sound : m.Sound roots) (low : ∃ ns, above = roots ++ ns) (holds : m.DirAt above)
    (clear : m.Clear above rest) : Sound { m with dirs := m.dirs ++ CleanPath.levels above rest } roots := by
  induction rest generalizing m above with
  | nil => rwa [CleanPath.levels,List.append_nil]
  | cons n rest ih =>
    obtain ⟨ns,rfl⟩ := low
    obtain ⟨free,-⟩ := clear [n] (List.prefix_append [n] rest) (List.cons_ne_nil _ _)
    have dir : DirAt { m with dirs := m.dirs ++ [absolute (roots ++ ns ++ [n])] } (roots ++ ns ++ [n]) :=
      dirAt_append_dirs.mpr (.inr (List.mem_singleton_self _))
    have further := ih (sound.makeDir holds free) ⟨ns ++ [n],List.append_assoc ..⟩ dir clear.tail.made
    rwa [List.append_assoc m.dirs] at further

/-- The levels that are missing are below the root, which exists. -/
theorem ensureDir (sound : m.Sound roots) (names : List Name) :
    Sound (plain.ensureDir (absolute (roots ++ names)).toPath m).2 roots := by
  have root : m.DirAt roots := dirAt_iff.mpr (.inl sound.root)
  obtain ⟨e,above,rest,-,-,-,fails⟩ | ⟨above,rest,split,-,found,clear,made⟩ | ⟨-,nowhere,clear,-⟩ :=
    m.ensureDir_cases (roots ++ names)
  · rwa [fails]
  · have low : ∃ ns, above = roots ++ ns := by
      obtain ⟨back,low,-⟩ | ⟨back,high,rfl⟩ := List.append_eq_append_iff.mp split
      · exact ⟨back,low⟩
      · by_cases none : back = []
        · exact ⟨[],by rw [high,none,List.append_nil,List.append_nil]⟩
        · exact absurd (high ▸ root) (clear back (List.prefix_append ..) none).2
    rw [made]
    exact sound.levels low found clear
  · by_cases none : roots = []
    · exact absurd (none ▸ root) nowhere
    · exact absurd root (clear roots (List.prefix_append ..) none).2

theorem remove (sound : m.Sound roots) (p : Path) : Sound (m.remove p).2 roots := by
  have kept (q : CleanPath) (file : ((m.remove p).2.file? q).isSome = true) : (m.file? q).isSome = true := by
    rw [file?,MemoryStore.remove,lookup_filter_ne] at file
    split at file
    · cases file
    · exact file
  have dirs (ns : List Name) (dir : (m.remove p).2.DirAt ns) : m.DirAt ns := by
    obtain made | ⟨n,more,file⟩ := dirAt_iff.mp dir
    · exact dirAt_iff.mpr (.inl made)
    · exact dirAt_iff.mpr (.inr ⟨n,more,kept _ file⟩)
  exact {
    root := sound.root
    inside := fun q file => sound.inside q (kept q file)
    apart := fun ns file dir => sound.apart ns (kept _ file) (dirs ns dir)
    made := fun ns dir => sound.made ns (dirs _ dir)
    held := sound.held }

/-- What is not heedless keeps the shape. -/
theorem perform (sound : m.Sound roots) {demand : Demand} (heeds : ¬m.Heedless (roots ++ names) demand) :
    (m.perform (absolute (roots ++ names)).toPath demand).2.Sound roots := by
  cases demand with
  | write bytes =>
    rw [MemoryStore.perform]
    obtain ⟨e,refused⟩ | ⟨text,written,holds⟩ := m.write_cases (roots ++ names) bytes
    · rwa [refused]
    · have free : ¬m.DirAt (roots ++ names) := fun dir => heeds ⟨congrArg Prod.fst written,dir⟩
      rw [written]
      exact sound.write text holds free
  | makeDir =>
    rw [MemoryStore.perform]
    obtain ⟨⟨e,refused⟩,-⟩ | ⟨made,file,dir⟩ := m.makeDir_cases (roots ++ names)
    · rwa [refused]
    · rcases List.eq_nil_or_concat names with rfl | ⟨above,n,rfl⟩
      · exact absurd (dirAt_iff.mpr (.inl ((List.append_nil roots).symm ▸ sound.root))) dir
      · rw [List.concat_eq_append,← List.append_assoc] at made file heeds
        have holds : m.DirAt (roots ++ above) :=
          Classical.not_not.mp fun loose => heeds ⟨congrArg Prod.fst made,roots ++ above,n,rfl,loose⟩
        rw [List.concat_eq_append,← List.append_assoc,made]
        exact sound.makeDir holds file
  | ensureDir => exact sound.ensureDir names
  | remove => exact sound.remove _

theorem empty {root : Path} (rooted : root.clean = .absolute roots) : Sound (MemoryStore.empty root) roots where
  root := by
    rw [MemoryStore.empty,rooted]
    exact List.mem_singleton_self _
  inside := nofun
  apart := nofun
  made := by
    intro ns dir
    obtain made | ⟨n,more,file⟩ := dirAt_iff.mp dir
    · exact made
    · cases file
  held := by
    intro ns n member
    rw [MemoryStore.empty,rooted] at member
    have same := CleanPath.absolute.inj (List.mem_singleton.mp member)
    rw [List.append_assoc] at same
    have none := List.append_right_eq_self.mp same
    simp at none

end Sound

/-! ## What calls break -/

/-- No directory that was made is ever taken away. -/
theorem mem_dirs_perform {q : CleanPath} (made : q ∈ m.dirs) (demand : Demand) :
    q ∈ (m.perform (absolute ns).toPath demand).2.dirs := by
  cases demand with
  | write bytes =>
    rw [perform]
    obtain ⟨e,refused⟩ | ⟨text,written,-⟩ := m.write_cases ns bytes
    · rwa [refused]
    · rwa [written]
  | makeDir =>
    rw [perform]
    obtain ⟨⟨e,refused⟩,-⟩ | ⟨new,-⟩ := m.makeDir_cases ns
    · rwa [refused]
    · rw [new]
      exact List.mem_append_left _ made
  | ensureDir =>
    rw [perform]
    obtain ⟨e,above,rest,-,-,-,ended⟩ | ⟨above,rest,-,-,-,-,ended⟩ | ⟨-,-,-,ended⟩ := m.ensureDir_cases ns
    · rwa [ended]
    · rw [ended]
      exact List.mem_append_left _ made
    · rw [ended]
      exact List.mem_append_left _ made
  | remove => exact made

/-- What is heedless breaks the shape at once. -/
theorem not_shaped_of_heedless (root : absolute roots ∈ m.dirs) {demand : Demand} (heedless : m.Heedless (roots ++ names) demand) :
    ¬(m.perform (absolute (roots ++ names)).toPath demand).2.Shaped roots := by
  intro shaped
  cases demand with
  | write bytes =>
    obtain ⟨accepted,dir⟩ := heedless
    rw [perform] at shaped
    obtain ⟨e,refused⟩ | ⟨text,written,-⟩ := m.write_cases (roots ++ names) bytes
    · cases accepted.symm.trans (congrArg Prod.fst refused)
    · rw [written] at shaped
      have both := shaped.apart _ (fileAt_assign.mpr (.inl rfl))
      exact absurd (dirAt_assign.mpr (.inl dir)) (Bool.eq_false_iff.mp both)
  | makeDir =>
    obtain ⟨accepted,above,n,place,loose⟩ := heedless
    rw [perform] at shaped
    obtain ⟨⟨e,refused⟩,-⟩ | ⟨made,-,free⟩ := m.makeDir_cases (roots ++ names)
    · cases accepted.symm.trans (congrArg Prod.fst refused)
    · rw [made] at shaped
      rcases List.eq_nil_or_concat names with rfl | ⟨ns,k,rfl⟩
      · exact free (dirAt_iff.mpr (.inl ((List.append_nil roots).symm ▸ root)))
      · rw [List.concat_eq_append,← List.append_assoc] at place shaped
        obtain rfl := List.append_inj_left' place rfl
        rcases dirAt_append_dirs.mp (shaped.held ns k (.inr (List.mem_append_right _ (List.mem_singleton_self _)))) with old | new
        · exact loose old
        · have same := CleanPath.absolute.inj (List.mem_singleton.mp new)
          simp at same
  | ensureDir => exact heedless
  | remove => exact heedless

/-! ## Runs -/

theorem after_concat (front : List Call) (c : Call) : m.after roots (front ++ [c]) =
    ((m.after roots front).perform (absolute (roots ++ c.names)).toPath c.demand).2 := List.foldl_concat ..

theorem mem_dirs_after {q : CleanPath} (made : q ∈ m.dirs) (calls : List Call) : q ∈ (m.after roots calls).dirs := by
  induction calls using List.reverseRecOn with
  | nil => exact made
  | append_singleton front c ih =>
    rw [after_concat]
    exact mem_dirs_perform ih c.demand

theorem Sound.after (sound : m.Sound roots) {calls : List Call}
    (heeds : ∀ front c, front ++ [c] <+: calls → ¬(m.after roots front).Heedless (roots ++ c.names) c.demand) :
    (m.after roots calls).Sound roots := by
  induction calls using List.reverseRecOn with
  | nil => exact sound
  | append_singleton front c ih =>
    rw [after_concat]
    refine Sound.perform (ih fun front' c' below => heeds front' c' ?_) (heeds front c List.prefix_rfl)
    exact below.trans (List.prefix_append ..)

/-- A store that begins with nothing but its root has the shape of a file system after each call exactly if no call has written a
file over a directory, and none has made a directory where no directory holds it. -/
theorem shaped_iff {root : Path} (rooted : root.clean = .absolute roots) (calls : List Call) :
    (∀ front, front <+: calls → ((empty root).after roots front).Shaped roots) ↔
      ∀ front c, front ++ [c] <+: calls → ¬((empty root).after roots front).Heedless (roots ++ c.names) c.demand := by
  have sound := Sound.empty rooted
  constructor
  · intro shaped front c below heedless
    have broken := shaped (front ++ [c]) below
    rw [after_concat] at broken
    exact not_shaped_of_heedless (mem_dirs_after sound.root front) heedless broken
  · intro heeds front below
    exact (sound.after fun front' c further => heeds front' c (further.trans below)).shaped

/-! ## A project -/

/-- The root of a project. -/
def project : Name := ⟨"project",by decide⟩

def source : Name := ⟨"src",by decide⟩

def app : Name := ⟨"app.js",by decide⟩

/-- A directory with a file in it, which is taken out again. -/
def orderly : List Call := [⟨[source],.makeDir⟩,⟨[source,app],.write []⟩,⟨[source,app],.remove⟩,⟨[source],.makeDir⟩]

theorem shaped_orderly : (Path.mk "/project").clean = .absolute [project] ∧
    ∀ front, front <+: orderly → ((empty ⟨"/project"⟩).after [project] front).Shaped [project] := by
  have rooted : (Path.mk "/project").clean = .absolute [project] := by decide
  refine ⟨rooted,(shaped_iff rooted orderly).mpr ?_⟩
  rintro front c ⟨rest,split⟩ heedless
  rcases front with _ | ⟨c₁,_ | ⟨c₂,_ | ⟨c₃,_ | ⟨c₄,more⟩⟩⟩⟩
  · cases split
    obtain ⟨-,above,n,place,loose⟩ := heedless
    obtain rfl : [project] = above := List.append_inj_left' place rfl
    exact loose (by decide)
  · cases split
    exact absurd heedless.2 (by decide)
  · cases split
    exact heedless
  · cases split
    exact absurd heedless.1 (by decide)
  · have lengths := congrArg List.length split
    simp [orderly] at lengths

/-- A file is written over a directory, or a directory is made with nothing above it. -/
theorem shape_lost : ¬((empty ⟨"/project"⟩).after [project] [⟨[source],.makeDir⟩,⟨[source],.write []⟩]).Shaped [project] ∧
    ¬((empty ⟨"/project"⟩).after [project] [⟨[source,app],.makeDir⟩]).Shaped [project] := by
  constructor
  · intro shaped
    have both := shaped.apart (.absolute [project,source]) (by decide)
    exact absurd both (by decide)
  · intro shaped
    have held := shaped.held [source] app (.inr (by decide))
    exact absurd held (by decide)

end MemoryStore

end Bundling
