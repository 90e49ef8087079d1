import Bundling.Proofs.Levels

/-!
# Making all that is missing

To make a directory with all the levels above it succeeds where the nearest place that exists is a directory, or where
nothing exists at all. Then exactly the missing levels are made, and all else stays as it is; otherwise nothing is done
(`MemoryStore.ensureDir_exact`).
-/

namespace Bundling

namespace CleanPath

theorem mem_levels_iff {q : CleanPath} {above rest : List Name} :
    q ∈ levels above rest ↔ ∃ front, front <+: rest ∧ front ≠ [] ∧ q = absolute (above ++ front) := by
  induction rest generalizing above with
  | nil => simp [levels,List.prefix_nil]
  | cons n rest ih =>
    rw [levels,List.mem_cons,ih]
    constructor
    · rintro (rfl | ⟨front,below,-,rfl⟩)
      · exact ⟨[n],List.prefix_append [n] rest,List.cons_ne_nil _ _,rfl⟩
      · exact ⟨n :: front,List.cons_prefix_cons.mpr ⟨rfl,below⟩,List.cons_ne_nil _ _,by rw [List.append_cons above n front]⟩
    · rintro ⟨front,below,some,rfl⟩
      obtain ⟨k,front,rfl⟩ := List.exists_cons_of_ne_nil some
      obtain ⟨rfl,within⟩ := List.cons_prefix_cons.mp below
      by_cases last : front = []
      · exact .inl (by rw [last])
      · exact .inr ⟨front,within,last,by rw [List.append_cons]⟩

theorem exists_of_mem_levels {q : CleanPath} {above rest : List Name} (member : q ∈ levels above rest) : ∃ ns, q = absolute ns := by
  obtain ⟨front,-,-,rfl⟩ := mem_levels_iff.mp member
  exact ⟨above ++ front,rfl⟩

end CleanPath

namespace MemoryStore

open CleanPath

/-- Something is at a place. -/
def Stands (m : MemoryStore) (ns : List Name) : Prop := m.has (absolute ns).toPath = true

/-- What is at a place is a directory, by what the store says about it. -/
def StandsDir (m : MemoryStore) (ns : List Name) : Prop := ∃ info, m.stat (absolute ns).toPath = .ok info ∧ info.isDir = true

/-- The nearest of a place and those above it where something is. -/
structure Nearest (m : MemoryStore) (ns above : List Name) : Prop where
  front : above <+: ns
  stands : m.Stands above
  nearest : ∀ below, above <+: below → below <+: ns → below ≠ above → ¬m.Stands below

/-- A place where nothing is, as at all others from there down to `ns`. -/
def Missing (m : MemoryStore) (ns level : List Name) : Prop :=
  level <+: ns ∧ ∀ below, level <+: below → below <+: ns → ¬m.Stands below

variable {m : MemoryStore} {ns above rest level : List Name}

theorem stands_iff : m.Stands ns ↔ m.FileAt ns ∨ m.DirAt ns := m.has_toPath ns

/-- Where a file lies as well, the store says so. -/
theorem standsDir_iff : m.StandsDir ns ↔ ¬m.FileAt ns ∧ m.DirAt ns := by
  obtain ⟨file,info,known,isDir⟩ | ⟨file,dir,info,known,isDir⟩ | ⟨file,dir,known⟩ := m.stat_cases ns
  · refine ⟨fun ⟨info',known',isDir'⟩ => ?_,fun plain => absurd file plain.1⟩
    cases known.symm.trans known'
    exact absurd (isDir'.symm.trans isDir) (by decide)
  · exact ⟨fun _ => ⟨file,dir⟩,fun _ => ⟨info,known,isDir⟩⟩
  · exact ⟨fun ⟨info,known',_⟩ => (nomatch known.symm.trans known'),fun plain => absurd plain.2 dir⟩

theorem Clear.not_stands {front : List Name} (clear : m.Clear above rest) (below : front <+: rest) (some : front ≠ []) :
    ¬m.Stands (above ++ front) :=
  mt stands_iff.mp (not_or.mpr (clear front below some))

/-- Between a place and one above it, nothing is in the way. -/
theorem Clear.nearest (clear : m.Clear above rest) (stands : m.Stands above) : m.Nearest (above ++ rest) above where
  front := List.prefix_append above rest
  stands := stands
  nearest := by
    rintro - ⟨front,rfl⟩ within other
    exact clear.not_stands ((List.prefix_append_right_inj above).mp within) (by simpa using other)

/-- Only one place is the nearest. -/
theorem Nearest.unique {above' : List Name} (first : m.Nearest ns above) (second : m.Nearest ns above') : above = above' := by
  by_contra other
  rcases List.prefix_or_prefix_of_prefix first.front second.front with below | below
  · exact first.nearest above' below second.front (Ne.symm other) second.stands
  · exact second.nearest above below first.front other first.stands

/-- The levels that are made below the nearest place are those that are missing. -/
theorem Clear.missing_iff (clear : m.Clear above rest) (stands : m.Stands above) :
    m.Missing (above ++ rest) level ↔ absolute level ∈ levels above rest := by
  rw [mem_levels_iff]
  constructor
  · rintro ⟨front,missing⟩
    rcases List.prefix_or_prefix_of_prefix front (List.prefix_append above rest) with up | ⟨more,rfl⟩
    · exact absurd stands (missing above up (List.prefix_append above rest))
    · refine ⟨more,(List.prefix_append_right_inj above).mp front,?_,rfl⟩
      rintro rfl
      exact missing above (by rw [List.append_nil]) (List.prefix_append above rest) stands
  · rintro ⟨front,below,some,same⟩
    obtain rfl := absolute.inj same
    refine ⟨(List.prefix_append_right_inj above).mpr below,?_⟩
    rintro - ⟨more,rfl⟩ within
    rw [List.append_assoc] at within ⊢
    exact clear.not_stands ((List.prefix_append_right_inj above).mp within) (by simp [some])

/-- Where nothing is at all, every level is missing. -/
theorem missing_iff_of_nowhere (nowhere : ∀ front, front <+: ns → ¬m.Stands front) :
    m.Missing ns level ↔ absolute level ∈ absolute [] :: levels [] ns := by
  have all : m.Missing ns level ↔ level <+: ns := ⟨And.left,fun front => ⟨front,fun below _ within => nowhere below within⟩⟩
  rw [all,List.mem_cons,mem_levels_iff]
  constructor
  · intro front
    by_cases root : level = []
    · exact .inl (congrArg absolute root)
    · exact .inr ⟨level,front,root,rfl⟩
  · rintro (root | ⟨front,below,-,same⟩)
    · rw [absolute.inj root]
      exact List.nil_prefix
    · rwa [absolute.inj same]

/-- Where a directory is already, nothing is done. -/
theorem ensureDir_of_standsDir (dir : m.StandsDir ns) : FileStore.ensureDir plain (absolute ns).toPath m = (.ok (),m) := by
  have stands : m.Stands ns := stands_iff.mpr (.inr (standsDir_iff.mp dir).2)
  have here {above rest : List Name} (split : ns = above ++ rest) (clear : m.Clear above rest) : rest = [] := by
    by_contra some
    exact clear.not_stands (List.prefix_refl rest) some (split ▸ stands)
  obtain ⟨e,above,rest,split,file,clear,-⟩ | ⟨above,rest,split,-,-,clear,made⟩ | ⟨file,dir',clear,-⟩ := m.ensureDir_cases ns
  · obtain rfl := here split clear
    rw [split,List.append_nil] at dir
    exact absurd file (standsDir_iff.mp dir).1
  · obtain rfl := here split clear
    rw [made,levels,List.append_nil]
  · obtain rfl := here rfl clear
    exact absurd (standsDir_iff.mp dir).2 dir'

/-- When levels are made, each of them is a directory, and what was one still is. -/
theorem standsDir_append_dirs {made : List CleanPath} (before : m.StandsDir ns ∨ absolute ns ∈ made ∧ ¬m.Stands ns) :
    StandsDir { m with dirs := m.dirs ++ made } ns := by
  rw [standsDir_iff,dirAt_append_dirs]
  rcases before with dir | ⟨new,nothing⟩
  · exact ⟨(standsDir_iff.mp dir).1,.inl (standsDir_iff.mp dir).2⟩
  · exact ⟨fun file => nothing (stands_iff.mpr (.inl file)),.inr new⟩

/-- When places are made directories, there are no other new ones. -/
theorem isDir_append_dirs {made : List CleanPath} (places : ∀ p ∈ made, ∃ ms, p = absolute ms) (q : CleanPath) :
    isDir { m with dirs := m.dirs ++ made } q.components = true ↔ m.isDir q.components = true ∨ q ∈ made := by
  have new : (∃ p ∈ made, p.components = q.components) ↔ q ∈ made := by
    refine ⟨fun ⟨p,member,same⟩ => ?_,fun member => ⟨q,member,rfl⟩⟩
    obtain ⟨ms,rfl⟩ := places p member
    exact components_eq_iff.mp same.symm ▸ member
  simp only [isDir,List.any_append,Bool.or_eq_true,List.any_eq_true,beq_iff_eq,new]
  exact or_right_comm

/-- What a store is like when a directory was made with all that was missing above it. -/
structure Ensured (m : MemoryStore) (ns : List Name) (m' : MemoryStore) : Prop where
  dir : m'.StandsDir ns
  levels : ∀ level, m.Missing ns level → m'.StandsDir level
  /-- Only the missing levels were made, and nothing else has changed. -/
  only : ∃ made, m' = { m with dirs := m.dirs ++ made } ∧ (∀ q, q ∈ made ↔ ∃ level, m.Missing ns level ∧ q = absolute level) ∧
    ∀ q : CleanPath, m'.isDir q.components = true ↔ m.isDir q.components = true ∨ q ∈ made
  again : FileStore.ensureDir plain (absolute ns).toPath m' = (.ok (),m')

theorem ensured_append_dirs {made : List CleanPath} (places : ∀ p ∈ made, ∃ ms, p = absolute ms)
    (missing : ∀ {level}, m.Missing ns level ↔ absolute level ∈ made) (dir : m.StandsDir ns ∨ m.Missing ns ns) :
    m.Ensured ns { m with dirs := m.dirs ++ made } := by
  have levels : ∀ level, m.Missing ns level → StandsDir { m with dirs := m.dirs ++ made } level := fun level lacks =>
    standsDir_append_dirs (.inr ⟨missing.mp lacks,lacks.2 level (List.prefix_refl level) lacks.1⟩)
  have here : StandsDir { m with dirs := m.dirs ++ made } ns :=
    dir.elim (fun before => standsDir_append_dirs (.inl before)) (levels ns)
  refine ⟨here,levels,⟨made,rfl,fun q => ⟨fun member => ?_,?_⟩,isDir_append_dirs places⟩,ensureDir_of_standsDir here⟩
  · obtain ⟨level,rfl⟩ := places q member
    exact ⟨level,missing.mpr member,rfl⟩
  · rintro ⟨level,lacks,rfl⟩
    exact missing.mp lacks

/-- A directory is made with all that is missing above it exactly when the nearest place that exists is a directory, or nothing
exists. Then the missing levels are directories, nothing else has changed, and to make the directory once more changes nothing;
otherwise nothing is done. -/
theorem ensureDir_exact (m : MemoryStore) (ns : List Name) :
    ((FileStore.ensureDir plain (absolute ns).toPath m).1 = .ok () ↔
      (∃ above, m.Nearest ns above ∧ m.StandsDir above) ∨ ∀ front, front <+: ns → ¬m.Stands front) ∧
    (∀ m', FileStore.ensureDir plain (absolute ns).toPath m = (.ok (),m') → m.Ensured ns m') ∧
    ∀ e m', FileStore.ensureDir plain (absolute ns).toPath m = (.error e,m') → m' = m := by
  obtain ⟨e,above,rest,rfl,file,clear,fails⟩ | ⟨above,rest,rfl,absent,found,clear,made⟩ | ⟨absent,nowhere,clear,made⟩ :=
    m.ensureDir_cases ns
  · -- A file is in the way.
    have stands : m.Stands above := stands_iff.mpr (.inl file)
    rw [fails]
    refine ⟨⟨fun ok => (nomatch ok),?_⟩,fun m' ok => ?_,fun e' m' failed => (Prod.mk.inj failed).2.symm⟩
    · rintro (⟨above',nearest,dir⟩ | nothing)
      · rw [nearest.unique (clear.nearest stands),standsDir_iff] at dir
        exact absurd file dir.1
      · exact absurd stands (nothing above (List.prefix_append above rest))
    · cases (Prod.mk.inj ok).1
  · -- The levels below a directory are missing.
    have stands : m.Stands above := stands_iff.mpr (.inr found)
    have dir : m.StandsDir above := standsDir_iff.mpr ⟨absent,found⟩
    rw [made]
    refine ⟨⟨fun _ => .inl ⟨above,clear.nearest stands,dir⟩,fun _ => rfl⟩,fun m' ok => ?_,fun e m' failed => ?_⟩
    · rw [← (Prod.mk.inj ok).2]
      refine ensured_append_dirs (fun _ => exists_of_mem_levels) (clear.missing_iff stands) ?_
      by_cases last : rest = []
      · exact .inl (by rwa [last,List.append_nil])
      · exact .inr ((clear.missing_iff stands).mpr (mem_levels_iff.mpr ⟨rest,List.prefix_refl rest,last,rfl⟩))
    · cases (Prod.mk.inj failed).1
  · -- Nothing exists, and all levels are missing.
    have nothing : ∀ front, front <+: ns → ¬m.Stands front := by
      intro front below
      by_cases root : front = []
      · rw [root,stands_iff]
        exact not_or.mpr ⟨absent,nowhere⟩
      · exact clear.not_stands below root
    rw [made]
    refine ⟨⟨fun _ => .inr nothing,fun _ => rfl⟩,fun m' ok => ?_,fun e m' failed => ?_⟩
    · rw [← (Prod.mk.inj ok).2]
      refine ensured_append_dirs (fun p member => ?_) (missing_iff_of_nowhere nothing)
        (.inr ⟨List.prefix_refl ns,fun below _ within => nothing below within⟩)
      rcases List.mem_cons.mp member with rfl | below
      · exact ⟨_,rfl⟩
      · exact exists_of_mem_levels below
    · cases (Prod.mk.inj failed).1

end MemoryStore

end Bundling
