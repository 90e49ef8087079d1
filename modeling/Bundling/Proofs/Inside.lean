import Bundling.Proofs.Writing

/-!
# Writing inside a directory

Writing bundles changes nothing outside of the output directory, but for the directories that are missing on the way to it,
at any time: neither in the end nor while files are beside their targets. The only exception is a target that is the output
directory itself: the file beside it is outside, and then writing does go out (`passes_within_iff`).

Where there are no links, the changes of one operation are the places that it names, and `Confined` adds up along a run of
operations.
-/

namespace Bundling

open Bundling.Path (slash dot)

theorem intercalate_concat {α : Type} (sep : List α) {parts : List (List α)} (some : parts ≠ []) (last : List α) :
    sep.intercalate (parts ++ [last]) = sep.intercalate parts ++ (sep ++ last) := by
  induction parts with
  | nil => exact absurd rfl some
  | cons part parts ih =>
    cases parts with
    | nil => simp [List.intercalate_cons_cons]
    | cons next parts =>
      rw [List.cons_append,List.cons_append,List.intercalate_cons_cons,← List.cons_append,ih (by simp),
        List.intercalate_cons_cons]
      simp only [List.append_assoc]

/-- The path of a place ends with its last name. -/
theorem CleanPath.octets_toPath_concat (ns : List Name) :
    ∃ front, ∀ n, (absolute (ns ++ [n])).toPath.octets = front ++ n.octets := by
  by_cases root : ns = []
  · subst root
    exact ⟨[slash],fun n => (octets_toPath [n]).trans (by simp)⟩
  · refine ⟨slash :: [slash].intercalate (ns.map Name.octets) ++ [slash],fun n => ?_⟩
    rw [octets_toPath,List.map_append,List.map_singleton,intercalate_concat _ (by simpa using root)]
    simp only [List.cons_append,List.append_assoc]

/-! ## Changes below a place -/

namespace Disk

variable {d d' d'' : Disk} {home p q : Place} {path : Path}

/-- A place that lies below another one. -/
def Below (home q : Place) : Prop := ∃ n more, q = home ++ n :: more

/-- Nothing is changed but below a place, and directories are made that are missing on the way there. -/
def Within (home : Place) (d d' : Disk) : Prop :=
  ∀ q, ¬Below home q → d'.node? q = d.node? q ∨ q <+: home ∧ d.node? q = none ∧ d'.node? q = some .dir

theorem Within.refl (home : Place) (d : Disk) : Within home d d := fun _ _ => .inl rfl

theorem Within.trans (before : Within home d d') (after : Within home d' d'') : Within home d d'' := by
  intro q outside
  rcases before q outside with same | ⟨way,none,made⟩
  · rw [← same]
    exact after q outside
  · rcases after q outside with same | ⟨-,none',-⟩
    · exact .inr ⟨way,none,same.trans made⟩
    · rw [made] at none'
      cases none'

theorem within_setNode (inside : Below home p) (n : Node) : Within home d (d.setNode p n) := by
  intro q outside
  have other : q ≠ p := by
    rintro rfl
    exact outside inside
  obtain ⟨n,more,rfl⟩ := inside
  exact .inl (by rw [node?_setNode (by simp),if_neg other])

theorem within_dropNode (inside : Below home p) : Within home d (d.dropNode p) := by
  intro q outside
  have other : q ≠ p := by
    rintro rfl
    exact outside inside
  obtain ⟨n,more,rfl⟩ := inside
  exact .inl (by rw [node?_dropNode (by simp),if_neg other])

/-- A missing directory may be made on the way to a place, or below. -/
theorem within_setDir (way : p <+: home ∨ home <+: p) (free : d.node? p = none) : Within home d (d.setNode p .dir) := by
  have low := ne_root_of_not_dir (d := d) (p := p) (by rw [free]; simp)
  intro q outside
  rw [node?_setNode low]
  by_cases same : q = p
  · rw [if_pos same]
    subst same
    rcases way with above | ⟨more,rfl⟩
    · exact .inr ⟨above,free,rfl⟩
    · cases more with
      | nil => exact .inr ⟨by simp,free,rfl⟩
      | cons n more => exact absurd ⟨n,more,rfl⟩ outside
  · rw [if_neg same]
    exact .inl rfl

/-- Where there are no links, nothing is changed but below a place, and there are no links then. -/
def Confined (home : Place) (d d' : Disk) : Prop := d.Linkless → Within home d d' ∧ d'.Linkless

theorem Confined.refl (home : Place) (d : Disk) : Confined home d d := fun linkless => ⟨.refl home d,linkless⟩

theorem Confined.trans (before : Confined home d d') (after : Confined home d' d'') : Confined home d d'' := by
  intro linkless
  obtain ⟨first,linkless'⟩ := before linkless
  exact ⟨first.trans (after linkless').1,(after linkless').2⟩

/-! ## Operations -/

theorem unterminated_toPath (ns : Place) : unterminated (CleanPath.absolute ns).toPath = (CleanPath.absolute ns).toPath := by
  rcases List.eq_nil_or_concat ns with rfl | ⟨before,last,rfl⟩
  · decide
  · obtain ⟨front,text⟩ := CleanPath.octets_toPath_concat before
    rw [List.concat_eq_append]
    obtain ⟨cs,c,chars⟩ : ∃ cs c, last.octets = cs ++ [c] := by
      rcases List.eq_nil_or_concat last.octets with empty | ⟨cs,c,chars⟩
      · exact absurd empty last.isName.1
      · exact ⟨cs,c,by rw [chars,List.concat_eq_append]⟩
    have other : c ≠ slash := by
      rintro rfl
      exact last.isName.2.2.2 (chars ▸ List.mem_append_right cs List.mem_cons_self)
    have whole : (CleanPath.absolute (before ++ [last])).toPath.octets = front ++ cs ++ [c] := by
      rw [text,chars,List.append_assoc]
    have kept : ((CleanPath.absolute (before ++ [last])).toPath.octets.reverse.dropWhile (· == slash)).reverse =
        (CleanPath.absolute (before ++ [last])).toPath.octets := by
      rw [whole,List.reverse_append,List.reverse_singleton,List.singleton_append,
        List.dropWhile_cons_of_neg (by simpa using other),List.reverse_cons,List.reverse_reverse]
    rw [unterminated,kept,if_neg (by simp [whole])]
    rfl

theorem confined_makeDir {ns : Place} (way : ns <+: home ∨ home <+: ns)
    (done : d.makeDir (CleanPath.absolute ns).toPath = .ok d') : Confined home d d' := by
  refine fun linkless => ⟨?_,(makeDir_ok done).linkless linkless⟩
  unfold makeDir at done
  rw [unterminated_toPath] at done
  cases led : d.entry (CleanPath.absolute ns).toPath with
  | error e => simp [led,bind,Except.bind] at done
  | ok q =>
    obtain rfl : q = ns :=
      (resolve_place linkless (CleanPath.isAbsolute_toPath ns) led).trans (Path.place_eq (CleanPath.clean_toPath ns))
    simp only [led,bind,Except.bind] at done
    split at done
    · cases done
    · rename_i free
      cases done
      exact within_setDir way (by simpa using free)

theorem confined_makeMissing {ns : Place} (way : ns <+: home ∨ home <+: ns) (d : Disk) :
    Confined home d (d.makeMissing (CleanPath.absolute ns).toPath).2 := by
  unfold makeMissing
  split
  · exact confined_makeDir way ‹_›
  · exact .refl home d

/-- Directories are made on the way to a place, or below, if they are asked for there. -/
theorem confined_makeDirs {ns : Place} (way : ns <+: home ∨ home <+: ns) (limit : Nat) (d : Disk) :
    Confined home d (makeDirs limit d (CleanPath.absolute ns).toPath).2 := by
  induction limit generalizing d ns with
  | zero => exact .refl home d
  | succ limit ih =>
    unfold makeDirs
    split
    · exact .refl home d
    · split
      · exact .refl home d
      · rename_i above _ parent
        rcases List.eq_nil_or_concat ns with rfl | ⟨before,last,rfl⟩
        · exact absurd parent (show (CleanPath.absolute []).toPath.parent? ≠ some above from by simp [show (CleanPath.absolute []).toPath.parent? = none by decide])
        · rw [List.concat_eq_append] at parent way ⊢
          rw [CleanPath.parent?_toPath] at parent
          cases parent
          have way' : before <+: home ∨ home <+: before := by
            rcases way with above | below
            · exact .inl ((List.prefix_append before [last]).trans above)
            · rcases List.prefix_concat_iff.mp below with rfl | below
              · exact .inl (List.prefix_append before [last])
              · exact .inr below
          have front := ih way' d
          split
          · rename_i d₁ made
            rw [made] at front
            exact front.trans (confined_makeMissing way d₁)
          · exact front
      · exact confined_makeMissing way d

theorem confined_writeBytes (absolute : path.isAbsolute = true) (plain : unterminated path = path)
    (inside : Below home path.place) {bytes : List UInt8} (done : d.writeBytes path bytes = .ok d') : Confined home d d' := by
  intro linkless
  obtain ⟨q,-,spares,-⟩ := writeBytes_ok plain done
  refine ⟨?_,spares.linkless linkless⟩
  unfold writeBytes at done
  rw [plain] at done
  cases led : d.locate path with
  | error e => simp [led,bind,Except.bind] at done
  | ok q =>
    rw [← resolve_place linkless absolute led] at inside
    simp only [led,bind,Except.bind,if_true] at done
    split at done
    · cases done
    · cases done
    · cases done
      exact within_setNode inside _
    · cases done
      exact within_setNode inside _

/-- The root is no target. -/
theorem confined_rename {source target : Path} (absolute : source.isAbsolute = true) (absolute' : target.isAbsolute = true)
    (inside : Below home source.place) (inside' : target.place ≠ [] → Below home target.place)
    (done : d.rename source target = .ok d') : Confined home d d' := by
  intro linkless
  obtain ⟨_,_,-,-,spares⟩ := spares_rename done
  obtain ⟨p,q,n,led,led',-,-,file,nodes⟩ := rename_ok done
  obtain rfl := resolve_place linkless absolute led
  obtain rfl := resolve_place linkless absolute' led'
  replace inside' := inside' (ne_root_of_not_dir file)
  refine ⟨fun r outside => .inl ?_,spares.linkless linkless⟩
  have target : r ≠ _ := fun same => outside (same ▸ inside')
  have source : r ≠ _ := fun same => outside (same ▸ inside)
  rw [nodes,if_neg target,if_neg source]

theorem confined_removeFile (absolute : path.isAbsolute = true) (inside : Below home path.place)
    (done : d.removeFile path = .ok d') : Confined home d d' := by
  intro linkless
  obtain ⟨_,-,spares,-⟩ := removeFile_ok done
  refine ⟨?_,spares.linkless linkless⟩
  unfold removeFile at done
  cases led : d.entry path with
  | error e => simp [led,bind,Except.bind] at done
  | ok q =>
    rw [← resolve_place linkless absolute led] at inside
    simp only [led,bind,Except.bind] at done
    split at done
    · cases done
    · cases done
    · cases done
      exact within_dropNode inside

/-- What was made is a directory. -/
theorem isDir_of_makeMissing {ns : Place} (done : d.makeMissing (CleanPath.absolute ns).toPath = (.ok (),d')) :
    d'.isDir (CleanPath.absolute ns).toPath = true := by
  unfold makeMissing at done
  split at done
  · rename_i d₁ made
    cases done
    unfold makeDir at made
    rw [unterminated_toPath] at made
    cases led : d.entry (CleanPath.absolute ns).toPath with
    | error e => simp [led,bind,Except.bind] at made
    | ok q =>
      simp only [led,bind,Except.bind] at made
      split at made
      · cases made
      · rename_i free
        cases made
        have none : d.node? q = none := by simpa using free
        have low : q ≠ [] := ne_root_of_not_dir (d := d) (by rw [none]; simp)
        have absolute := CleanPath.isAbsolute_toPath ns
        have spares := spares_setDir none
        have there := locate_of_entry absolute led (link?_of_none none)
        exact isDir_iff.mpr ⟨q,resolve_kept absolute spares.dirs (fun q => spares.links q List.not_mem_nil) there,
          by rw [node?_setNode low,if_pos rfl]⟩
  · rename_i refused
    split at done
    · cases done
      assumption
    · cases done

theorem isDir_of_makeDirs {ns : Place} (limit : Nat) (done : makeDirs limit d (CleanPath.absolute ns).toPath = (.ok (),d')) :
    d'.isDir (CleanPath.absolute ns).toPath = true := by
  cases limit with
  | zero => cases done
  | succ limit =>
    obtain ⟨rest,start⟩ := Path.octets_of_isAbsolute (CleanPath.isAbsolute_toPath ns)
    have filled : (CleanPath.absolute ns).toPath.isEmpty = false := by simp [Path.isEmpty,start]
    unfold makeDirs at done
    rw [filled,if_neg (by simp)] at done
    split at done
    · cases done
    · split at done
      · exact isDir_of_makeMissing done
      · rename_i failed
        rename_i above _ _
        exact absurd done (fun done => failed _ done)
    · exact isDir_of_makeMissing done

end Disk

namespace Output

open Disk (Within Confined Below)

variable {disk d d' : Disk} {dir p : Path} {overwrite maps : Bool} {bs : List Bundle} {ts : List Target} {home ns : Place}

/-! ## Places of targets -/

/-- Where the output directory is. -/
def homeOf (disk : Disk) (dir : Path) : Place := (directory disk dir).place

theorem directory_eq (disk : Disk) (dir : Path) : directory disk dir = (CleanPath.absolute (homeOf disk dir)).toPath := by
  obtain ⟨ns,same⟩ : ∃ ns, directory disk dir = (CleanPath.absolute ns).toPath := by
    unfold directory
    split
    · exact ⟨_,rfl⟩
    · exact clean_toPath_of_isAbsolute (Path.isAbsolute_join (CleanPath.isAbsolute_toPath disk.workingDir) dir.clean.toPath)
  rw [homeOf,same,Path.place_eq (CleanPath.clean_toPath ns)]

/-- A target is the output directory, or lies below it. -/
theorem targetPath_inside {name : String} (made : targetPath (CleanPath.absolute home).toPath name = .ok p) :
    ∃ more, p = (CleanPath.absolute (home ++ more)).toPath := by
  unfold targetPath at made
  split at made
  · cases made
  · simp only at made
    split at made
    · rename_i front
      obtain ⟨ns,same⟩ := clean_toPath_of_isAbsolute (Path.isAbsolute_join (CleanPath.isAbsolute_toPath home) (Path.mk name).clean.toPath)
      rw [same] at front made
      cases made
      rw [Path.startsWith,CleanPath.components_toPath,CleanPath.components_toPath,List.isPrefixOf_iff_prefix] at front
      obtain ⟨more,rest⟩ := front
      obtain ⟨back,rfl,-⟩ := Component.exists_append_of_names (List.cons.inj rest).2
      exact ⟨back,rfl⟩
    · cases made

/-- The file beside a target has a name with a suffix. -/
theorem aside_toPath (ns : Place) (n : Name) : ∃ m : Name, m.octets = n.octets ++ Text.Utf8.encode ".tmp" ∧
    aside (CleanPath.absolute (ns ++ [n])).toPath = (CleanPath.absolute (ns ++ [m])).toPath := by
  have longer : ∀ bytes : List UInt8, bytes.length < 4 → n.octets ++ Text.Utf8.encode ".tmp" ≠ bytes := by
    rintro bytes short rfl
    have added : (n.octets ++ Text.Utf8.encode ".tmp").length = n.octets.length + 4 := List.length_append
    omega
  have plain : slash ∉ n.octets ++ Text.Utf8.encode ".tmp" := by
    rw [List.mem_append]
    exact not_or.mpr ⟨n.isName.2.2.2,by decide⟩
  obtain ⟨front,octets⟩ := CleanPath.octets_toPath_concat ns
  refine ⟨⟨n.octets ++ Text.Utf8.encode ".tmp",longer _ (by decide),longer _ (by decide),longer _ (by decide),plain⟩,rfl,?_⟩
  apply Path.ext
  rw [aside,Path.octets_ofOctets,octets,octets,List.append_assoc]

theorem place_aside (ns : Place) (n : Name) :
    ∃ m : Name, m ≠ n ∧ (aside (CleanPath.absolute (ns ++ [n])).toPath).place = ns ++ [m] := by
  obtain ⟨m,octets,path⟩ := aside_toPath ns n
  refine ⟨m,?_,by rw [path,Path.place_eq (CleanPath.clean_toPath _)]⟩
  rintro rfl
  have added : (m.octets ++ Text.Utf8.encode ".tmp").length = m.octets.length + 4 := List.length_append
  rw [← octets] at added
  omega

theorem place_aside_root : (aside (CleanPath.absolute []).toPath).place = [⟨".tmp",by decide⟩] := by
  decide

/-- A target below the output directory, or the root where that is the output directory. -/
def Inner (home : Place) (p : Path) : Prop := ∃ more, p = (CleanPath.absolute (home ++ more)).toPath ∧ (more = [] → home = [])

theorem Inner.path (inner : Inner home p) : ∃ more, p = (CleanPath.absolute (home ++ more)).toPath :=
  inner.imp fun _ facts => facts.1

theorem Inner.absolute (inner : Inner home p) : p.isAbsolute = true := by
  obtain ⟨more,rfl,-⟩ := inner
  exact CleanPath.isAbsolute_toPath _

theorem Inner.place_below (inner : Inner home p) (low : p.place ≠ []) : Below home p.place := by
  obtain ⟨more,rfl,root⟩ := inner
  rw [Path.place_eq (CleanPath.clean_toPath _)] at low ⊢
  cases more with
  | nil => exact absurd (by rw [root rfl,List.append_nil]) low
  | cons n more => exact ⟨n,more,rfl⟩

/-- The file beside such a target is below the output directory, too. -/
theorem Inner.aside_below (inner : Inner home p) : Below home (aside p).place := by
  obtain ⟨more,rfl,root⟩ := inner
  rcases List.eq_nil_or_concat more with rfl | ⟨before,last,rfl⟩
  · rw [root rfl,List.append_nil,place_aside_root]
    exact ⟨_,[],rfl⟩
  · rw [List.concat_eq_append,← List.append_assoc]
    obtain ⟨m,-,place⟩ := place_aside (home ++ before) last
    rw [place]
    cases before with
    | nil => exact ⟨m,[],by rw [List.append_nil]⟩
    | cons n before => exact ⟨n,before ++ [m],by rw [List.append_assoc,List.cons_append]⟩

theorem inner_or_directory {more : Place} (path : p = (CleanPath.absolute (home ++ more)).toPath) :
    Inner home p ∨ p = (CleanPath.absolute home).toPath ∧ home ≠ [] := by
  by_cases root : more = [] → home = []
  · exact .inl ⟨more,path,root⟩
  · obtain ⟨rfl,low⟩ := Classical.not_imp.mp root
    exact .inr ⟨by rw [path,List.append_nil],low⟩

/-! ## Steps of writing -/

theorem confined_cleanUp {ps : List Path} (inner : ∀ p ∈ ps, Inner home p) (d : Disk) : Confined home d (cleanUp d ps) := by
  induction ps generalizing d with
  | nil => exact .refl home d
  | cons p ps ih =>
    obtain ⟨first,others⟩ := List.forall_mem_cons.mp inner
    obtain ⟨d₁,removed,step⟩ | ⟨-,step⟩ := cleanUp_cons p ps d
    · rw [step]
      exact (Disk.confined_removeFile (isAbsolute_aside first.absolute) first.aside_below removed).trans (ih others d₁)
    · rw [step]
      exact ih others d

/-- The directories for a target, which may be the output directory, are on the way to it, or below. -/
theorem confined_ready {t : Target} {more : Place} (path : t.path = (CleanPath.absolute (home ++ more)).toPath) (d : Disk) :
    Confined home d (ready t d) := by
  unfold ready
  split
  · rename_i above parent
    have made : ∀ ns, above = (CleanPath.absolute ns).toPath → (ns <+: home ∨ home <+: ns) → Confined home d (d.makeDirAll above).2 := by
      rintro ns rfl way
      exact Disk.confined_makeDirs way _ d
    rw [path] at parent
    rcases List.eq_nil_or_concat more with rfl | ⟨before,last,rfl⟩
    · rw [List.append_nil] at parent
      rcases List.eq_nil_or_concat home with rfl | ⟨before,last,rfl⟩
      · exact absurd parent (by simp [show (CleanPath.absolute []).toPath.parent? = none by decide])
      · rw [List.concat_eq_append,CleanPath.parent?_toPath] at parent
        exact made before (Option.some.inj parent).symm (.inl (by rw [List.concat_eq_append]; exact List.prefix_append ..))
    · rw [List.concat_eq_append,← List.append_assoc,CleanPath.parent?_toPath] at parent
      exact made _ (Option.some.inj parent).symm (.inr (List.prefix_append ..))
  · exact .refl home d

theorem confined_writeAside {written : List Path} (inner : ∀ t ∈ ts, Inner home t.path)
    (done : writeAside written ts d = (.ok (),d')) : Confined home d d' := by
  induction ts generalizing written d with
  | nil =>
    cases done
    exact .refl home _
  | cons t ts ih =>
    obtain ⟨first,others⟩ := List.forall_mem_cons.mp inner
    obtain ⟨d₁,put,step⟩ | ⟨e,step⟩ := writeAside_step t d
    · rw [step] at done
      obtain ⟨more,path⟩ := first.path
      exact ((confined_ready path d).trans (Disk.confined_writeBytes (isAbsolute_aside first.absolute) (unterminated_aside t.path)
        first.aside_below put)).trans (ih others done)
    · rw [step] at done
      cases done

theorem confined_moveAll {all ps : List Path} (inner : ∀ p ∈ ps, Inner home p) (done : moveAll all ps d = (.ok (),d')) :
    Confined home d d' := by
  induction ps generalizing d with
  | nil =>
    cases done
    exact .refl home _
  | cons p ps ih =>
    obtain ⟨first,others⟩ := List.forall_mem_cons.mp inner
    obtain ⟨d₁,renamed,done⟩ := moveAll_cons_ok done
    exact (Disk.confined_rename (isAbsolute_aside first.absolute) first.absolute first.aside_below first.place_below renamed).trans
      (ih others done)

/-- No file is moved to a directory. -/
theorem moveAll_ne_ok {all ps : List Path} (linkless : d.Linkless) (absolute : ∀ p ∈ ps, p.isAbsolute = true) (member : p ∈ ps)
    (dir : d.node? p.place = some .dir) : moveAll all ps d ≠ (.ok (),d') := by
  induction ps generalizing d with
  | nil => exact absurd member List.not_mem_nil
  | cons r ps ih =>
    obtain ⟨first,others⟩ := List.forall_mem_cons.mp absolute
    rw [moveAll]
    cases renamed : d.rename (aside r) r with
    | error e => simp
    | ok d₁ =>
      rcases List.mem_cons.mp member with rfl | later
      · obtain ⟨_,_,-,-,file,-⟩ := rename_file linkless (isAbsolute_aside first) first renamed
        exact absurd dir file
      · have spares := spares_of_rename linkless (isAbsolute_aside first) first renamed
        exact ih (spares.linkless linkless) others later (spares.dirs _ dir)

theorem writeAside_append {written : List Path} {xs : List Target} (put : writeAside written xs d = (.ok (),d'))
    (ys : List Target) : writeAside written (xs ++ ys) d = writeAside (written ++ xs.map Target.path) ys d' := by
  induction xs generalizing written d with
  | nil =>
    cases put
    rw [List.nil_append,List.map_nil,List.append_nil]
  | cons t xs ih =>
    obtain ⟨d₁,-,step⟩ | ⟨e,step⟩ := writeAside_step t d
    · rw [step] at put
      rw [List.cons_append,step,ih put,List.map_cons,List.append_assoc]
      rfl
    · rw [step] at put
      cases put

theorem writeAside_front {written : List Path} {xs ys : List Target} (put : writeAside written (xs ++ ys) d = (.ok (),d')) :
    ∃ d₁, writeAside written xs d = (.ok (),d₁) := by
  induction xs generalizing written d with
  | nil => exact ⟨d,rfl⟩
  | cons t xs ih =>
    obtain ⟨d₁,-,step⟩ | ⟨e,step⟩ := writeAside_step t d
    · rw [List.cons_append,step] at put
      rw [step]
      exact ih put
    · rw [List.cons_append,step] at put
      cases put

/-! ## Whole runs -/

/-- The disks that writing passes through: directories are made, files are put beside their targets one by one, and moved
into place one by one. What is removed after that is missing in the end. -/
inductive Passes (disk : Disk) (bs : List Bundle) (dir : Path) (overwrite maps : Bool) : Disk → Prop where
  | start : Passes disk bs dir overwrite maps disk
  | made : Passes disk bs dir overwrite maps (disk.makeDirAll (directory disk dir)).2
  | beside {d d₁ : Disk} {front rest : List Target} (begun : Begun disk bs dir overwrite maps d (front ++ rest))
      (put : writeAside [] front d = (.ok (),d₁)) : Passes disk bs dir overwrite maps d₁
  | moved {d d₁ d₂ : Disk} {ts : List Target} {front rest : List Path} (begun : Begun disk bs dir overwrite maps d ts)
      (put : writeAside [] ts d = (.ok (),d₁)) (split : ts.map Target.path = front ++ rest)
      (move : moveAll (ts.map Target.path) front d₁ = (.ok (),d₂)) : Passes disk bs dir overwrite maps d₂
  | done : Passes disk bs dir overwrite maps (write disk bs dir overwrite maps).2

/-- A file is put beside the output directory, which is not the root: one of the targets is the output directory. -/
def Escapes (disk : Disk) (bs : List Bundle) (dir : Path) (overwrite maps : Bool) : Prop :=
  homeOf disk dir ≠ [] ∧ ∃ d front t rest d', Begun disk bs dir overwrite maps d (front ++ t :: rest) ∧
    t.path = directory disk dir ∧ writeAside [] (front ++ [t]) d = (.ok (),d')

theorem target_inside {t : Target} (begun : Begun disk bs dir overwrite maps d ts) (member : t ∈ ts) :
    ∃ more, t.path = (CleanPath.absolute (homeOf disk dir ++ more)).toPath := by
  obtain ⟨b,-,named,-,path,-⟩ := (targets_ok (isAbsolute_directory disk dir) begun.2 member).file
  rw [directory_eq] at path
  exact targetPath_inside path

/-- Files that could be put beside their targets are below the output directory. -/
theorem inner_of_put {front rest : List Target} (inside : ¬Escapes disk bs dir overwrite maps)
    (begun : Begun disk bs dir overwrite maps d (front ++ rest)) (put : writeAside [] front d = (.ok (),d')) :
    ∀ t ∈ front, Inner (homeOf disk dir) t.path := by
  intro t member
  obtain ⟨more,path⟩ := target_inside begun (List.mem_append_left rest member)
  refine (inner_or_directory path).resolve_right fun ⟨same,low⟩ => inside ⟨low,?_⟩
  obtain ⟨before,after,rfl⟩ := List.append_of_mem member
  rw [List.append_cons] at put
  obtain ⟨d₁,put⟩ := writeAside_front put
  exact ⟨d,before,t,after ++ rest,d₁,by simpa using begun,by rw [same,← directory_eq],put⟩

theorem inner_of_begun (inside : ¬Escapes disk bs dir overwrite maps) (begun : Begun disk bs dir overwrite maps d ts)
    (put : writeAside [] ts d = (.ok (),d')) : ∀ t ∈ ts, Inner (homeOf disk dir) t.path := by
  rw [← List.append_nil ts] at begun
  exact inner_of_put inside begun put

theorem confined_write (inside : ¬Escapes disk bs dir overwrite maps) (begun : Begun disk bs dir overwrite maps d ts) :
    Confined (homeOf disk dir) d (write disk bs dir overwrite maps).2 := by
  rw [write_of_begun begun]
  split
  · rename_i e d' put
    obtain ⟨front,t,rest,d₁,rfl,before,-,rfl⟩ := writeAside_error put
    have inner := inner_of_put inside begun before
    obtain ⟨more,path⟩ := target_inside begun (List.mem_append_right front List.mem_cons_self)
    exact ((confined_writeAside inner before).trans (confined_ready path d₁)).trans
      (confined_cleanUp (List.forall_mem_map.mpr inner) _)
  · rename_i d₁ put
    have inner := inner_of_begun inside begun put
    have inner' : ∀ p ∈ ts.map Target.path, Inner (homeOf disk dir) p := List.forall_mem_map.mpr inner
    have before := confined_writeAside inner put
    split
    · rename_i e d' move
      obtain ⟨front,p,rest,d₂,e',split,moved,-,rfl⟩ := moveAll_error move
      have front : ∀ p ∈ front, Inner (homeOf disk dir) p := fun p member => inner' p (split ▸ List.mem_append_left _ member)
      exact (before.trans (confined_moveAll front moved)).trans (confined_cleanUp inner' d₂)
    · rename_i d₂ move
      exact before.trans (confined_moveAll inner' move)

theorem confined_made (disk : Disk) (dir : Path) : Confined (homeOf disk dir) disk (disk.makeDirAll (directory disk dir)).2 := by
  rw [directory_eq]
  exact Disk.confined_makeDirs (.inl (List.prefix_refl _)) _ disk

theorem confined_begun (begun : Begun disk bs dir overwrite maps d ts) : Confined (homeOf disk dir) disk d := by
  have made := confined_made disk dir
  rwa [begun.1] at made

/-- Where no file is put beside the output directory, writing stays inside. -/
theorem passes_within (inside : ¬Escapes disk bs dir overwrite maps) (passed : Passes disk bs dir overwrite maps d) :
    Confined (homeOf disk dir) disk d := by
  cases passed with
  | start => exact .refl _ disk
  | made => exact confined_made disk dir
  | beside begun put => exact (confined_begun begun).trans (confined_writeAside (inner_of_put inside begun put) put)
  | @moved d d₁ d₂ ts front rest begun put split move =>
    have inner := inner_of_begun inside begun put
    have front : ∀ p ∈ front, Inner (homeOf disk dir) p := fun p member =>
      List.forall_mem_map.mpr inner p (split ▸ List.mem_append_left _ member)
    exact ((confined_begun begun).trans (confined_writeAside inner put)).trans (confined_moveAll front move)
  | done =>
    by_cases started : ∃ d ts, Begun disk bs dir overwrite maps d ts
    · obtain ⟨d,ts,begun⟩ := started
      exact (confined_begun begun).trans (confined_write inside begun)
    · rw [write_of_refused fun d ts begun => started ⟨d,ts,begun⟩]
      exact confined_made disk dir

/-! ## Going out -/

/-- The output directory is there when writing begins. -/
theorem isDir_of_begun (begun : Begun disk bs dir overwrite maps d ts) : d.isDir (directory disk dir) = true := by
  have made := begun.1
  rw [directory_eq] at made ⊢
  exact Disk.isDir_of_makeDirs _ made

/-- A file that could be put beside its target comes before one that could not. -/
theorem mem_of_stuck {front written rest rest' : List Target} {t t' : Target} {d₁ : Disk} {e : BundleError}
    (same : front ++ t :: rest = written ++ t' :: rest') (put : writeAside [] (front ++ [t]) d = (.ok (),d'))
    (before : writeAside [] written d = (.ok (),d₁)) (stuck : (writeAside [] [t'] d₁).1 = .error e) : t ∈ written := by
  have beyond : ¬written ++ [t'] <+: front ++ [t] := by
    rintro ⟨more,split⟩
    rw [← split] at put
    obtain ⟨d₂,put⟩ := writeAside_front put
    rw [writeAside_append before [t']] at put
    obtain ⟨d₃,-,step⟩ | ⟨e',step⟩ := writeAside_step t' d₁
    · rw [step] at stuck
      cases stuck
    · rw [step] at put
      cases put
  have first : front ++ [t] <+: front ++ t :: rest := ⟨rest,by simp⟩
  have second : written ++ [t'] <+: front ++ t :: rest := ⟨rest',by rw [same]; simp⟩
  rcases List.prefix_or_prefix_of_prefix first second with shorter | longer
  · rcases List.prefix_concat_iff.mp shorter with equal | inside
    · exact absurd (equal ▸ List.prefix_refl _) beyond
    · exact inside.subset (List.mem_append_right front List.mem_cons_self)
  · exact absurd longer beyond

/-- A file beside the output directory is there for some time, and not in the end: the output directory is no file that
could be replaced. -/
theorem gone_of_escapes (linkless : disk.Linkless) (escapes : Escapes disk bs dir overwrite maps) : ∃ q d', ¬Below (homeOf disk dir) q ∧
    ¬q <+: homeOf disk dir ∧ Passes disk bs dir overwrite maps d' ∧ (d'.bytes? q).isSome ∧
    (write disk bs dir overwrite maps).2.bytes? q = none := by
  obtain ⟨low,d,front,t,rest,d',begun,path,put⟩ := escapes
  have made := Disk.spares_makeDirAll disk (directory disk dir)
  rw [begun.1] at made
  have linkless' := made.linkless linkless
  have known : t ∈ front ++ t :: rest := List.mem_append_right front List.mem_cons_self
  have absolute : ∀ t' ∈ front ++ t :: rest, t'.path.isAbsolute = true := fun t' member => by
    obtain ⟨more,path⟩ := target_inside begun member
    exact path ▸ CleanPath.isAbsolute_toPath _
  obtain ⟨before,last,home⟩ : ∃ before last, homeOf disk dir = before ++ [last] := by
    rcases List.eq_nil_or_concat (homeOf disk dir) with none | ⟨before,last,home⟩
    · exact absurd none low
    · exact ⟨before,last,by rw [home,List.concat_eq_append]⟩
  obtain ⟨m,other,place⟩ := place_aside before last
  rw [← home,← directory_eq,← path] at place
  refine ⟨(aside t.path).place,d',?_,?_,.beside (by rwa [List.append_assoc]) put,?_,?_⟩
  · rintro ⟨n,more,below⟩
    have lengths := congrArg List.length (place.symm.trans below)
    simp [home] at lengths
  · intro above
    have equal : before ++ [m] = before ++ [last] := by
      rw [place,home] at above
      exact above.eq_of_length (by simp)
    exact other (List.singleton_inj.mp (List.append_cancel_left equal))
  · have front' : ∀ t' ∈ front ++ [t], t'.path.isAbsolute = true := fun t' member =>
      absolute t' (List.mem_append.mpr ((List.mem_append.mp member).imp id fun last => by simp [List.mem_singleton.mp last]))
    obtain ⟨u,-,there⟩ := (writeAside_ok linkless' front' put).bytes t (List.mem_append_right front List.mem_cons_self)
    rw [there]
    rfl
  · cases failed : write disk bs dir overwrite maps with
    | mk r disk' =>
      cases r with
      | error e =>
        obtain ⟨written,moved,d₁,stopped,left,rfl⟩ := write_error linkless failed
        have member : t.path ∈ written := by
          cases stopped with
          | early refused => exact absurd begun (refused _ _)
          | writing begun' before stuck =>
            cases begun.1.symm.trans begun'.1
            exact List.mem_map_of_mem (mem_of_stuck (Except.ok.inj (begun.2.symm.trans begun'.2)) put before stuck)
          | moving begun' split written before stuck =>
            cases begun.1.symm.trans begun'.1
            cases begun.2.symm.trans begun'.2
            exact List.mem_map_of_mem known
        rw [bytes?_cleanUp (left.spares.linkless linkless) left.absolute left.led]
        exact if_pos (List.mem_map_of_mem member)
      | ok paths =>
        rw [write_of_begun begun] at failed
        obtain ⟨q,led,directory⟩ := Disk.isDir_iff.mp (isDir_of_begun begun)
        rw [← path] at led
        rw [Disk.resolve_place linkless' (absolute t known) led] at directory
        split at failed
        · cases failed
        · rename_i d₁ put
          split at failed
          · cases failed
          · rename_i move
            have spares := (writeAside_ok linkless' absolute put).spares
            have there := spares.dirs _ directory
            exact absurd move (moveAll_ne_ok (spares.linkless linkless') (List.forall_mem_map.mpr absolute) (List.mem_map_of_mem known) there)

/-- What goes out is a name of the output directory itself, where files may be replaced. -/
theorem name_of_escapes (escapes : Escapes disk bs dir overwrite maps) : overwrite = true ∧ ∃ b ∈ bs,
    ∃ named ∈ contentsOf maps b, targetPath (directory disk dir) named.1 = .ok (directory disk dir) := by
  obtain ⟨-,d,front,t,rest,d',begun,path,-⟩ := escapes
  have checked := targets_ok (isAbsolute_directory disk dir) begun.2 (List.mem_append_right front List.mem_cons_self)
  obtain ⟨b,bundle,named,file,same,-⟩ := checked.file
  refine ⟨?_,b,bundle,named,file,same.trans (congrArg Except.ok path)⟩
  cases on : overwrite with
  | true => rfl
  | false =>
    have there := Disk.has_of_isDir (isDir_of_begun begun)
    rw [← path,checked.free on] at there
    cases there

/-- Where there are no links, writing stays inside the output directory all the time, unless a file is put beside the output directory itself. That
needs a name of the output directory, and that files may be replaced. -/
theorem passes_within_iff (linkless : disk.Linkless) : ((∀ d, Passes disk bs dir overwrite maps d → Within (homeOf disk dir) disk d) ↔
      ¬Escapes disk bs dir overwrite maps) ∧
    (Escapes disk bs dir overwrite maps → overwrite = true ∧ ∃ b ∈ bs, ∃ named ∈ contentsOf maps b,
      targetPath (directory disk dir) named.1 = .ok (directory disk dir)) := by
  refine ⟨⟨fun within escapes => ?_,fun inside d passed => (passes_within inside passed linkless).1⟩,name_of_escapes⟩
  obtain ⟨q,d',outside,apart,passed,there,gone⟩ := gone_of_escapes linkless escapes
  have unchanged : ∀ d, Passes disk bs dir overwrite maps d → d.bytes? q = disk.bytes? q := fun d passed => by
    rw [Disk.bytes?,Disk.bytes?,(within d passed q outside).resolve_right fun made => apart made.1]
  rw [unchanged d' passed,← unchanged _ .done,gone] at there
  cases there

/-- New files stay inside, also where one of them cannot be written. -/
theorem passes_within_new : blocked.Linkless ∧
    ∀ d, Passes blocked letters ⟨"/out"⟩ false false d → Within (homeOf blocked ⟨"/out"⟩) blocked d := by
  have iff := @passes_within_iff blocked ⟨"/out"⟩ false false letters linkless_blocked
  exact ⟨linkless_blocked,iff.1.mpr fun escapes => absurd (iff.2 escapes).1 Bool.false_ne_true⟩

/-- A directory for output with a file beside it. -/
def neighbours : Disk where
  workingDir := []
  nodes := [([⟨"dist",by decide⟩],.dir),([⟨"dist.tmp",by decide⟩],.file [0] false)]

/-- A bundle without a name. -/
def nameless : List Bundle := [{ chunk := 0, outputName := "", contents := "a" }]

/-- The place of the file beside the output directory. -/
def neighbour : Place := [⟨"dist.tmp",by decide⟩]

/-- The file beside the output directory is replaced, and then removed. -/
theorem neighbour_removed : neighbours.Linkless ∧ homeOf neighbours ⟨"/dist"⟩ = [⟨"dist",by decide⟩] ∧ neighbours.bytes? neighbour = some [0] ∧
    (write neighbours nameless ⟨"/dist"⟩ true false).2.bytes? neighbour = none ∧
    ¬∀ d, Passes neighbours nameless ⟨"/dist"⟩ true false d → Within (homeOf neighbours ⟨"/dist"⟩) neighbours d := by
  have home : homeOf neighbours ⟨"/dist"⟩ = [⟨"dist",by decide⟩] := by decide +kernel
  have before : neighbours.bytes? neighbour = some [0] := by decide +kernel
  have after : (write neighbours nameless ⟨"/dist"⟩ true false).2.bytes? neighbour = none := by decide +kernel
  refine ⟨Disk.linkless_of_nodes (by simp [neighbours]),home,before,after,fun within => ?_⟩
  have outside : ¬Below (homeOf neighbours ⟨"/dist"⟩) neighbour := by
    rintro ⟨n,more,below⟩
    rw [home] at below
    simp [neighbour] at below
  rcases within _ .done neighbour outside with same | ⟨way,-⟩
  · rw [Disk.bytes?,same,← Disk.bytes?,before] at after
    cases after
  · rw [home] at way
    exact absurd way (by decide)

end Output

end Bundling
