import Mathlib.Data.List.Forall2
import Bundling.Bundle.Output
import Bundling.Proofs.Disks

/-!
# Writing that fails

Whatever writing fails at, no file is left beside a target (`failed_write`). What it may have touched are the places beside
the targets that files had been written for, and the targets that had been replaced before a file could not be moved:
these are not brought back.
-/

namespace Bundling

/-- Where a list is gone through without an error, each item gives what stands in its place. -/
theorem forall₂_of_mapM_ok {α β ε : Type} {f : α → Except ε β} {xs : List α} {ys : List β} (done : xs.mapM f = .ok ys) :
    List.Forall₂ (fun x y => f x = .ok y) xs ys := by
  induction xs generalizing ys with
  | nil =>
    cases done
    exact .nil
  | cons x xs ih =>
    rw [List.mapM_cons] at done
    cases first : f x with
    | error e => simp [first,bind,Except.bind] at done
    | ok y =>
      cases others : xs.mapM f with
      | error e => simp [first,others,bind,Except.bind] at done
      | ok ys =>
        simp only [first,others,bind,Except.bind] at done
        cases done
        exact .cons first (ih others)

theorem mem_of_mapM_ok {α β ε : Type} {f : α → Except ε β} {xs : List α} {ys : List β} (done : xs.mapM f = .ok ys) {y : β}
    (member : y ∈ ys) : ∃ x ∈ xs, f x = .ok y := by
  obtain ⟨i,bound,rfl⟩ := List.getElem_of_mem member
  have pairs := forall₂_of_mapM_ok done
  have bound' : i < xs.length := pairs.length_eq ▸ bound
  exact ⟨xs[i],List.getElem_mem bound',pairs.get bound' bound⟩

namespace Output

open Disk (Spares)

variable {disk d d' : Disk} {dir p : Path} {overwrite maps : Bool} {bs : List Bundle} {ts : List Target}

/-! ## Targets -/

theorem isAbsolute_aside (absolute : p.isAbsolute = true) : (aside p).isAbsolute = true := by
  obtain ⟨rest,start⟩ := Path.octets_of_isAbsolute absolute
  simp [aside,Path.isAbsolute,start]

theorem unterminated_aside (p : Path) : Disk.unterminated (aside p) = aside p := by
  have octets : (aside p).octets = p.octets ++ [0x2E,0x74,0x6D,0x70] := rfl
  have kept : ((aside p).octets.reverse.dropWhile (· == Path.slash)).reverse = (aside p).octets := by
    rw [octets,List.reverse_append]
    exact (congrArg List.reverse (List.dropWhile_cons_of_neg (by decide))).trans (by simp)
  rw [Disk.unterminated,kept,if_neg (by simp [octets])]
  rfl

/-- The normal form of an absolute path is absolute. -/
theorem clean_toPath_of_isAbsolute (absolute : p.isAbsolute = true) : ∃ names, p.clean.toPath = (CleanPath.absolute names).toPath := by
  obtain ⟨names,led⟩ := Path.clean_of_isAbsolute absolute
  exact ⟨names,by rw [led]⟩

theorem isAbsolute_directory (disk : Disk) (dir : Path) : (directory disk dir).isAbsolute = true := by
  unfold directory
  split
  · exact CleanPath.isAbsolute_toPath _
  · simp only
    obtain ⟨names,same⟩ := clean_toPath_of_isAbsolute
      (Path.isAbsolute_join (CleanPath.isAbsolute_toPath disk.workingDir) dir.clean.toPath)
    rw [same]
    exact CleanPath.isAbsolute_toPath names

/-- A file of a bundle as it is to be written. -/
structure Checked (d : Disk) (dir : Path) (overwrite maps : Bool) (bs : List Bundle) (t : Target) : Prop where
  clean : ∃ names, t.path = (CleanPath.absolute names).toPath
  free : overwrite = false → d.has t.path = false
  file : ∃ b ∈ bs, ∃ named ∈ contentsOf maps b, targetPath dir named.1 = .ok t.path ∧ t.bytes = Text.Utf8.encode named.2

theorem Checked.absolute {t : Target} (checked : Checked d dir overwrite maps bs t) : t.path.isAbsolute = true := by
  obtain ⟨names,path⟩ := checked.clean
  exact path ▸ CleanPath.isAbsolute_toPath names

theorem targetPath_ok {name : String} (absolute : dir.isAbsolute = true) (made : targetPath dir name = .ok p) :
    ∃ names, p = (CleanPath.absolute names).toPath := by
  unfold targetPath at made
  split at made
  · cases made
  · simp only at made
    split at made
    · cases made
      exact clean_toPath_of_isAbsolute (Path.isAbsolute_join absolute _)
    · cases made

/-- A target is refused where it is there already. -/
theorem checkedTarget_ok {name : String} (checked : checkedTarget d dir overwrite name = .ok p) :
    targetPath dir name = .ok p ∧ (overwrite = false → d.has p = false) := by
  unfold checkedTarget at checked
  cases path : targetPath dir name with
  | error e => simp [path,bind,Except.bind] at checked
  | ok q =>
    simp only [path,bind,Except.bind] at checked
    split at checked
    · cases checked
    · rename_i may
      cases checked
      exact ⟨rfl,fun off => by simpa [off] using may⟩

/-- What a file of a bundle becomes. -/
theorem target_ok {name text : String} {t : Target}
    (checked : (do return { path := ← checkedTarget d dir overwrite name, bytes := Text.Utf8.encode text }) = Except.ok t) :
    checkedTarget d dir overwrite name = .ok t.path ∧ t.bytes = Text.Utf8.encode text := by
  cases path : checkedTarget d dir overwrite name with
  | error e => simp [path,bind,Except.bind] at checked
  | ok p =>
    simp only [path,bind,Except.bind] at checked
    cases checked
    exact ⟨rfl,rfl⟩

theorem targets_ok (absolute : dir.isAbsolute = true) (made : targets d dir overwrite maps bs = .ok ts) {t : Target}
    (member : t ∈ ts) : Checked d dir overwrite maps bs t := by
  obtain ⟨⟨name,text⟩,inside,checked⟩ := mem_of_mapM_ok made member
  obtain ⟨b,bundle,named⟩ := List.mem_flatMap.mp inside
  obtain ⟨allowed,bytes⟩ := target_ok checked
  obtain ⟨path,free⟩ := checkedTarget_ok allowed
  exact ⟨targetPath_ok absolute path,free,b,bundle,(name,text),named,path,bytes⟩

/-! ## Removing what was written beside targets -/

/-- Where the files beside targets are. -/
def sides (ps : List Path) : List Place := ps.map fun p => (aside p).place

/-- A path that leads to a place where no links are goes on doing so. -/
theorem resolve_of_spares {touched : List Place} {last : Bool} {q : Place} (linkless : d.Linkless) (spares : Spares touched d d')
    (absolute : p.isAbsolute = true) (led : d.resolve last p = .ok q) : d'.resolve last p = .ok q :=
  Disk.resolve_kept absolute spares.dirs (fun q => (spares.linkless linkless q).trans (linkless q).symm) led

/-- One file beside a target is removed, if it is there. -/
theorem cleanUp_cons (p : Path) (ps : List Path) (d : Disk) :
    (∃ d', d.removeFile (aside p) = .ok d' ∧ cleanUp d (p :: ps) = cleanUp d' ps) ∨
      (d.has (aside p) = false ∨ ∃ e, d.removeFile (aside p) = .error e) ∧ cleanUp d (p :: ps) = cleanUp d ps := by
  cases there : d.has (aside p) with
  | false => exact .inr ⟨.inl rfl,by simp only [cleanUp,there]⟩
  | true =>
    cases removed : d.removeFile (aside p) with
    | ok d' => exact .inl ⟨d',rfl,by simp only [cleanUp,there,removed]⟩
    | error e => exact .inr ⟨.inr ⟨e,rfl⟩,by simp only [cleanUp,there,removed]⟩

/-- No file beside a target is left, and no other one is gone. -/
theorem bytes?_cleanUp {ps : List Path} (linkless : d.Linkless) (absolute : ∀ p ∈ ps, p.isAbsolute = true)
    (led : ∀ p ∈ ps, d.locate (aside p) = .ok (aside p).place) (q : Place) :
    (cleanUp d ps).bytes? q = if q ∈ sides ps then none else d.bytes? q := by
  induction ps generalizing d with
  | nil => rfl
  | cons p ps ih =>
    have rest : ∀ q ∈ ps, q.isAbsolute = true := fun q member => absolute q (List.mem_cons_of_mem _ member)
    have here := led p List.mem_cons_self
    have here' := (Disk.entry_eq linkless (isAbsolute_aside (absolute p List.mem_cons_self))).mpr here
    obtain ⟨d₁,removed,step⟩ | ⟨kept,step⟩ := cleanUp_cons p ps d
    · obtain ⟨q',led',spares,gone⟩ := Disk.removeFile_ok removed
      obtain rfl : (aside p).place = q' := Except.ok.inj (here'.symm.trans led')
      have led₁ : ∀ q ∈ ps, d₁.locate (aside q) = .ok (aside q).place := fun q member =>
        resolve_of_spares linkless spares (isAbsolute_aside (rest q member)) (led q (List.mem_cons_of_mem _ member))
      rw [step,ih (spares.linkless linkless) rest led₁]
      by_cases same : q = (aside p).place
      · simp [sides,same,gone]
      · simp [sides,same,spares.files q (mt List.mem_singleton.mp same)]
    · have none : d.bytes? (aside p).place = none := by
        rcases kept with off | ⟨e,refused⟩
        · by_contra file
          obtain ⟨bytes,file⟩ := Option.ne_none_iff_exists'.mp file
          rw [Disk.has_of_bytes? here file] at off
          cases off
        · exact Disk.removeFile_error refused here'
      rw [step,ih linkless rest fun q member => led q (List.mem_cons_of_mem _ member)]
      by_cases same : q = (aside p).place
      · simp [sides,same,none]
      · simp [sides,same]

/-! ## Writing beside targets -/

/-- The disk with the directories that the file of a target needs, as far as they could be made. -/
def ready (t : Target) (d : Disk) : Disk :=
  match t.path.parent? with
  | some above => (d.makeDirAll above).2
  | none => d

theorem spares_ready (t : Target) (d : Disk) : Spares [] d (ready t d) := by
  unfold ready
  split
  · exact Disk.spares_makeDirAll ..
  · exact .refl d

/-- A file is put beside its target, or it is not, whatever was written before and is to be written behind it. -/
theorem writeAside_step (t : Target) (d : Disk) :
    (∃ d', (ready t d).writeBytes (aside t.path) t.bytes = .ok d' ∧
      ∀ written ts, writeAside written (t :: ts) d = writeAside (written ++ [t.path]) ts d') ∨
    ∃ e, ∀ written ts, writeAside written (t :: ts) d = (.error e,cleanUp (ready t d) written) := by
  cases parent : t.path.parent? with
  | none =>
    have same : ready t d = d := by rw [ready,parent]
    cases put : d.writeBytes (aside t.path) t.bytes with
    | ok d' => exact .inl ⟨d',by rw [same,put],fun written ts => by simp only [writeAside,parent,put]⟩
    | error e => exact .inr ⟨_,fun written ts => by simp only [writeAside,parent,put,same]; rfl⟩
  | some above =>
    have same : ready t d = (d.makeDirAll above).2 := by rw [ready,parent]
    cases made : d.makeDirAll above with
    | mk r d₁ =>
      rw [made] at same
      cases r with
      | error e => exact .inr ⟨_,fun written ts => by simp only [writeAside,parent,made,same]; rfl⟩
      | ok u =>
        cases put : d₁.writeBytes (aside t.path) t.bytes with
        | ok d' => exact .inl ⟨d',by rw [same,put],fun written ts => by simp only [writeAside,parent,made,put]⟩
        | error e => exact .inr ⟨_,fun written ts => by simp only [writeAside,parent,made,put,same]; rfl⟩

/-- Files that could be written are beside their targets, each with the text of one of them; nothing else is touched. -/
structure Beside (ts : List Target) (d d' : Disk) : Prop where
  spares : Spares (sides (ts.map Target.path)) d d'
  led : ∀ t ∈ ts, d'.locate (aside t.path) = .ok (aside t.path).place
  bytes : ∀ t ∈ ts, ∃ u ∈ ts, d'.bytes? (aside t.path).place = some u.bytes

theorem writeAside_ok {written : List Path} (linkless : d.Linkless) (absolute : ∀ t ∈ ts, t.path.isAbsolute = true)
    (done : writeAside written ts d = (.ok (),d')) : Beside ts d d' := by
  induction ts generalizing written d with
  | nil =>
    cases done
    exact ⟨.refl _,fun _ member => absurd member List.not_mem_nil,fun _ member => absurd member List.not_mem_nil⟩
  | cons t ts ih =>
    obtain ⟨d₂,put,step⟩ | ⟨e,step⟩ := writeAside_step t d
    · rw [step] at done
      have first := isAbsolute_aside (absolute t List.mem_cons_self)
      obtain ⟨q,led,spares,bytes⟩ := Disk.writeBytes_ok (unterminated_aside t.path) put
      have readied := (spares_ready t d).linkless linkless
      obtain rfl := Disk.resolve_place readied first led
      have rest := ih (spares.linkless readied) (fun u member => absolute u (List.mem_cons_of_mem _ member)) done
      refine ⟨((spares_ready t d).trans spares).trans rest.spares,?_,?_⟩
      · refine List.forall_mem_cons.mpr ⟨?_,rest.led⟩
        exact resolve_of_spares readied (spares.trans rest.spares) first led
      · refine List.forall_mem_cons.mpr ⟨?_,fun u member => ?_⟩
        · -- A later file may be at the same place.
          by_cases again : (aside t.path).place ∈ sides (ts.map Target.path)
          · obtain ⟨p,member,same⟩ := List.mem_map.mp again
            obtain ⟨u,inside,rfl⟩ := List.mem_map.mp member
            obtain ⟨v,inside',there⟩ := rest.bytes u inside
            exact ⟨v,List.mem_cons_of_mem _ inside',same ▸ there⟩
          · exact ⟨t,List.mem_cons_self,(rest.spares.files _ again).trans bytes⟩
        · obtain ⟨v,inside,there⟩ := rest.bytes u member
          exact ⟨v,List.mem_cons_of_mem _ inside,there⟩
    · rw [step] at done
      cases done

/-- Where a file cannot be written beside its target, those before it could, and they are removed. -/
theorem writeAside_error {written : List Path} {e : BundleError} (failed : writeAside written ts d = (.error e,d')) :
    ∃ done t rest d₁, ts = done ++ t :: rest ∧ writeAside written done d = (.ok (),d₁) ∧
      (writeAside [] [t] d₁).1 = .error e ∧ d' = cleanUp (ready t d₁) (written ++ done.map Target.path) := by
  induction ts generalizing written d with
  | nil => cases failed
  | cons t ts ih =>
    obtain ⟨d₂,-,step⟩ | ⟨e',step⟩ := writeAside_step t d
    · rw [step] at failed
      obtain ⟨done,t',rest,d₁,rfl,before,stuck,clean⟩ := ih failed
      refine ⟨t :: done,t',rest,d₁,rfl,by rw [step,before],stuck,?_⟩
      rw [clean,List.append_assoc]
      rfl
    · rw [step] at failed
      cases failed
      exact ⟨[],t,ts,d,rfl,rfl,by rw [step],by rw [List.map_nil,List.append_nil]⟩

/-! ## Moving files into place -/

/-- Where all files are moved, the first one is, and then the others. -/
theorem moveAll_cons_ok {all ps : List Path} (done : moveAll all (p :: ps) d = (.ok (),d')) :
    ∃ d₁, d.rename (aside p) p = .ok d₁ ∧ moveAll all ps d₁ = (.ok (),d') := by
  rw [moveAll] at done
  cases renamed : d.rename (aside p) p with
  | error e => simp [renamed] at done
  | ok d₁ =>
    rw [renamed] at done
    exact ⟨d₁,rfl,done⟩

/-- Where a file cannot be moved, those before it were, and all files beside targets are removed. -/
theorem moveAll_error {all ps : List Path} {e : BundleError} (failed : moveAll all ps d = (.error e,d')) :
    ∃ moved p rest d₁ e', ps = moved ++ p :: rest ∧ moveAll all moved d = (.ok (),d₁) ∧
      d₁.rename (aside p) p = .error e' ∧ d' = cleanUp d₁ all := by
  induction ps generalizing d with
  | nil => cases failed
  | cons p ps ih =>
    rw [moveAll] at failed
    cases renamed : d.rename (aside p) p with
    | ok d₁ =>
      rw [renamed] at failed
      obtain ⟨moved,p',rest,d₂,e',rfl,before,stuck,clean⟩ := ih failed
      exact ⟨p :: moved,p',rest,d₂,e',rfl,by rw [moveAll,renamed]; exact before,stuck,clean⟩
    | error e' =>
      rw [renamed] at failed
      cases failed
      exact ⟨[],p,ps,d,e',rfl,rfl,renamed,rfl⟩

/-- Files that could be moved are in their places, with one of some texts; nothing else is touched. -/
structure Moved (texts : List (List UInt8)) (all ps : List Path) (d d' : Disk) : Prop where
  spares : Spares (sides ps ++ ps.map Path.place) d d'
  led : ∀ p ∈ ps, d'.locate p = .ok p.place
  bytes : ∀ p ∈ ps, p.place ∉ sides all → ∃ text ∈ texts, d'.bytes? p.place = some text

/-- The files beside targets have some texts. -/
def Texts (texts : List (List UInt8)) (all : List Path) (d : Disk) : Prop :=
  ∀ q ∈ sides all, ∀ text, d.bytes? q = some text → text ∈ texts

/-- Where there are no links, a file is moved from one place to the other. -/
theorem rename_file {source target : Path} (linkless : d.Linkless) (absolute : source.isAbsolute = true)
    (absolute' : target.isAbsolute = true) (renamed : d.rename source target = .ok d') :
    ∃ bytes executable, d.node? source.place = some (.file bytes executable) ∧ d.locate target = .ok target.place ∧
      d.node? target.place ≠ some .dir ∧
      ∀ r, d'.node? r = if r = target.place then some (.file bytes executable) else if r = source.place then none else d.node? r := by
  obtain ⟨p,q,n,led,led',here,other,free,nodes⟩ := Disk.rename_ok renamed
  obtain rfl := Disk.resolve_place linkless absolute led
  obtain rfl := Disk.resolve_place linkless absolute' led'
  have there := (Disk.entry_eq linkless absolute').mp led'
  cases n with
  | dir => exact absurd rfl other
  | link target => cases (linkless _).symm.trans (Disk.link?_eq_some_iff.mpr here)
  | file bytes executable => exact ⟨bytes,executable,here,there,free,nodes⟩

theorem spares_of_rename {source target : Path} (linkless : d.Linkless) (absolute : source.isAbsolute = true)
    (absolute' : target.isAbsolute = true) (renamed : d.rename source target = .ok d') :
    Spares [source.place,target.place] d d' := by
  obtain ⟨p,q,led,led',spares⟩ := Disk.spares_rename renamed
  rwa [Disk.resolve_place linkless absolute led,Disk.resolve_place linkless absolute' led'] at spares

/-- What is moved into place was beside it; what is beside targets then still has one of the texts. -/
theorem rename_texts {texts : List (List UInt8)} {all : List Path} (linkless : d.Linkless) (absolute : p.isAbsolute = true)
    (known : p ∈ all) (before : Texts texts all d) (renamed : d.rename (aside p) p = .ok d') :
    d'.locate p = .ok p.place ∧ (∃ text ∈ texts, d'.bytes? p.place = some text) ∧ Texts texts all d' := by
  have spares := spares_of_rename linkless (isAbsolute_aside absolute) absolute renamed
  obtain ⟨bytes,executable,beside,led,-,nodes⟩ := rename_file linkless (isAbsolute_aside absolute) absolute renamed
  have text : bytes ∈ texts := before _ (List.mem_map_of_mem known) bytes (Disk.bytes?_of_file beside)
  have moved := Disk.bytes?_of_file ((nodes p.place).trans (if_pos rfl))
  refine ⟨resolve_of_spares linkless spares absolute led,⟨bytes,text,moved⟩,fun q inside other there => ?_⟩
  by_cases target : q = p.place
  · rw [target,moved] at there
    cases there
    exact text
  · by_cases source : q = (aside p).place
    · rw [Disk.bytes?,nodes,if_neg target,if_pos source] at there
      cases there
    · rw [spares.files q (by simp [source,target])] at there
      exact before q inside other there

theorem moveAll_ok {texts : List (List UInt8)} {all all' ps : List Path} (linkless : d.Linkless) (absolute : ∀ p ∈ ps, p.isAbsolute = true)
    (known : ∀ p ∈ ps, p ∈ all) (before : Texts texts all d) (done : moveAll all' ps d = (.ok (),d')) :
    Moved texts all ps d d' := by
  induction ps generalizing d with
  | nil =>
    cases done
    exact ⟨.refl _,fun _ member => absurd member List.not_mem_nil,fun _ member => absurd member List.not_mem_nil⟩
  | cons p ps ih =>
    obtain ⟨d₁,renamed,done⟩ := moveAll_cons_ok done
    obtain ⟨absolute,absolutes⟩ := List.forall_mem_cons.mp absolute
    obtain ⟨known,knowns⟩ := List.forall_mem_cons.mp known
    have spares := spares_of_rename linkless (isAbsolute_aside absolute) absolute renamed
    obtain ⟨led,⟨text,member,moved⟩,after⟩ := rename_texts linkless absolute known before renamed
    have rest := ih (spares.linkless linkless) absolutes knowns after done
    refine ⟨(spares.trans rest.spares).mono ?_,List.forall_mem_cons.mpr ⟨?_,rest.led⟩,
      List.forall_mem_cons.mpr ⟨fun apart => ?_,rest.bytes⟩⟩
    · intro q
      simp only [sides,List.mem_append,List.mem_cons,List.map_cons,List.not_mem_nil,or_false]
      tauto
    · exact resolve_of_spares (spares.linkless linkless) rest.spares absolute led
    · -- The target may be moved to again.
      by_cases again : p.place ∈ ps.map Path.place
      · obtain ⟨r,inside,same⟩ := List.mem_map.mp again
        exact same ▸ rest.bytes r inside (same ▸ apart)
      · have others : p.place ∉ sides ps := fun inside => apart (List.map_subset _ knowns inside)
        exact ⟨text,member,by rw [rest.spares.files _ (by simp [again,others]),moved]⟩

/-! ## Failures -/

/-- What is to be written, where the output directory could be made and no target is refused. -/
def Begun (disk : Disk) (bs : List Bundle) (dir : Path) (overwrite maps : Bool) (d : Disk) (ts : List Target) : Prop :=
  disk.makeDirAll (directory disk dir) = (.ok (),d) ∧ targets d (directory disk dir) overwrite maps bs = .ok ts

/-- How far writing came before it failed: the targets that files had been written beside, and those of them that had
been moved to. -/
inductive Stopped (disk : Disk) (bs : List Bundle) (dir : Path) (overwrite maps : Bool) : List Path → List Path → Prop where
  | early (refused : ∀ d ts, ¬Begun disk bs dir overwrite maps d ts) : Stopped disk bs dir overwrite maps [] []
  | writing {d d₁ : Disk} {written rest : List Target} {t : Target} {e : BundleError}
      (begun : Begun disk bs dir overwrite maps d (written ++ t :: rest)) (before : writeAside [] written d = (.ok (),d₁))
      (stuck : (writeAside [] [t] d₁).1 = .error e) : Stopped disk bs dir overwrite maps (written.map Target.path) []
  | moving {d d₁ d₂ : Disk} {ts : List Target} {moved rest : List Path} {p : Path} {e : DiskError}
      (begun : Begun disk bs dir overwrite maps d ts) (split : ts.map Target.path = moved ++ p :: rest)
      (written : writeAside [] ts d = (.ok (),d₁)) (before : moveAll (ts.map Target.path) moved d₁ = (.ok (),d₂))
      (stuck : d₂.rename (aside p) p = .error e) : Stopped disk bs dir overwrite maps (ts.map Target.path) moved

/-- The disk before the files beside targets are removed. -/
structure Left (disk : Disk) (bs : List Bundle) (overwrite maps : Bool) (written moved : List Path) (d : Disk) : Prop where
  absolute : ∀ p ∈ written, p.isAbsolute = true
  led : ∀ p ∈ written, d.locate (aside p) = .ok (aside p).place
  spares : Spares (sides written ++ moved.map Path.place) disk d
  texts : ∀ p ∈ moved, p.place ∉ sides written → ∃ b ∈ bs, ∃ named ∈ contentsOf maps b,
    d.bytes? p.place = some (Text.Utf8.encode named.2)
  new : overwrite = false → disk.Rooted → ∀ p ∈ moved, disk.bytes? p.place = none

theorem left_early (spares : Spares [] disk d) : Left disk bs overwrite maps [] [] d where
  absolute _ member := absurd member List.not_mem_nil
  led _ member := absurd member List.not_mem_nil
  spares := spares
  texts _ member := absurd member List.not_mem_nil
  new _ _ _ member := absurd member List.not_mem_nil

theorem left_writing {written : List Target} {d₁ d₂ : Disk} (linkless : disk.Linkless) (made : Spares [] disk d)
    (checked : ∀ t ∈ written, t.path.isAbsolute = true) (beside : Beside written d d₁) (spares : Spares [] d₁ d₂) :
    Left disk bs overwrite maps (written.map Target.path) [] d₂ where
  absolute := List.forall_mem_map.mpr checked
  led := List.forall_mem_map.mpr fun t member =>
    resolve_of_spares ((made.trans beside.spares).linkless linkless) spares (isAbsolute_aside (checked t member))
      (beside.led t member)
  spares := (made.trans beside.spares).trans spares
  texts _ member := absurd member List.not_mem_nil
  new _ _ _ member := absurd member List.not_mem_nil

theorem left_moving {moved : List Path} {d₁ d₂ : Disk} (linkless : disk.Linkless) (made : Spares [] disk d)
    (checked : ∀ t ∈ ts, Checked d dir overwrite maps bs t) (front : ∀ p ∈ moved, p ∈ ts.map Target.path) (beside : Beside ts d d₁)
    (before : moveAll (ts.map Target.path) moved d₁ = (.ok (),d₂)) :
    Left disk bs overwrite maps (ts.map Target.path) moved d₂ := by
  have absolute : ∀ p ∈ ts.map Target.path, p.isAbsolute = true :=
    List.forall_mem_map.mpr fun t member => (checked t member).absolute
  have texts : Texts (ts.map Target.bytes) (ts.map Target.path) d₁ := by
    intro q side text there
    obtain ⟨p,member,rfl⟩ := List.mem_map.mp side
    obtain ⟨t,inside,rfl⟩ := List.mem_map.mp member
    obtain ⟨u,inside',there'⟩ := beside.bytes t inside
    exact List.mem_map.mpr ⟨u,inside',Option.some.inj (there'.symm.trans there)⟩
  have linkless₁ := (made.trans beside.spares).linkless linkless
  have after := moveAll_ok linkless₁ (fun p member => absolute p (front p member)) front texts before
  refine ⟨absolute,List.forall_mem_map.mpr fun t member => ?_,?_,fun p member apart => ?_,fun off rooted p member => ?_⟩
  · exact resolve_of_spares linkless₁ after.spares (isAbsolute_aside (absolute _ (List.mem_map_of_mem member)))
      (beside.led t member)
  · refine ((made.trans beside.spares).trans after.spares).mono fun q => ?_
    have sub : q ∈ sides moved → q ∈ sides (ts.map Target.path) := fun inside => List.map_subset _ front inside
    simp only [List.mem_append,List.not_mem_nil,false_or]
    tauto
  · obtain ⟨text,member,there⟩ := after.bytes p member apart
    obtain ⟨t,inside,rfl⟩ := List.mem_map.mp member
    obtain ⟨b,bundle,named,file,-,text⟩ := (checked t inside).file
    exact ⟨b,bundle,named,file,text ▸ there⟩
  · obtain ⟨t,inside,rfl⟩ := List.mem_map.mp (front p member)
    obtain ⟨names,path⟩ := (checked t inside).clean
    have led := after.led _ member
    rw [path] at led ⊢
    rw [Path.place_eq (CleanPath.clean_toPath names)] at led ⊢
    rw [← Option.not_isSome_iff_eq_none]
    intro there
    obtain ⟨bytes,there⟩ := Option.isSome_iff_exists.mp there
    have before := Disk.locate_of_bytes? linkless (after.spares.linkless linkless₁) rooted there led
    have led := resolve_of_spares linkless made (CleanPath.isAbsolute_toPath names) before
    have found := Disk.has_of_bytes? led ((made.files names List.not_mem_nil).trans there)
    rw [← path,(checked t inside).free off] at found
    cases found

/-- What is refused early leaves what making the output directory left. -/
theorem write_of_refused (refused : ∀ d ts, ¬Begun disk bs dir overwrite maps d ts) :
    (write disk bs dir overwrite maps).2 = (disk.makeDirAll (directory disk dir)).2 := by
  unfold write
  cases made : disk.makeDirAll (directory disk dir) with
  | mk r d =>
    cases r with
    | error e => simp only [made]
    | ok u =>
      cases checked : targets d (directory disk dir) overwrite maps bs with
      | error e => simp only [made,checked]
      | ok ts => exact absurd ⟨made,checked⟩ (refused d ts)

theorem write_of_begun (begun : Begun disk bs dir overwrite maps d ts) : write disk bs dir overwrite maps =
    match writeAside [] ts d with
    | (.error e,d) => (.error e,d)
    | (.ok (),d) =>
      match moveAll (ts.map Target.path) (ts.map Target.path) d with
      | (.error e,d) => (.error e,d)
      | (.ok (),d) => (.ok (ts.map Target.path),d) := by
  cases put : writeAside [] ts d with
  | mk r d₁ =>
    cases r with
    | error e => simp only [write,begun.1,begun.2,put]
    | ok u =>
      cases move : moveAll (ts.map Target.path) (ts.map Target.path) d₁ with
      | mk r d₂ => cases r <;> simp only [write,begun.1,begun.2,put,move]

/-- Writing that fails stops somewhere, and then removes the files beside targets. -/
theorem write_error {e : BundleError} {disk' : Disk} (linkless : disk.Linkless) (failed : write disk bs dir overwrite maps = (.error e,disk')) :
    ∃ written moved d, Stopped disk bs dir overwrite maps written moved ∧ Left disk bs overwrite maps written moved d ∧
      disk' = cleanUp d written := by
  have spares := Disk.spares_makeDirAll disk (directory disk dir)
  by_cases started : ∃ d ts, Begun disk bs dir overwrite maps d ts
  · obtain ⟨d,ts,begun⟩ := started
    have checked : ∀ t ∈ ts, Checked d (directory disk dir) overwrite maps bs t := fun t => targets_ok (isAbsolute_directory disk dir) begun.2
    have absolute : ∀ t ∈ ts, t.path.isAbsolute = true := fun t member => (checked t member).absolute
    rw [begun.1] at spares
    have linkless' := spares.linkless linkless
    rw [write_of_begun begun] at failed
    split at failed
    · rename_i put
      cases failed
      obtain ⟨written,t,rest,d₁,rfl,before,stuck,clean⟩ := writeAside_error put
      have front : ∀ t ∈ written, t.path.isAbsolute = true := fun t member => absolute t (List.mem_append_left _ member)
      exact ⟨_,[],_,.writing begun before stuck,left_writing linkless spares front (writeAside_ok linkless' front before) (spares_ready t d₁),
        clean⟩
    · rename_i d₁ put
      split at failed
      · rename_i move
        cases failed
        obtain ⟨moved,p,rest,d₂,e',split,before,stuck,clean⟩ := moveAll_error move
        have front : ∀ p ∈ moved, p ∈ ts.map Target.path := fun p member => split ▸ List.mem_append_left _ member
        have beside := writeAside_ok linkless' absolute put
        exact ⟨_,moved,d₂,.moving begun split put before stuck,left_moving linkless spares checked front beside before,clean⟩
      · cases failed
  · have refused : ∀ d ts, ¬Begun disk bs dir overwrite maps d ts := fun d ts begun => started ⟨d,ts,begun⟩
    obtain rfl : disk' = (disk.makeDirAll (directory disk dir)).2 := by rw [← write_of_refused refused,failed]
    exact ⟨[],[],_,.early refused,left_early spares,rfl⟩

/-- Where writing fails on a disk without links, no file is left beside a target. Nothing is touched but the places beside the targets that files
had been written for, and the targets that had been moved to, which have the texts of bundles; without `overwrite` these
were not there. So the files there were before are kept exactly if none was beside these targets, and those that had been
moved to were not there or had the same text. -/
theorem failed_write {e : BundleError} {disk' : Disk} (linkless : disk.Linkless) (failed : write disk bs dir overwrite maps = (.error e,disk')) :
    ∃ written moved, Stopped disk bs dir overwrite maps written moved ∧
      (∀ p ∈ written, disk'.bytes? (aside p).place = none) ∧
      (∀ q ∉ sides written, q ∉ moved.map Path.place → disk'.bytes? q = disk.bytes? q) ∧
      (∀ p ∈ moved, p.place ∉ sides written → ∃ b ∈ bs, ∃ named ∈ contentsOf maps b,
        disk'.bytes? p.place = some (Text.Utf8.encode named.2)) ∧
      (overwrite = false → disk.Rooted → ∀ p ∈ moved, disk.bytes? p.place = none) ∧
      (disk.Keeps disk' ↔ (∀ p ∈ written, disk.bytes? (aside p).place = none) ∧
        ∀ p ∈ moved, ∀ bytes, disk.bytes? p.place = some bytes → disk'.bytes? p.place = some bytes) := by
  obtain ⟨written,moved,d,stopped,left,rfl⟩ := write_error linkless failed
  have after := bytes?_cleanUp (left.spares.linkless linkless) left.absolute left.led
  have gone : ∀ p ∈ written, (cleanUp d written).bytes? (aside p).place = none := fun p member => by
    rw [after]
    exact if_pos (List.mem_map_of_mem member)
  have others : ∀ q ∉ sides written, q ∉ moved.map Path.place → (cleanUp d written).bytes? q = disk.bytes? q := by
    intro q side target
    rw [after,if_neg side,left.spares.files q (by simp only [List.mem_append]; tauto)]
  refine ⟨written,moved,stopped,gone,others,fun p member apart => ?_,left.new,
    fun keeps => ⟨fun p member => ?_,fun p _ => keeps p.place⟩,?_⟩
  · rw [after,if_neg apart]
    exact left.texts p member apart
  · cases there : disk.bytes? (aside p).place with
    | none => rfl
    | some bytes => exact absurd ((gone p member).symm.trans (keeps _ bytes there)) (by simp)
  · rintro ⟨free,same⟩ q bytes there
    by_cases side : q ∈ sides written
    · obtain ⟨p,member,rfl⟩ := List.mem_map.mp side
      cases (free p member).symm.trans there
    · by_cases target : q ∈ moved.map Path.place
      · obtain ⟨p,member,rfl⟩ := List.mem_map.mp target
        exact same p member bytes there
      · exact (others q side target).trans there

/-- The place of the bundle `a.js`. -/
def older : Place := [⟨"out",by decide⟩,⟨"a.js",by decide⟩]

/-- A disk with an older bundle, and a directory in the way of another one. -/
def blocked : Disk where
  workingDir := []
  nodes := [([⟨"out",by decide⟩],.dir),(older,.file [0] false),([⟨"out",by decide⟩,⟨"b.js",by decide⟩],.dir)]

/-- Two bundles of one letter. -/
def letters : List Bundle :=
  [{ chunk := 0, outputName := "a.js", contents := "a" },{ chunk := 1, outputName := "b.js", contents := "b" }]

theorem linkless_blocked : blocked.Linkless := Disk.linkless_of_nodes (by simp [blocked])

theorem write_blocked : (write blocked letters ⟨"/out"⟩ true false).1.isOk = false ∧
    (write blocked letters ⟨"/out"⟩ true false).2.bytes? older = some [97] := by
  decide +kernel

theorem failed_write_blocked : ∃ e disk', write blocked letters ⟨"/out"⟩ true false = (.error e,disk') ∧
    ∃ written moved, Stopped blocked letters ⟨"/out"⟩ true false written moved ∧
      (∀ p ∈ written, disk'.bytes? (aside p).place = none) ∧
      (∀ q ∉ sides written, q ∉ moved.map Path.place → disk'.bytes? q = blocked.bytes? q) := by
  have split : ∀ r : Except BundleError (List Path) × Disk, r.1.isOk = false → ∃ e disk', r = (.error e,disk') := by
    rintro ⟨e | paths,disk'⟩ failed
    · exact ⟨e,disk',rfl⟩
    · cases failed
  obtain ⟨e,disk',failed⟩ := split _ write_blocked.1
  obtain ⟨written,moved,stopped,gone,others,-⟩ := failed_write linkless_blocked failed
  exact ⟨e,disk',failed,written,moved,stopped,gone,others⟩

/-- The older bundle is lost, though writing failed. -/
theorem older_lost : (write blocked letters ⟨"/out"⟩ true false).1.isOk = false ∧ blocked.bytes? older = some [0] ∧
    (write blocked letters ⟨"/out"⟩ true false).2.bytes? older = some [97] ∧
    ¬blocked.Keeps (write blocked letters ⟨"/out"⟩ true false).2 := by
  have before : blocked.bytes? older = some [0] := by decide +kernel
  refine ⟨write_blocked.1,before,write_blocked.2,fun keeps => ?_⟩
  have kept := keeps older [0] before
  rw [write_blocked.2] at kept
  simp at kept

end Output

end Bundling
