import Bundling.Proofs.Placement
import Bundling.Store.Disk

/-!
# What operations do to a disk

What it is to follow a path is the relation `Leads`, over as many links as are allowed. No operation takes a directory
away, so a path that leads to a place goes on leading there unless a link on the way is replaced (`resolve_kept`). And each
operation names the places that it touches: none to make directories, one to write or to remove a file, two to move one.
`Spares` adds up along a run of operations.

Where a disk has no links, a path leads to where its text says (`locate_place`), and its end stands for itself
(`entry_eq`).
-/

namespace Bundling

open Bundling.Path (slash dot)

namespace Disk

variable {d d' d'' : Disk} {p q : Place}

/-! ## Nodes -/

/-- The octets of the file at a place. -/
def bytes? (d : Disk) (p : Place) : Option (List UInt8) :=
  match d.node? p with
  | some (.file bytes _) => some bytes
  | _ => none

theorem bytes?_of_file {bytes : List UInt8} {executable : Bool} (here : d.node? p = some (.file bytes executable)) :
    d.bytes? p = some bytes := by rw [bytes?,here]

theorem file_of_bytes? {bytes : List UInt8} (here : d.bytes? p = some bytes) :
    ∃ executable, d.node? p = some (.file bytes executable) := by
  unfold bytes? at here
  split at here
  · rename_i executable found
    cases here
    exact ⟨executable,found⟩
  · cases here

/-- What the link at a place leads to. -/
def link? (d : Disk) (p : Place) : Option Path :=
  match d.node? p with
  | some (.link target) => some target
  | _ => none

theorem link?_eq_some_iff {target : Path} : d.link? p = some target ↔ d.node? p = some (.link target) := by
  unfold link?
  split
  · rename_i found
    rw [found,Option.some_inj,Option.some_inj,Node.link.injEq]
  · rename_i other
    exact iff_of_false nofun (other target)

theorem link?_of_node? {n : Node} (here : d.node? p = some n) (other : ∀ target, n ≠ .link target) : d.link? p = none := by
  by_contra linked
  obtain ⟨target,linked⟩ := Option.ne_none_iff_exists'.mp linked
  exact other target (Option.some.inj (here.symm.trans (link?_eq_some_iff.mp linked)))

theorem link?_of_none (free : d.node? p = none) : d.link? p = none := by rw [link?,free]

/-- No node is a link. -/
def Linkless (d : Disk) : Prop := ∀ p, d.link? p = none

theorem linkless_of_nodes (plain : ∀ m ∈ d.nodes, ∀ target, m.2 ≠ .link target) : d.Linkless := by
  intro p
  by_contra linked
  obtain ⟨target,linked⟩ := Option.ne_none_iff_exists'.mp linked
  rw [link?_eq_some_iff,node?] at linked
  split at linked
  · cases linked
  · obtain ⟨before,after,split,-⟩ := List.lookup_eq_some_iff.mp linked
    exact plain (p,.link target) (split ▸ List.mem_append_right before List.mem_cons_self) target rfl

theorem ne_root_of_not_dir (file : d.node? p ≠ some .dir) : p ≠ [] := fun root => file (by rw [root]; rfl)

theorem node?_setNode (low : p ≠ []) (n : Node) : (d.setNode p n).node? q = if q = p then some n else d.node? q := by
  unfold node? setNode
  by_cases root : q = []
  · simp [root,Ne.symm low]
  · simp only [root,if_false,lookup_assign]

theorem node?_dropNode (low : p ≠ []) : (d.dropNode p).node? q = if q = p then none else d.node? q := by
  unfold node? dropNode
  by_cases root : q = []
  · simp [root,Ne.symm low]
  · simp only [root,if_false,lookup_filter_ne]

/-- Directories stay, and what is in files and where links lead stays but for some places. Where there is no link, none
is made. -/
structure Spares (touched : List Place) (d d' : Disk) : Prop where
  dirs : ∀ q, d.node? q = some .dir → d'.node? q = some .dir
  files : ∀ q ∉ touched, d'.bytes? q = d.bytes? q
  links : ∀ q ∉ touched, d'.link? q = d.link? q
  linkless : d.Linkless → d'.Linkless

/-- The files of a disk are there on another, with the same octets. -/
def Keeps (d d' : Disk) : Prop := ∀ p bytes, d.bytes? p = some bytes → d'.bytes? p = some bytes

theorem Spares.refl (d : Disk) : Spares [] d d := ⟨fun _ here => here,fun _ _ => rfl,fun _ _ => rfl,id⟩

theorem Spares.trans {first second : List Place} (before : Spares first d d') (after : Spares second d' d'') :
    Spares (first ++ second) d d'' := by
  refine ⟨fun q here => after.dirs q (before.dirs q here),fun q spared => ?_,fun q spared => ?_,
    fun linkless => after.linkless (before.linkless linkless)⟩
  all_goals rw [List.mem_append,not_or] at spared
  · rw [after.files q spared.2,before.files q spared.1]
  · rw [after.links q spared.2,before.links q spared.1]

theorem Spares.mono {few many : List Place} (spares : Spares few d d') (sub : few ⊆ many) : Spares many d d' :=
  ⟨spares.dirs,fun q spared => spares.files q fun member => spared (sub member),
    fun q spared => spares.links q fun member => spared (sub member),spares.linkless⟩

/-- What is changed at some places only: directories stay, and no link comes where there is none. -/
theorem spares_of_nodes {touched : List Place} (others : ∀ q ∉ touched, d'.node? q = d.node? q)
    (dirs : ∀ q ∈ touched, d.node? q = some .dir → d'.node? q = some .dir)
    (plain : d.Linkless → ∀ q ∈ touched, d'.link? q = none) : Spares touched d d' where
  dirs q here := if member : q ∈ touched then dirs q member here else (others q member).trans here
  files q other := by rw [bytes?,bytes?,others q other]
  links q other := by rw [link?,link?,others q other]
  linkless linkless q := if member : q ∈ touched then plain linkless q member else by
    rw [link?,others q member]
    exact linkless q

/-- A file may come where no directory is. -/
theorem spares_setFile (file : d.node? p ≠ some .dir) (bytes : List UInt8) (executable : Bool) :
    Spares [p] d (d.setNode p (.file bytes executable)) ∧ (d.setNode p (.file bytes executable)).bytes? p = some bytes := by
  have nodes := fun q => @node?_setNode d p q (ne_root_of_not_dir file) (.file bytes executable)
  have there := (nodes p).trans (if_pos rfl)
  refine ⟨spares_of_nodes (fun q other => ?_) (fun q member here => ?_) (fun _ q member => ?_),bytes?_of_file there⟩
  · rw [nodes,if_neg (mt List.mem_singleton.mpr other)]
  · exact absurd (List.mem_singleton.mp member ▸ here) file
  · rw [List.mem_singleton.mp member]
    exact link?_of_node? there nofun

theorem spares_dropNode (file : d.node? p ≠ some .dir) : Spares [p] d (d.dropNode p) ∧ (d.dropNode p).bytes? p = none := by
  have nodes := fun q => @node?_dropNode d p q (ne_root_of_not_dir file)
  have gone := (nodes p).trans (if_pos rfl)
  refine ⟨spares_of_nodes (fun q other => ?_) (fun q member here => ?_) (fun _ q member => ?_),by rw [bytes?,gone]⟩
  · rw [nodes,if_neg (mt List.mem_singleton.mpr other)]
  · exact absurd (List.mem_singleton.mp member ▸ here) file
  · rw [List.mem_singleton.mp member]
    exact link?_of_none gone

/-- A directory may come where nothing is. -/
theorem spares_setDir (free : d.node? p = none) : Spares [] d (d.setNode p .dir) := by
  have nodes := fun q => @node?_setNode d p q (ne_root_of_not_dir (by rw [free]; simp)) .dir
  have there := (nodes p).trans (if_pos rfl)
  have others : ∀ q ≠ p, (d.setNode p .dir).node? q = d.node? q := fun q other => by rw [nodes,if_neg other]
  have links : ∀ q, (d.setNode p .dir).link? q = d.link? q := fun q => by
    by_cases same : q = p
    · rw [same,link?,link?,there,free]
    · rw [link?,link?,others q same]
  refine ⟨fun q here => ?_,fun q _ => ?_,fun q _ => links q,fun linkless q => (links q).trans (linkless q)⟩
  · rw [nodes,here,ite_self]
  · by_cases same : q = p
    · rw [same,bytes?,bytes?,there,free]
    · rw [bytes?,bytes?,others q same]

/-! ## Places -/

/-- Segments lead from one place to another, over `hops` links at most. Each of them is followed from a directory. -/
inductive Leads (d : Disk) (last : Bool) : Nat → Place → List (List UInt8) → Place → Prop where
  | done {hops : Nat} {p : Place} : Leads d last hops p [] p
  | up {hops : Nat} {p q : Place} {segments : List (List UInt8)} (here : d.node? p = some .dir)
      (rest : Leads d last hops p.dropLast segments q) : Leads d last hops p ([dot,dot] :: segments) q
  | stay {hops : Nat} {p q : Place} {s : List UInt8} {segments : List (List UInt8)} (here : d.node? p = some .dir)
      (level : s ≠ [dot,dot]) (void : ¬IsName s) (rest : Leads d last hops p segments q) :
      Leads d last hops p (s :: segments) q
  | down {hops : Nat} {p q : Place} {n : Name} {segments : List (List UInt8)} (here : d.node? p = some .dir)
      (short : n.octets.length ≤ 255) (plain : d.link? (p ++ [n]) = none)
      (rest : Leads d last hops (p ++ [n]) segments q) : Leads d last hops p (n.octets :: segments) q
  | stop {hops : Nat} {p : Place} {n : Name} {target : Path} (here : d.node? p = some .dir)
      (short : n.octets.length ≤ 255) (linked : d.link? (p ++ [n]) = some target) (off : last = false) :
      Leads d last hops p [n.octets] (p ++ [n])
  | jump {hops : Nat} {p q : Place} {n : Name} {target : Path} {segments : List (List UInt8)} (here : d.node? p = some .dir)
      (short : n.octets.length ≤ 255) (linked : d.link? (p ++ [n]) = some target) (on : segments = [] → last = true)
      (filled : target.isEmpty = false)
      (rest : Leads d last hops (if target.isAbsolute then [] else p) (way target ++ segments) q) :
      Leads d last (hops + 1) p (n.octets :: segments) q

section

variable {last : Bool} {hops : Nat} {s : List UInt8} {segments : List (List UInt8)}
  {jump : Place → Path → List (List UInt8) → Except DiskError Place}

/-- What one segment leads to. -/
theorem followWith_cons_iff : d.followWith jump last p (s :: segments) = .ok q ↔ d.node? p = some .dir ∧
    (s = [dot,dot] ∧ d.followWith jump last p.dropLast segments = .ok q ∨
      s ≠ [dot,dot] ∧ ¬IsName s ∧ d.followWith jump last p segments = .ok q ∨
      ∃ n : Name, n.octets = s ∧ s.length ≤ 255 ∧
        (d.link? (p ++ [n]) = none ∧ d.followWith jump last (p ++ [n]) segments = .ok q ∨
          ∃ target, d.link? (p ++ [n]) = some target ∧
            (segments = [] ∧ last = false ∧ q = p ++ [n] ∨
              (segments = [] → last = true) ∧ jump p target segments = .ok q))) := by
  have entered : d.enter p = .ok () ↔ d.node? p = some .dir := by
    unfold enter
    split
    all_goals simp_all
  rw [followWith]
  cases walk : d.enter p with
  | error e =>
    have outside : d.node? p ≠ some .dir := fun here => by simp [entered.mpr here] at walk
    simp [bind,Except.bind,outside]
  | ok u =>
    rw [entered.mp walk]
    by_cases up : s = [dot,dot]
    · have none : ∀ n : Name, n.octets ≠ [dot,dot] := fun n => n.isName.2.2.1
      simp [bind,Except.bind,up,none]
    · by_cases named : IsName s
      · have only : ∀ (f : Name → Prop), (∃ n : Name, n.octets = s ∧ f n) ↔ f ⟨s,named⟩ := fun f =>
          ⟨fun ⟨n,same,holds⟩ => by subst same; exact holds,fun holds => ⟨_,rfl,holds⟩⟩
        rw [only]
        by_cases long : 255 < s.length
        · simp [bind,Except.bind,up,named,long,Nat.not_le.mpr long]
        · simp only [bind,Except.bind,up,named,long,Nat.le_of_not_lt long,if_false,dif_pos,true_and,false_and,false_or,not_true_eq_false,and_false]
          split
          · rename_i target here
            rw [link?_eq_some_iff.mpr here]
            cases segments <;> cases last <;> simp [eq_comm]
          · rename_i other
            have plain : d.link? (p ++ [⟨s,named⟩]) = none := by
              rw [← Option.not_isSome_iff_eq_none,Option.isSome_iff_exists]
              rintro ⟨target,linked⟩
              exact other target (link?_eq_some_iff.mp linked)
            simp [plain]
      · have none : ∀ n : Name, n.octets ≠ s := fun n same => named (same ▸ n.isName)
        simp [bind,Except.bind,up,named,none]

theorem leads_of_followWith
    (landing : ∀ p target segments q, jump p target segments = .ok q → ∃ fewer, hops = fewer + 1 ∧ target.isEmpty = false ∧
      Leads d last fewer (if target.isAbsolute then [] else p) (way target ++ segments) q)
    (led : d.followWith jump last p segments = .ok q) : Leads d last hops p segments q := by
  induction segments generalizing p with
  | nil =>
    cases led
    exact .done
  | cons s segments ih =>
    obtain ⟨here,⟨rfl,rest⟩ | ⟨level,void,rest⟩ | ⟨n,rfl,short,⟨plain,rest⟩ | ⟨target,linked,⟨rfl,off,rfl⟩ | ⟨on,jumped⟩⟩⟩⟩ :=
      followWith_cons_iff.mp led
    · exact .up here (ih rest)
    · exact .stay here level void (ih rest)
    · exact .down here short plain (ih rest)
    · exact .stop here short linked off
    · obtain ⟨fewer,rfl,filled,rest⟩ := landing p target segments q jumped
      exact .jump here short linked on filled rest

/-- Following gives the place that the segments lead to. -/
theorem follow_iff : d.follow last hops p segments = .ok q ↔ Leads d last hops p segments q := by
  constructor
  · intro led
    induction hops generalizing p segments q with
    | zero => exact leads_of_followWith (fun _ _ _ _ jumped => by cases jumped) led
    | succ hops ih =>
      refine leads_of_followWith (fun p target segments q jumped => ⟨hops,rfl,?_⟩) led
      split at jumped
      · cases jumped
      · rename_i filled
        exact ⟨by simpa using filled,ih jumped⟩
  · intro leads
    induction leads with
    | @done hops p => cases hops <;> rfl
    | @up hops p q segments here rest ih =>
      cases hops <;> exact followWith_cons_iff.mpr ⟨here,.inl ⟨rfl,ih⟩⟩
    | @stay hops p q s segments here level void rest ih =>
      cases hops <;> exact followWith_cons_iff.mpr ⟨here,.inr (.inl ⟨level,void,ih⟩)⟩
    | @down hops p q n segments here short plain rest ih =>
      cases hops <;> exact followWith_cons_iff.mpr ⟨here,.inr (.inr ⟨n,rfl,short,.inl ⟨plain,ih⟩⟩)⟩
    | @stop hops p n target here short linked off =>
      cases hops <;> exact followWith_cons_iff.mpr ⟨here,.inr (.inr ⟨n,rfl,short,.inr ⟨target,linked,.inl ⟨rfl,off,rfl⟩⟩⟩)⟩
    | @jump hops p q n target segments here short linked on filled rest ih =>
      refine followWith_cons_iff.mpr ⟨here,.inr (.inr ⟨n,rfl,short,.inr ⟨target,linked,.inr ⟨on,?_⟩⟩⟩)⟩
      rw [if_neg (by simp [filled]),ih]

/-- What a name leads to. -/
theorem Leads.of_name {n : Name} (leads : Leads d last hops p (n.octets :: segments) q) :
    d.node? p = some .dir ∧ n.octets.length ≤ 255 ∧
      (d.link? (p ++ [n]) = none ∧ Leads d last hops (p ++ [n]) segments q ∨
        ∃ target, d.link? (p ++ [n]) = some target ∧
          (segments = [] ∧ last = false ∧ q = p ++ [n] ∨ (segments = [] → last = true))) := by
  generalize split : n.octets :: segments = all at leads
  cases leads with
  | done => cases split
  | up => exact absurd (List.cons.inj split).1 n.isName.2.2.1
  | stay here level void rest => exact absurd ((List.cons.inj split).1 ▸ n.isName) void
  | down here short plain rest =>
    obtain ⟨same,rfl⟩ := List.cons.inj split
    cases Name.octets_injective same
    exact ⟨here,short,.inl ⟨plain,rest⟩⟩
  | stop here short linked off =>
    obtain ⟨same,rfl⟩ := List.cons.inj split
    cases Name.octets_injective same
    exact ⟨here,short,.inr ⟨_,linked,.inl ⟨rfl,off,rfl⟩⟩⟩
  | jump here short linked on filled rest =>
    obtain ⟨same,rfl⟩ := List.cons.inj split
    cases Name.octets_injective same
    exact ⟨here,short,.inr ⟨_,linked,.inr on⟩⟩

/-- A path leads on where directories stay and no link is changed. -/
theorem Leads.kept (dirs : ∀ q, d.node? q = some .dir → d'.node? q = some .dir) (links : ∀ q, d'.link? q = d.link? q)
    (leads : Leads d last hops p segments q) : Leads d' last hops p segments q := by
  induction leads with
  | done => exact .done
  | up here _ ih => exact .up (dirs _ here) ih
  | stay here level void _ ih => exact .stay (dirs _ here) level void ih
  | down here short plain _ ih => exact .down (dirs _ here) short ((links _).trans plain) ih
  | stop here short linked off => exact .stop (dirs _ here) short ((links _).trans linked) off
  | jump here short linked on filled _ ih => exact .jump (dirs _ here) short ((links _).trans linked) on filled ih

/-- Where there are no links, a path is followed to where it leads by its text. -/
theorem Leads.clean (linkless : d.Linkless) (leads : Leads d last hops p segments q) :
    CleanPath.absolute q = (segments.filterMap Component.ofSegment?).foldl .push (.absolute p) := by
  induction leads with
  | done => rfl
  | up _ _ ih =>
    rw [List.filterMap_cons_some (by rw [Component.ofSegment?,if_pos rfl]),ih]
    rfl
  | stay _ level void _ ih => rw [List.filterMap_cons_none (by rw [Component.ofSegment?,if_neg level,dif_neg void]),ih]
  | down _ _ _ _ ih =>
    rw [List.filterMap_cons_some (Component.ofSegment?_name _),ih]
    rfl
  | stop _ _ linked _ => cases (linkless _).symm.trans linked
  | jump _ _ linked _ _ _ _ => cases (linkless _).symm.trans linked

/-- What is no link stands for itself at the end of a path. -/
theorem Leads.of_plain (leads : Leads d last hops p segments q) (plain : d.link? q = none) {last' : Bool}
    (follows : last = true → last' = true) : Leads d last' hops p segments q := by
  induction leads with
  | done => exact .done
  | up here _ ih => exact .up here (ih plain)
  | stay here level void _ ih => exact .stay here level void (ih plain)
  | down here short free _ ih => exact .down here short free (ih plain)
  | stop _ _ linked _ => cases plain.symm.trans linked
  | jump here short linked on filled _ ih => exact .jump here short linked (fun none => follows (on none)) filled (ih plain)

/-- Where there are no links, the end of a path is no special case. -/
theorem Leads.whatever (linkless : d.Linkless) {last' : Bool} (leads : Leads d last hops p segments q) :
    Leads d last' hops p segments q := by
  induction leads with
  | done => exact .done
  | up here _ ih => exact .up here ih
  | stay here level void _ ih => exact .stay here level void ih
  | down here short plain _ ih => exact .down here short plain ih
  | stop _ _ linked _ => cases (linkless _).symm.trans linked
  | jump _ _ linked _ _ _ _ => cases (linkless _).symm.trans linked

end

/-- The segments of an absolute path are followed from the root. -/
theorem resolve_iff {last : Bool} {path : Path} (absolute : path.isAbsolute = true) : d.resolve last path = .ok q ↔
    0 ∉ path.octets ∧ path.octets.length < 4096 ∧ Leads d last maxHops [] ((Path.segments path.octets).drop 1) q := by
  obtain ⟨rest,start⟩ := Path.octets_of_isAbsolute absolute
  have filled : path.isEmpty = false := by simp [Path.isEmpty,start]
  rw [← follow_iff]
  unfold resolve way
  rw [filled,absolute]
  by_cases void : 0 ∈ path.octets
  · simp [void]
  · by_cases long : 4096 ≤ path.octets.length
    · simp [void,long,Nat.not_lt.mpr long]
    · simp [void,long,Nat.lt_of_not_le long]

theorem resolve_kept {last : Bool} {path : Path} (absolute : path.isAbsolute = true)
    (dirs : ∀ q, d.node? q = some .dir → d'.node? q = some .dir) (links : ∀ q, d'.link? q = d.link? q)
    (led : d.resolve last path = .ok q) : d'.resolve last path = .ok q := by
  rw [resolve_iff absolute] at led ⊢
  exact ⟨led.1,led.2.1,led.2.2.kept dirs links⟩

end Disk

/-- The place that a path names, seen from the root. -/
def Path.place (p : Path) : Place := Disk.placeOf ⟨[],[]⟩ p

theorem Path.place_eq {p : Path} {q : Place} (led : p.clean = .absolute q) : p.place = q := by
  rw [place,Disk.placeOf,led]

namespace Disk

variable {d d' d'' : Disk} {path : Path} {q : Place}

/-- Where there are no links, a path leads to the place that it names. -/
theorem resolve_place {last : Bool} (linkless : d.Linkless) (absolute : path.isAbsolute = true)
    (led : d.resolve last path = .ok q) : q = path.place := by
  obtain ⟨-,-,followed⟩ := (resolve_iff absolute).mp led
  refine (Path.place_eq ?_).symm
  obtain ⟨rest,start⟩ := Path.octets_of_isAbsolute absolute
  have segments : Path.inner path.octets =
      (((Path.segments path.octets).drop 1).filterMap Component.ofSegment?) := by
    rw [start,Path.inner,Path.segments,if_pos rfl,List.filterMap_cons_none (by decide)]
    rfl
  rw [Path.clean,Path.components_of_isAbsolute absolute,segments,CleanPath.ofComponents,List.foldl_cons]
  exact (followed.clean linkless).symm

/-- Where no link stands, a path leads whether a link at its end is followed or not. -/
theorem locate_of_entry (absolute : path.isAbsolute = true) (led : d.entry path = .ok q) (plain : d.link? q = none) :
    d.locate path = .ok q := by
  unfold entry at led
  unfold locate
  rw [resolve_iff absolute] at led ⊢
  exact ⟨led.1,led.2.1,led.2.2.of_plain plain (fun _ => rfl)⟩

/-- Where there are no links, a path leads to the same place whether a link at its end is followed or not. -/
theorem entry_eq (linkless : d.Linkless) (absolute : path.isAbsolute = true) : d.entry path = .ok q ↔ d.locate path = .ok q := by
  unfold entry locate
  rw [resolve_iff absolute,resolve_iff absolute]
  constructor
  all_goals exact fun led => ⟨led.1,led.2.1,led.2.2.whatever linkless⟩

/-! ## What a path names -/

theorem isFile_iff : d.isFile path = true ↔
    ∃ q bytes executable, d.locate path = .ok q ∧ d.node? q = some (.file bytes executable) := by
  unfold isFile find
  cases d.locate path with
  | error e => simp [bind,Except.bind]
  | ok q =>
    rcases here : d.node? q with _ | _ | ⟨bytes,executable⟩ | target
    · simp [bind,Except.bind,here]
    · simp [bind,Except.bind,here]
    · exact ⟨fun _ => ⟨q,bytes,executable,rfl,here⟩,fun _ => by simp [bind,Except.bind,here]⟩
    · simp [bind,Except.bind,here]

theorem isDir_iff : d.isDir path = true ↔ ∃ q, d.locate path = .ok q ∧ d.node? q = some .dir := by
  unfold isDir find
  cases d.locate path with
  | error e => simp [bind,Except.bind]
  | ok q =>
    rcases here : d.node? q with _ | _ | ⟨bytes,executable⟩ | target <;> simp [bind,Except.bind,here]

theorem has_of_isDir (directory : d.isDir path = true) : d.has path = true := by
  obtain ⟨q,led,here⟩ := isDir_iff.mp directory
  simp [has,find,led,here,bind,Except.bind,Except.isOk,Except.toBool]

/-! ## Operations -/

/-- Writing a file touches its place. -/
theorem writeBytes_ok (plain : unterminated path = path) {bytes : List UInt8} (done : d.writeBytes path bytes = .ok d') :
    ∃ q, d.locate path = .ok q ∧ Spares [q] d d' ∧ d'.bytes? q = some bytes := by
  unfold writeBytes at done
  rw [plain] at done
  cases led : d.locate path with
  | error e => simp [led,bind,Except.bind] at done
  | ok q =>
    simp only [led,bind,Except.bind,if_true] at done
    split at done
    · cases done
    · cases done
    · rename_i executable here
      cases done
      exact ⟨q,rfl,spares_setFile (by rw [here]; simp) bytes executable⟩
    · rename_i here
      cases done
      exact ⟨q,rfl,spares_setFile (by rw [here]; simp) bytes false⟩

/-- Making a directory touches no file. -/
theorem makeDir_ok (done : d.makeDir path = .ok d') : Spares [] d d' := by
  unfold makeDir at done
  cases led : d.entry (unterminated path) with
  | error e => simp [led,bind,Except.bind] at done
  | ok q =>
    simp only [led,bind,Except.bind] at done
    split at done
    · cases done
    · rename_i free
      cases done
      exact spares_setDir (by simpa using free)

theorem spares_makeMissing (d : Disk) (path : Path) : Spares [] d (d.makeMissing path).2 := by
  unfold makeMissing
  split
  · exact makeDir_ok ‹_›
  · exact .refl d

theorem spares_makeDirs (limit : Nat) (d : Disk) (path : Path) : Spares [] d (makeDirs limit d path).2 := by
  induction limit generalizing d path with
  | zero => exact .refl d
  | succ limit ih =>
    unfold makeDirs
    split
    · exact .refl d
    · split
      · exact .refl d
      · rename_i above _ _
        have before := ih d above
        split
        · rename_i d₁ made
          rw [made] at before
          exact before.trans (spares_makeMissing d₁ path)
        · exact before
      · exact spares_makeMissing d path

/-- Making a directory with all above it touches no file, and what was made of it stays. -/
theorem spares_makeDirAll (d : Disk) (path : Path) : Spares [] d (d.makeDirAll path).2 := spares_makeDirs ..

/-- What is moved is no directory, and it comes to where no directory is. -/
theorem rename_ok {source target : Path} (done : d.rename source target = .ok d') :
    ∃ p q n, d.entry source = .ok p ∧ d.entry target = .ok q ∧ d.node? p = some n ∧ n ≠ .dir ∧ d.node? q ≠ some .dir ∧
      ∀ r, d'.node? r = if r = q then some n else if r = p then none else d.node? r := by
  unfold rename at done
  cases led : d.entry source with
  | error e => simp [led,bind,Except.bind] at done
  | ok p =>
    cases led' : d.entry target with
    | error e => simp [led,led',bind,Except.bind] at done
    | ok q =>
      simp only [led,led',bind,Except.bind] at done
      split at done
      · cases done
      · cases done
      · cases done
      · rename_i n other here free
        have file : n ≠ .dir := fun same => other same
        refine ⟨p,q,n,rfl,rfl,here,file,free,fun r => ?_⟩
        split at done
        · rename_i same
          cases done
          subst same
          split
          · rename_i same
            rw [same,here]
          · rfl
        · cases done
          have low : p ≠ [] := ne_root_of_not_dir (d := d) fun root => file (Option.some.inj (here.symm.trans root))
          rw [node?_setNode (ne_root_of_not_dir free),node?_dropNode low]

/-- Moving touches the place that something comes from and the one it goes to. -/
theorem spares_rename {source target : Path} (done : d.rename source target = .ok d') :
    ∃ p q, d.entry source = .ok p ∧ d.entry target = .ok q ∧ Spares [p,q] d d' := by
  obtain ⟨p,q,n,led,led',here,file,free,nodes⟩ := rename_ok done
  refine ⟨p,q,led,led',spares_of_nodes (fun r other => ?_) (fun r member dir => ?_) (fun linkless r _ => ?_)⟩
  · rw [List.mem_cons,List.mem_singleton,not_or] at other
    rw [nodes,if_neg other.2,if_neg other.1]
  · rcases List.mem_cons.mp member with rfl | member
    · exact absurd (Option.some.inj (here.symm.trans dir)) file
    · exact absurd (List.mem_singleton.mp member ▸ dir) free
  · have moved : d'.link? r = if r = q then d.link? p else if r = p then none else d.link? r := by
      unfold link?
      rw [nodes,here]
      split_ifs <;> rfl
    rw [moved,linkless p,linkless r,ite_self,ite_self]

/-- Removing a file or a link touches its place. -/
theorem removeFile_ok (done : d.removeFile path = .ok d') :
    ∃ q, d.entry path = .ok q ∧ Spares [q] d d' ∧ d'.bytes? q = none := by
  unfold removeFile at done
  cases led : d.entry path with
  | error e => simp [led,bind,Except.bind] at done
  | ok q =>
    simp only [led,bind,Except.bind] at done
    split at done
    · cases done
    · cases done
    · rename_i n other here
      cases done
      refine ⟨q,rfl,spares_dropNode ?_⟩
      rw [here]
      simpa using other

/-- What is not removed is no file. -/
theorem removeFile_error {e : DiskError} (failed : d.removeFile path = .error e) (led : d.entry path = .ok q) :
    d.bytes? q = none := by
  unfold removeFile at failed
  simp only [led,bind,Except.bind] at failed
  rw [bytes?]
  split at failed
  · rename_i here
    rw [here]
  · rename_i here
    rw [here]
  · cases failed

/-! ## Trees -/

/-- What there is, is in directories. -/
def Rooted (d : Disk) : Prop := ∀ p n, (d.node? (p ++ [n])).isSome → d.node? p = some .dir

theorem Rooted.above (rooted : d.Rooted) {p : Place} {n : Name} {ns : Place} (here : (d.node? (p ++ n :: ns)).isSome) :
    d.node? p = some .dir := by
  induction ns generalizing p n with
  | nil => exact rooted p n here
  | cons m ns ih =>
    have below : d.node? (p ++ [n]) = some .dir := ih (by rwa [List.append_assoc])
    exact rooted p n (by rw [below]; rfl)

/-- Where there are no links, names are followed through directories, unless they are too long. -/
theorem leads_names {last : Bool} {hops : Nat} {p : Place} (linkless : d.Linkless) (linkless' : d'.Linkless) (rooted : d.Rooted)
    {names : List Name} (here : (d.node? (p ++ names)).isSome) (leads : Leads d' last hops p (names.map Name.octets) q) :
    Leads d last hops p (names.map Name.octets) q := by
  induction names generalizing p with
  | nil =>
    cases leads
    exact .done
  | cons n names ih =>
    obtain ⟨-,short,⟨-,rest⟩ | ⟨target,linked,-⟩⟩ := leads.of_name
    · exact .down (rooted.above here) short (linkless _) (ih (by rwa [List.append_assoc]) rest)
    · cases (linkless' _).symm.trans linked

/-- The path of a place is followed along the names. -/
theorem drop_segments_toPath {names : Place} (low : names ≠ []) :
    (Path.segments (CleanPath.absolute names).toPath.octets).drop 1 = names.map Name.octets := by
  rw [CleanPath.segments_toPath low,List.drop_one,List.tail_cons]

/-- Where there are no links, a path leads to a file that there is, if any disk lets the path be. -/
theorem locate_of_bytes? (linkless : d.Linkless) (linkless' : d'.Linkless) (rooted : d.Rooted) {names : Place}
    {bytes : List UInt8} (here : d.bytes? names = some bytes) (led : d'.locate (CleanPath.absolute names).toPath = .ok q) :
    d.locate (CleanPath.absolute names).toPath = .ok names := by
  obtain ⟨executable,file⟩ := file_of_bytes? here
  have low : names ≠ [] := ne_root_of_not_dir (d := d) (by rw [file]; simp)
  have absolute := CleanPath.isAbsolute_toPath names
  obtain rfl : q = names := (resolve_place linkless' absolute led).trans (Path.place_eq (CleanPath.clean_toPath names))
  unfold locate at led ⊢
  rw [resolve_iff absolute,drop_segments_toPath low] at led ⊢
  exact ⟨led.1,led.2.1,leads_names linkless linkless' rooted (by rw [List.nil_append,file]; rfl) led.2.2⟩

theorem has_of_bytes? {bytes : List UInt8} (led : d.locate path = .ok q) (here : d.bytes? q = some bytes) : d.has path = true := by
  obtain ⟨executable,file⟩ := file_of_bytes? here
  simp [has,find,led,file,bind,Except.bind,Except.isOk,Except.toBool]

end Disk

end Bundling
