import Bundling.Proofs.Inside

/-!
# Files of one directory

What a path with a name at its end stands for is that name in the directory that the path before it leads to
(`Disk.entry_concat_iff`), over links or not: its seat there. So as long as the directory is reached, files that are put
beside targets and then moved get to their seats, and nothing else is changed (`put_writeAside`, `placed_moveAll`). The
last move may take away a link on the way to the directory.
-/

namespace Bundling

open Bundling.Path (slash dot)

namespace CleanPath

end CleanPath

namespace Disk

variable {d d' : Disk} {home h q : Place} {n : Name} {last : Bool} {hops : Nat} {p : Place} {segments : List (List UInt8)}

/-- A last segment is followed from where those before it lead. -/
theorem Leads.of_concat {s : List UInt8} (leads : Leads d last hops p (segments ++ [s]) q) :
    ∃ h fewer, Leads d true hops p segments h ∧ Leads d last fewer h [s] q := by
  generalize whole : segments ++ [s] = all at leads
  induction leads generalizing segments with
  | done => simp at whole
  | up here rest ih =>
    rcases segments with _ | ⟨_,front⟩
    · cases whole
      exact ⟨_,_,.done,.up here rest⟩
    · cases whole
      obtain ⟨h,fewer,before,after⟩ := ih rfl
      exact ⟨h,fewer,.up here before,after⟩
  | stay here level void rest ih =>
    rcases segments with _ | ⟨_,front⟩
    · cases whole
      exact ⟨_,_,.done,.stay here level void rest⟩
    · cases whole
      obtain ⟨h,fewer,before,after⟩ := ih rfl
      exact ⟨h,fewer,.stay here level void before,after⟩
  | down here short plain rest ih =>
    rcases segments with _ | ⟨_,front⟩
    · cases whole
      exact ⟨_,_,.done,.down here short plain rest⟩
    · cases whole
      obtain ⟨h,fewer,before,after⟩ := ih rfl
      exact ⟨h,fewer,.down here short plain before,after⟩
  | stop here short linked off =>
    rcases segments with _ | ⟨_,front⟩
    · cases whole
      exact ⟨_,0,.done,.stop here short linked off⟩
    · simp at whole
  | jump here short linked on filled rest ih =>
    rcases segments with _ | ⟨_,front⟩
    · cases whole
      exact ⟨_,_,.done,.jump here short linked on filled rest⟩
    · cases whole
      obtain ⟨h,fewer,before,after⟩ := ih (List.append_assoc ..)
      exact ⟨h,fewer,.jump here short linked (fun _ => rfl) filled before,after⟩

/-- A last name leads to itself, but for a link that is followed. -/
theorem Leads.concat (leads : Leads d true hops p segments h) (here : d.node? h = some .dir) (short : n.octets.length ≤ 255)
    (itself : last = true → d.link? (h ++ [n]) = none) : Leads d last hops p (segments ++ [n.octets]) (h ++ [n]) := by
  induction leads with
  | done =>
    cases linked : d.link? (_ ++ [n]) with
    | none => exact .down here short linked .done
    | some target => exact .stop here short linked (by by_contra on; simp [itself (by simpa using on)] at linked)
  | up here' _ ih => exact .up here' (ih here itself)
  | stay here' level void _ ih => exact .stay here' level void (ih here itself)
  | down here' short' plain _ ih => exact .down here' short' plain (ih here itself)
  | stop _ _ _ off => cases off
  | jump here' short' linked _ filled _ ih =>
    exact .jump here' short' linked (fun none => by simp at none) filled (List.append_assoc .. ▸ ih here itself)

/-- A path that leads to a directory leads there on another disk that has the directories and the links of the way. -/
theorem Leads.back (dirs : ∀ q, d'.node? q = some .dir → d.node? q = some .dir)
    (links : ∀ q target, d'.link? q = some target → d.link? q = some target) (leads : Leads d' last hops p segments q)
    (dir : d'.node? q = some .dir) : Leads d last hops p segments q := by
  have start : ∀ {hops p segments q}, Leads d' last hops p segments q → d'.node? q = some .dir → d'.node? p = some .dir := by
    intro hops p segments q leads dir
    cases leads <;> assumption
  induction leads with
  | done => exact .done
  | up here _ ih => exact .up (dirs _ here) (ih dir)
  | stay here level void _ ih => exact .stay (dirs _ here) level void (ih dir)
  | down here short _ rest ih => exact .down (dirs _ here) short (link?_of_node? (dirs _ (start rest dir)) nofun) (ih dir)
  | stop here short linked off => exact .stop (dirs _ here) short (links _ _ linked) off
  | jump here short linked on filled _ ih => exact .jump (dirs _ here) short (links _ _ linked) on filled (ih dir)

theorem Leads.unique {q' : Place} (leads : Leads d last hops p segments q) (leads' : Leads d last hops p segments q') : q = q' :=
  Except.ok.inj ((follow_iff.mpr leads).symm.trans (follow_iff.mpr leads'))

/-! ## Paths of places -/

/-- A name is not too long in a path that is not. -/
def Fits (home : Place) (n : Name) : Prop :=
  0 ∉ (CleanPath.absolute (home ++ [n])).toPath.octets ∧ (CleanPath.absolute (home ++ [n])).toPath.octets.length < 4096 ∧
    n.octets.length ≤ 255

theorem resolve_toPath_iff : d.resolve last (CleanPath.absolute home).toPath = .ok q ↔
    0 ∉ (CleanPath.absolute home).toPath.octets ∧ (CleanPath.absolute home).toPath.octets.length < 4096 ∧
      Leads d last maxHops [] (home.map Name.octets) q := by
  rw [resolve_iff (CleanPath.isAbsolute_toPath home)]
  by_cases root : home = []
  · subst root
    have segments : (Path.segments (CleanPath.absolute []).toPath.octets).drop 1 = [[]] := by decide
    rw [segments]
    refine and_congr_right fun _ => and_congr_right fun _ => ⟨fun leads => ?_,fun leads => ?_⟩
    · generalize empty : ([] : List UInt8) = s at leads
      cases leads with
      | up => cases empty
      | stay _ _ _ rest => exact rest
      | @down _ _ _ n => exact absurd empty.symm n.isName.1
      | @stop _ _ n => exact absurd empty.symm n.isName.1
      | @jump _ _ _ n => exact absurd empty.symm n.isName.1
    · exact .stay rfl (by decide) (by decide) leads
  · rw [drop_segments_toPath root]

end Disk

namespace Output

open Disk (Spares Fits)

variable {d d' : Disk} {p : Path} {ts : List Target} {home h q : Place}

/-! ## Seats -/

/-- A path that has one more name than that of the place `home`. -/
def Named (home : Place) (p : Path) : Prop := ∃ n, p = (CleanPath.absolute (home ++ [n])).toPath

/-- Such a path that is not too long. -/
def Suited (home : Place) (p : Path) : Prop := ∃ n, p = (CleanPath.absolute (home ++ [n])).toPath ∧ Fits home n

/-- The path of the place `home` leads to the directory `h`. -/
def Leading (home h : Place) (d : Disk) : Prop :=
  d.locate (CleanPath.absolute home).toPath = .ok h ∧ d.node? h = some .dir

/-- The place that the last name of a path has in the directory `h`. -/
def seat (h : Place) (p : Path) : Place := h ++ p.place.getLast?.toList

theorem Named.absolute (named : Named home p) : p.isAbsolute = true := by
  obtain ⟨n,rfl⟩ := named
  exact CleanPath.isAbsolute_toPath _

theorem Named.aside (named : Named home p) : Named home (aside p) := by
  obtain ⟨n,rfl⟩ := named
  obtain ⟨m,-,path⟩ := aside_toPath home n
  exact ⟨m,path⟩

theorem Leading.unique {h' : Place} (leading : Leading home h d) (leading' : Leading home h' d) : h = h' :=
  Except.ok.inj (leading.1.symm.trans leading'.1)

theorem Leading.kept (leading : Leading home h d) (dirs : ∀ q, d.node? q = some .dir → d'.node? q = some .dir)
    (links : ∀ q, d'.link? q = d.link? q) : Leading home h d' :=
  ⟨Disk.resolve_kept (CleanPath.isAbsolute_toPath home) dirs links leading.1,dirs h leading.2⟩

theorem Leading.back (leading : Leading home h d') (dirs : ∀ q, d'.node? q = some .dir → d.node? q = some .dir)
    (links : ∀ q target, d'.link? q = some target → d.link? q = some target) : Leading home h d := by
  obtain ⟨led,here⟩ := leading
  obtain ⟨valid,short,leads⟩ := Disk.resolve_toPath_iff.mp led
  exact ⟨Disk.resolve_toPath_iff.mpr ⟨valid,short,leads.back dirs links here⟩,dirs h here⟩

/-! ## Moving -/

/-- The places beside some targets. -/
def besides (h : Place) (ps : List Path) : List Place := ps.map fun p => seat h (aside p)

/-- The targets and the places beside them are all different. -/
def Apart (h : Place) (ps : List Path) : Prop :=
  (ps.map (seat h)).Nodup ∧ (besides h ps).Nodup ∧ (ps.map (seat h)).Disjoint (besides h ps)

theorem Apart.tail {ps : List Path} (apart : Apart h (p :: ps)) : Apart h ps :=
  ⟨apart.1.of_cons,apart.2.1.of_cons,fun _ target side => apart.2.2 (List.mem_cons_of_mem _ target) (List.mem_cons_of_mem _ side)⟩

/-- Files that were put beside their targets in a directory: each has the text for its target, and no link is changed. -/
structure Put (home h : Place) (ts : List Target) (d d' : Disk) : Prop where
  suited : ∀ t ∈ ts, Suited home (aside t.path)
  leading : Leading home h d'
  spares : Spares (besides h (ts.map Target.path)) d d'
  links : ∀ q, d'.link? q = d.link? q
  bytes : ∀ t ∈ ts, d'.bytes? (seat h (aside t.path)) = some t.bytes

/-- Files that were moved into place in a directory. -/
structure Placed (home h : Place) (ps : List Path) (d d' : Disk) : Prop where
  suited : ∀ p ∈ ps, Suited home p
  there : ∀ p ∈ ps, d'.node? (seat h p) = d.node? (seat h (aside p))
  gone : ∀ p ∈ ps, d'.node? (seat h (aside p)) = none
  others : ∀ q, q ∉ ps.map (seat h) → q ∉ besides h ps → d'.node? q = d.node? q
  dirs : ∀ q, d'.node? q = some .dir ↔ d.node? q = some .dir
  links : ∀ q target, d'.link? q = some target → d.link? q = some target

end Output

end Bundling
