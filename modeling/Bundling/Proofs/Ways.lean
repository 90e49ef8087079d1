import Bundling.Proofs.PublicPath

/-!
# The way from one path to another

A relative path leads from its base to its target: joined to the base and normalised it gives the target back, exactly if the
names on the way are texts (`Path.relativePath_inverts`). The steps up take away what the two do not share, and the names go
down from there as they are shown.
-/

namespace Bundling

open Component (IsStep)

namespace CleanPath

/-- The steps from one place to another. -/
def way (base target : List Name) : List Component := relativeComponents (absolute base).components (absolute target).components

variable {base target other : List Name}

/-- The way between two places goes along names and up only, and it leads from the one to the other. -/
theorem way_spec (base target : List Name) :
    (∀ c ∈ way base target, c.IsStep) ∧ (way base target).foldl push (absolute base) = absolute target := by
  obtain ⟨shared,above,below,rfl,rfl,steps⟩ := ProjectRoot.way_to base ⟨target⟩
  have same : way (shared ++ above) (shared ++ below) = above.map (fun _ => .up) ++ below.map .name := steps
  rw [same,List.foldl_append,foldl_push_up shared above above rfl,foldl_push_names]
  refine ⟨fun c member => ?_,rfl⟩
  rcases List.mem_append.mp member with up | down
  · obtain ⟨-,-,rfl⟩ := List.mem_map.mp up
    trivial
  · obtain ⟨-,-,rfl⟩ := List.mem_map.mp down
    trivial

/-- A relative path is followed along the steps of the way as they are shown. -/
theorem clean_join_relativePath (base target : List Name) :
    ((absolute base).toPath.join ⟨relativePath (absolute base).components (absolute target).components⟩).clean =
      ((way base target).map Component.shown).foldl push (absolute base) := by
  have steps := (way_spec base target).1
  have relative : (Path.mk (Component.joined (way base target))).isAbsolute = false := by
    rw [Path.isAbsolute_mk]
    cases parts : way base target with
    | nil => rfl
    | cons c cs =>
      rw [Component.head?_joined]
      exact beq_eq_false_iff_ne.mpr (steps c (parts ▸ List.mem_cons_self)).head?_ne
  change ((absolute base).toPath.join (Path.mk (Component.joined (way base target)))).clean = _
  rw [Path.clean_join (isAbsolute_toPath base) relative,clean_toPath,Path.octets_mk,Component.inner_joined steps]

theorem clean_join_relativePath_iff :
    ((absolute base).toPath.join ⟨relativePath (absolute base).components (absolute target).components⟩).clean = absolute target ↔
      ∀ c ∈ way base target, c.IsText := by
  rw [clean_join_relativePath]
  constructor
  · rw [← Component.inner_joined (way_spec base target).1]
    exact legible_of_foldl
  · intro texts
    rw [Component.map_shown texts,(way_spec base target).2]

/-- Only the way from a place to itself is empty. -/
theorem relativePath_eq_empty_iff :
    relativePath (absolute base).components (absolute target).components = "" ↔ base = target := by
  change Component.joined (way base target) = "" ↔ _
  constructor
  · intro empty
    have leads := (way_spec base target).2
    cases parts : way base target with
    | nil =>
      rw [parts] at leads
      exact absolute.inj leads
    | cons c cs => exact absurd (parts ▸ empty) (Component.joined_ne_empty c cs)
  · rintro rfl
    have whole := relativeComponents_append_left (absolute base).components [] []
    rw [List.append_nil] at whole
    rw [way,whole]
    rfl

theorem eq_of_way (same : way base other = way base target) : other = target :=
  absolute.inj ((way_spec base other).2.symm.trans (same ▸ (way_spec base target).2))

end CleanPath

namespace Path

/-- A path that starts at the root and is written as its normal form. -/
structure IsNormal (p : Path) : Prop where
  absolute : p.isAbsolute = true
  written : p.clean.toPath = p

/-- The steps from one path to another. -/
def way (base target : Path) : List Component := relativeComponents base.components target.components

/-- The names on the way to a path are texts. -/
def Legible (base target : Path) : Prop := ∀ c ∈ base.way target, c.IsText

instance (base target : Path) : Decidable (base.Legible target) := inferInstanceAs (Decidable (∀ c ∈ _, _))

variable {base target : Path}

theorem IsNormal.exists_names (normal : base.IsNormal) : ∃ ns, base = (CleanPath.absolute ns).toPath := by
  obtain ⟨ns,led⟩ := clean_of_isAbsolute normal.absolute
  exact ⟨ns,by rw [← led,normal.written]⟩

theorem way_toPath (bs ts : List Name) : (CleanPath.absolute bs).toPath.way (CleanPath.absolute ts).toPath = CleanPath.way bs ts := by
  rw [way,CleanPath.components_toPath,CleanPath.components_toPath]
  rfl

/-- A relative path, joined to its base and normalised, gives its target, exactly if the names on the way are texts. It is empty
exactly from a path to itself. With one base, just the targets have the same relative path to which the ways are shown alike:
never different ones where the names are texts. -/
theorem relativePath_inverts (start : base.IsNormal) (ending : target.IsNormal) :
    ((base.join ⟨relativePath base.components target.components⟩).clean.toPath = target ↔ base.Legible target) ∧
    (relativePath base.components target.components = "" ↔ base = target) ∧
    ∀ other : Path, other.IsNormal →
      (relativePath base.components other.components = relativePath base.components target.components ↔
        (base.way other).map Component.text = (base.way target).map Component.text) ∧
      (base.Legible other → base.Legible target →
        (relativePath base.components other.components = relativePath base.components target.components ↔ other = target)) := by
  obtain ⟨bs,rfl⟩ := start.exists_names
  obtain ⟨ts,rfl⟩ := ending.exists_names
  refine ⟨?_,?_,fun other normal => ⟨Component.joined_eq_iff,fun legible legible' => ⟨fun same => ?_,fun same => same ▸ rfl⟩⟩⟩
  · rw [Legible,way_toPath,← CleanPath.clean_join_relativePath_iff,CleanPath.components_toPath,CleanPath.components_toPath]
    refine ⟨fun same => ?_,congrArg CleanPath.toPath⟩
    obtain ⟨ns,led⟩ := CleanPath.foldl_push_absolute ((CleanPath.way bs ts).map Component.shown) bs
    have reached := (CleanPath.clean_join_relativePath bs ts).trans led
    exact reached.trans (congrArg CleanPath.absolute (CleanPath.toPath_injective ((congrArg CleanPath.toPath reached).symm.trans same)))
  · rw [CleanPath.components_toPath,CleanPath.components_toPath]
    exact CleanPath.relativePath_eq_empty_iff.trans
      ⟨fun same => by rw [same],fun same => CleanPath.toPath_injective same⟩
  · obtain ⟨os,rfl⟩ := normal.exists_names
    have shown : (way _ _).map Component.shown = (way _ _).map Component.shown :=
      Component.map_shown_eq_iff.mpr (Component.joined_eq_iff.mp same)
    rw [Component.map_shown legible,Component.map_shown legible'] at shown
    rw [CleanPath.eq_of_way ((way_toPath bs os).symm.trans (shown.trans (way_toPath bs ts)))]

/-- Out of a directory and into one beside it. -/
theorem relativePath_inverts_beside : (Path.mk "/p/app").IsNormal ∧ (Path.mk "/p/lib/a.js").IsNormal ∧
    relativePath (Path.mk "/p/app").components (Path.mk "/p/lib/a.js").components = "../lib/a.js" ∧
    (Path.mk "/p/app").Legible ⟨"/p/lib/a.js"⟩ ∧
    ((Path.mk "/p/app").join ⟨relativePath (Path.mk "/p/app").components (Path.mk "/p/lib/a.js").components⟩).clean.toPath =
      ⟨"/p/lib/a.js"⟩ := by
  have app : (Path.mk "/p/app").IsNormal := ⟨by decide,by decide⟩
  have lib : (Path.mk "/p/lib/a.js").IsNormal := ⟨by decide,by decide⟩
  have legible : (Path.mk "/p/app").Legible ⟨"/p/lib/a.js"⟩ := by decide
  exact ⟨app,lib,by decide,legible,(relativePath_inverts app lib).1.mpr legible⟩

/-- The path `/p/a?.js` with an octet in it. -/
def withOctet (b : UInt8) : Path := ofOctets [0x2F,0x70,0x2F,0x61,b,0x2E,0x6A,0x73]

/-- A name that is not a text is not led to, and does not tell its path from others. -/
theorem relativePath_lossy : (Path.mk "/p").IsNormal ∧ (withOctet 0xFF).IsNormal ∧ (withOctet 0xFE).IsNormal ∧
    relativePath (Path.mk "/p").components (withOctet 0xFF).components = "a\uFFFD.js" ∧
    ((Path.mk "/p").join ⟨relativePath (Path.mk "/p").components (withOctet 0xFF).components⟩).clean.toPath ≠ withOctet 0xFF ∧
    withOctet 0xFE ≠ withOctet 0xFF ∧ relativePath (Path.mk "/p").components (withOctet 0xFE).components =
      relativePath (Path.mk "/p").components (withOctet 0xFF).components :=
  ⟨⟨by decide,by decide⟩,⟨by decide,by decide⟩,⟨by decide,by decide⟩,by decide,by decide,by decide,by decide⟩

end Path

end Bundling
