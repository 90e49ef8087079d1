import Mathlib.Data.List.Basic
import Mathlib.Order.Bounds.Basic
import Bundling.Proofs.Rollback

/-!
# What a rollback takes away

After the failed version has been reverted, commits that are current and import something that is not there are taken out, pass
by pass, until a pass changes nothing (`Settling`). What is gone in the end depends neither on the order of the commits nor on
the passes: it is the least set of current commits that holds whatever imports something missing without the set
(`rollback_least`). It is such a set since nothing that stays dangles, and it is below every other one since what a pass takes
out imports something that is missing or was taken out before.
-/

namespace Bundling

namespace Commit

/-! ## Passes until nothing changes -/

/-- A pass over commits, the last one first, and whether it changes anything. -/
def pass : List Commit → Registry → Bool × Registry
  | [], r => (false,r)
  | c :: cs, r =>
    let rest := pass cs r
    if rest.2.isCurrent c.version && c.isDangling rest.2 then (true,c.revert rest.2) else rest

/-- Passes over commits lead from one registry to another, with the first one that changes nothing at the end. -/
inductive Settling (cs : List Commit) : Registry → Registry → Prop where
  | last {r s : Registry} (still : pass cs r = (false,s)) : Settling cs r s
  | again {r s t : Registry} (changed : pass cs r = (true,s)) (rest : Settling cs s t) : Settling cs r t

section

variable {cs : List Commit} {r s t : Registry}

theorem pass_snd (cs : List Commit) (r : Registry) : (pass cs r).2 = sweep cs r := by
  induction cs with
  | nil => rfl
  | cons c cs ih =>
    change _ = c.prune (sweep cs r)
    rw [← ih,pass,prune]
    split <;> rfl

/-- A pass changes nothing exactly if no commit is current and dangles. -/
theorem pass_fst_iff : (pass cs r).1 = false ↔ Settled cs r := by
  induction cs with
  | nil => exact ⟨fun _ => List.forall_mem_nil _,fun _ => rfl⟩
  | cons c cs ih =>
    rw [pass,pass_snd]
    constructor
    · intro still
      split at still
      · cases still
      · rename_i here
        have settled := ih.mp still
        rw [settled.sweep_eq] at here
        refine List.forall_mem_cons.mpr ⟨fun current dangling => here ?_,settled⟩
        rw [current,dangling]
        rfl
    · intro settled
      have rest : Settled cs r := fun d member => settled d (List.mem_cons_of_mem _ member)
      rw [rest.sweep_eq,if_neg]
      · exact ih.mpr rest
      · rw [Bool.and_eq_true]
        exact fun both => settled c List.mem_cons_self both.1 both.2

theorem pass_of_settled (settled : Settled cs r) : pass cs r = (false,r) :=
  Prod.ext (pass_fst_iff.mpr settled) ((pass_snd cs r).trans settled.sweep_eq)

theorem pass_of_not_settled (unsettled : ¬ Settled cs r) : pass cs r = (true,sweep cs r) :=
  Prod.ext (by rw [← pass_fst_iff,Bool.not_eq_false] at unsettled; exact unsettled) (pass_snd cs r)

theorem Settling.unique (first : Settling cs r s) (second : Settling cs r t) : s = t := by
  induction first with
  | last still =>
    cases second with
    | last other => exact congrArg Prod.snd (still.symm.trans other)
    | again other _ => cases still.symm.trans other
  | again changed _ ih =>
    cases second with
    | last other => cases changed.symm.trans other
    | again other rest =>
      obtain rfl := congrArg Prod.snd (changed.symm.trans other)
      exact ih rest

theorem settling_of_settled {n : Nat} (settled : Settled cs (sweeps cs n r)) : Settling cs r (sweeps cs n r) := by
  induction n generalizing r with
  | zero => exact .last (pass_of_settled settled)
  | succ n ih =>
    by_cases already : Settled cs r
    · rw [already.sweeps_eq]
      exact .last (pass_of_settled already)
    · exact .again (pass_of_not_settled already) (ih settled)

/-- Over commits of new modules the passes come to an end, where so many have been made as there are commits. -/
theorem settling_iff (new : ∀ c ∈ cs, c.previous = none) : Settling cs r s ↔ s = sweeps cs cs.length r := by
  have ends := settling_of_settled (sweeps_settled new r)
  exact ⟨fun settling => settling.unique ends,fun same => same ▸ ends⟩

/-! ## The least set that must go -/

/-- Ids of current commits, with each that imports something which is not in the registry without them. -/
structure Doomed (cs : List Commit) (r : Registry) (gone : Set ModuleId) : Prop where
  listed : ∀ id ∈ gone, ∃ c ∈ cs, c.version.id = id ∧ r.isCurrent c.version = true
  dangling : ∀ c ∈ cs, r.isCurrent c.version = true →
    ∀ i ∈ c.version.body.imports, r.get? i = none ∨ i ∈ gone → c.version.id ∈ gone

/-- The modules of one registry that another one does not have. -/
def removed (r s : Registry) : Set ModuleId := {id | r.contains id = true ∧ s.get? id = none}

/-- All current commits together can go. -/
theorem doomed_all (cs : List Commit) (r : Registry) :
    Doomed cs r {id | ∃ c ∈ cs, c.version.id = id ∧ r.isCurrent c.version = true} where
  listed _ member := member
  dangling c member current _ _ _ := ⟨c,member,rfl,current⟩

/-- Nothing is removed that need not go. -/
theorem removed_sweeps_subset (new : ∀ c ∈ cs, c.previous = none) {gone : Set ModuleId} (doomed : Doomed cs r gone) (n : Nat) :
    removed r (sweeps cs n r) ⊆ gone := by
  let Q := fun s => Shrinks s r ∧ removed r s ⊆ gone
  suffices holds : Q (sweeps cs n r) from holds.2
  have start : Q r := by
    refine ⟨.refl r,fun id inside => ?_⟩
    exact absurd inside.1 (Registry.not_contains_iff.mpr inside.2)
  refine sweeps_keeps (Q := Q) ?_ n start
  rintro c member s ⟨shrinks,within⟩
  refine ⟨(prune_shrinks (new c member) s).trans shrinks,?_⟩
  rintro id ⟨present,absent⟩
  rw [get?_prune (wellFormed_of_new (new c member))] at absent
  split at absent
  · rename_i taken
    obtain ⟨⟨current,dangles⟩,rfl⟩ := taken
    -- What it imports was missing from the beginning, or has been removed before.
    obtain ⟨i,imported,missing⟩ := isDangling_iff.mp dangles
    refine doomed.dangling c member (shrinks.isCurrent current) i imported ?_
    by_cases there : r.contains i = true
    · exact .inr (within ⟨there,missing⟩)
    · exact .inl (Registry.not_contains_iff.mp there)
  · exact within ⟨present,absent⟩

/-- What is removed are current commits, and nothing that stays imports what is removed. -/
theorem doomed_removed (new : ∀ c ∈ cs, c.previous = none) (r : Registry) :
    Doomed cs r (removed r (sweeps cs cs.length r)) where
  listed _ member := removed_sweeps_subset new (doomed_all cs r) _ member
  dangling c member current i imported missing := by
    have shrinks := sweeps_shrinks new cs.length r
    obtain ⟨v,found,stamp⟩ := Registry.isCurrent_iff.mp current
    refine ⟨Registry.contains_of_get? found,?_⟩
    cases after : (sweeps cs cs.length r).get? c.version.id with
    | none => rfl
    | some w =>
      obtain rfl := Option.some.inj (found.symm.trans (shrinks _ _ after))
      have stands := sweeps_settled new r c member (Registry.isCurrent_iff.mpr ⟨v,after,stamp⟩)
      exact absurd (isDangling_iff.mpr ⟨i,imported,missing.elim shrinks.absent And.right⟩) stands

theorem isLeast_removed (new : ∀ c ∈ cs, c.previous = none) (r : Registry) :
    IsLeast {gone | Doomed cs r gone} (removed r (sweeps cs cs.length r)) :=
  ⟨doomed_removed new r,fun _ doomed => removed_sweeps_subset new doomed _⟩

/-! ## What stays -/

theorem exists_filter_prune {c : Commit} (new : c.previous = none) (r : Registry) :
    ∃ p, (c.prune r).versions = r.versions.filter p := by
  rw [prune,revert,new]
  split
  · split
    · exact ⟨_,rfl⟩
    · exact ⟨fun _ => true,(List.filter_true _).symm⟩
  · exact ⟨fun _ => true,(List.filter_true _).symm⟩

/-- Nothing changes its place. -/
theorem exists_filter_sweeps (new : ∀ c ∈ cs, c.previous = none) (n : Nat) (r : Registry) :
    ∃ p, (sweeps cs n r).versions = r.versions.filter p := by
  refine sweeps_keeps (Q := fun s => ∃ p, s.versions = r.versions.filter p) ?_ n ⟨fun _ => true,(List.filter_true _).symm⟩
  rintro c member s ⟨p,kept⟩
  obtain ⟨q,pruned⟩ := exists_filter_prune (new c member) s
  exact ⟨_,by rw [pruned,kept,List.filter_filter]⟩

theorem mem_versions_sweeps_iff (new : ∀ c ∈ cs, c.previous = none) {v : Version} {n : Nat} :
    v ∈ (sweeps cs n r).versions ↔ v ∈ r.versions ∧ v.id ∉ removed r (sweeps cs n r) := by
  have shrinks := sweeps_shrinks new n r
  rw [Registry.mem_versions_iff,Registry.mem_versions_iff]
  constructor
  · intro found
    refine ⟨shrinks _ _ found,fun taken => ?_⟩
    cases found.symm.trans taken.2
  · rintro ⟨found,stays⟩
    cases after : (sweeps cs n r).get? v.id with
    | none => exact absurd ⟨Registry.contains_of_get? found,after⟩ stays
    | some w => exact (shrinks _ _ after).symm.trans found

/-- Commits are current only as the very versions that they have registered. -/
def Genuine (cs : List Commit) (r : Registry) : Prop :=
  ∀ c ∈ cs, r.isCurrent c.version = true → r.get? c.version.id = some c.version

/-- All that an id leads to is registered. -/
def Intact (r : Registry) (id : ModuleId) : Prop := ∀ i, r.Reaches [id] i → r.contains i = true

/-- A current commit from which something missing can be reached may go, so nothing else has to. -/
theorem doomed_broken (genuine : Genuine cs r) :
    Doomed cs r {id | (∃ c ∈ cs, c.version.id = id ∧ r.isCurrent c.version = true) ∧ ¬ Intact r id} where
  listed _ member := member.1
  dangling c member current i imported missing := by
    refine ⟨⟨c,member,rfl,current⟩,fun intact => ?_⟩
    have reached : r.Reaches [c.version.id] i := .step (.root (List.mem_singleton.mpr rfl)) (genuine c member current) imported
    rcases missing with absent | ⟨-,broken⟩
    · exact Registry.not_contains_iff.mpr absent (intact i reached)
    · exact broken fun k below => intact k (below.trans (List.forall_mem_singleton.mpr reached))

theorem get?_sweeps_of_intact (new : ∀ c ∈ cs, c.previous = none) (genuine : Genuine cs r) {id : ModuleId} (intact : Intact r id)
    (n : Nat) : (sweeps cs n r).get? id = r.get? id := by
  obtain ⟨v,found⟩ := Registry.contains_iff.mp (intact id (.root (List.mem_singleton.mpr rfl)))
  obtain rfl := Registry.get?_id found
  rw [found]
  refine Registry.mem_versions_iff.mp ((mem_versions_sweeps_iff new).mpr ⟨Registry.mem_versions_iff.mpr found,fun taken => ?_⟩)
  exact (removed_sweeps_subset new (doomed_broken genuine) n taken).2 intact

theorem Doomed.of_mem {others : List Commit} (same : ∀ c, c ∈ others ↔ c ∈ cs) {gone : Set ModuleId}
    (doomed : Doomed cs r gone) : Doomed others r gone where
  listed id member := by simpa only [same] using doomed.listed id member
  dangling c member := doomed.dangling c ((same c).mp member)

/-- What passes over commits come to depends on which commits there are only. -/
theorem sweeps_eq_of_mem (new : ∀ c ∈ cs, c.previous = none) {others : List Commit} (same : ∀ c, c ∈ others ↔ c ∈ cs)
    (r : Registry) : sweeps others others.length r = sweeps cs cs.length r := by
  have newOthers : ∀ c ∈ others, c.previous = none := fun c member => new c ((same c).mp member)
  have least : IsLeast {gone | Doomed cs r gone} (removed r (sweeps others others.length r)) :=
    ⟨(doomed_removed newOthers r).of_mem fun c => (same c).symm,
      fun _ doomed => removed_sweeps_subset newOthers (doomed.of_mem same) _⟩
  have agree := least.unique (isLeast_removed new r)
  obtain ⟨p,kept⟩ := exists_filter_sweeps newOthers others.length r
  obtain ⟨q,keptToo⟩ := exists_filter_sweeps new cs.length r
  refine Registry.eq_of_versions ?_
  have members : ∀ v, v ∈ r.versions.filter p ↔ v ∈ r.versions.filter q := fun v => by
    rw [← kept,← keptToo,mem_versions_sweeps_iff newOthers,mem_versions_sweeps_iff new,agree]
  rw [kept,keptToo]
  refine List.filter_congr fun v member => Bool.eq_iff_iff.mpr ?_
  have := members v
  rwa [List.mem_filter,List.mem_filter,and_iff_right member,and_iff_right member] at this

theorem sublist_ids_revert {c : Commit} (formed : c.WellFormed) (r : Registry) : (c.revert r).ids.Sublist r.ids := by
  rw [revert]
  split
  · rename_i current
    obtain ⟨w,found,-⟩ := Registry.isCurrent_iff.mp current
    cases previous : c.previous with
    | none => exact List.filter_sublist.map _
    | some v =>
      have there : v.id ∈ r.ids := Registry.mem_ids_iff.mpr (Registry.contains_of_get? (formed v previous ▸ found))
      have same : (r.insert v).ids = r.ids := (Version.ids_put v r.versions).trans (if_pos there)
      exact same ▸ .refl _
  · exact .refl _

/-! ## Rollbacks -/

/-- A rollback reverts the failed version and then makes passes over the commits below it until one changes nothing. What that
takes away is the least set of their current modules that holds whatever imports something missing without the set, in whatever
order the commits are listed. Everything else keeps its version and its place, a module that leads to registered ones only
among it. -/
theorem rollback_least (failed : Commit) {below : List Commit} (new : ∀ c ∈ below, c.previous = none) (r : Registry) :
    let reverted := failed.revert r
    let left := failed.rollback below r
    (∀ s, Settling below reverted s ↔ s = left) ∧
    (∃ gone, IsLeast {gone | Doomed below reverted gone} gone ∧ left.versions.Sublist reverted.versions ∧
      ∀ v, v ∈ left.versions ↔ v ∈ reverted.versions ∧ v.id ∉ gone) ∧
    (failed.WellFormed → left.ids.Sublist r.ids ∧ ∀ id, reverted.get? id =
      if r.isCurrent failed.version = true ∧ id = failed.version.id then failed.previous else r.get? id) ∧
    (Genuine below reverted → ∀ id, Intact reverted id → left.get? id = reverted.get? id) ∧
    ∀ others, (∀ c, c ∈ others ↔ c ∈ below) → failed.rollback others r = left := by
  intro reverted left
  have ordered : left.versions.Sublist reverted.versions := by
    obtain ⟨p,kept⟩ := exists_filter_sweeps new below.length reverted
    exact kept ▸ List.filter_sublist
  refine ⟨fun s => settling_iff new,⟨_,isLeast_removed new reverted,ordered,fun v => mem_versions_sweeps_iff new⟩,?_,
    fun genuine id intact => get?_sweeps_of_intact new genuine intact _,fun others same => sweeps_eq_of_mem new same reverted⟩
  intro formed
  exact ⟨(ordered.map Version.id).trans (sublist_ids_revert formed r),get?_revert formed r⟩

end

/-- A module that has just been put in the registry. -/
def ofNew (name : Name) (imports : List Name) : Commit where
  version := { stamp := 0,body := { id := ⟨[name]⟩,sources := "",contents := "",imports := imports.map fun i => ⟨[i]⟩ } }

namespace Back

/-- A module that imports another one. -/
def outer : Commit := ofNew ⟨"outer",by decide⟩ [⟨"inner",by decide⟩]

/-- The other one, which imports the first and a third. -/
def inner : Commit := ofNew ⟨"inner",by decide⟩ [⟨"outer",by decide⟩,⟨"leaf",by decide⟩]

def leaf : Commit := ofNew ⟨"leaf",by decide⟩ []

def registry : Registry := { versions := [outer.version,inner.version,leaf.version],nodup := by decide }

end Back

/-- The module that imports the failed one goes with it, and the third stays. -/
theorem rollback_least_back :
    (∀ c ∈ [Back.leaf,Back.inner,Back.leaf], c.previous = none) ∧
    (∀ s, Settling [Back.leaf,Back.inner,Back.leaf] (Back.outer.revert Back.registry) s ↔
      s = { versions := [Back.leaf.version] }) ∧
    (∃ gone, IsLeast {gone | Doomed [Back.leaf,Back.inner,Back.leaf] (Back.outer.revert Back.registry) gone} gone ∧
      Back.inner.version.id ∈ gone ∧ Back.leaf.version.id ∉ gone) ∧
    Back.outer.rollback [Back.inner,Back.leaf] Back.registry = { versions := [Back.leaf.version] } := by
  have new : ∀ c ∈ [Back.leaf,Back.inner,Back.leaf], c.previous = none := by decide
  have left : Back.outer.rollback [Back.leaf,Back.inner,Back.leaf] Back.registry = { versions := [Back.leaf.version] } := by decide
  obtain ⟨settles,⟨gone,least,-,stays⟩,-,-,order⟩ := rollback_least Back.outer new Back.registry
  rw [left] at settles order stays
  have inside : Back.inner.version ∈ (Back.outer.revert Back.registry).versions := by decide
  refine ⟨new,settles,⟨gone,least,?_,((stays Back.leaf.version).mp (by decide)).2⟩,order _ fun c => ?_⟩
  · by_contra out
    exact absurd ((stays Back.inner.version).mpr ⟨inside,out⟩) (by decide)
  · simp only [List.mem_cons,List.not_mem_nil]
    grind

end Commit

end Bundling
