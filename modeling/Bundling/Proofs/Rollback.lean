import Bundling.Proofs.Registry

/-!
# Taking commits back

One equation for each operation on commits. A property that pruning each listed commit keeps is kept
by the whole rollback (`sweeps_keeps`). Where the listed commits were of new modules, so many passes
as there are commits suffice: none of them dangles in the end (`sweeps_settled`). Every pass that
changes anything takes out a commit that was current, and none comes back.
-/

namespace Bundling.Commit

/-- The version that a commit took the place of is one of the same module. -/
def WellFormed (c : Commit) : Prop := ∀ v, c.previous = some v → v.id = c.version.id

theorem wellFormed_of_new {c : Commit} (new : c.previous = none) : c.WellFormed := by
  intro v found
  rw [new] at found
  cases found

theorem isDangling_iff {c : Commit} {r : Registry} :
    c.isDangling r = true ↔ ∃ i ∈ c.version.body.imports, r.get? i = none := by
  simp [isDangling,Registry.contains]

/-- As long as the version is the current one, nothing that it imports is missing. -/
def Stands (c : Commit) (r : Registry) : Prop :=
  r.get? c.version.id = some c.version → ¬ c.isDangling r = true

theorem get?_revert {c : Commit} (formed : c.WellFormed) (r : Registry) (id : ModuleId) :
    (c.revert r).get? id =
      if r.isCurrent c.version = true ∧ id = c.version.id then c.previous else r.get? id := by
  unfold revert
  by_cases current : r.isCurrent c.version = true
  · rw [if_pos current]
    cases previous : c.previous with
    | none => simp [Registry.get?_erase,current]
    | some v =>
      have same := formed v previous
      by_cases here : id = c.version.id
      · simp [Registry.get?_insert,same,here,current]
      · simp [Registry.get?_insert,same,here,Ne.symm here]
  · simp [current]

/-- What is registered after a commit has been taken back was so before, or is what it took the place of. -/
theorem get?_of_revert {c : Commit} {r : Registry} {id : ModuleId} {v : Version}
    (found : (c.revert r).get? id = some v) : r.get? id = some v ∨ c.previous = some v := by
  unfold revert at found
  split at found
  · cases previous : c.previous with
    | none =>
      rw [previous,Registry.get?_erase] at found
      split at found
      · cases found
      · exact .inl found
    | some w =>
      rw [previous,Registry.get?_insert] at found
      split at found
      · exact .inr found
      · exact .inl found
  · exact .inl found

theorem get?_prune {c : Commit} (formed : c.WellFormed) (r : Registry) (id : ModuleId) :
    (c.prune r).get? id =
      if (r.isCurrent c.version = true ∧ c.isDangling r = true) ∧ id = c.version.id
      then c.previous else r.get? id := by
  unfold prune
  by_cases current : r.isCurrent c.version = true
  · by_cases dangling : c.isDangling r = true
    · simp [current,dangling,get?_revert formed]
    · simp [current,dangling]
  · simp [current]

theorem sweep_keeps {Q : Registry → Prop} {cs : List Commit}
    (prune : ∀ c ∈ cs, ∀ r, Q r → Q (c.prune r)) {r : Registry} (holds : Q r) : Q (sweep cs r) := by
  induction cs with
  | nil => exact holds
  | cons c cs ih =>
    have rest := ih fun d member => prune d (List.mem_cons_of_mem _ member)
    exact prune c List.mem_cons_self _ rest

theorem sweeps_keeps {Q : Registry → Prop} {cs : List Commit}
    (prune : ∀ c ∈ cs, ∀ r, Q r → Q (c.prune r)) (n : Nat) {r : Registry} (holds : Q r) :
    Q (sweeps cs n r) := by
  induction n generalizing r with
  | zero => exact holds
  | succ n ih => exact ih (sweep_keeps prune holds)

/-! ## Commits of new modules -/

/-- One registry holds nothing but what another one holds. -/
def Shrinks (smaller larger : Registry) : Prop :=
  ∀ id v, smaller.get? id = some v → larger.get? id = some v

theorem Shrinks.refl (r : Registry) : Shrinks r r := fun _ _ found => found

theorem Shrinks.trans {a b c : Registry} (first : Shrinks a b) (second : Shrinks b c) : Shrinks a c :=
  fun id v found => second id v (first id v found)

theorem Shrinks.isCurrent {a b : Registry} (shrinks : Shrinks a b) {v : Version}
    (current : a.isCurrent v = true) : b.isCurrent v = true := by
  obtain ⟨w,found,same⟩ := Registry.isCurrent_iff.mp current
  exact Registry.isCurrent_iff.mpr ⟨w,shrinks _ _ found,same⟩

theorem Shrinks.absent {a b : Registry} (shrinks : Shrinks a b) {id : ModuleId} (absent : b.get? id = none) :
    a.get? id = none := by
  cases found : a.get? id with
  | none => rfl
  | some v => cases absent.symm.trans (shrinks id v found)

theorem Shrinks.isDangling {a b : Registry} (shrinks : Shrinks a b) {c : Commit}
    (dangling : c.isDangling b = true) : c.isDangling a = true := by
  obtain ⟨i,member,absent⟩ := isDangling_iff.mp dangling
  exact isDangling_iff.mpr ⟨i,member,shrinks.absent absent⟩

theorem prune_shrinks {c : Commit} (new : c.previous = none) (r : Registry) : Shrinks (c.prune r) r := by
  intro id v found
  rw [get?_prune (wellFormed_of_new new)] at found
  split at found
  · rw [new] at found; cases found
  · exact found

theorem sweep_shrinks {cs : List Commit} (new : ∀ c ∈ cs, c.previous = none) (r : Registry) :
    Shrinks (sweep cs r) r :=
  sweep_keeps (Q := fun s => Shrinks s r) (fun c member s shrinks => (prune_shrinks (new c member) s).trans shrinks)
    (.refl r)

theorem sweeps_shrinks {cs : List Commit} (new : ∀ c ∈ cs, c.previous = none) (n : Nat) (r : Registry) :
    Shrinks (sweeps cs n r) r :=
  sweeps_keeps (Q := fun s => Shrinks s r) (fun c member s shrinks => (prune_shrinks (new c member) s).trans shrinks)
    n (.refl r)

/-- None of the commits is current and dangles. -/
def Settled (cs : List Commit) (r : Registry) : Prop :=
  ∀ c ∈ cs, r.isCurrent c.version = true → ¬ c.isDangling r = true

theorem Settled.sweep_eq {cs : List Commit} {r : Registry} (settled : Settled cs r) : sweep cs r = r := by
  induction cs with
  | nil => rfl
  | cons c cs ih =>
    have rest : sweep cs r = r := ih fun d member => settled d (List.mem_cons_of_mem _ member)
    have here := settled c List.mem_cons_self
    show c.prune (sweep cs r) = r
    rw [rest,prune]
    by_cases current : r.isCurrent c.version = true
    · simp [current,here current]
    · simp [current]

theorem Settled.sweeps_eq {cs : List Commit} {r : Registry} (settled : Settled cs r) (n : Nat) :
    sweeps cs n r = r := by
  induction n with
  | zero => rfl
  | succ n ih => rw [sweeps,settled.sweep_eq,ih]

/-- A pass takes out what is current and dangles. -/
theorem not_isCurrent_sweep {cs : List Commit} (new : ∀ c ∈ cs, c.previous = none) {r : Registry}
    {c : Commit} (member : c ∈ cs) (dangling : c.isDangling r = true) :
    ¬ (sweep cs r).isCurrent c.version = true := by
  induction cs with
  | nil => cases member
  | cons d cs ih =>
    have newRest : ∀ e ∈ cs, e.previous = none := fun e inside => new e (List.mem_cons_of_mem _ inside)
    have newHere : d.previous = none := new d List.mem_cons_self
    intro current
    change (d.prune (sweep cs r)).isCurrent c.version = true at current
    rcases List.mem_cons.mp member with rfl | later
    · have before := (prune_shrinks newHere (sweep cs r)).isCurrent current
      have still := (sweep_shrinks newRest r).isDangling dangling
      obtain ⟨v,found,_⟩ := Registry.isCurrent_iff.mp current
      rw [get?_prune (wellFormed_of_new newHere)] at found
      simp [before,still,newHere] at found
    · exact ih newRest later ((prune_shrinks newHere (sweep cs r)).isCurrent current)

/-- How many of the commits are current. -/
def standing (cs : List Commit) (r : Registry) : Nat := cs.countP fun c => r.isCurrent c.version

private theorem standing_lt {cs : List Commit} {small large : Registry} (shrinks : Shrinks small large)
    {c : Commit} (member : c ∈ cs) (before : large.isCurrent c.version = true)
    (after : ¬ small.isCurrent c.version = true) : standing cs small < standing cs large := by
  have mono : ∀ ds : List Commit, standing ds small ≤ standing ds large := fun ds =>
    List.countP_mono_left fun d _ current => shrinks.isCurrent current
  induction cs with
  | nil => cases member
  | cons d cs ih =>
    have tail := mono cs
    unfold standing at tail ih ⊢
    rw [List.countP_cons,List.countP_cons]
    rcases List.mem_cons.mp member with rfl | later
    · rw [if_pos before,if_neg after]
      omega
    · have less := ih later
      by_cases current : small.isCurrent d.version = true
      · rw [if_pos current,if_pos (shrinks.isCurrent current)]
        omega
      · rw [if_neg current]
        omega

theorem sweeps_settled {cs : List Commit} (new : ∀ c ∈ cs, c.previous = none) (r : Registry) :
    Settled cs (sweeps cs cs.length r) := by
  have enough : ∀ (n : Nat) (r : Registry), standing cs r ≤ n → Settled cs (sweeps cs n r) := by
    intro n
    induction n with
    | zero =>
      intro r few c member current
      have none : cs.countP (fun c => r.isCurrent c.version) = 0 := Nat.le_zero.mp few
      exact absurd current (List.countP_eq_zero.mp none c member)
    | succ n ih =>
      intro r few
      by_cases settled : Settled cs r
      · rw [settled.sweeps_eq]; exact settled
      · -- Some commit is current and dangles, and one fewer is current after the next pass.
        obtain ⟨c,member,current,dangling⟩ :
            ∃ c ∈ cs, r.isCurrent c.version = true ∧ c.isDangling r = true := by
          simpa [Settled] using settled
        have less := standing_lt (sweep_shrinks new r) member current
          (not_isCurrent_sweep new member dangling)
        exact ih (sweep cs r) (by omega)
  exact enough cs.length r List.countP_le_length

/-! ## Rollbacks

The failed version is the current one of its module. -/

section

variable {failed : Commit} {below : List Commit} {r : Registry} {id : ModuleId} {v : Version}

theorem rollback_induction {Q : Registry → Prop} (revert : Q (failed.revert r))
    (prune : ∀ c ∈ below, ∀ r, Q r → Q (c.prune r)) : Q (failed.rollback below r) :=
  sweeps_keeps prune _ revert

/-- A rollback puts nothing where nothing was. -/
theorem rollback_absent (formed : failed.WellFormed) (formedBelow : ∀ c ∈ below, c.WellFormed)
    (absent : r.get? id = none) : (failed.rollback below r).get? id = none := by
  have gone : ∀ (v : Version) (s : Registry), s.get? id = none → s.isCurrent v = true → id ≠ v.id := by
    rintro v s absent current rfl
    obtain ⟨w,found,-⟩ := Registry.isCurrent_iff.mp current
    rw [absent] at found
    cases found
  refine rollback_induction (Q := fun r => r.get? id = none) ?_ ?_
  · rw [get?_revert formed,if_neg fun both => gone _ _ absent both.1 both.2]
    exact absent
  · intro c member s absent
    rw [get?_prune (formedBelow c member),if_neg fun both => gone _ _ absent both.1.1 both.2]
    exact absent

/-- What is registered after a rollback was so before, or is what a commit took the place of. -/
theorem rollback_origin (found : (failed.rollback below r).get? id = some v) :
    r.get? id = some v ∨ failed.previous = some v ∨ ∃ c ∈ below, c.previous = some v := by
  refine rollback_induction (Q := fun s => ∀ id v, s.get? id = some v →
    r.get? id = some v ∨ failed.previous = some v ∨ ∃ c ∈ below, c.previous = some v) ?_ ?_ _ _ found
  · exact fun id v found => (get?_of_revert found).imp_right .inl
  · intro c member s holds id v found
    unfold prune at found
    split at found
    · rcases get?_of_revert found with before | previous
      · exact holds id v before
      · exact .inr (.inr ⟨c,member,previous⟩)
    · exact holds id v found

theorem rollback_settled (new : ∀ c ∈ below, c.previous = none) :
    Settled below (failed.rollback below r) := sweeps_settled new _

/-- Where the commits below are of new modules, what a rollback leaves was there, or is what the failed version took the place of. -/
theorem get?_of_rollback (formed : failed.WellFormed) (new : ∀ c ∈ below, c.previous = none)
    (current : r.get? failed.version.id = some failed.version)
    (found : (failed.rollback below r).get? id = some v) :
    (id = failed.version.id ∧ failed.previous = some v) ∨
      (id ≠ failed.version.id ∧ r.get? id = some v) := by
  have before := sweeps_shrinks new below.length (failed.revert r) id v found
  rw [get?_revert formed] at before
  by_cases here : id = failed.version.id
  · rw [if_pos ⟨Registry.isCurrent_of_get? current,here⟩] at before
    exact .inl ⟨here,before⟩
  · rw [if_neg fun both => here both.2] at before
    exact .inr ⟨here,before⟩

/-- A rollback leaves what is neither the failed version nor one of a commit below it, and puts back
what the failed version took the place of. -/
theorem rollback_keeps (formed : failed.WellFormed) (formedBelow : ∀ c ∈ below, c.WellFormed)
    (current : r.get? failed.version.id = some failed.version)
    (apart : ∀ c ∈ below, c.version.stamp ≠ v.stamp)
    (found : (id = failed.version.id ∧ failed.previous = some v) ∨
      (id ≠ failed.version.id ∧ r.get? id = some v)) :
    (failed.rollback below r).get? id = some v := by
  have reverted : (failed.revert r).get? id = some v := by
    rw [get?_revert formed]
    rcases found with ⟨here,previous⟩ | ⟨other,found⟩
    · rwa [if_pos ⟨Registry.isCurrent_of_get? current,here⟩]
    · rwa [if_neg fun both => other both.2]
  refine sweeps_keeps (Q := fun r => r.get? id = some v) ?_ _ reverted
  intro c member r found
  rw [get?_prune (formedBelow c member),if_neg]
  · exact found
  · rintro ⟨⟨now,-⟩,same⟩
    obtain ⟨w,there,stamp⟩ := Registry.isCurrent_iff.mp now
    rw [← same,found] at there
    exact apart c member (Option.some.inj there ▸ stamp.symm)

end

end Bundling.Commit
