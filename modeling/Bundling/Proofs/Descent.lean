import Bundling.Proofs.Registry

/-!
# Depth-first order

The order in which everything below some ids is come to, by recursion: an id that is new comes first, then what it imports,
then the next id (`Registry.preorder`). A walk with a stack of its own visits modules in this order. With each root it ends
in one way only (`Walk.ends_iff`), as the recursive walk does (`Walk.descend`), whatever it visited before: the imports that
are on the stack more than once, or were visited since, are passed over when they come up. What is missing is skipped, or
the walk ends at the first of it (`visit_eq_descend`).
-/

namespace Bundling

namespace Registry

/-- What a module imports; nothing if it is not registered. -/
def importsOf (r : Registry) (id : ModuleId) : List ModuleId := ((r.get? id).map fun v => v.body.imports).getD []

/-- How many registered modules are not among some ids. -/
def unmet (r : Registry) (met : List ModuleId) : Nat := r.versions.countP fun v => v.id ∉ met

theorem unmet_le {r : Registry} {met later : List ModuleId} (pre : met <+: later) : r.unmet later ≤ r.unmet met := by
  refine List.countP_mono_left fun v _ apart => ?_
  rw [decide_eq_true_eq] at apart ⊢
  exact fun before => apart (pre.subset before)

theorem unmet_lt {r : Registry} {met : List ModuleId} {id : ModuleId} {v : Version} (found : r.get? id = some v)
    (new : id ∉ met) : r.unmet (met ++ [id]) < r.unmet met := by
  obtain rfl := get?_id found
  have rest : r.versions.filter (fun w => w.id ∉ met ++ [v.id]) =
      (r.versions.filter fun w => w.id ∉ met).filter fun w => w.id ≠ v.id := by
    rw [List.filter_filter]
    exact List.filter_congr fun w _ => by simp [and_comm]
  have listed : v ∈ r.versions.filter fun w => w.id ∉ met :=
    List.mem_filter.mpr ⟨mem_versions_iff.mpr found,decide_eq_true new⟩
  rw [unmet,unmet,List.countP_eq_length_filter,List.countP_eq_length_filter,rest]
  exact List.length_filter_lt_length_iff_exists.mpr ⟨v,listed,by simp⟩

/-- The ids that have been met, and behind them, each once, those that are come to from some more: an id before what it
imports, and that before the next id. -/
def preorder (r : Registry) (met : List ModuleId) : (ids : List ModuleId) → { later : List ModuleId // met <+: later }
  | [] => ⟨met,List.prefix_refl _⟩
  | id :: ids =>
    if _known : id ∈ met then preorder r met ids
    else
      let below := preorder r (met ++ [id]) (r.importsOf id)
      have pre := (List.prefix_append met [id]).trans below.2
      let rest := preorder r below.1 ids
      ⟨rest.1,pre.trans rest.2⟩
termination_by ids => (r.unmet met,ids.length)
decreasing_by
  · exact .right _ (Nat.lt_succ_self _)
  · cases found : r.get? id with
    | some v => exact .left _ _ (unmet_lt found _known)
    | none =>
      have fewer : (r.importsOf id).length < (id :: ids).length := by
        rw [importsOf,found]
        exact Nat.succ_pos _
      exact Prod.lex_def.mpr ((Nat.lt_or_eq_of_le (unmet_le (List.prefix_append met [id]))).imp_right fun same => ⟨same,fewer⟩)
  · exact Prod.lex_def.mpr ((Nat.lt_or_eq_of_le (unmet_le pre)).imp_right fun same => ⟨same,Nat.lt_succ_self _⟩)

section

variable {r : Registry} {met ids roots : List ModuleId} {id i : ModuleId} {v : Version}

theorem importsOf_eq (found : r.get? id = some v) : r.importsOf id = v.body.imports := by
  rw [importsOf,found]
  rfl

theorem importsOf_absent (absent : r.get? id = none) : r.importsOf id = [] := by
  rw [importsOf,absent]
  rfl

theorem reaches_importsOf (reached : r.Reaches roots id) (member : i ∈ r.importsOf id) : r.Reaches roots i := by
  cases found : r.get? id with
  | none =>
    rw [importsOf_absent found] at member
    cases member
  | some v => exact .step reached found (importsOf_eq found ▸ member)

theorem preorder_nil : (r.preorder met []).1 = met := by
  rw [preorder]

theorem preorder_leaf (absent : r.get? id = none) : (r.preorder met (r.importsOf id)).1 = met := by
  rw [importsOf_absent absent,preorder_nil]

theorem preorder_met (known : id ∈ met) : r.preorder met (id :: ids) = r.preorder met ids := by
  rw [preorder,dif_pos known]

theorem preorder_new (new : id ∉ met) :
    (r.preorder met (id :: ids)).1 = (r.preorder (r.preorder (met ++ [id]) (r.importsOf id)).1 ids).1 := by
  rw [preorder,dif_neg new]

/-- What is true of the ids that have been met if it stays true with one more. -/
theorem preorder_keeps {Q : List ModuleId → Prop} (add : ∀ met id, id ∉ met → r.Reaches roots id → Q met → Q (met ++ [id]))
    (reached : ∀ id ∈ ids, r.Reaches roots id) (holds : Q met) : Q (r.preorder met ids).1 := by
  induction met, ids using preorder.induct r with
  | case1 met => exact preorder_nil.symm ▸ holds
  | case2 met id ids known ih =>
    rw [preorder_met known]
    exact ih (fun i member => reached i (List.mem_cons_of_mem _ member)) holds
  | case3 met id ids new below _ ihBelow ihRest =>
    have here := reached id List.mem_cons_self
    rw [preorder_new new]
    exact ihRest (fun i member => reached i (List.mem_cons_of_mem _ member))
      (ihBelow (fun i member => reaches_importsOf here member) (add met id new here holds))

theorem mem_preorder (member : id ∈ ids) : id ∈ (r.preorder met ids).1 := by
  induction met, ids using preorder.induct r with
  | case1 met => cases member
  | case2 met i ids known ih =>
    rw [preorder_met known]
    rcases List.mem_cons.mp member with rfl | later
    · exact (r.preorder met ids).2.subset known
    · exact ih later
  | case3 met i ids new below _ ihBelow ihRest =>
    rw [preorder_new new]
    rcases List.mem_cons.mp member with rfl | later
    · exact (r.preorder below.1 ids).2.subset (below.2.subset (List.mem_append_right _ List.mem_cons_self))
    · exact ihRest later

/-- What has been met since is followed by what it imports, if that has not been met before. -/
theorem importsOf_preorder (member : id ∈ (r.preorder met ids).1) :
    id ∈ met ∨ ∀ i ∈ r.importsOf id, i ∈ (r.preorder met ids).1 := by
  induction met, ids using preorder.induct r with
  | case1 met => exact .inl (by rwa [preorder_nil] at member)
  | case2 met j ids known ih =>
    rw [preorder_met known] at member ⊢
    exact ih member
  | case3 met j ids new below _ ihBelow ihRest =>
    rw [preorder_new new] at member ⊢
    have kept : ∀ {i}, i ∈ below.1 → i ∈ (r.preorder below.1 ids).1 := fun inside => (r.preorder below.1 ids).2.subset inside
    rcases ihRest member with before | imports
    · rcases ihBelow before with early | imports
      · rcases List.mem_append.mp early with old | now
        · exact .inl old
        · obtain rfl := List.mem_singleton.mp now
          exact .inr fun i imported => kept (mem_preorder imported)
      · exact .inr fun i imported => kept (imports i imported)
    · exact .inr imports

/-- The order holds what can be reached. -/
theorem mem_preorder_iff : id ∈ (r.preorder [] roots).1 ↔ r.Reaches roots id := by
  constructor
  · intro member
    refine preorder_keeps (Q := fun met => ∀ i ∈ met, r.Reaches roots i) ?_ (fun _ => .root) (List.forall_mem_nil _) id member
    intro met id _ here before i member
    rcases List.mem_append.mp member with old | now
    · exact before i old
    · exact List.mem_singleton.mp now ▸ here
  · intro reached
    induction reached with
    | root member => exact mem_preorder member
    | step _ found imported ih =>
      exact (importsOf_preorder ih).resolve_left List.not_mem_nil _ (importsOf_eq found ▸ imported)

theorem nodup_preorder : (r.preorder [] roots).1.Nodup := by
  refine @preorder_keeps r [] roots roots List.Nodup ?_ (fun _ => .root) List.nodup_nil
  intro met id new _ nodup
  exact List.nodup_append.mpr ⟨nodup,by simp,fun i old j now same => new (List.mem_singleton.mp now ▸ same ▸ old)⟩

end

end Registry

namespace Walk

theorem hasVisited_iff {visited : List Version} {id : ModuleId} :
    hasVisited visited id = true ↔ ∃ v ∈ visited, v.id = id := by
  simp [hasVisited]

theorem hasVisited_append {visited : List Version} {v : Version} {id : ModuleId} :
    hasVisited (visited ++ [v]) id = (hasVisited visited id || decide (v.id = id)) := by
  simp [hasVisited]

theorem hasVisited_iff_mem {visited : List Version} {id : ModuleId} : hasVisited visited id = true ↔ id ∈ Version.ids visited := by
  simp [hasVisited,Version.ids]

theorem hasVisited_of_extends {visited later : List Version} (pre : visited <+: later) {id : ModuleId}
    (seen : hasVisited visited id = true) : hasVisited later id = true := by
  obtain ⟨v,member,same⟩ := hasVisited_iff.mp seen
  exact hasVisited_iff.mpr ⟨v,pre.subset member,same⟩

/-! ## The recursive walk -/

/-- Visits what has not been visited of some ids, in order, each with everything that it imports before the next one. -/
def descend (r : Registry) (missing : Missing) (visited : List Version) :
    (ids : List ModuleId) → { w : Walk // visited <+: w.visited }
  | [] => ⟨{ visited },List.prefix_refl _⟩
  | id :: ids =>
    if _seen : hasVisited visited id = true then descend r missing visited ids
    else match _found : r.get? id with
      | some v =>
        let below := descend r missing (visited ++ [v]) v.body.imports
        have pre := (List.prefix_append visited [v]).trans below.2
        match below.1.absent with
        | some _ => ⟨below.1,pre⟩
        | none =>
          let rest := descend r missing below.1.visited ids
          ⟨rest.1,pre.trans rest.2⟩
      | none =>
        match missing with
        | .fail => ⟨{ visited, absent := some id },List.prefix_refl _⟩
        | .skip => descend r .skip visited ids
termination_by ids => (r.unmet (Version.ids visited),ids.length)
decreasing_by
  · exact .right _ (Nat.lt_succ_self _)
  · have new : id ∉ Version.ids visited := fun member => _seen (hasVisited_iff_mem.mpr member)
    refine .left _ _ ?_
    rw [Version.ids,List.map_append,List.map_singleton,Registry.get?_id _found]
    exact Registry.unmet_lt _found new
  · exact Prod.lex_def.mpr ((Nat.lt_or_eq_of_le (Registry.unmet_le (pre.map _))).imp_right fun same => ⟨same,Nat.lt_succ_self _⟩)
  · exact .right _ (Nat.lt_succ_self _)

section

variable {r : Registry} {missing : Missing} {visited : List Version} {id : ModuleId} {ids more : List ModuleId} {v : Version}

theorem descend_nil : (descend r missing visited []).1 = { visited } := by
  rw [descend]

theorem descend_seen (seen : hasVisited visited id = true) :
    descend r missing visited (id :: ids) = descend r missing visited ids := by
  cases missing <;> rw [descend,dif_pos seen]

theorem descend_found (unseen : ¬ hasVisited visited id = true) (found : r.get? id = some v) :
    (descend r missing visited (id :: ids)).1 =
      if (descend r missing (visited ++ [v]) v.body.imports).1.absent = none then
        (descend r missing (descend r missing (visited ++ [v]) v.body.imports).1.visited ids).1
      else (descend r missing (visited ++ [v]) v.body.imports).1 := by
  rw [descend.eq_def]
  simp only [dif_neg unseen]
  split
  · rename_i w found'
    obtain rfl := Option.some.inj (found.symm.trans found')
    split
    · rename_i absent
      rw [absent,if_neg nofun]
    · rename_i absent
      rw [if_pos absent]
  · rename_i absent
    rw [absent] at found
    cases found

theorem descend_failed (unseen : ¬ hasVisited visited id = true) (absent : r.get? id = none) :
    (descend r .fail visited (id :: ids)).1 = { visited, absent := some id } := by
  rw [descend,dif_neg unseen]
  split
  · rename_i found
    rw [absent] at found
    cases found
  · rfl

theorem descend_skipped (unseen : ¬ hasVisited visited id = true) (absent : r.get? id = none) :
    descend r .skip visited (id :: ids) = descend r .skip visited ids := by
  rw [descend,dif_neg unseen]
  split
  · rename_i found
    rw [absent] at found
    cases found
  · rfl

/-- The ids behind some others are visited after them. -/
theorem descend_append : (descend r missing visited (ids ++ more)).1 =
    if (descend r missing visited ids).1.absent = none then (descend r missing (descend r missing visited ids).1.visited more).1
    else (descend r missing visited ids).1 := by
  induction missing, visited, ids using descend.induct r with
  | case1 missing visited => rw [descend_nil,List.nil_append,if_pos rfl]
  | case2 missing visited id ids seen ih => rw [List.cons_append,descend_seen seen,descend_seen seen,ih]
  | case3 missing visited id ids unseen v found below _ i ended =>
    have stuck : ¬ (descend r missing (visited ++ [v]) v.body.imports).1.absent = none := fun whole =>
      Option.some_ne_none _ (ended.symm.trans whole)
    rw [List.cons_append,descend_found unseen found,descend_found unseen found,if_neg stuck,if_neg stuck,if_neg stuck]
  | case4 missing visited id ids unseen v found below _ whole _ ih =>
    rw [List.cons_append,descend_found unseen found,descend_found unseen found,if_pos whole,if_pos whole,ih]
  | case5 visited id ids unseen absent =>
    rw [List.cons_append,descend_failed unseen absent,descend_failed unseen absent,if_neg nofun]
  | case6 visited id ids unseen absent ih =>
    rw [List.cons_append,descend_skipped unseen absent,descend_skipped unseen absent,ih]

/-- Ids that have been visited need not be looked at. -/
theorem descend_filter {early : List Version} (pre : early <+: visited) :
    (descend r missing visited (ids.filter fun id => !hasVisited early id)).1 = (descend r missing visited ids).1 := by
  induction ids generalizing visited with
  | nil => rfl
  | cons id ids ih =>
    by_cases seen : hasVisited early id = true
    · rw [List.filter_cons_of_neg (by simpa using seen),descend_seen (hasVisited_of_extends pre seen),ih pre]
    · rw [List.filter_cons_of_pos (by simpa using seen),← List.singleton_append,← List.singleton_append (l := ids),
        descend_append,descend_append,ih (pre.trans (descend r missing visited [id]).2)]

end

/-! ## The walk with a stack -/

/-- How many imports there are of what has not been visited. -/
def weight (r : Registry) (visited : List Version) : Nat :=
  (r.versions.flatMap fun v => if hasVisited visited v.id then [] else v.body.imports).length

private theorem weight_list {vs : List Version} (nodup : (Version.ids vs).Nodup) {visited : List Version}
    {v : Version} (member : v ∈ vs) (fresh : hasVisited visited v.id = false) :
    (vs.flatMap fun w => if hasVisited (visited ++ [v]) w.id then [] else w.body.imports).length +
        v.body.imports.length =
      (vs.flatMap fun w => if hasVisited visited w.id then [] else w.body.imports).length := by
  induction vs with
  | nil => simp at member
  | cons w ws ih =>
    have parts : w.id ∉ Version.ids ws ∧ (Version.ids ws).Nodup := by simpa [Version.ids] using nodup
    rw [List.flatMap_cons,List.flatMap_cons,List.length_append,List.length_append]
    rcases List.mem_cons.mp member with rfl | later
    · have rest : (ws.flatMap fun w => if hasVisited (visited ++ [v]) w.id then [] else w.body.imports) =
          ws.flatMap fun w => if hasVisited visited w.id then [] else w.body.imports := by
        rw [List.flatMap_def,List.flatMap_def]
        refine congrArg List.flatten (List.map_congr_left fun w inside => ?_)
        have other : v.id ≠ w.id := fun same => parts.1 (same ▸ List.mem_map_of_mem inside)
        simp [hasVisited_append,other]
      rw [rest]
      simp only [hasVisited_append,fresh,decide_true,Bool.or_true,if_true,List.length_nil,if_false,
        Bool.false_eq_true]
      omega
    · have other : v.id ≠ w.id := fun same => parts.1 (same ▸ List.mem_map_of_mem later)
      have tail := ih parts.2 later
      simp only [hasVisited_append,other,decide_false,Bool.or_false] at tail ⊢
      omega

theorem weight_append {r : Registry} {visited : List Version} {v : Version}
    (found : r.get? v.id = some v) (fresh : hasVisited visited v.id = false) :
    weight r (visited ++ [v]) + v.body.imports.length = weight r visited :=
  weight_list r.nodup (Registry.mem_versions_iff.mpr found) fresh

theorem weight_lt_bound (r : Registry) (visited : List Version) : weight r visited < bound r := by
  have small : ∀ vs : List Version,
      (vs.flatMap fun v => if hasVisited visited v.id then [] else v.body.imports).length ≤
        (vs.flatMap fun v => v.body.imports).length := by
    intro vs
    induction vs with
    | nil => exact Nat.le_refl _
    | cons v vs ih =>
      rw [List.flatMap_cons,List.flatMap_cons,List.length_append,List.length_append]
      split
      · exact Nat.le_trans (Nat.le_of_eq (Nat.zero_add _)) (Nat.le_trans ih (Nat.le_add_left _ _))
      · exact Nat.add_le_add_left ih _
  have := small r.versions
  unfold weight bound
  omega

theorem go_seen {r : Registry} {visited : List Version} {id : ModuleId} (seen : hasVisited visited id = true)
    (missing : Missing) (fuel : Nat) (stack : List ModuleId) :
    go r missing (fuel + 1) (id :: stack) visited = go r missing fuel stack visited := by
  cases missing <;> rw [go,if_pos seen]

theorem go_found {r : Registry} {visited : List Version} {id : ModuleId} {v : Version}
    (unseen : ¬ hasVisited visited id = true) (found : r.get? id = some v) (missing : Missing) (fuel : Nat)
    (stack : List ModuleId) : go r missing (fuel + 1) (id :: stack) visited =
      go r missing fuel (fresh (visited ++ [v]) v ++ stack) (visited ++ [v]) := by
  cases missing <;> rw [go,if_neg unseen,found]

section

variable {r : Registry} {missing : Missing} {visited : List Version} {id : ModuleId} {stack : List ModuleId} {w : Walk}

/-- With a stack to work off, a walk ends in a certain way: with nothing on the stack, or at a module that is missing. -/
inductive Ends (r : Registry) (missing : Missing) : (stack : List ModuleId) → (visited : List Version) → Walk → Prop where
  | empty {visited : List Version} : Ends r missing [] visited { visited }
  | seen {id : ModuleId} {stack : List ModuleId} {visited : List Version} {w : Walk}
      (seen : hasVisited visited id = true) (rest : Ends r missing stack visited w) : Ends r missing (id :: stack) visited w
  | found {id : ModuleId} {stack : List ModuleId} {visited : List Version} {v : Version} {w : Walk}
      (unseen : ¬ hasVisited visited id = true) (found : r.get? id = some v)
      (rest : Ends r missing (fresh (visited ++ [v]) v ++ stack) (visited ++ [v]) w) : Ends r missing (id :: stack) visited w
  | failed {id : ModuleId} {stack : List ModuleId} {visited : List Version} (strict : missing = .fail)
      (unseen : ¬ hasVisited visited id = true) (absent : r.get? id = none) :
      Ends r missing (id :: stack) visited { visited, absent := some id }
  | skipped {id : ModuleId} {stack : List ModuleId} {visited : List Version} {w : Walk} (lenient : missing = .skip)
      (unseen : ¬ hasVisited visited id = true) (absent : r.get? id = none) (rest : Ends r missing stack visited w) :
      Ends r missing (id :: stack) visited w

/-- The fuel of a walk does not run out: a visit pays for the imports that it puts on the stack. -/
theorem ends_go (fuel : Nat) (enough : stack.length + weight r visited ≤ fuel) :
    Ends r missing stack visited (go r missing fuel stack visited) := by
  induction fuel generalizing stack visited with
  | zero =>
    obtain rfl : stack = [] := List.length_eq_zero_iff.mp (by omega)
    exact .empty
  | succ fuel ih =>
    cases stack with
    | nil => exact .empty
    | cons id stack =>
      have size : stack.length + 1 + weight r visited ≤ fuel + 1 := by simpa using enough
      by_cases seen : hasVisited visited id = true
      · rw [go_seen seen]
        exact .seen seen (ih (by omega))
      · cases found : r.get? id with
        | some v =>
          have same : v.id = id := Registry.get?_id found
          have paid := weight_append (same ▸ found) (by simpa [same] using seen)
          have few : (fresh (visited ++ [v]) v).length ≤ v.body.imports.length := List.length_filter_le ..
          rw [go_found seen found]
          exact .found seen found (ih (by rw [List.length_append]; omega))
        | none =>
          cases missing with
          | fail =>
            rw [go,if_neg seen,found]
            exact .failed rfl seen found
          | skip =>
            rw [go,if_neg seen,found]
            exact .skipped rfl seen found (ih (by omega))

/-- A walk with a stack ends as the recursive one does that visits what is on the stack. -/
theorem Ends.eq_descend (ends : Ends r missing stack visited w) : w = (descend r missing visited stack).1 := by
  induction ends with
  | empty => exact descend_nil.symm
  | seen seen _ ih => rw [descend_seen seen,ih]
  | @found id stack visited v w unseen found _ ih =>
    rw [descend_append,fresh,descend_filter (List.prefix_refl _)] at ih
    rw [descend_found unseen found,ih]
  | failed strict unseen absent =>
    subst strict
    rw [descend_failed unseen absent]
  | skipped lenient unseen absent _ ih =>
    subst lenient
    rw [descend_skipped unseen absent,ih]

theorem ends_iff : Ends r missing stack visited w ↔ w = (descend r missing visited stack).1 := by
  refine ⟨Ends.eq_descend,?_⟩
  rintro rfl
  have ends := @ends_go r missing visited stack _ (Nat.le_refl _)
  exact ends.eq_descend ▸ ends

theorem visit_eq (w : Walk) (root : ModuleId) : visit r missing w root = (descend r missing w.visited [root]).1 := by
  have small := weight_lt_bound r w.visited
  exact (ends_go (bound r) (by simp; omega)).eq_descend

theorem visitAll_eq (roots : List ModuleId) (visited : List Version) :
    visitAll r missing roots { visited } = (descend r missing visited roots).1 := by
  induction roots generalizing visited with
  | nil => exact descend_nil.symm
  | cons root roots ih =>
    have split := @descend_append r missing visited [root] roots
    rw [List.singleton_append] at split
    rw [visitAll,visit_eq,split]
    generalize (descend r missing visited [root]).1 = w
    obtain ⟨visited',ended⟩ := w
    cases ended with
    | none => exact ih visited'
    | some id => rfl

end

/-! ## What a walk visits -/

/-- A walk along ids: what is missing is skipped, or the walk ends at the first of it. -/
def along (r : Registry) (order : List ModuleId) : Missing → Walk
  | .fail => { visited := (order.takeWhile r.contains).filterMap r.get?, absent := order.find? fun id => !r.contains id }
  | .skip => { visited := order.filterMap r.get? }

section

variable {r : Registry} {missing : Missing} {met ids order later roots : List ModuleId} {id : ModuleId} {v : Version}

theorem hasVisited_filterMap : hasVisited (met.filterMap r.get?) id = true ↔ id ∈ met ∧ r.contains id = true := by
  rw [hasVisited_iff,Registry.contains_iff]
  constructor
  · rintro ⟨v,member,same⟩
    obtain ⟨i,known,found⟩ := List.mem_filterMap.mp member
    obtain rfl : i = id := (Registry.get?_id found).symm.trans same
    exact ⟨known,v,found⟩
  · rintro ⟨known,v,found⟩
    exact ⟨v,List.mem_filterMap.mpr ⟨id,known,found⟩,Registry.get?_id found⟩

theorem along_registered (registered : missing = .fail → ∀ i ∈ order, r.contains i = true) :
    along r order missing = { visited := order.filterMap r.get? } := by
  cases missing with
  | skip => rfl
  | fail =>
    have all := registered rfl
    have none : order.find? (fun id => !r.contains id) = none := List.find?_eq_none.mpr fun i member => by simp [all i member]
    have whole : order.takeWhile r.contains = order := by simpa using @List.takeWhile_append_of_pos _ _ order [] all
    rw [along,whole,none]

theorem registered_of_along (whole : (along r order missing).absent = none) :
    missing = .fail → ∀ i ∈ order, r.contains i = true := by
  rintro rfl i member
  simpa using List.find?_eq_none.mp whole i member

/-- What comes behind a missing module makes no difference. -/
theorem along_of_ended (pre : order <+: later) (ended : ¬ (along r order missing).absent = none) :
    along r later missing = along r order missing := by
  cases missing with
  | skip => exact absurd rfl ended
  | fail =>
    obtain ⟨id,first⟩ := Option.ne_none_iff_exists'.mp ended
    obtain ⟨absent,before,behind,rfl,registered⟩ := List.find?_eq_some_iff_append.mp first
    obtain ⟨more,rfl⟩ := pre
    have all : ∀ i ∈ before, r.contains i = true := fun i member => by simpa using registered i member
    have lone : r.contains id = false := by simpa using absent
    simp only [along,List.append_assoc,List.cons_append,List.find?_append,List.takeWhile_append_of_pos all,
      List.takeWhile_cons_of_neg (Bool.eq_false_iff.mp lone),List.find?_cons,lone,Bool.not_false]

/-- Of some ids, the modules that are registered are those of the ids that are. -/
theorem ids_filterMap (r : Registry) (order : List ModuleId) :
    Version.ids (order.filterMap r.get?) = order.filter r.contains := by
  induction order with
  | nil => rfl
  | cons id order ih =>
    cases found : r.get? id with
    | none => rw [List.filterMap_cons_none found,ih,List.filter_cons_of_neg (Registry.not_contains_iff.mpr found)]
    | some v =>
      rw [List.filterMap_cons_some found,List.filter_cons_of_pos (Registry.contains_of_get? found),← ih,Version.ids,List.map_cons,
        Registry.get?_id found]
      rfl

theorem mem_filterMap_get?_iff : v ∈ order.filterMap r.get? ↔ r.get? v.id = some v ∧ v.id ∈ order := by
  rw [List.mem_filterMap]
  constructor
  · rintro ⟨id,member,found⟩
    obtain rfl := Registry.get?_id found
    exact ⟨found,member⟩
  · exact fun ⟨found,member⟩ => ⟨v.id,member,found⟩

theorem filterMap_append_found (found : r.get? id = some v) : (met ++ [id]).filterMap r.get? = met.filterMap r.get? ++ [v] := by
  rw [List.filterMap_append,List.filterMap_cons_some found,List.filterMap_nil]

theorem filterMap_append_absent (absent : r.get? id = none) : (met ++ [id]).filterMap r.get? = met.filterMap r.get? := by
  rw [List.filterMap_append,List.filterMap_cons_none absent,List.filterMap_nil,List.append_nil]

/-- The recursive walk goes along the order. -/
theorem descend_eq_along (registered : missing = .fail → ∀ i ∈ met, r.contains i = true) :
    (descend r missing (met.filterMap r.get?) ids).1 = along r (r.preorder met ids).1 missing := by
  induction met, ids using Registry.preorder.induct r with
  | case1 met => rw [descend_nil,Registry.preorder_nil,along_registered registered]
  | case2 met id ids known ih =>
    rw [Registry.preorder_met known,← ih registered]
    by_cases present : r.contains id = true
    · rw [descend_seen (hasVisited_filterMap.mpr ⟨known,present⟩)]
    · cases missing with
      | fail => exact absurd (registered rfl id known) present
      | skip => rw [descend_skipped (fun seen => present (hasVisited_filterMap.mp seen).2) (Registry.not_contains_iff.mp present)]
  | case3 met id ids new below _ ihBelow ihRest =>
    have unseen : ¬ hasVisited (met.filterMap r.get?) id = true := fun seen => new (hasVisited_filterMap.mp seen).1
    have behind : below.1 <+: (r.preorder below.1 ids).1 := (r.preorder below.1 ids).2
    rw [Registry.preorder_new new]
    cases found : r.get? id with
    | some v =>
      have present : missing = .fail → ∀ i ∈ met ++ [id], r.contains i = true := by
        intro strict i member
        rcases List.mem_append.mp member with old | now
        · exact registered strict i old
        · exact List.mem_singleton.mp now ▸ Registry.contains_of_get? found
      have inner : (descend r missing (met.filterMap r.get? ++ [v]) v.body.imports).1 = along r below.1 missing := by
        rw [← filterMap_append_found found,← Registry.importsOf_eq found]
        exact ihBelow present
      rw [descend_found unseen found,inner]
      split
      · rename_i whole
        have all := registered_of_along whole
        rw [along_registered all]
        exact ihRest all
      · rename_i ended
        exact (along_of_ended behind ended).symm
    | none =>
      have leaf : below.1 = met ++ [id] := Registry.preorder_leaf found
      cases missing with
      | fail =>
        have ended : along r below.1 .fail = { visited := met.filterMap r.get?, absent := some id } := by
          have all := registered rfl
          have lone : r.contains id = false := Bool.eq_false_iff.mpr (Registry.not_contains_iff.mpr found)
          have none : met.find? (fun i => !r.contains i) = none := List.find?_eq_none.mpr fun i member => by simp [all i member]
          simp only [along,leaf,List.takeWhile_append_of_pos all,List.find?_append,none]
          simp [lone]
        rw [descend_failed unseen found,← ended]
        exact (along_of_ended behind (ended ▸ nofun)).symm
      | skip =>
        have same : below.1.filterMap r.get? = met.filterMap r.get? := by rw [leaf,filterMap_append_absent found]
        rw [descend_skipped unseen found,← same]
        exact ihRest nofun

/-- From several roots a walk goes along the order of all that can be reached from them. -/
theorem visitAll_eq_along (r : Registry) (missing : Missing) (roots : List ModuleId) :
    visitAll r missing roots {} = along r (r.preorder [] roots).1 missing :=
  (visitAll_eq roots []).trans (@descend_eq_along r missing [] roots fun _ => List.forall_mem_nil _)

theorem nodup_along (whole : (along r order missing).absent = none) (nodup : order.Nodup) :
    (Version.ids (along r order missing).visited).Nodup := by
  rw [along_registered (registered_of_along whole),ids_filterMap]
  exact nodup.filter _

/-- A walk with a stack ends with every root, in one way, and so does the recursive walk, whatever was visited before. From
several roots it goes along the order of all that can be reached from them. When it has ended well it has visited what can be
reached and is registered, each module once. When it minds what is missing, it ends at the first missing id of that order,
and otherwise well. -/
theorem visit_eq_descend (r : Registry) (missing : Missing) :
    (∀ visited root w, Ends r missing [root] visited w ↔ w = (descend r missing visited [root]).1) ∧
    (∀ w root, visit r missing w root = (descend r missing w.visited [root]).1) ∧
    ∀ roots, visitAll r missing roots {} = (descend r missing [] roots).1 ∧
      visitAll r missing roots {} = along r (r.preorder [] roots).1 missing ∧
      (r.preorder [] roots).1.Nodup ∧ (∀ id, id ∈ (r.preorder [] roots).1 ↔ r.Reaches roots id) ∧
      ((visitAll r missing roots {}).absent = none →
        (Version.ids (visitAll r missing roots {}).visited).Nodup ∧
        ∀ v, v ∈ (visitAll r missing roots {}).visited ↔ r.get? v.id = some v ∧ r.Reaches roots v.id) ∧
      ((visitAll r missing roots {}).absent ≠ none ↔ missing = .fail ∧ ∃ id, r.Reaches roots id ∧ r.get? id = none) := by
  refine ⟨fun visited root w => ends_iff,visit_eq,fun roots => ?_⟩
  have ordered := visitAll_eq_along r missing roots
  refine ⟨visitAll_eq roots [],ordered,Registry.nodup_preorder,fun id => Registry.mem_preorder_iff,
    fun whole => ⟨?_,fun v => ?_⟩,?_⟩
  · rw [ordered] at whole ⊢
    exact nodup_along whole Registry.nodup_preorder
  · rw [ordered] at whole ⊢
    rw [along_registered (registered_of_along whole),mem_filterMap_get?_iff,Registry.mem_preorder_iff]
  · rw [ordered]
    cases missing with
    | skip => exact ⟨fun ended => absurd rfl ended,fun both => nomatch both.1⟩
    | fail =>
      have first : ((r.preorder [] roots).1.find? fun id => !r.contains id) ≠ none ↔
          ∃ id ∈ (r.preorder [] roots).1, r.get? id = none := by
        simp [Registry.contains]
      refine first.trans ⟨?_,?_⟩
      · rintro ⟨id,member,absent⟩
        exact ⟨rfl,id,Registry.mem_preorder_iff.mp member,absent⟩
      · rintro ⟨-,id,reached,absent⟩
        exact ⟨id,Registry.mem_preorder_iff.mpr reached,absent⟩

end

end Walk

end Bundling
