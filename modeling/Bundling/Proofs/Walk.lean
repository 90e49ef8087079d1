import Bundling.Proofs.Descent

/-!
# What walks visit

A walk that skips what is missing visits exactly the registered modules that can be reached from its
roots (`mem_reachable_iff`), and one that has ended well has visited the same ones (`closure_ok`).
Collecting therefore keeps exactly what can be reached (`get?_collect_iff`) and leaves a closed
registry closed.
-/

namespace Bundling

namespace Registry

theorem reachable_eq (r : Registry) (roots : List ModuleId) : r.reachable roots = (r.preorder [] roots).1.filterMap r.get? := by
  rw [reachable,Walk.visitAll_eq_along]
  rfl

theorem mem_reachable_iff {r : Registry} {roots : List ModuleId} {v : Version} :
    v ∈ r.reachable roots ↔ r.get? v.id = some v ∧ r.Reaches roots v.id := by
  rw [reachable_eq,Walk.mem_filterMap_get?_iff,mem_preorder_iff]

theorem hasVisited_reachable_iff {r : Registry} {roots : List ModuleId} {id : ModuleId} :
    Walk.hasVisited (r.reachable roots) id = true ↔ r.contains id = true ∧ r.Reaches roots id := by
  rw [Walk.hasVisited_iff,contains_iff]
  constructor
  · rintro ⟨v,member,rfl⟩
    obtain ⟨found,reached⟩ := mem_reachable_iff.mp member
    exact ⟨⟨v,found⟩,reached⟩
  · rintro ⟨⟨v,found⟩,reached⟩
    have same := get?_id found
    subst same
    exact ⟨v,mem_reachable_iff.mpr ⟨found,reached⟩,rfl⟩

/-- Collecting keeps a module exactly if it can be reached. -/
theorem get?_collect_iff {r : Registry} {roots : List ModuleId} {id : ModuleId} {v : Version} :
    (r.collect roots).get? id = some v ↔ r.get? id = some v ∧ r.Reaches roots id := by
  rw [collect,get?_filter,Option.filter_eq_some_iff]
  constructor
  · rintro ⟨found,kept⟩
    exact ⟨found,get?_id found ▸ (hasVisited_reachable_iff.mp kept).2⟩
  · rintro ⟨found,reached⟩
    refine ⟨found,hasVisited_reachable_iff.mpr ?_⟩
    rw [get?_id found]
    exact ⟨contains_of_get? found,reached⟩

theorem reaches_collect {r : Registry} {roots : List ModuleId} {id : ModuleId} (reached : r.Reaches roots id) :
    (r.collect roots).Reaches roots id := by
  induction reached with
  | root member => exact .root member
  | step before found member ih => exact .step ih (get?_collect_iff.mpr ⟨found,before⟩) member

theorem contains_collect_iff {r : Registry} {roots : List ModuleId} {id : ModuleId} :
    (r.collect roots).contains id = true ↔ r.contains id = true ∧ r.Reaches roots id := by
  simp only [contains_iff,get?_collect_iff]
  constructor
  · rintro ⟨v,found,reached⟩
    exact ⟨⟨v,found⟩,reached⟩
  · rintro ⟨⟨v,found⟩,reached⟩
    exact ⟨v,found,reached⟩

/-- What is left imports nothing that has been taken away. -/
theorem get?_import_of_collect {r : Registry} {roots : List ModuleId} {id i : ModuleId} {v : Version}
    (found : (r.collect roots).get? id = some v) (member : i ∈ v.body.imports)
    (absent : (r.collect roots).get? i = none) : r.get? i = none := by
  obtain ⟨before,reached⟩ := get?_collect_iff.mp found
  cases present : r.get? i with
  | none => rfl
  | some w =>
    have kept : (r.collect roots).get? i = some w :=
      get?_collect_iff.mpr ⟨present,.step reached before member⟩
    rw [absent] at kept
    cases kept

theorem Closed.collect {r : Registry} (closed : r.Closed) (roots : List ModuleId) :
    (r.collect roots).Closed := by
  intro id v found i member
  obtain ⟨before,reached⟩ := get?_collect_iff.mp found
  exact contains_collect_iff.mpr ⟨closed id v before i member,.step reached before member⟩

theorem nodup_reachable (r : Registry) (roots : List ModuleId) : (Version.ids (r.reachable roots)).Nodup := by
  rw [reachable_eq,Walk.ids_filterMap]
  exact nodup_preorder.filter _

/-- A walk that has ended well has visited all that can be reached, and all of it is registered. -/
theorem closure_ok {r : Registry} {roots : List ModuleId} {vs : List Version} (ok : r.closure roots = .ok vs) :
    vs = r.reachable roots ∧ ∀ id, r.Reaches roots id → r.contains id = true := by
  rw [closure,Walk.visitAll_eq_along] at ok
  cases whole : (Walk.along r (r.preorder [] roots).1 .fail).absent with
  | some id => simp [whole] at ok
  | none =>
    have registered := Walk.registered_of_along whole
    rw [Walk.along_registered registered] at ok
    exact ⟨(Except.ok.inj ok).symm.trans (reachable_eq r roots).symm,
      fun id reached => registered rfl id (mem_preorder_iff.mpr reached)⟩

end Registry

end Bundling
