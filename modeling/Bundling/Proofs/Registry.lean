import Bundling.Graph.Commit
import Bundling.Graph.Traversal

/-!
# Look-up laws of the registry

What a registry holds is told by `Registry.get?`: one equation for each operation, after which nobody
looks at the list of versions. `Closed` says that no import is missing, and `Reaches` what can be
reached from some roots through the imports that the registry knows.
-/

namespace Bundling

namespace Version

theorem find?_put (v : Version) (vs : List Version) (id : ModuleId) :
    (put v vs).find? (fun w => w.id = id) =
      if v.id = id then some v else vs.find? (fun w => w.id = id) := by
  induction vs with
  | nil => by_cases same : v.id = id <;> simp [put,same]
  | cons w ws ih =>
    by_cases here : w.id = v.id
    · by_cases same : v.id = id <;> simp [put,here,same]
    · by_cases same : v.id = id
      · have other : w.id ≠ id := fun equal => here (equal.trans same.symm)
        rw [put,if_neg here]
        simp [other,same,ih]
      · rw [put,if_neg here]
        by_cases found : w.id = id <;> simp [found,same,ih]

theorem find?_of_mem {vs : List Version} (nodup : (ids vs).Nodup) {v : Version} (member : v ∈ vs) :
    vs.find? (fun w => w.id = v.id) = some v := by
  induction vs with
  | nil => simp at member
  | cons w ws ih =>
    have parts : w.id ∉ ids ws ∧ (ids ws).Nodup := by simpa [ids] using nodup
    rcases List.mem_cons.mp member with rfl | later
    · simp
    · have other : w.id ≠ v.id := by
        intro same
        exact parts.1 (same ▸ List.mem_map_of_mem later)
      simpa [other] using ih parts.2 later

end Version

namespace Registry

theorem mem_versions_iff {r : Registry} {v : Version} : v ∈ r.versions ↔ r.get? v.id = some v := by
  constructor
  · exact Version.find?_of_mem r.nodup
  · exact List.mem_of_find?_eq_some

theorem get?_id {r : Registry} {id : ModuleId} {v : Version} (found : r.get? id = some v) :
    v.id = id := by
  simpa using List.find?_some found

theorem eq_of_versions {r r' : Registry} (same : r.versions = r'.versions) : r = r' := by
  cases r
  cases r'
  cases same
  rfl

@[simp] theorem get?_empty (id : ModuleId) : empty.get? id = none := rfl

theorem get?_insert (r : Registry) (v : Version) (id : ModuleId) :
    (r.insert v).get? id = if v.id = id then some v else r.get? id :=
  Version.find?_put v r.versions id

@[simp] theorem get?_insert_self (r : Registry) (v : Version) : (r.insert v).get? v.id = some v := by
  simp [get?_insert]

theorem get?_insert_of_ne {r : Registry} {v : Version} {id : ModuleId} (other : v.id ≠ id) :
    (r.insert v).get? id = r.get? id := by
  simp [get?_insert,other]

theorem get?_filter (r : Registry) (p : Version → Bool) (id : ModuleId) :
    (r.filter p).get? id = (r.get? id).filter p := by
  cases found : r.get? id with
  | none =>
    have absent : ∀ v ∈ r.versions, ¬ v.id = id := by simpa [get?] using found
    have gone : ∀ v ∈ (r.filter p).versions, ¬ v.id = id :=
      fun v member => absent v (List.mem_filter.mp member).1
    simpa [get?] using gone
  | some v =>
    have same := get?_id found
    subst same
    have member := mem_versions_iff.mpr found
    by_cases kept : p v
    · have stays : v ∈ (r.filter p).versions := List.mem_filter.mpr ⟨member,kept⟩
      simpa [Option.filter,kept] using mem_versions_iff.mp stays
    · have gone : ∀ w ∈ (r.filter p).versions, ¬ w.id = v.id := by
        intro w inside same
        obtain ⟨before,holds⟩ := List.mem_filter.mp inside
        have equal : w = v := by
          have := mem_versions_iff.mp before
          rw [same,found] at this
          exact (Option.some.inj this).symm
        exact kept (equal ▸ holds)
      simpa [get?,Option.filter,kept] using gone

theorem get?_erase (r : Registry) (gone id : ModuleId) :
    (r.erase gone).get? id = if id = gone then none else r.get? id := by
  rw [erase,get?_filter]
  cases found : r.get? id with
  | none => simp
  | some v =>
    have same := get?_id found
    subst same
    by_cases equal : v.id = gone <;> simp [equal]

theorem contains_iff {r : Registry} {id : ModuleId} : r.contains id = true ↔ ∃ v, r.get? id = some v := by
  simp [contains,Option.isSome_iff_exists]

theorem contains_of_get? {r : Registry} {id : ModuleId} {v : Version} (found : r.get? id = some v) :
    r.contains id = true := contains_iff.mpr ⟨v,found⟩

theorem not_contains_iff {r : Registry} {id : ModuleId} : ¬ r.contains id = true ↔ r.get? id = none := by
  simp [contains]

theorem mem_ids_iff {r : Registry} {id : ModuleId} : id ∈ r.ids ↔ r.contains id = true := by
  rw [contains_iff,ids,Version.ids,List.mem_map]
  constructor
  · rintro ⟨v,member,rfl⟩
    exact ⟨v,mem_versions_iff.mp member⟩
  · rintro ⟨v,found⟩
    obtain rfl := get?_id found
    exact ⟨v,mem_versions_iff.mpr found,rfl⟩

theorem isCurrent_iff {r : Registry} {v : Version} :
    r.isCurrent v = true ↔ ∃ w, r.get? v.id = some w ∧ w.stamp = v.stamp := by
  cases found : r.get? v.id <;> simp [isCurrent,found]

theorem isCurrent_of_get? {r : Registry} {v : Version} (found : r.get? v.id = some v) :
    r.isCurrent v = true := isCurrent_iff.mpr ⟨v,found,rfl⟩

/-! ## Closed registries -/

/-- No import of a registered module is missing. -/
def Closed (r : Registry) : Prop :=
  ∀ id v, r.get? id = some v → ∀ i ∈ v.body.imports, r.contains i = true

theorem not_closed {r : Registry} {id i : ModuleId} {imports : List ModuleId}
    (found : (r.get? id).map (fun v => v.body.imports) = some imports) (member : i ∈ imports)
    (absent : r.contains i = false) : ¬ r.Closed := by
  intro closed
  obtain ⟨v,registered,rfl⟩ := Option.map_eq_some_iff.mp found
  rw [closed id v registered i member] at absent
  cases absent

theorem closed_empty : empty.Closed := by
  intro id v found
  simp at found

/-! ## What can be reached -/

/-- What can be reached from some roots through the imports of registered modules. The last step may
lead to an id that is not registered. -/
inductive Reaches (r : Registry) (roots : List ModuleId) : ModuleId → Prop where
  | root {id : ModuleId} (member : id ∈ roots) : Reaches r roots id
  | step {id i : ModuleId} {v : Version} (reached : Reaches r roots id)
      (found : r.get? id = some v) (member : i ∈ v.body.imports) : Reaches r roots i

theorem Reaches.trans {r : Registry} {roots others : List ModuleId} {id : ModuleId}
    (reached : r.Reaches others id) (all : ∀ i ∈ others, r.Reaches roots i) : r.Reaches roots id := by
  induction reached with
  | root member => exact all _ member
  | step _ found member ih => exact .step ih found member

/-- What can be reached from several roots can be reached from one of them. -/
theorem Reaches.exists_root {r : Registry} {roots : List ModuleId} {id : ModuleId}
    (reached : r.Reaches roots id) : ∃ root ∈ roots, r.Reaches [root] id := by
  induction reached with
  | root member => exact ⟨_,member,.root (List.mem_singleton.mpr rfl)⟩
  | step _ found member ih =>
    obtain ⟨root,inside,reached⟩ := ih
    exact ⟨root,inside,.step reached found member⟩

/-- What can be reached can be reached where more is registered. -/
theorem Reaches.mono {r r' : Registry} {roots : List ModuleId} {id : ModuleId} (reached : r.Reaches roots id)
    (kept : ∀ id v, r.get? id = some v → r'.get? id = some v) : r'.Reaches roots id := by
  induction reached with
  | root member => exact .root member
  | step _ found member ih => exact .step ih (kept _ _ found) member

/-- In a closed registry only roots can be missing. -/
theorem Closed.contains_of_reaches {r : Registry} (closed : r.Closed) {roots : List ModuleId}
    (present : ∀ id ∈ roots, r.contains id = true) {id : ModuleId} (reached : r.Reaches roots id) :
    r.contains id = true := by
  induction reached with
  | root member => exact present _ member
  | step _ found member _ => exact closed _ _ found _ member

end Registry

end Bundling
