import Bundling.Graph.Operation
import Bundling.Proofs.Walk

/-!
# Collecting

Removing what cannot be reached from the entries makes no difference for a walk that starts from them: it comes to the same ids
in the same order, and what is missing on its way was missing before (`Registry.closure_collect`). So whether output can be
made, and of which modules, stays as it was, and there is nothing to be removed a second time (`collect_exact`).
-/

namespace Bundling

/-! ## Registries that agree on what can be reached -/

section

variable {r r' : Registry} {roots ids : List ModuleId} {missing : Missing} {visited : List Version}

/-- A walk depends on what can be reached only. -/
theorem Walk.descend_congr (agree : ∀ id, r.Reaches roots id → r'.get? id = r.get? id)
    (reached : ∀ id ∈ ids, r.Reaches roots id) : (descend r' missing visited ids).1 = (descend r missing visited ids).1 := by
  have behind {id : ModuleId} {ids : List ModuleId} (reached : ∀ i ∈ id :: ids, r.Reaches roots i) :
      ∀ i ∈ ids, r.Reaches roots i := fun i member => reached i (List.mem_cons_of_mem _ member)
  induction missing, visited, ids using descend.induct r with
  | case1 missing visited => rw [descend_nil,descend_nil]
  | case2 missing visited id ids seen ih => rw [descend_seen seen,descend_seen seen,ih (behind reached)]
  | case3 missing visited id ids unseen v found below _ i ended ihBelow =>
    have here := reached id List.mem_cons_self
    have stuck : ¬ (descend r missing (visited ++ [v]) v.body.imports).1.absent = none := fun whole =>
      Option.some_ne_none _ (ended.symm.trans whole)
    rw [descend_found unseen found,descend_found unseen ((agree id here).trans found),
      ihBelow fun i member => .step here found member,if_neg stuck,if_neg stuck]
  | case4 missing visited id ids unseen v found below _ whole ihBelow ihRest =>
    have here := reached id List.mem_cons_self
    rw [descend_found unseen found,descend_found unseen ((agree id here).trans found),
      ihBelow fun i member => .step here found member,if_pos whole,if_pos whole,ihRest (behind reached)]
  | case5 visited id ids unseen absent =>
    rw [descend_failed unseen absent,descend_failed unseen ((agree id (reached id List.mem_cons_self)).trans absent)]
  | case6 visited id ids unseen absent ih =>
    rw [descend_skipped unseen absent,descend_skipped unseen ((agree id (reached id List.mem_cons_self)).trans absent),
      ih (behind reached)]

theorem Registry.closure_congr (agree : ∀ id, r.Reaches roots id → r'.get? id = r.get? id) :
    r'.closure roots = r.closure roots := by
  have same : Walk.visitAll r' .fail roots {} = Walk.visitAll r .fail roots {} := by
    rw [Walk.visitAll_eq,Walk.visitAll_eq,Walk.descend_congr agree fun _ => .root]
  rw [closure,closure,same]

end

namespace Registry

variable {r : Registry} {roots : List ModuleId} {id : ModuleId}

theorem get?_collect_of_reaches (reached : r.Reaches roots id) : (r.collect roots).get? id = r.get? id := by
  cases found : r.get? id with
  | some v => exact get?_collect_iff.mpr ⟨found,reached⟩
  | none =>
    rw [← not_contains_iff] at found ⊢
    exact fun kept => found (contains_collect_iff.mp kept).1

theorem closure_collect (r : Registry) (roots : List ModuleId) : (r.collect roots).closure roots = r.closure roots :=
  closure_congr fun _ => get?_collect_of_reaches

theorem mem_versions_collect {v : Version} :
    v ∈ (r.collect roots).versions ↔ v ∈ r.versions ∧ r.Reaches roots v.id := by
  rw [mem_versions_iff,mem_versions_iff,get?_collect_iff]

theorem mem_garbage_iff : id ∈ r.garbage roots ↔ id ∈ r.ids ∧ id ∉ (r.collect roots).ids := by
  rw [garbage,List.mem_filter,mem_ids_iff,mem_ids_iff,contains_collect_iff,Bool.not_eq_true',Bool.eq_false_iff,Ne,
    hasVisited_reachable_iff]

/-- Nothing is collected twice. -/
theorem collect_collect (r : Registry) (roots : List ModuleId) : (r.collect roots).collect roots = r.collect roots := by
  refine eq_of_versions (List.filter_eq_self.mpr fun v member => hasVisited_reachable_iff.mpr ?_)
  obtain ⟨-,reached⟩ := mem_versions_collect.mp member
  exact ⟨contains_of_get? (mem_versions_iff.mp member),reaches_collect reached⟩

theorem garbage_collect (r : Registry) (roots : List ModuleId) : (r.collect roots).garbage roots = [] := by
  refine List.eq_nil_iff_forall_not_mem.mpr fun id member => ?_
  rw [mem_garbage_iff,collect_collect] at member
  exact member.2 member.1

end Registry

namespace Graph

variable {σ : Type}

/-- Collecting leaves the registered modules that can be reached from the entries through registered modules, and says which
others there were, both in the order of registration. A closed registry stays closed, what lies below the entries is the same,
and nothing is left to be collected. -/
theorem collect_exact (g : Graph σ) :
    g.collect.2.registry.versions.Sublist g.registry.versions ∧
    (∀ v, v ∈ g.collect.2.registry.versions ↔ v ∈ g.registry.versions ∧ g.registry.Reaches g.entries v.id) ∧
    g.collect.1.Sublist g.registry.ids ∧
    (∀ id, id ∈ g.collect.1 ↔ id ∈ g.registry.ids ∧ id ∉ g.collect.2.registry.ids) ∧
    (g.registry.Closed → g.collect.2.registry.Closed) ∧
    g.collect.2.allBelow = g.allBelow ∧ g.collect.2.isComplete = g.isComplete ∧
    g.collect.2.collect = ([],g.collect.2) := by
  have below : g.collect.2.allBelow = g.allBelow := by
    have same : g.collect.2.registry.closure g.collect.2.entries = g.registry.closure g.entries :=
      g.registry.closure_collect g.entries
    rw [allBelow,allBelow,Graph.below,Graph.below,same]
  refine ⟨List.filter_sublist,fun v => Registry.mem_versions_collect,List.filter_sublist,fun id => Registry.mem_garbage_iff,
    fun closed => closed.collect g.entries,below,?_,?_⟩
  · rw [isComplete,isComplete,below]
  · rw [collect]
    exact Prod.ext (Registry.garbage_collect ..) (congrArg (fun registry => { g with registry }) (Registry.collect_collect ..))

end Graph

end Bundling
