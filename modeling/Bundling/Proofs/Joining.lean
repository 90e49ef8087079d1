import Bundling.Proofs.Stages

/-!
# Joining reads

Joining a read adds nothing to a graph but a new task, and only if no read of the module is on its way (`Graph.Grown`). What
the tasks come to that somebody waits for is taken together in the order they were joined.
-/

namespace Bundling

namespace Graph

variable {σ : Type}

/-! ## Joining reads -/

/-- Nothing but new reads has been added to a graph, each of one of some modules that no read was on
its way for. -/
structure Grown (ids : List ModuleId) (g g' : Graph σ) : Prop where
  same : g' = { g with tasks := g'.tasks, inFlight := g'.inFlight }
  longer : g.tasks.length ≤ g'.tasks.length
  old : ∀ {n id s}, g.At n id s → g'.At n id s
  new : ∀ {n id s}, g'.At n id s → g.At n id s ∨
    (g.tasks.length ≤ n ∧ s = .reading ∧ id ∈ ids ∧ (id,n) ∈ g'.inFlight ∧ ∀ m, (id,m) ∉ g.inFlight)
  kept : ∀ {id n}, (id,n) ∈ g.inFlight → (id,n) ∈ g'.inFlight
  listed : ∀ {id n}, (id,n) ∈ g'.inFlight → (id,n) ∈ g.inFlight ∨
    (g.tasks.length ≤ n ∧ g'.At n id .reading ∧ id ∈ ids ∧ ∀ m, (id,m) ∉ g.inFlight)
  once : ∀ {id n m}, (id,n) ∈ g'.inFlight → (id,m) ∈ g'.inFlight →
    (id,n) ∈ g.inFlight ∨ (id,m) ∈ g.inFlight ∨ n = m

theorem lookup_eq_none_iff {l : List (ModuleId × Nat)} {id : ModuleId} :
    l.lookup id = none ↔ ∀ n, (id,n) ∉ l := by
  induction l with
  | nil => simp
  | cons p l ih =>
    obtain ⟨key,m⟩ := p
    by_cases same : id = key
    · subst same
      simp only [List.lookup_cons_self,reduceCtorEq,false_iff]
      exact fun absent => absent m List.mem_cons_self
    · have other : (id == key) = false := beq_eq_false_iff_ne.mpr same
      simp [List.lookup_cons,other,same,ih]

theorem mem_of_lookup {β : Type} {l : List (ModuleId × β)} {id : ModuleId} {n : β}
    (found : l.lookup id = some n) : (id,n) ∈ l := by
  induction l with
  | nil => simp at found
  | cons p l ih =>
    obtain ⟨key,m⟩ := p
    by_cases same : id = key
    · subst same
      simp at found
      exact found ▸ List.mem_cons_self
    · have other : (id == key) = false := beq_eq_false_iff_ne.mpr same
      simp only [List.lookup_cons,other] at found
      exact List.mem_cons_of_mem _ (ih found)

/-- Numbers a module is listed with are one, or both are old, if old modules keep theirs. -/
theorem both_or_eq {l : List (ModuleId × Nat)} {id : ModuleId} {n m : Nat}
    (one : (id,n) ∈ l ∨ ∀ k, (id,k) ∉ l) (other : (id,m) ∈ l ∨ ∀ k, (id,k) ∉ l)
    (once : (id,n) ∈ l ∨ (id,m) ∈ l ∨ n = m) : ((id,n) ∈ l ∧ (id,m) ∈ l) ∨ n = m := by
  rcases once with old | old | equal
  · exact .inl ⟨old,other.resolve_right fun absent => absent n old⟩
  · exact .inl ⟨one.resolve_right fun absent => absent m old,old⟩
  · exact .inr equal

theorem Grown.both_or_eq {ids : List ModuleId} {g g' : Graph σ} (grown : Grown ids g g') {id : ModuleId} {n m : Nat}
    (one : (id,n) ∈ g'.inFlight) (other : (id,m) ∈ g'.inFlight) :
    ((id,n) ∈ g.inFlight ∧ (id,m) ∈ g.inFlight) ∨ n = m :=
  Graph.both_or_eq ((grown.listed one).imp_right (·.2.2.2)) ((grown.listed other).imp_right (·.2.2.2)) (grown.once one other)

theorem Grown.refl (ids : List ModuleId) (g : Graph σ) : Grown ids g g :=
  ⟨rfl,Nat.le_refl _,fun here => here,.inl,fun member => member,.inl,fun member _ => .inl member⟩

theorem Grown.trans {ids : List ModuleId} {a b c : Graph σ} (first : Grown ids a b)
    (second : Grown ids b c) : Grown ids a c := by
  have longer := Nat.le_trans first.longer second.longer
  refine ⟨?_,longer,fun here => second.old (first.old here),?_,fun member => second.kept (first.kept member),
    ?_,?_⟩
  · rw [second.same,first.same]
  · intro n id s there
    rcases second.new there with middle | ⟨late,reading,member,listed,absent⟩
    · rcases first.new middle with old | ⟨late,reading,member,listed,absent⟩
      · exact .inl old
      · exact .inr ⟨late,reading,member,second.kept listed,absent⟩
    · exact .inr ⟨Nat.le_trans first.longer late,reading,member,listed,
        fun m there => absent m (first.kept there)⟩
  · intro id n there
    rcases second.listed there with middle | ⟨late,reading,member,absent⟩
    · rcases first.listed middle with old | ⟨late,reading,member,absent⟩
      · exact .inl old
      · exact .inr ⟨late,second.old reading,member,absent⟩
    · exact .inr ⟨Nat.le_trans first.longer late,reading,member,fun m there => absent m (first.kept there)⟩
  · intro id n m one other
    rcases second.both_or_eq one other with ⟨middle,middle'⟩ | equal
    · exact first.once middle middle'
    · exact .inr (.inr equal)

theorem Grown.at_old {ids : List ModuleId} {g g' : Graph σ} (grown : Grown ids g g') {n : Nat} {id : ModuleId}
    {s : Stage σ} (other : s ≠ .reading) (there : g'.At n id s) : g.At n id s := by
  rcases grown.new there with before | ⟨-,reading,-⟩
  · exact before
  · exact absurd reading other

theorem Grown.outcome?_iff {ids : List ModuleId} {g g' : Graph σ} (grown : Grown ids g g') {n : Nat} {r : Compiled} :
    g'.outcome? n = some r ↔ g.outcome? n = some r := by
  rw [Graph.outcome?_iff,Graph.outcome?_iff]
  exact exists_congr fun _ => ⟨grown.at_old (by simp),grown.old⟩

theorem grown_join (g : Graph σ) {ids : List ModuleId} {id : ModuleId} (member : id ∈ ids) :
    Grown ids g (g.join id).2 ∧ (id,(g.join id).1) ∈ (g.join id).2.inFlight := by
  unfold join
  cases found : g.inFlight.lookup id with
  | some n => exact ⟨.refl ids g,mem_of_lookup found⟩
  | none =>
    have absent := lookup_eq_none_iff.mp found
    refine ⟨⟨rfl,by simp [start],?_,?_,?_,?_,?_⟩,by simp [start]⟩
    · intro n id' s here
      simp only [At,start] at here ⊢
      rw [List.getElem?_append_left (show n < g.tasks.length from At.lt here)]
      exact here
    · intro n id' s there
      by_cases before : n < g.tasks.length
      · refine .inl ?_
        simp only [At,start] at there ⊢
        rwa [List.getElem?_append_left before] at there
      · have last : n = g.tasks.length := by
          have := At.lt there
          simp [start] at this
          omega
        subst last
        simp only [At,start,List.getElem?_concat_length,Option.some.injEq,Task.mk.injEq] at there
        obtain ⟨rfl,rfl⟩ := there
        exact .inr ⟨Nat.le_refl _,rfl,member,by simp [start],absent⟩
    · intro id' n there
      simp [start,there]
    · intro id' n there
      simp only [start,List.mem_append,List.mem_singleton,Prod.mk.injEq] at there
      rcases there with before | ⟨rfl,rfl⟩
      · exact .inl before
      · exact .inr ⟨Nat.le_refl _,by simp [At,start],member,absent⟩
    · intro id' n m one other
      simp only [start,List.mem_append,List.mem_singleton,Prod.mk.injEq] at one other
      rcases one with before | ⟨rfl,rfl⟩
      · exact .inl before
      · rcases other with before | ⟨-,rfl⟩
        · exact .inr (.inl before)
        · exact .inr (.inr rfl)

theorem grown_joinAll (g : Graph σ) {all ids : List ModuleId} (members : ∀ id ∈ ids, id ∈ all) :
    Grown all g (g.joinAll ids).2 ∧
      (∀ n ∈ (g.joinAll ids).1, ∃ id ∈ ids, (id,n) ∈ (g.joinAll ids).2.inFlight) ∧
      ∀ id ∈ ids, ∃ n ∈ (g.joinAll ids).1, (id,n) ∈ (g.joinAll ids).2.inFlight := by
  induction ids generalizing g with
  | nil => exact ⟨.refl all g,by simp [joinAll],by simp⟩
  | cons id ids ih =>
    obtain ⟨first,listed⟩ := grown_join g (members id List.mem_cons_self)
    obtain ⟨rest,children,covered⟩ := ih (g.join id).2 fun i member => members i (List.mem_cons_of_mem _ member)
    refine ⟨first.trans rest,?_,?_⟩
    · intro n member
      rcases List.mem_cons.mp member with rfl | later
      · exact ⟨id,List.mem_cons_self,rest.kept listed⟩
      · obtain ⟨i,inside,there⟩ := children n later
        exact ⟨i,List.mem_cons_of_mem _ inside,there⟩
    · intro i member
      rcases List.mem_cons.mp member with rfl | later
      · exact ⟨_,List.mem_cons_self,rest.kept listed⟩
      · obtain ⟨n,inside,there⟩ := covered i later
        exact ⟨n,List.mem_cons_of_mem _ inside,there⟩

/-! ## Outcomes -/

section

variable {α β : Type} {f : α → Option β} {xs : List α} {ys : List β}

theorem mapM_eq_none_iff : xs.mapM f = none ↔ ∃ x ∈ xs, f x = none := by
  induction xs with
  | nil => simp
  | cons x rest ih =>
    rw [List.mapM_cons]
    cases first : f x with
    | none => simp [first]
    | some y => cases others : rest.mapM f <;> simp_all

theorem mem_of_mapM (all : xs.mapM f = some ys) {y : β} : y ∈ ys ↔ ∃ x ∈ xs, f x = some y := by
  induction xs generalizing ys with
  | nil =>
    simp at all
    simp [all]
  | cons x rest ih =>
    rw [List.mapM_cons] at all
    cases first : f x with
    | none => simp [first] at all
    | some y' =>
      cases others : rest.mapM f with
      | none => simp [first,others] at all
      | some ys' =>
        simp [first,others] at all
        subst all
        simp [first,ih others,eq_comm]

theorem exists_of_mapM (all : xs.mapM f = some ys) {x : α} (member : x ∈ xs) : ∃ y ∈ ys, f x = some y := by
  cases found : f x with
  | none =>
    have none := mapM_eq_none_iff.mpr ⟨x,member,found⟩
    rw [all] at none
    cases none
  | some y => exact ⟨y,(mem_of_mapM all).mpr ⟨x,member,found⟩,rfl⟩

end

theorem outcomes_eq_none_iff {g : Graph σ} {children : List Nat} :
    children.mapM g.outcome? = none ↔ ∃ c ∈ children, g.outcome? c = none := mapM_eq_none_iff

theorem mem_outcomes_iff {g : Graph σ} {children : List Nat} {outcomes : List Compiled}
    (all : children.mapM g.outcome? = some outcomes) {r : Compiled} :
    r ∈ outcomes ↔ ∃ c ∈ children, g.outcome? c = some r := mem_of_mapM all

theorem exists_outcome {g : Graph σ} {children : List Nat} {outcomes : List Compiled}
    (all : children.mapM g.outcome? = some outcomes) {c : Nat} (member : c ∈ children) :
    ∃ r ∈ outcomes, g.outcome? c = some r := exists_of_mapM all member

theorem firstError_eq_none_iff {outcomes : List Compiled} :
    firstError outcomes = none ↔ ∀ r ∈ outcomes, ∃ cs, r = .ok cs := by
  induction outcomes with
  | nil => simp [firstError]
  | cons r rest ih => cases r <;> simp [firstError,ih]

theorem mem_of_firstError {outcomes : List Compiled} {e : CompileError}
    (found : firstError outcomes = some e) : .error e ∈ outcomes := by
  induction outcomes with
  | nil => simp [firstError] at found
  | cons r rest ih =>
    cases r with
    | error e' =>
      simp [firstError] at found
      simp [found]
    | ok cs => exact List.mem_cons_of_mem _ (ih found)

theorem mem_commits_iff {outcomes : List Compiled} {c : Commit} :
    c ∈ commits outcomes ↔ ∃ cs, .ok cs ∈ outcomes ∧ c ∈ cs := by
  induction outcomes with
  | nil => simp [commits]
  | cons r rest ih =>
    cases r with
    | error e => simp [commits,ih]
    | ok cs =>
      simp only [commits,List.mem_append,ih,List.mem_cons]
      constructor
      · rintro (here | ⟨ds,member,there⟩)
        · exact ⟨cs,.inl rfl,here⟩
        · exact ⟨ds,.inr member,there⟩
      · rintro ⟨ds,(equal | member),there⟩
        · cases equal; exact .inl there
        · exact .inr ⟨ds,member,there⟩

end Graph

end Bundling
