import Bundling.Proofs.Step

/-!
# Operations without suspension

Where nothing suspends, a task that is carried on comes to its end before anything else happens:
`through` follows `carry` and gives up where a task is left before its end. It also keeps account of
the commits that rollbacks let stand, those of the task itself apart from those of the tasks below it.
What `through` finds is what `carry` does (`carry_of_through`), and an operation without suspension is
an operation (`run_of_perform`).
-/

namespace Bundling.Graph

variable {σ : Type}

/-- Where tasks that came to their end have led. -/
structure Passage (σ : Type) where
  graph : Graph σ
  /-- The commits that the rollbacks of these tasks let stand. -/
  spared : List Commit := []
  /-- The commits that rollbacks further below let stand. Nobody who waits for these tasks knows
  them. -/
  strays : List Commit := []

/-- Goes on after a passage. -/
def Passage.andThen (p q : Passage σ) : Passage σ :=
  ⟨q.graph,p.spared ++ q.spared,p.strays ++ q.strays⟩

/-- Ends a task whose imports have come to their ends. -/
def Passage.conclude (tools : Toolchain σ) (p : Passage σ) (n : Nat) (children : List Nat) :
    Option (Passage σ) :=
  let g := p.graph.step tools n
  match g.outcome? n with
  | none => none
  | some (.ok _) => some { graph := g, strays := p.strays ++ p.spared }
  | some (.error _) =>
    let below := commits (children.filterMap p.graph.outcome?)
    some ⟨g,below.filter fun c => g.registry.isCurrent c.version,p.strays ++ p.spared⟩

mutual

/-- Carries a task on to its end, if it comes there without a stop. -/
def through (tools : Toolchain σ) : (fuel : Nat) → Graph σ → Nat → Option (Passage σ)
  | 0, _, _ => none
  | fuel + 1, g, n =>
    match g.stage? n with
    | none => none
    | some (.done _) => some { graph := g }
    | some (.awaiting _ children) =>
      (throughAll tools fuel g children).bind fun p => p.conclude tools n children
    | some stage =>
      let g := g.step tools n
      match g.stage? n with
      | none => none
      | some next => if stage.stops next then none else through tools fuel g n

/-- Carries tasks on to their ends, in order. -/
def throughAll (tools : Toolchain σ) : (fuel : Nat) → Graph σ → List Nat → Option (Passage σ)
  | _, g, [] => some { graph := g }
  | 0, _, _ :: _ => none
  | fuel + 1, g, n :: ns =>
    (through tools fuel g n).bind fun p => (throughAll tools fuel p.graph ns).map p.andThen

end

/-- The task of an item, which is started if need be. -/
def taskOf (g : Graph σ) : Item → Nat × Graph σ
  | .wanted id => g.join id
  | .task n => (n,g)

/-- Carries the items of a call to their ends, in order. -/
def throughItems (tools : Toolchain σ) : Graph σ → List Item → Option (List Item × Passage σ)
  | g, [] => some ([],{ graph := g })
  | g, i :: is =>
    (through tools tools.fuel (g.taskOf i).2 (g.taskOf i).1).bind fun p =>
      (throughItems tools p.graph is).map fun (is,q) => (.task (g.taskOf i).1 :: is,p.andThen q)

/-- Carries out a request in which nothing suspends. -/
def perform (tools : Toolchain σ) (g : Graph σ) (r : Request) :
    Option (Except CompileError Unit × Passage σ) :=
  match g.tick.begin tools r with
  | (.under items,g) =>
    (throughItems tools g items).bind fun (items,p) =>
      (p.graph.result? (.under items)).map fun result => (result,p)
  | (c,g) => (g.result? c).map fun result => (result,{ graph := g })

theorem conclude_graph {tools : Toolchain σ} {p q : Passage σ} {n : Nat} {children : List Nat}
    (ends : p.conclude tools n children = some q) : q.graph = p.graph.step tools n := by
  unfold Passage.conclude at ends
  cases outcome : (p.graph.step tools n).outcome? n with
  | none => simp [outcome] at ends
  | some r =>
    cases r <;> simp only [outcome,Option.some.injEq] at ends <;> exact ends ▸ rfl

theorem filterMap_outcomes {g : Graph σ} {children : List Nat} {outcomes : List Compiled}
    (all : children.mapM g.outcome? = some outcomes) : children.filterMap g.outcome? = outcomes := by
  induction children generalizing outcomes with
  | nil => simpa using all
  | cons c rest ih =>
    rw [List.mapM_cons] at all
    cases first : g.outcome? c with
    | none => simp [first] at all
    | some r =>
      cases others : rest.mapM g.outcome? with
      | none => simp [first,others] at all
      | some rs =>
        simp [first,others] at all
        simp [first,ih others,all]

/-- A task that waited ends well, or its module is taken back. -/
theorem conclude_cases {tools : Toolchain σ} {q p : Passage σ} {n : Nat} {id : ModuleId} {own : Commit}
    {children : List Nat} (here : q.graph.At n id (.awaiting own children))
    (ends : q.conclude tools n children = some p) :
    ∃ outcomes, children.mapM q.graph.outcome? = some outcomes ∧
      ((firstError outcomes = none ∧
        p = { graph := ({ q.graph with registry := q.graph.tidied own }).setStage n
                (.done (.ok (own :: commits outcomes)))
              strays := q.strays ++ q.spared }) ∨
      ∃ e, firstError outcomes = some e ∧
        let registry := own.rollback (commits outcomes) q.graph.registry
        p = { graph := ({ q.graph with registry }).setStage n (.done (.error e))
              spared := (commits outcomes).filter fun c => registry.isCurrent c.version
              strays := q.strays ++ q.spared }) := by
  unfold Passage.conclude at ends
  have turn := step_turn tools here
  generalize q.graph.step tools n = after at turn ends
  cases turn with
  | early start | failed start | kept start | registered start => exact start.elim
  | waiting going => simp [here.outcome?_eq_none fun finished => finished] at ends
  | @settled _ _ outcomes all good =>
    refine ⟨outcomes,all,.inl ⟨good,?_⟩⟩
    have outcome := outcome?_setStage_self (r := .ok (own :: commits outcomes))
      (show ({ q.graph with registry := q.graph.tidied own } : Graph σ).At n id _ from here)
    simp only [outcome,Option.some.injEq] at ends
    exact ends.symm
  | @rolledBack _ _ outcomes e all bad =>
    refine ⟨outcomes,all,.inr ⟨e,bad,?_⟩⟩
    have outcome := outcome?_setStage_self (r := .error e)
      (show ({ q.graph with registry := own.rollback (commits outcomes) q.graph.registry } :
        Graph σ).At n id _ from here)
    simp only [outcome,Option.some.injEq,filterMap_outcomes all,registry_setStage] at ends
    exact ends.symm

theorem through_done {tools : Toolchain σ} {fuel : Nat} {g : Graph σ} {n : Nat} {id : ModuleId}
    {r : Compiled} {p : Passage σ} (here : g.At n id (.done r)) (found : through tools fuel g n = some p) :
    p = { graph := g } := by
  cases fuel with
  | zero => simp [through] at found
  | succ fuel =>
    rw [through,here.stage?] at found
    exact (Option.some.inj found).symm

theorem through_awaiting {tools : Toolchain σ} {fuel : Nat} {g : Graph σ} {n : Nat} {id : ModuleId}
    {own : Commit} {children : List Nat} {p : Passage σ} (here : g.At n id (.awaiting own children))
    (found : through tools (fuel + 1) g n = some p) :
    ∃ q, throughAll tools fuel g children = some q ∧ q.conclude tools n children = some p := by
  rw [through,here.stage?] at found
  exact Option.bind_eq_some_iff.mp found

theorem through_early {tools : Toolchain σ} {fuel : Nat} {g : Graph σ} {n : Nat} {id : ModuleId}
    {stage : Stage σ} {p : Passage σ} (here : g.At n id stage) (early : stage.Early)
    (found : through tools (fuel + 1) g n = some p) :
    ∃ next, (g.step tools n).At n id next ∧ stage.stops next = false ∧
      through tools fuel (g.step tools n) n = some p := by
  obtain ⟨next,after⟩ := (step_turn tools here).exists_at here
  refine ⟨next,after,?_⟩
  rw [through,here.stage?] at found
  cases stage with
  | awaiting own children => exact early.elim
  | done r => exact early.elim
  | _ => simpa [after.stage?] using found

mutual

theorem carry_of_through {tools : Toolchain σ} : ∀ {fuel : Nat} {g : Graph σ} {n : Nat} {p : Passage σ},
    through tools fuel g n = some p → carry tools fuel g n = p.graph
  | 0, g, n, p, found => by simp [through] at found
  | fuel + 1, g, n, p, found => by
    by_cases bound : n < g.tasks.length
    · obtain ⟨id,stage,here⟩ := exists_at bound
      by_cases early : stage.Early
      · obtain ⟨next,after,goes,rest⟩ := through_early here early found
        rw [carry_early tools fuel here early after,goes]
        exact carry_of_through rest
      · rw [through,here.stage?] at found
        rw [carry,here.stage?]
        cases stage with
        | done r => exact (Option.some.inj found) ▸ rfl
        | awaiting own children =>
          obtain ⟨q,all,ends⟩ := Option.bind_eq_some_iff.mp found
          show (carryAll tools fuel g children).step tools n = p.graph
          rw [carryAll_of_throughAll all,conclude_graph ends]
        | _ => exact absurd trivial early
    · have absent : g.stage? n = none := by simp [stage?,List.getElem?_eq_none (Nat.le_of_not_lt bound)]
      rw [through,absent] at found
      cases found

theorem carryAll_of_throughAll {tools : Toolchain σ} : ∀ {fuel : Nat} {g : Graph σ} {ns : List Nat}
    {p : Passage σ}, throughAll tools fuel g ns = some p → carryAll tools fuel g ns = p.graph
  | fuel, g, [], p, found => by
    rw [throughAll] at found
    cases fuel <;> exact (Option.some.inj found) ▸ rfl
  | 0, g, n :: ns, p, found => by simp [throughAll] at found
  | fuel + 1, g, n :: ns, p, found => by
    rw [throughAll] at found
    obtain ⟨q,first,rest⟩ := Option.bind_eq_some_iff.mp found
    obtain ⟨r,others,rfl⟩ := Option.map_eq_some_iff.mp rest
    rw [carryAll,carry_of_through first,carryAll_of_throughAll others]
    rfl

end

theorem pollItems_of_throughItems {tools : Toolchain σ} {g : Graph σ} {items after : List Item}
    {p : Passage σ} (found : throughItems tools g items = some (after,p)) :
    pollItems tools g items = (after,p.graph) := by
  induction items generalizing g after p with
  | nil =>
    cases found
    rfl
  | cons i is ih =>
    rw [throughItems] at found
    obtain ⟨q,first,rest⟩ := Option.bind_eq_some_iff.mp found
    obtain ⟨⟨others,r⟩,later,equal⟩ := Option.map_eq_some_iff.mp rest
    cases equal
    have first := carry_of_through first
    cases i <;> simp only [pollItems,taskOf] at first ⊢ <;> rw [first,ih later] <;> rfl

/-- An operation in which nothing suspends is carried out in its first round. -/
theorem run_of_perform {tools : Toolchain σ} {g : Graph σ} {r : Request}
    {result : Except CompileError Unit} {p : Passage σ}
    (performed : perform tools g r = some (result,p)) (enough : 0 < tools.fuel) :
    g.run tools r = (some result,p.graph) := by
  have polled : ∃ c, poll tools g.tick (.asked r) = (c,p.graph) ∧ p.graph.result? c = some result := by
    unfold perform at performed
    cases begun : g.tick.begin tools r with
    | mk c g' =>
      rw [begun] at performed
      cases c with
      | under items =>
        obtain ⟨⟨after,q⟩,all,ends⟩ := Option.bind_eq_some_iff.mp performed
        obtain ⟨found,answer,equal⟩ := Option.map_eq_some_iff.mp ends
        cases equal
        -- What has been asked for is now tasks, and the call came to what these came to.
        refine ⟨.under after,?_,answer⟩
        simp [poll,begun,pollItems_of_throughItems all]
      | asked r' | refused e =>
        obtain ⟨found,answer,equal⟩ := Option.map_eq_some_iff.mp performed
        cases equal
        exact ⟨_,by simp [poll,begun],answer⟩
  obtain ⟨c,same,answer⟩ := polled
  obtain ⟨limit,fuel⟩ := Nat.exists_eq_add_of_lt enough
  have first : rounds tools tools.fuel g [.asked r] = rounds tools limit p.graph [c] := by
    rw [show tools.fuel = limit + 1 by omega,rounds]
    simp [result?,pollAll,same]
  have last : rounds tools limit p.graph [c] = ([c],p.graph) := by
    cases limit <;> simp [rounds,answer]
  simp [run,runAll,first,last,answer]

end Bundling.Graph
