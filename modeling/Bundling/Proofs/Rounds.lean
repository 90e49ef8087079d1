import Mathlib.Data.List.Forall2
import Bundling.Proofs.Step

/-!
# What lasts

A property of graphs that no event takes away (`Lasting`) holds through all rounds of an operation,
whatever the tasks do in them. Along with it goes which tasks the operation asks for: the reads of its
roots, in order.
-/

namespace Bundling.Graph

variable {σ : Type}

/-- A property that no event takes away. It may depend on the tasks that were asked for from outside,
which are reads of some modules. -/
structure Lasting (tools : Toolchain σ) (roots : List ModuleId) (holds : List Nat → Graph σ → Prop) :
    Prop where
  listed : ∀ {outside g id n}, holds outside g → (id,n) ∈ g.inFlight → g.Open n id
  tick : ∀ {outside g}, holds outside g → holds outside g.tick
  join : ∀ {outside g id}, id ∈ roots → holds outside g → holds ((g.join id).1 :: outside) (g.join id).2
  step : ∀ {outside g} n, holds outside g → holds outside (g.step tools n)

section

variable {tools : Toolchain σ} {Q : Graph σ → Prop}

mutual

/-- What no step takes away holds after tasks have been carried on. -/
theorem carry_of_step (step : ∀ {g} n, Q g → Q (g.step tools n)) : ∀ (fuel : Nat) {g : Graph σ} (n : Nat),
    Q g → Q (carry tools fuel g n)
  | 0, g, n, now => by simpa [carry] using now
  | fuel + 1, g, n, now => by
    by_cases bound : n < g.tasks.length
    · obtain ⟨id,stage,here⟩ := exists_at bound
      by_cases early : stage.Early
      · obtain ⟨next,after⟩ := (step_turn tools here).exists_at here
        rw [carry_early tools fuel here early after]
        split
        · exact step n now
        · exact carry_of_step step fuel n (step n now)
      · rw [carry,here.stage?]
        cases stage with
        | done r => exact now
        | awaiting own children => exact step n (carryAll_of_step step fuel children now)
        | _ => exact absurd trivial early
    · have absent : g.stage? n = none := by simp [stage?,List.getElem?_eq_none (Nat.le_of_not_lt bound)]
      rw [carry,absent]
      exact now

theorem carryAll_of_step (step : ∀ {g} n, Q g → Q (g.step tools n)) : ∀ (fuel : Nat) {g : Graph σ} (ns : List Nat),
    Q g → Q (carryAll tools fuel g ns)
  | 0, g, ns, now => by simpa [carryAll] using now
  | fuel + 1, g, [], now => by simpa [carryAll] using now
  | fuel + 1, g, n :: ns, now => by
    rw [carryAll]
    exact carryAll_of_step step fuel ns (carry_of_step step fuel n now)

end

/-- What no event and no push takes away holds after rounds of calls, whatever they ask for. -/
theorem rounds_of_events (event : ∀ {g} e, Q g → Q (Event.apply tools g e))
    (push : ∀ {g : Graph σ} id contents, Q g → Q (g.start id (.given contents)).2) (limit : Nat) {g : Graph σ}
    (cs : List Call) (now : Q g) : Q (rounds tools limit g cs).2 := by
  have carries : ∀ {g} n, Q g → Q (Graph.carry tools tools.fuel g n) := fun n now =>
    carry_of_step (fun n now => event (.step n) now) tools.fuel n now
  have items : ∀ (is : List Item) {g}, Q g → Q (Graph.pollItems tools g is).2 := by
    intro is
    induction is with
    | nil => exact fun now => now
    | cons i is ih =>
      intro g now
      cases i with
      | wanted id => exact ih (carries _ (event (.join id) now))
      | task n => exact ih (carries n now)
  have polls : ∀ (c : Call) {g}, Q g → Q (Graph.poll tools g c).2 := by
    intro c g now
    cases c with
    | refused e => exact now
    | under is => exact items is now
    | asked r =>
      cases r with
      | compile => exact items _ now
      | read path =>
        cases found : tools.root.toId path <;> simp only [Graph.poll,begin,found]
        · exact now
        · exact items _ now
      | push path contents =>
        cases found : tools.root.toId path <;> simp only [Graph.poll,begin,found]
        · exact now
        · exact items _ (push _ contents now)
  have all : ∀ (cs : List Call) {g}, Q g → Q (Graph.pollAll tools g cs).2 := by
    intro cs
    induction cs with
    | nil => exact fun now => now
    | cons c cs ih => exact fun now => ih (polls c now)
  induction limit generalizing g cs with
  | zero => exact now
  | succ limit ih =>
    rw [rounds]
    split
    · exact now
    · exact ih _ (all cs (event .tick now))

end

section

variable {tools : Toolchain σ} {roots : List ModuleId} {holds : List Nat → Graph σ → Prop}

theorem Lasting.carry (lasting : Lasting tools roots holds) {outside : List Nat} (fuel : Nat) {g : Graph σ}
    (n : Nat) (now : holds outside g) : holds outside (Graph.carry tools fuel g n) :=
  carry_of_step (fun n now => lasting.step n now) fuel n now

/-! ## Tasks and their modules -/

/-- Every task is of the module that it was of. -/
def Grows (g g' : Graph σ) : Prop := ∀ n id s, g.At n id s → ∃ s', g'.At n id s'

theorem grows_setStage {g : Graph σ} {n : Nat} {id : ModuleId} {old next : Stage σ} (here : g.At n id old) :
    Grows g (g.setStage n next) := by
  intro m i s there
  by_cases same : m = n
  · subst same
    obtain ⟨rfl,-⟩ := there.unique here
    exact ⟨next,at_setStage_self here⟩
  · exact ⟨s,(at_setStage_of_ne same).mpr there⟩

theorem grows_step (tools : Toolchain σ) (g : Graph σ) (n : Nat) : Grows g (g.step tools n) := by
  by_cases bound : n < g.tasks.length
  · obtain ⟨id,stage,here⟩ := exists_at bound
    have turn := step_turn tools here
    generalize g.step tools n = after at turn
    cases turn with
    | @early _ next layer | @failed _ _ layer | @kept _ _ layer =>
      exact @grows_setStage σ { g with layer } n id _ _ here
    | @registered _ _ layer own _ _ _ same =>
      intro m i s there
      obtain ⟨children,entered⟩ := entered_spec here same layer
      by_cases equal : m = n
      · subst equal
        obtain ⟨rfl,-⟩ := there.unique here
        exact ⟨_,same ▸ entered.here⟩
      · exact ⟨s,entered.old equal there⟩
    | waiting => exact fun _ _ s there => ⟨s,there⟩
    | @settled own => exact @grows_setStage σ { g with registry := g.tidied own } n id _ _ here
    | @rolledBack own _ outcomes =>
      exact @grows_setStage σ { g with registry := own.rollback (commits outcomes) g.registry } n id _ _ here
    | ended => exact grows_setStage here
  · rw [step_none tools (List.getElem?_eq_none (Nat.le_of_not_lt bound))]
    exact fun _ _ s there => ⟨s,there⟩

theorem grows_join (g : Graph σ) (id : ModuleId) : Grows g (g.join id).2 := fun _ _ s there =>
  ⟨s,(grown_join g (List.mem_singleton.mpr rfl : id ∈ [id])).1.old there⟩

/-- The tasks of before are there, and of the same modules. -/
theorem Lasting.and_grows (lasting : Lasting tools roots holds) (g : Graph σ) :
    Lasting tools roots fun outside g' => holds outside g' ∧ Grows g g' where
  listed now := lasting.listed now.1
  tick now := ⟨lasting.tick now.1,now.2⟩
  join asked now := by
    refine ⟨lasting.join asked now.1,fun m i s there => ?_⟩
    obtain ⟨s',then_⟩ := now.2 m i s there
    exact grows_join _ _ _ _ _ then_
  step n now := by
    refine ⟨lasting.step n now.1,fun m i s there => ?_⟩
    obtain ⟨s',then_⟩ := now.2 m i s there
    exact grows_step _ _ n _ _ _ then_

/-! ## Items and calls -/

/-- An item of a call reads a module: it is still to be asked for, or a task that was asked for. -/
def Item.Reads (outside : List Nat) (g : Graph σ) (id : ModuleId) : Item → Prop
  | .wanted i => i = id
  | .task n => n ∈ outside ∧ ∃ s, g.At n id s

/-- A call reads its modules in order, and nothing else has been asked for. -/
def Call.Reads (tools : Toolchain σ) (outside : List Nat) (g : Graph σ) (ids : List ModuleId) : Call → Prop
  | .asked r => outside = [] ∧
    ((r = .compile ∧ g.entries = ids) ∨ ∃ path id, r = .read path ∧ tools.root.toId path = .ok id ∧ ids = [id])
  | .under items => List.Forall₂ (Item.Reads outside g) ids items ∧ ∀ n ∈ outside, .task n ∈ items
  | .refused _ => False

theorem Item.Reads.mono {outside outside' : List Nat} {g g' : Graph σ} {id : ModuleId} {item : Item}
    (reads : item.Reads outside g id) (more : ∀ n ∈ outside, n ∈ outside') (grows : Grows g g') :
    item.Reads outside' g' id := by
  cases item with
  | wanted i => exact reads
  | task n =>
    obtain ⟨known,s,there⟩ := reads
    exact ⟨more n known,grows _ _ _ there⟩

/-- What polling items leads to. -/
structure Polled (holds : List Nat → Graph σ → Prop) (outside : List Nat) (g : Graph σ)
    (ids : List ModuleId) (items : List Item) (result : List Item × Graph σ) (outside' : List Nat) :
    Prop where
  now : holds outside' result.2
  grows : Grows g result.2
  reads : List.Forall₂ (Item.Reads outside' result.2) ids result.1
  more : ∀ n ∈ outside, n ∈ outside'
  only : ∀ n ∈ outside', n ∈ outside ∨ .task n ∈ result.1
  tasks : ∀ n, .task n ∈ items → .task n ∈ result.1

theorem Lasting.pollItems (lasting : Lasting tools roots holds) {ids : List ModuleId} {items : List Item}
    {outside : List Nat} {g : Graph σ} (asked : ∀ id ∈ ids, id ∈ roots)
    (reads : List.Forall₂ (Item.Reads outside g) ids items) (now : holds outside g) :
    ∃ outside', Polled holds outside g ids items (Graph.pollItems tools g items) outside' := by
  induction items generalizing ids outside g with
  | nil =>
    cases reads
    exact ⟨outside,now,fun _ _ s there => ⟨s,there⟩,.nil,fun _ known => known,fun _ known => .inl known,
      fun _ member => member⟩
  | cons item items ih =>
    obtain ⟨id,ids,here,others,rfl⟩ : ∃ id rest, item.Reads outside g id ∧
        List.Forall₂ (Item.Reads outside g) rest items ∧ ids = id :: rest := by
      cases reads with
      | cons here others => exact ⟨_,_,here,others,rfl⟩
    -- The task of the first item, asked for if need be, is carried on, and then come the others.
    obtain ⟨n,g₁,outside₁,now₁,grows₁,⟨known,s,there⟩,more,only,task,same⟩ : ∃ n g₁ outside₁,
        holds outside₁ g₁ ∧ Grows g g₁ ∧ (n ∈ outside₁ ∧ ∃ s, g₁.At n id s) ∧
        (∀ m ∈ outside, m ∈ outside₁) ∧ (∀ m ∈ outside₁, m ∈ outside ∨ m = n) ∧
        (∀ m, item = .task m → m = n) ∧
        Graph.pollItems tools g (item :: items) =
          (.task n :: (Graph.pollItems tools (Graph.carry tools tools.fuel g₁ n) items).1,
            (Graph.pollItems tools (Graph.carry tools tools.fuel g₁ n) items).2) := by
      cases item with
      | wanted i =>
        obtain rfl : i = id := here
        have after := lasting.join (asked i List.mem_cons_self) now
        obtain ⟨s,there,-⟩ := lasting.listed after (grown_join g (List.mem_singleton.mpr rfl : i ∈ [i])).2
        refine ⟨(g.join i).1,(g.join i).2,(g.join i).1 :: outside,after,grows_join g i,
          ⟨List.mem_cons_self,s,there⟩,fun m known => List.mem_cons_of_mem _ known,?_,nofun,rfl⟩
        exact fun m known => (List.mem_cons.mp known).symm
      | task n =>
        refine ⟨n,g,outside,now,fun _ _ s there => ⟨s,there⟩,here,fun _ known => known,
          fun _ known => .inl known,?_,rfl⟩
        rintro m equal
        cases equal
        rfl
    obtain ⟨now₂,grows₂⟩ := (lasting.and_grows g₁).carry tools.fuel n ⟨now₁,fun _ _ s there => ⟨s,there⟩⟩
    have grows₁₂ : Grows g (Graph.carry tools tools.fuel g₁ n) := by
      intro m i s there
      obtain ⟨s',middle⟩ := grows₁ m i s there
      exact grows₂ m i s' middle
    obtain ⟨outside',rest⟩ := ih (fun id member => asked id (List.mem_cons_of_mem _ member))
      (others.imp fun _ _ reads => reads.mono more grows₁₂) now₂
    rw [same]
    refine ⟨outside',rest.now,?_,.cons ?_ rest.reads,fun m known => rest.more m (more m known),?_,?_⟩
    · intro m i s there
      obtain ⟨s',middle⟩ := grows₁₂ m i s there
      exact rest.grows m i s' middle
    · obtain ⟨s',middle⟩ := grows₂ n id s there
      exact ⟨rest.more n known,rest.grows n id s' middle⟩
    · intro m known
      rcases rest.only m known with before | later
      · rcases only m before with old | rfl
        · exact .inl old
        · exact .inr List.mem_cons_self
      · exact .inr (List.mem_cons_of_mem _ later)
    · intro m member
      rcases List.mem_cons.mp member with here | later
      · exact task m here.symm ▸ List.mem_cons_self
      · exact List.mem_cons_of_mem _ (rest.tasks m later)

theorem Lasting.poll (lasting : Lasting tools roots holds) {ids : List ModuleId} {c : Call}
    {outside : List Nat} {g : Graph σ} (asked : ∀ id ∈ ids, id ∈ roots)
    (reads : c.Reads tools outside g ids) (now : holds outside g) :
    ∃ outside' items, (Graph.poll tools g c).1 = .under items ∧ holds outside' (Graph.poll tools g c).2 ∧
      Call.Reads tools outside' (Graph.poll tools g c).2 ids (.under items) := by
  have under : ∀ {items}, List.Forall₂ (Item.Reads outside g) ids items → (∀ n ∈ outside, .task n ∈ items) →
      Graph.poll tools g c = (.under (Graph.pollItems tools g items).1,(Graph.pollItems tools g items).2) →
      ∃ outside' items, (Graph.poll tools g c).1 = .under items ∧ holds outside' (Graph.poll tools g c).2 ∧
        Call.Reads tools outside' (Graph.poll tools g c).2 ids (.under items) := by
    intro items reads known same
    obtain ⟨outside',polled⟩ := lasting.pollItems asked reads now
    rw [same]
    refine ⟨outside',_,rfl,polled.now,polled.reads,fun n member => ?_⟩
    rcases polled.only n member with before | here
    · exact polled.tasks n (known n before)
    · exact here
  have wanted : ∀ ids : List ModuleId, List.Forall₂ (Item.Reads outside g) ids (ids.map .wanted) := by
    intro ids
    induction ids with
    | nil => exact .nil
    | cons id ids ih => exact .cons rfl ih
  cases c with
  | asked r =>
    obtain ⟨rfl,⟨rfl,rfl⟩ | ⟨path,id,rfl,found,rfl⟩⟩ := reads
    · exact under (wanted g.entries) (by simp) rfl
    · exact under (wanted [id]) (by simp) (by simp [Graph.poll,begin,found])
  | refused e => exact reads.elim
  | under items => exact under reads.1 reads.2 rfl

/-- What lasts holds after all rounds of a call. -/
theorem Lasting.rounds (lasting : Lasting tools roots holds) {ids : List ModuleId} {c : Call}
    {outside : List Nat} {g : Graph σ} (asked : ∀ id ∈ ids, id ∈ roots)
    (reads : c.Reads tools outside g ids) (now : holds outside g) (limit : Nat) :
    ∃ outside' c', (Graph.rounds tools limit g [c]).1 = [c'] ∧
      holds outside' (Graph.rounds tools limit g [c]).2 ∧
      c'.Reads tools outside' (Graph.rounds tools limit g [c]).2 ids := by
  induction limit generalizing c outside g with
  | zero => exact ⟨outside,c,rfl,now,reads⟩
  | succ limit ih =>
    rw [Graph.rounds]
    split
    · exact ⟨outside,c,rfl,now,reads⟩
    · have ticked : c.Reads tools outside g.tick ids := by
        cases c with
        | asked r => exact reads
        | refused e => exact reads
        | under items =>
          exact ⟨reads.1.imp fun _ item here => Item.Reads.mono here (fun _ known => known)
            fun _ _ s there => ⟨s,there⟩,reads.2⟩
      obtain ⟨outside',items,same,after,reads'⟩ := lasting.poll asked ticked (lasting.tick now)
      have all : Graph.pollAll tools g.tick [c] = ([.under items],(Graph.poll tools g.tick c).2) := by
        simp [Graph.pollAll,← same]
      rw [all]
      exact ih reads' after

theorem exists_right_of_forall₂ {α β : Type} {R : α → β → Prop} {as : List α} {bs : List β}
    (pairs : List.Forall₂ R as bs) {a : α} (member : a ∈ as) : ∃ b ∈ bs, R a b := by
  induction pairs with
  | nil => cases member
  | cons here _ ih =>
    rcases List.mem_cons.mp member with rfl | later
    · exact ⟨_,List.mem_cons_self,here⟩
    · obtain ⟨b,inside,holds⟩ := ih later
      exact ⟨b,List.mem_cons_of_mem _ inside,holds⟩

theorem exists_left_of_forall₂ {α β : Type} {R : α → β → Prop} {as : List α} {bs : List β}
    (pairs : List.Forall₂ R as bs) {b : β} (member : b ∈ bs) : ∃ a ∈ as, R a b :=
  exists_right_of_forall₂ pairs.flip member

/-- What an item came to. -/
def Item.outcome? (g : Graph σ) : Item → Option Compiled
  | .wanted _ => none
  | .task n => g.outcome? n

theorem result?_under_eq (g : Graph σ) (items : List Item) :
    g.result? (.under items) = (items.mapM (Item.outcome? g)).bind fun outcomes =>
      some (match firstError outcomes with
        | some e => .error e
        | none => .ok ()) := rfl

/-- A call without a result has a task that has not come to its end. -/
theorem exists_pending {g : Graph σ} {items : List Item} (tasks : ∀ item ∈ items, ∃ n, item = .task n)
    (pending : g.result? (.under items) = none) : ∃ n, .task n ∈ items ∧ g.outcome? n = none := by
  have missing : items.mapM (Item.outcome? g) = none := by
    rw [result?_under_eq] at pending
    have none := Option.bind_eq_none_iff.mp pending
    cases all : items.mapM (Item.outcome? g) with
    | none => rfl
    | some outcomes => cases none outcomes all
  obtain ⟨item,member,here⟩ := mapM_eq_none_iff.mp missing
  obtain ⟨n,rfl⟩ := tasks item member
  exact ⟨n,member,here⟩

/-- A call that reads modules comes to what its reads come to. -/
theorem result?_under {outside : List Nat} {g : Graph σ} {ids : List ModuleId} {items : List Item}
    {result : Except CompileError Unit} (reads : Call.Reads tools outside g ids (.under items))
    (found : g.result? (.under items) = some result) :
    (∀ n ∈ outside, ∃ r, g.outcome? n = some r) ∧
      (∀ id ∈ ids, ∃ n r, n ∈ outside ∧ (∃ s, g.At n id s) ∧ g.outcome? n = some r) ∧
      (result = .ok () ↔ ∀ n ∈ outside, ∃ cs, g.outcome? n = some (.ok cs)) := by
  obtain ⟨reads,known⟩ := reads
  rw [result?_under_eq] at found
  obtain ⟨outcomes,all,answer⟩ := Option.bind_eq_some_iff.mp found
  have tasks : ∀ n, .task n ∈ items → ∃ r ∈ outcomes, g.outcome? n = some r :=
    fun n member => exists_of_mapM all member
  refine ⟨fun n member => ?_,?_,?_⟩
  · obtain ⟨r,-,found⟩ := tasks n (known n member)
    exact ⟨r,found⟩
  · intro id member
    obtain ⟨item,inside,here⟩ := exists_right_of_forall₂ reads member
    cases item with
    | wanted i =>
      obtain ⟨r,-,none⟩ := exists_of_mapM all inside
      cases none
    | task n =>
      obtain ⟨r,-,found⟩ := tasks n inside
      exact ⟨n,r,here.1,here.2,found⟩
  · have ok : result = .ok () ↔ firstError outcomes = none := by
      cases error : firstError outcomes with
      | none =>
        have equal : .ok () = result := by simpa [error] using answer
        simp [← equal]
      | some e =>
        have equal : .error e = result := by simpa [error] using answer
        simp [← equal]
    rw [ok,firstError_eq_none_iff]
    constructor
    · intro good n member
      obtain ⟨r,inside,found⟩ := tasks n (known n member)
      obtain ⟨cs,rfl⟩ := good r inside
      exact ⟨cs,found⟩
    · intro good r inside
      obtain ⟨item,member,here⟩ := (mem_of_mapM all).mp inside
      obtain ⟨id,-,reads⟩ := exists_left_of_forall₂ reads member
      cases item with
      | wanted i => cases here
      | task n =>
        obtain ⟨cs,found⟩ := good n reads.1
        have equal : some r = some (.ok cs) := here.symm.trans found
        exact ⟨cs,Option.some.inj equal⟩

end

end Bundling.Graph
