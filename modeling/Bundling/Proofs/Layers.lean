import Bundling.Config.Layers
import Bundling.Proofs.Options

/-!
# Layers of values

What lies under the topmost layer that has anything at a path of keys (`Json.Layered`) is one value (`Json.Layered.same`), and
layers that are laid over each other make it (`Json.Layered.overlay`).
-/

namespace Bundling

namespace Json

variable {d e i j l t u x y : Json} {k : String} {path : List String} {ms ns : List (String × Json)}

/-! ## One value over another -/

/-- A value that has each key once, at any depth. -/
inductive Once : Json → Prop
  | table {ms : List (String × Json)} (distinct : (ms.map Prod.fst).Nodup) (inner : ∀ k i, (object ms).get? k = some i → Once i) :
    Once (object ms)
  | value {j : Json} (value : ¬ j.IsTable) : Once j

theorem Once.get? (once : j.Once) (found : j.get? k = some i) : i.Once := by
  cases once with
  | table distinct inner => exact inner k i found
  | value value => cases (get?_of_not_isTable value k).symm.trans found

theorem Once.distinct (once : (object ms).Once) : (ms.map Prod.fst).Nodup := by
  cases once with
  | table distinct inner => exact distinct
  | value value => exact absurd trivial value

/-- Canonical forms have each key once. -/
theorem once_sorted (j : Json) : j.sorted.Once := by
  cases j with
  | object ms =>
    rw [sorted_object]
    have ascending : Ascending ((sortMembers ms).map fun m => (m.1,m.2.sorted)) := List.pairwise_map.mpr (ascending_sortMembers ms)
    refine .table ascending.nodup fun k i found => ?_
    rw [← sorted_object,get?_sorted] at found
    obtain ⟨j,below,rfl⟩ := Option.map_eq_some_iff.mp found
    have smaller := sizeOf_get? below
    exact once_sorted j
  | array js => exact .value (by rw [sorted]; exact id)
  | null | bool | number | string => exact .value id
termination_by sizeOf j
decreasing_by
  subst_vars
  exact smaller

theorem overlay_of_value (value : ¬ u.IsTable) : overlay l u = u := by
  cases u with
  | object => exact absurd trivial value
  | null | bool | number | string | array => cases l <;> rfl

theorem overlay_over_value (value : ¬ l.IsTable) : overlay l u = u := by
  cases l with
  | object => exact absurd trivial value
  | null | bool | number | string | array => cases u <;> rfl

theorem keys_assign {k key : String} : k ∈ (assign key j ms).map Prod.fst ↔ k = key ∨ k ∈ ms.map Prod.fst := by
  induction ms with
  | nil => simp [assign]
  | cons m ms ih =>
    rw [assign]
    split
    · rename_i same
      simp [beq_iff_eq.mp same]
    · rw [List.map_cons,List.mem_cons,ih,List.map_cons,List.mem_cons]
      exact or_left_comm

theorem nodup_assign {key : String} (distinct : (ms.map Prod.fst).Nodup) : ((assign key j ms).map Prod.fst).Nodup := by
  induction ms with
  | nil => exact List.nodup_singleton key
  | cons m ms ih =>
    obtain ⟨new,rest⟩ := List.nodup_cons.mp distinct
    rw [assign]
    split
    · exact List.nodup_cons.mpr ⟨new,rest⟩
    · rename_i other
      refine List.nodup_cons.mpr ⟨fun member => ?_,ih rest⟩
      rcases keys_assign.mp member with same | old
      · exact other (beq_iff_eq.mpr same)
      · exact new old

theorem nodup_overlayMembers (distinct : (ms.map Prod.fst).Nodup) : ((overlayMembers ms ns).map Prod.fst).Nodup := by
  induction ns generalizing ms with
  | nil => exact distinct
  | cons n ns ih => exact ih (nodup_assign distinct)

theorem lookup_overlayMembers (distinct : (ns.map Prod.fst).Nodup) (k : String) :
    (overlayMembers ms ns).lookup k = Option.merge overlay (ms.lookup k) (ns.lookup k) := by
  induction ns generalizing ms with
  | nil => cases found : ms.lookup k <;> rw [overlayMembers,found] <;> rfl
  | cons n ns ih =>
    obtain ⟨key,j⟩ := n
    obtain ⟨new,rest⟩ := List.nodup_cons.mp distinct
    rw [overlayMembers,ih rest,lookup_assign,lookup_cons_eq]
    by_cases here : k = key
    · subst here
      have behind : ns.lookup k = none := List.lookup_eq_none_iff.mpr fun n member =>
        bne_iff_ne.mpr fun same => new (List.mem_map.mpr ⟨n,member,same.symm⟩)
      rw [if_pos rfl,if_pos rfl,behind]
      cases ms.lookup k <;> rfl
    · rw [if_neg here,if_neg here]

/-- What is found under a key when one object is laid over another one. -/
theorem get?_overlay (lower : (ms.map Prod.fst).Nodup) (upper : (ns.map Prod.fst).Nodup) (k : String) :
    ((object ms).overlay (object ns)).get? k = Option.merge overlay ((object ms).get? k) ((object ns).get? k) := by
  rw [overlay,get?,get?,get?,lookup_eq_last (nodup_overlayMembers lower),lookup_eq_last lower,lookup_eq_last upper,
    lookup_overlayMembers upper]

theorem Once.overlay (lower : l.Once) (upper : u.Once) : (l.overlay u).Once := by
  induction lower generalizing u with
  | value value => rwa [overlay_over_value value]
  | @table ms distinct inner ih =>
    cases upper with
    | value value =>
      rw [overlay_of_value value]
      exact .value value
    | @table ns distinct' inner' =>
      have laid := get?_overlay distinct distinct'
      rw [Json.overlay] at laid ⊢
      refine .table (nodup_overlayMembers distinct) fun k i found => ?_
      rw [laid] at found
      cases below : (object ms).get? k with
      | none =>
        rw [below,Option.merge_none_left] at found
        exact inner' k i found
      | some h =>
        cases above : (object ns).get? k with
        | none =>
          rw [below,above] at found
          cases found
          exact inner k _ below
        | some j =>
          rw [below,above] at found
          cases found
          exact ih k h below (inner' k j above)

/-! ## What a value settles -/

/-- A value as seen from above: an object is empty. -/
def bare : Json → Json
  | object _ => object []
  | j => j

theorem bare_of_value (value : ¬ j.IsTable) : j.bare = j := by
  cases j with
  | object => exact absurd trivial value
  | null | bool | number | string | array => rfl

theorem isTable_of_bare (same : i.bare = j.bare) (table : j.IsTable) : i.IsTable := by
  by_contra value
  obtain ⟨ms,rfl⟩ := table.exists_eq
  rw [bare_of_value value] at same
  subst same
  exact value trivial

theorem eq_of_bare (same : i.bare = j.bare) (value : ¬ i.IsTable) : i = j := by
  rw [← bare_of_value value,same,bare_of_value fun table => value (isTable_of_bare same table)]

theorem bare_overlay (l u : Json) : (l.overlay u).bare = u.bare := by
  by_cases table : u.IsTable
  · obtain ⟨ns,rfl⟩ := table.exists_eq
    cases l <;> rfl
  · rw [overlay_of_value table]

/-- A value settles what is under a path if it has something there, or if it is no object at the path or above. -/
def Settles : Json → (path : List String) → Prop
  | _,[] => True
  | j,k :: path => j.IsTable → ∃ i, j.get? k = some i ∧ Settles i path

/-- Where the upper value settles a path, it hides the lower one. -/
theorem at?_overlay_of_settles (lower : l.Once) (upper : u.Once) (settles : u.Settles path) :
    ((l.overlay u).at? path).map bare = (u.at? path).map bare := by
  induction path generalizing l u with
  | nil => exact congrArg some (bare_overlay l u)
  | cons k path ih =>
    by_cases both : l.IsTable ∧ u.IsTable
    · obtain ⟨ms,rfl⟩ := both.1.exists_eq
      obtain ⟨ns,rfl⟩ := both.2.exists_eq
      obtain ⟨i,above,settles⟩ := settles trivial
      rw [at?,at?,get?_overlay lower.distinct upper.distinct,above]
      cases below : (object ms).get? k with
      | none => rfl
      | some h => exact ih (lower.get? below) (upper.get? above) settles
    · rcases not_and_or.mp both with value | value
      · rw [overlay_over_value value]
      · rw [overlay_of_value value]

theorem settles_of_at? (found : j.at? path = some i) : j.Settles path := by
  induction path generalizing j with
  | nil => trivial
  | cons k path ih =>
    obtain ⟨h,here,below⟩ := Option.bind_eq_some_iff.mp found
    exact fun _ => ⟨h,here,ih below⟩

theorem at?_of_not_settles (unsettled : ¬ j.Settles path) : j.at? path = none :=
  Option.eq_none_iff_forall_ne_some.mpr fun _ found => unsettled (settles_of_at? found)

/-- Where it does not, the lower one is seen. -/
theorem at?_overlay_of_not_settles (lower : l.Once) (upper : u.Once) (unsettled : ¬ u.Settles path) :
    (l.overlay u).at? path = l.at? path := by
  induction path generalizing l u with
  | nil => exact absurd trivial unsettled
  | cons k path ih =>
    by_cases table : l.IsTable
    · have under := unsettled
      rw [Settles,Classical.not_imp,not_exists] at under
      obtain ⟨table',under⟩ := under
      obtain ⟨ms,rfl⟩ := table.exists_eq
      obtain ⟨ns,rfl⟩ := table'.exists_eq
      rw [at?,at?,get?_overlay lower.distinct upper.distinct]
      cases above : (object ns).get? k with
      | none => rw [Option.merge_none_right]
      | some i =>
        have deeper : ¬ i.Settles path := fun settles => under i ⟨above,settles⟩
        cases below : (object ms).get? k with
        | none => exact at?_of_not_settles deeper
        | some h => exact ih (lower.get? below) (upper.get? above) deeper
    · rw [overlay_over_value table,at?_of_not_settles unsettled,at?,get?_of_not_isTable table]
      rfl

/-- Canonical forms are told from what is under the paths. -/
theorem sorted_eq_of_at? {x y : Json} (same : ∀ path, (x.at? path).map bare = (y.at? path).map bare) : x.sorted = y.sorted := by
  have here : x.bare = y.bare := Option.some.inj (same [])
  cases x with
  | object ms =>
    obtain ⟨ns,rfl⟩ := (isTable_of_bare here.symm trivial).exists_eq
    rw [sorted_object,sorted_object,object.injEq]
    refine eq_of_lookup (List.pairwise_map.mpr (ascending_sortMembers ms)) (List.pairwise_map.mpr (ascending_sortMembers ns)) fun k => ?_
    rw [lookup_map,lookup_map,← get?_object,← get?_object]
    have there := same [k]
    rw [at?,at?] at there
    cases first : (object ms).get? k with
    | none =>
      cases second : (object ns).get? k with
      | none => rfl
      | some j =>
        rw [first,second] at there
        cases there
    | some i =>
      cases second : (object ns).get? k with
      | none =>
        rw [first,second] at there
        cases there
      | some j =>
        have smaller := sizeOf_get? first
        refine congrArg some (sorted_eq_of_at? fun path => ?_)
        have deeper := same (k :: path)
        rwa [at?,at?,first,second] at deeper
  | null | bool | number | string | array => rw [← eq_of_bare here id]
termination_by sizeOf x
decreasing_by
  subst_vars
  exact smaller

/-! ## Layers -/

variable {layers : List Json} {front : List String}

/-- What the first of some layers has under a path that has anything there. -/
def first (layers : List Json) (path : List String) : Option Json := layers.findSome? (at? path)

/-- Above the path, only objects are first. -/
def Reached (layers : List Json) (path : List String) : Prop :=
  ∀ front, front <+: path → front ≠ path → ∀ j, first layers front = some j → j.IsTable

/-- A value that has under each path what the first of some layers has there: where this is an object, what is under it may be
from other layers, and all else is as it is in that layer, with nothing under it. -/
def Layered (layers : List Json) (tree : Json) : Prop :=
  ∀ path, Reached layers path → (tree.at? path).map bare = (first layers path).map bare

theorem layered_singleton (j : Json) : Layered [j] j := fun path _ => by
  rw [first,List.findSome?_singleton]

theorem first_concat (layers : List Json) (l : Json) (path : List String) :
    first (layers ++ [l]) path = (first layers path).or (l.at? path) := by
  rw [first,List.findSome?_append,List.findSome?_singleton,first]

theorem Reached.of_concat (reached : Reached (layers ++ [l]) path) : Reached layers path := fun front le ne j found =>
  reached front le ne j (by rw [first_concat,found]; rfl)

theorem Reached.of_prefix (reached : Reached layers path) (le : front <+: path) : Reached layers front := fun front' le' ne =>
  reached front' (le'.trans le) fun whole => ne (le'.eq_of_length_le (whole ▸ le.length_le))

theorem exists_value_of_settles (settles : j.Settles path) (missing : j.at? path = none) :
    ∃ front i, front <+: path ∧ front ≠ path ∧ j.at? front = some i ∧ ¬ i.IsTable := by
  induction path generalizing j with
  | nil => cases missing
  | cons k path ih =>
    by_cases table : j.IsTable
    · obtain ⟨i,here,below⟩ := settles table
      rw [at?,here] at missing
      obtain ⟨front,v,le,ne,found,value⟩ := ih below missing
      refine ⟨k :: front,v,List.cons_prefix_cons.mpr ⟨rfl,le⟩,fun same => ne (List.cons.inj same).2,?_,value⟩
      rw [at?,here]
      exact found
    · exact ⟨[],j,List.nil_prefix,(List.cons_ne_nil k path).symm,rfl,table⟩

/-- What the layers have under a path that is reached, the value has. -/
theorem Layered.exists_at? (layered : Layered layers x) (reached : Reached layers path) (found : first layers path = some j) :
    ∃ i, x.at? path = some i ∧ i.bare = j.bare := by
  have same := layered path reached
  rw [found] at same
  exact Option.map_eq_some_iff.mp same

/-- A layer under all others is laid under them. -/
theorem Layered.overlay (layered : Layered layers u) (lower : l.Once) (upper : u.Once) : Layered (layers ++ [l]) (l.overlay u) := by
  intro path reached
  rw [first_concat]
  cases found : first layers path with
  | some j =>
    obtain ⟨i,there,same⟩ := layered.exists_at? reached.of_concat found
    rw [at?_overlay_of_settles lower upper (settles_of_at? there),there]
    exact congrArg some same
  | none =>
    have missing : u.at? path = none := by
      have same := layered path reached.of_concat
      rwa [found,Option.map_none,Option.map_eq_none_iff] at same
    have unsettled : ¬ u.Settles path := by
      intro settles
      obtain ⟨front,i,le,ne,there,value⟩ := exists_value_of_settles settles missing
      have same := layered front (reached.of_concat.of_prefix le)
      rw [there] at same
      obtain ⟨j,above,bare⟩ := Option.map_eq_some_iff.mp same.symm
      exact value (isTable_of_bare bare.symm (reached.of_concat front le ne j above))
    rw [at?_overlay_of_not_settles lower upper unsettled,Option.none_or]

theorem Layered.at?_of_not_reached (layered : Layered layers x) (hidden : ¬ Reached layers path) : x.at? path = none := by
  induction path using List.reverseRecOn with
  | nil => exact absurd (fun front le ne => absurd (List.prefix_nil.mp le) ne) hidden
  | append_singleton path k ih =>
    rw [at?_append]
    by_cases reached : Reached layers path
    · simp only [Reached,not_forall] at hidden
      obtain ⟨front,le,ne,j,found,value⟩ := hidden
      have inside : front <+: path := (List.prefix_concat_iff.mp le).resolve_left ne
      obtain rfl : front = path := by
        by_contra proper
        exact value (reached front inside proper j found)
      obtain ⟨i,there,same⟩ := layered.exists_at? reached found
      rw [there,Option.bind_some,at?,get?_of_not_isTable fun table => value (isTable_of_bare same.symm table)]
      rfl
    · rw [ih reached]
      rfl

/-- The layers make one value. -/
theorem Layered.same (layered : Layered layers x) (layered' : Layered layers y) : x.sorted = y.sorted := by
  refine sorted_eq_of_at? fun path => ?_
  by_cases reached : Reached layers path
  · exact (layered path reached).trans (layered' path reached).symm
  · rw [layered.at?_of_not_reached reached,layered'.at?_of_not_reached reached]

/-- Values that agree wherever a value over them does not settle things make one value with it. -/
theorem sorted_overlay_congr (once : x.Once) (once' : y.Once) (upper : u.Once)
    (same : ∀ path, ¬ u.Settles path → (x.at? path).map bare = (y.at? path).map bare) :
    (x.overlay u).sorted = (y.overlay u).sorted := by
  refine sorted_eq_of_at? fun path => ?_
  by_cases settles : u.Settles path
  · exact (at?_overlay_of_settles once upper settles).trans (at?_overlay_of_settles once' upper settles).symm
  · rw [at?_overlay_of_not_settles once upper settles,at?_overlay_of_not_settles once' upper settles,same path settles]

/-! ## Defaults under the layers -/

theorem padded_overlay (lower : d.Once) (upper : t.Once) : Padded d t (d.overlay t) := by
  induction lower generalizing t with
  | value value =>
    rw [overlay_over_value value]
    exact .same
  | @table ds distinct inner ih =>
    by_cases table : t.IsTable
    · obtain ⟨ts,rfl⟩ := table.exists_eq
      refine .of_keys fun k => ?_
      have laid := get?_overlay distinct upper.distinct k
      rw [Json.overlay] at laid
      rw [Padded.Under,laid]
      cases above : (object ts).get? k with
      | none => exact .inl ⟨rfl,.inr Option.merge_none_right⟩
      | some j =>
        cases below : (object ds).get? k with
        | none => exact .inr ⟨j,j,rfl,rfl,.same⟩
        | some e => exact .inr ⟨j,_,rfl,rfl,ih k e below (upper.get? above)⟩
    · rw [overlay_of_value table]
      exact .same

/-- What is filled up stays so under another value. -/
theorem Padded.overlay (padded : Padded d x y) (default : d.Once) (once : x.Once) (once' : y.Once) (upper : t.Once) :
    Padded d (x.overlay t) (y.overlay t) := by
  induction padded generalizing t with
  | same => exact .same
  | @table ds ms ns added kept inner ih =>
    by_cases table : t.IsTable
    · obtain ⟨ts,rfl⟩ := table.exists_eq
      refine .of_keys fun k => ?_
      have laid := get?_overlay once.distinct upper.distinct k
      have laid' := get?_overlay once'.distinct upper.distinct k
      rw [Json.overlay] at laid laid'
      rw [Padded.Under,laid,laid']
      have under := (Padded.table added kept inner).under k
      cases above : (object ts).get? k with
      | none =>
        rw [Option.merge_none_right,Option.merge_none_right]
        exact under
      | some j =>
        rcases under with ⟨absent,still | new⟩ | ⟨i,i',before,after,-⟩
        · rw [absent,still]
          exact .inr ⟨j,j,rfl,rfl,.same⟩
        · rw [absent,new]
          cases below : (object ds).get? k with
          | none => exact .inr ⟨j,j,rfl,rfl,.same⟩
          | some e => exact .inr ⟨j,_,rfl,rfl,padded_overlay (default.get? below) (upper.get? above)⟩
        · rw [before,after]
          have below : (((object ds).get? k).getD .null).Once := by
            cases found : (object ds).get? k with
            | none => exact .value id
            | some e => exact default.get? found
          exact .inr ⟨_,_,rfl,rfl,ih k i i' before after below (once.get? before) (once'.get? after) (upper.get? above)⟩
    · rw [overlay_of_value table,overlay_of_value table]
      exact .same

end Json

end Bundling
