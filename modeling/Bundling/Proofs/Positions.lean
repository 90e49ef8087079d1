import Bundling.Proofs.Regions

/-!
# Looking positions up in bundles

Where the maps of modules fit, a position in the contents of a module is looked up in the map of the bundle as in the
module's own map without the mappings that have no origin: the entries of the other modules are on other lines, and those
of the module are moved by the line where it starts (`lookup_merged`). What a mapping without an origin ends in the
module's own map goes on in that of the bundle.
-/

namespace Bundling

namespace SourceMap

/-- What is looked up on a line is not changed by entries of other lines. -/
theorem positionAt_between {as es bs : List Entry} {line : Nat} (before : ∀ e ∈ as, e.line ≠ line)
    (behind : ∀ e ∈ bs, e.line ≠ line) (column : Nat) :
    positionAt (as ++ (es ++ bs)) line column = positionAt es line column := by
  have none : ∀ {fs : List Entry}, (∀ e ∈ fs, e.line ≠ line) →
      fs.filter (fun e => e.line = line ∧ e.column ≤ column) = [] := fun apart =>
    List.filter_eq_nil_iff.mpr fun e member holds => apart e member (of_decide_eq_true holds).1
  simp only [positionAt,List.filter_append,none before,none behind,List.nil_append,List.append_nil]

theorem positionAt_moved (source : String) (offset : Nat) (es : List Entry) (line column : Nat) :
    positionAt (es.map (Entry.moved source offset)) (offset + line) column =
      (positionAt es line column).map (SourcePosition.inSource source) := by
  have here : (fun e : Entry => decide (e.line = offset + line ∧ e.column ≤ column)) ∘ Entry.moved source offset =
      fun e => decide (e.line = line ∧ e.column ≤ column) := by
    funext e
    exact decide_eq_decide.mpr (by simp [Entry.moved,Nat.add_comm offset])
  rw [positionAt,positionAt,List.filter_map,here,List.getLast?_map]
  cases (es.filter fun e => e.line = line ∧ e.column ≤ column).getLast? with
  | none => rfl
  | some e => rfl

/-- A mapping without an origin ends, at a position, what another one before it on the line says. -/
def EndedAt (m : SourceMap) (line column : Nat) : Prop :=
  (∃ t, m.mappingAt? line column = some t ∧ t.origin = none) ∧
    ∃ u ∈ m.mappings, u.line = line ∧ u.column ≤ column ∧ u.origin.isSome

section

variable {m : SourceMap} {line column : Nat}

theorem lookup?_eq_none : m.lookup? line column = none ↔ ∀ t, m.mappingAt? line column = some t → t.origin = none := by
  unfold lookup?
  cases m.mappingAt? line column with
  | none => simp
  | some t => cases origin : t.origin <;> simp [origin]

theorem mappingAt?_withOrigins : m.withOrigins.mappingAt? line column =
    ((m.mappings.filter fun t => t.line = line ∧ t.column ≤ column).filter (·.origin.isSome)).getLast? := by
  rw [mappingAt?,withOrigins,List.filter_filter,List.filter_filter]
  simp only [Bool.and_comm]

/-- A mapping that holds and has an origin also holds when the ones without are left out. -/
theorem mappingAt?_withOrigins_of_some {t : Mapping} (held : m.mappingAt? line column = some t) (origin : t.origin.isSome) :
    m.withOrigins.mappingAt? line column = some t := by
  obtain ⟨before,split⟩ := List.getLast?_eq_some_iff.mp held
  rw [mappingAt?_withOrigins,split]
  simp [origin]

/-- Without the mappings that have no origin, something holds at a position if a mapping with one does not start behind
it. -/
theorem lookup?_withOrigins_isSome :
    (m.withOrigins.lookup? line column).isSome ↔ ∃ u ∈ m.mappings, u.line = line ∧ u.column ≤ column ∧ u.origin.isSome := by
  have kept : ∀ u ∈ m.withOrigins.mappings, u.origin.isSome := fun u member => (List.mem_filter.mp member).2
  rw [Option.isSome_iff_ne_none,Ne,lookup?_eq_none]
  constructor
  · intro found
    obtain ⟨t,held,-⟩ := not_forall₂.mp found
    have member := List.mem_of_getLast? held
    obtain ⟨among,place⟩ := List.mem_filter.mp member
    obtain ⟨line_eq,start⟩ := of_decide_eq_true place
    exact ⟨t,(List.mem_filter.mp among).1,line_eq,start,kept t among⟩
  · rintro ⟨u,member,line_eq,start,origin⟩ nothing
    have among : u ∈ m.withOrigins.mappings.filter fun t => t.line = line ∧ t.column ≤ column :=
      List.mem_filter.mpr ⟨List.mem_filter.mpr ⟨member,origin⟩,decide_eq_true ⟨line_eq,start⟩⟩
    cases held : m.withOrigins.mappingAt? line column with
    | none => exact List.ne_nil_of_mem among (List.getLast?_eq_none_iff.mp held)
    | some t =>
      have first := kept t (List.mem_filter.mp (List.mem_of_getLast? held)).1
      rw [nothing t held] at first
      cases first

/-- Where a mapping without an origin ends another one, what ended goes on when such mappings are left out. -/
theorem EndedAt.lookup? (ended : m.EndedAt line column) :
    m.lookup? line column = none ∧ (m.withOrigins.lookup? line column).isSome := by
  obtain ⟨⟨t,held,origin⟩,before⟩ := ended
  refine ⟨lookup?_eq_none.mpr fun u held' => ?_,lookup?_withOrigins_isSome.mpr before⟩
  exact Option.some.inj (held.symm.trans held') ▸ origin

theorem lookup?_withOrigins_of_not_endedAt (goes : ¬m.EndedAt line column) :
    m.withOrigins.lookup? line column = m.lookup? line column := by
  cases held : m.mappingAt? line column with
  | none =>
    have left : m.withOrigins.mappingAt? line column = none := by
      rw [mappingAt?_withOrigins,List.getLast?_eq_none_iff.mp held]
      rfl
    rw [SourceMap.lookup?,SourceMap.lookup?,held,left]
    rfl
  | some t =>
    cases origin : t.origin with
    | some o =>
      rw [SourceMap.lookup?,SourceMap.lookup?,held,mappingAt?_withOrigins_of_some held (by rw [origin]; rfl)]
      rfl
    | none =>
      have nothing : m.lookup? line column = none := lookup?_eq_none.mpr fun u held' =>
        Option.some.inj (held.symm.trans held') ▸ origin
      rw [nothing,← Option.not_isSome_iff_eq_none,lookup?_withOrigins_isSome]
      exact fun before => goes ⟨⟨t,held,origin⟩,before⟩

end

end SourceMap

namespace Generator

variable {σ : Type} {context : GenerateContext σ} {c : Chunk} {s s' : PublicPaths × σ} {b : Bundle}

/-- Where the maps of all modules fit, the map of a bundle says of a position in the contents of a module what the
module's own map says there without the mappings that have no origin, for the source of the module. That is what the
module's own map says, except where a mapping without an origin ends another one. The source is there once, with the raw
text of the module unless another place of the chunk has the source too. -/
theorem lookup_merged (wanted : context.options.sourceMap = true) (fits : ∀ m ∈ c.files, m.Fits)
    (made : standard.generate context c s = (.ok b,s')) :
    ∃ text map, (Generator.runtime context s.2).1 = .ok text ∧ b.sourceMap = some map ∧
      ∀ i (inside : i < c.files.length),
        (∃ k : Nat, (∀ k' : Nat, map.sources[k']? = some (sourceName context.root context.options c.files[i]) ↔ k' = k) ∧
          (OwnSource context.root context.options c i → map.contents[k]? = some (some c.files[i].sources))) ∧
        ∀ own, c.files[i].sourceMap = some own → ∀ l < Text.lineCount c.files[i].contents, ∀ column,
          map.lookup? (lineOf context.root context.options text c s.1 i + l) column =
            (own.withOrigins.lookup? l column).map (.inSource (sourceName context.root context.options c.files[i])) ∧
          (map.lookup? (lineOf context.root context.options text c s.1 i + l) column =
              (own.lookup? l column).map (.inSource (sourceName context.root context.options c.files[i])) ↔
            ¬own.EndedAt l column) := by
  obtain ⟨text,found,made⟩ := standard_ok made
  refine ⟨text,_,found,sourceMap_of_render made wanted,fun i inside => ⟨?_,fun own mapped l among column => ?_⟩⟩
  · have listed := (@mapOf_spec context.root context.options text c s.1).1
    obtain ⟨k,at_k⟩ := List.getElem?_of_mem (listed.source _ (List.getElem_mem inside))
    have here := (List.getElem?_eq_some_iff.mp at_k).1
    refine ⟨k,fun k' => ⟨fun same => ?_,fun at_i => at_i ▸ at_k⟩,fun own => ?_⟩
    · exact ((List.getElem?_inj here listed.once).mp (at_k.trans same.symm)).symm
    · obtain ⟨m,member,name,content⟩ := listed.text k _ at_k
      obtain ⟨j,at_j⟩ := List.getElem?_of_mem member
      obtain rfl := own _ (List.getElem?_eq_getElem inside) j m at_j name
      obtain rfl := Option.some.inj ((List.getElem?_eq_getElem inside).symm.trans at_j)
      exact content
  · have merged : (mapOf context.root context.options text c s.1).lookup? (lineOf context.root context.options text c s.1 i + l) column =
        (own.withOrigins.lookup? l column).map (.inSource (sourceName context.root context.options c.files[i])) := by
      rw [SourceMap.lookup?_eq,entries_around inside,SourceMap.positionAt_between ?_ ?_,placed,mapped,
        SourceMap.moduleEntries,SourceMap.positionAt_moved,← SourceMap.lookup?_eq]
      · intro e member
        have below : e.line < lineOf context.root context.options text c s.1 i := by
          rw [lineOf_eq]
          exact mem_placedAll_below (fun m before => fits m (List.mem_of_mem_take before)) member
        omega
      · intro e member
        have above := (mem_placedAll member).1
        omega
    refine ⟨merged,?_⟩
    rw [merged]
    refine ⟨fun same ended => ?_,fun goes => by rw [SourceMap.lookup?_withOrigins_of_not_endedAt goes]⟩
    obtain ⟨nothing,something⟩ := ended.lookup?
    rw [nothing,Option.map_none,Option.map_eq_none_iff] at same
    rw [same] at something
    cases something

theorem lookup_merged_couple : bareContext.options.sourceMap = true ∧ (∀ m ∈ couple.files, m.Fits) ∧
    ∃ b s', standard.generate bareContext couple ({},()) = (.ok b,s') ∧ ∃ map, b.sourceMap = some map ∧
      (∃ k : Nat, map.sources[k]? = some "bale:///$app/typed.ts" ∧ map.contents[k]? = some (some "let z")) ∧
      map.lookup? 7 0 = some ⟨some "bale:///$app/typed.ts",0,4,some "z"⟩ := by
  have plain : twoLines.Fits := fun _ mapped => (nomatch mapped)
  have word : oneWord.Fits := by
    rintro own ⟨⟩
    decide
  have fits : ∀ m ∈ couple.files, m.Fits := List.forall_mem_cons.mpr ⟨plain,List.forall_mem_singleton.mpr word⟩
  obtain ⟨b,s',made⟩ : ∃ b s', standard.generate bareContext couple ({},()) = (.ok b,s') := ⟨_,_,rfl⟩
  obtain ⟨text,map,found,kept,merged⟩ := lookup_merged rfl fits made
  obtain rfl : text = "" := Except.ok.inj (found.symm.trans rfl)
  obtain ⟨⟨k,source,content⟩,positions⟩ := merged 1 (by decide)
  rw [sourceName_oneWord] at source positions
  rw [lineOf_oneWord] at positions
  exact ⟨rfl,fits,b,s',made,map,kept,⟨k,(source k).mpr rfl,content (ownSource_couple 1)⟩,(positions _ rfl 0 (by decide) 0).1⟩

/-- What the module's own map does not lead anywhere from, that of the bundle leads to its source from. -/
theorem ended_goes_on : (couple.files.map Module.id).Nodup ∧
    (∀ own ∈ oneWord.sourceMap, own.mappings.Pairwise (fun t u => t.line < u.line ∨ t.line = u.line ∧ t.column ≤ u.column) ∧
      (∀ t ∈ own.mappings, t.line < Text.lineCount oneWord.contents) ∧ own.lookup? 0 1 = none) ∧
    ∃ b s', standard.generate bareContext couple ({},()) = (.ok b,s') ∧
      lineOf bareContext.root bareContext.options "" couple {} 1 = 7 ∧ ∃ map, b.sourceMap = some map ∧
        map.lookup? (7 + 0) 1 = some ⟨some "bale:///$app/typed.ts",0,4,some "z"⟩ := by
  obtain ⟨b,s',made⟩ : ∃ b s', standard.generate bareContext couple ({},()) = (.ok b,s') := ⟨_,_,rfl⟩
  obtain ⟨text,found,rendered⟩ := standard_ok made
  obtain rfl : text = "" := Except.ok.inj (found.symm.trans rfl)
  have distinct : (couple.files.map Module.id).Nodup := by decide
  refine ⟨distinct,?_,b,s',made,lineOf_oneWord,_,sourceMap_of_render rendered rfl,?_⟩
  · rintro own ⟨⟩
    decide
  · rw [SourceMap.lookup?_eq,entries_mapOf]
    decide +kernel

end Generator

end Bundling
