import Bundling.Proofs.Layout
import Bundling.Proofs.Merging
import Bundling.Proofs.Relative

/-!
# Regions of source maps

The map of a bundle is the entries of its modules one behind the other: each module adds entries that lead to its
source, moved to the line where its contents start (`entries_mapOf`). So the contents of modules stand where the map is told
that they do (`contents_in_place`), and modules without maps are mapped line by line. The maps that modules bring along
are taken as they are; their entries stay on the lines of the module exactly if these maps fit it (`regions_kept_iff`).

A source is named by the path to the module as it is shown. Different modules have sources of their own where these paths
are texts (`ownSource`); modules that are shown alike share a source, and what leads to it leads to one of them.
-/

namespace Bundling

open SourceMap (Entry)

/-- The source an entry leads to. -/
def SourceMap.Entry.source? (e : Entry) : Option String := e.position.bind SourceMap.SourcePosition.source

/-- The mappings of a map are in the order of lines. -/
def SourceMap.InOrder (m : SourceMap) : Prop := m.mappings.Pairwise fun t u => t.line ≤ u.line

instance (m : SourceMap) : Decidable m.InOrder := inferInstanceAs (Decidable (m.mappings.Pairwise _))

/-- What the map of a module says of its contents is about lines that they have. Mappings without an origin say
nothing. -/
def Module.Fits (m : Module) : Prop := ∀ own ∈ m.sourceMap, ∀ t ∈ own.withOrigins.mappings, t.line < Text.lineCount m.contents

/-- What the map of a module says of its contents is in the order of lines. -/
def Module.InOrder (m : Module) : Prop := ∀ own ∈ m.sourceMap, own.withOrigins.InOrder

namespace Generator

variable {σ : Type} {root : ProjectRoot} {o : GeneratorOptions}

/-! ## The entries of modules -/

theorem sourceName_eq_iff {m n : Module} : sourceName root o m = sourceName root o n ↔ root.relative m.id = root.relative n.id :=
  String.append_right_inj _

/-- The source of the module at a place of a chunk is that of no other place. -/
def OwnSource (root : ProjectRoot) (o : GeneratorOptions) (c : Chunk) (i : Nat) : Prop :=
  ∀ m, c.files[i]? = some m → ∀ j n, c.files[j]? = some n → sourceName root o n = sourceName root o m → j = i

/-- In a chunk that holds no module twice, modules have sources of their own if the paths to them are texts. -/
theorem ownSource {c : Chunk} (distinct : (c.files.map Module.id).Nodup) (legible : ∀ m ∈ c.files, root.Legible m.id) (i : Nat) :
    OwnSource root o c i := by
  intro m at_i j n at_j same
  have id : n.id = m.id := ProjectRoot.eq_of_relative (legible n (List.mem_of_getElem? at_j)) (legible m (List.mem_of_getElem? at_i))
    (sourceName_eq_iff.mp same)
  have here : j < (c.files.map Module.id).length := by simpa using (List.getElem?_eq_some_iff.mp at_j).1
  exact (List.getElem?_inj here distinct).mp (by simp [at_i,at_j,id])

/-- The line behind the blocks of modules, one further: where the contents of the next one start. -/
def lineBehind (line : Nat) (ms : List Module) : Nat := ms.foldl (fun line m => line + Text.lineCount m.contents + 2) line

/-- The entries of a module whose contents start on a line. -/
def placed (root : ProjectRoot) (o : GeneratorOptions) (line : Nat) (m : Module) : List Entry :=
  SourceMap.moduleEntries (sourceName root o m) m.sourceMap m.contents line

/-- The entries of modules whose blocks follow each other. -/
def placedAll (root : ProjectRoot) (o : GeneratorOptions) : (line : Nat) → List Module → List Entry
  | _, [] => []
  | line, m :: ms => placed root o line m ++ placedAll root o (line + Text.lineCount m.contents + 2) ms

theorem lineCount_block (publicPath contents : String) : Text.lineCount (block publicPath contents) = Text.lineCount contents + 2 := by
  rw [← Text.length_lines,lines_block,← Text.length_lines]
  simp

theorem line_addModule (p : Progress) (m : Module) : (addModule root o p m).line = p.line + Text.lineCount m.contents + 2 := by
  simp only [addModule,lineCount_block]
  omega

theorem line_foldl (p : Progress) (ms : List Module) : (ms.foldl (addModule root o) p).line = lineBehind p.line ms := by
  induction ms generalizing p with
  | nil => rfl
  | cons m ms ih => rw [List.foldl_cons,ih,line_addModule,lineBehind,lineBehind,List.foldl_cons]

theorem le_lineBehind (line : Nat) (ms : List Module) : line ≤ lineBehind line ms := by
  induction ms generalizing line with
  | nil => exact Nat.le_refl _
  | cons m ms ih => exact Nat.le_trans (by omega) (ih (line + Text.lineCount m.contents + 2))

theorem placedAll_append (line : Nat) (ms ns : List Module) :
    placedAll root o line (ms ++ ns) = placedAll root o line ms ++ placedAll root o (lineBehind line ms) ns := by
  induction ms generalizing line with
  | nil => rfl
  | cons m ms ih => rw [List.cons_append,placedAll,placedAll,ih,List.append_assoc]; rfl

/-- The sources of a map are those of modules: each is there once, with the text of a module that has it. -/
structure Listed (root : ProjectRoot) (o : GeneratorOptions) (map : SourceMap) (ms : List Module) : Prop where
  once : map.sources.Nodup
  source : ∀ m ∈ ms, sourceName root o m ∈ map.sources
  text : ∀ (k : Nat) s, map.sources[k]? = some s → ∃ m ∈ ms, sourceName root o m = s ∧ map.contents[k]? = some (some m.sources)

/-- A module adds its entries to the map of a bundle on its way, and its source if it is new. -/
theorem map_addModule {p : Progress} {ms : List Module} (intact : p.map.Intact) (listed : Listed root o p.map ms) (m : Module) :
    (addModule root o p m).map.Intact ∧ Listed root o (addModule root o p m).map (ms ++ [m]) ∧
      (addModule root o p m).map.entries = p.map.entries ++ placed root o p.line m := by
  obtain ⟨intact',entries,sources,contents⟩ :=
    SourceMap.addModule_spec intact (sourceName root o m) m.sources m.sourceMap m.contents p.line
  refine ⟨intact',?_,entries⟩
  change Listed root o (p.map.addModule (sourceName root o m) m.sources m.sourceMap m.contents p.line) (ms ++ [m])
  split at sources
  case isTrue known =>
    rw [if_pos known] at contents
    refine ⟨sources ▸ listed.once,fun n member => ?_,fun k s at_k => ?_⟩
    · rcases List.mem_append.mp member with old | new
      · exact sources ▸ listed.source n old
      · exact sources ▸ List.mem_singleton.mp new ▸ known
    · obtain ⟨n,member,name,text⟩ := listed.text k s (sources ▸ at_k)
      exact ⟨n,List.mem_append_left _ member,name,contents ▸ text⟩
  case isFalse new =>
    rw [if_neg new] at contents
    refine ⟨?_,fun n member => ?_,fun k s at_k => ?_⟩
    · rw [sources,List.nodup_append]
      exact ⟨listed.once,by simp,fun s old t last same => new (List.mem_singleton.mp last ▸ same ▸ old)⟩
    · rw [sources]
      rcases List.mem_append.mp member with old | last
      · exact List.mem_append_left _ (listed.source n old)
      · exact List.mem_append_right _ (by simp [List.mem_singleton.mp last])
    · rw [sources,List.getElem?_append] at at_k
      rw [contents,List.getElem?_append,intact.texts]
      split at at_k
      case isTrue inside =>
        obtain ⟨n,member,name,text⟩ := listed.text k s at_k
        exact ⟨n,List.mem_append_left _ member,name,by rw [if_pos inside,text]⟩
      case isFalse behind =>
        obtain ⟨at_end,name⟩ := List.getElem?_eq_some_iff.mp at_k
        have first : k - p.map.sources.length = 0 := Nat.lt_one_iff.mp at_end
        refine ⟨m,List.mem_append_right _ List.mem_cons_self,?_,by rw [if_neg behind,first]; rfl⟩
        simpa [first] using name

/-- What modules add to the map of a bundle on its way. -/
theorem map_foldl {p : Progress} {ns : List Module} (intact : p.map.Intact) (listed : Listed root o p.map ns) (ms : List Module) :
    Listed root o (ms.foldl (addModule root o) p).map (ns ++ ms) ∧
      (ms.foldl (addModule root o) p).map.entries = p.map.entries ++ placedAll root o p.line ms := by
  induction ms generalizing p ns with
  | nil => exact ⟨by simpa using listed,by simp [placedAll]⟩
  | cons m ms ih =>
    obtain ⟨intact',listed',entries⟩ := map_addModule intact listed m
    obtain ⟨all,entries'⟩ := ih intact' listed'
    refine ⟨by simpa using all,?_⟩
    rw [List.foldl_cons,entries',entries,line_addModule,placedAll,List.append_assoc]

/-- The entries of a module lead to its source and stand no higher than its contents. -/
theorem mem_placed {line : Nat} {m : Module} {e : Entry} (member : e ∈ placed root o line m) :
    e.source? = some (sourceName root o m) ∧ line ≤ e.line := by
  unfold placed SourceMap.moduleEntries at member
  split at member
  · rename_i own _
    obtain ⟨f,inside,rfl⟩ := List.mem_map.mp member
    obtain ⟨t,kept,rfl⟩ := List.mem_map.mp inside
    obtain ⟨origin,origin_eq⟩ := Option.isSome_iff_exists.mp (List.mem_filter.mp kept).2
    refine ⟨?_,Nat.le_add_left ..⟩
    simp [SourceMap.Entry.source?,SourceMap.Entry.moved,SourceMap.SourcePosition.inSource,SourceMap.entry,
      SourceMap.position?,origin_eq]
  · obtain ⟨l,-,rfl⟩ := List.mem_map.mp member
    exact ⟨rfl,Nat.le_add_right ..⟩

theorem mem_placedAll {line : Nat} {ms : List Module} {e : Entry} (member : e ∈ placedAll root o line ms) :
    line ≤ e.line ∧ ∃ m ∈ ms, e.source? = some (sourceName root o m) := by
  induction ms generalizing line with
  | nil => exact absurd member List.not_mem_nil
  | cons m ms ih =>
    rcases List.mem_append.mp member with here | later
    · exact ⟨(mem_placed here).2,m,List.mem_cons_self,(mem_placed here).1⟩
    · obtain ⟨below,n,inside,source⟩ := ih later
      exact ⟨by omega,n,List.mem_cons_of_mem _ inside,source⟩

/-! ## Maps that fit their modules -/

theorem lines_placed {m : Module} {own : SourceMap} (mapped : m.sourceMap = some own) (line : Nat) :
    (placed root o line m).map Entry.line = own.withOrigins.mappings.map (·.line + line) := by
  rw [placed,mapped,SourceMap.moduleEntries,SourceMap.entries,List.map_map,List.map_map]
  rfl

theorem lines_placed_unmapped {m : Module} (unmapped : m.sourceMap = none) (line : Nat) :
    (placed root o line m).map Entry.line = (List.range (Text.lineCount m.contents)).map (line + ·) := by
  rw [placed,unmapped,SourceMap.moduleEntries,List.map_map]
  rfl

/-- The entries of a module stay on the lines of its contents exactly when its own map does. -/
theorem placed_below_iff (line : Nat) (m : Module) :
    (∀ e ∈ placed root o line m, e.line < line + Text.lineCount m.contents) ↔ m.Fits := by
  have lines : (∀ e ∈ placed root o line m, e.line < line + Text.lineCount m.contents) ↔
      ∀ l ∈ (placed root o line m).map Entry.line, l < line + Text.lineCount m.contents := by simp
  rw [lines]
  cases mapped : m.sourceMap with
  | none => simp [lines_placed_unmapped mapped,Module.Fits,mapped]
  | some own =>
    rw [lines_placed mapped]
    simp only [Module.Fits,mapped,List.mem_map,Option.mem_def,Option.some.injEq,forall_eq']
    constructor
    · intro below t member
      have := below _ ⟨t,member,rfl⟩
      omega
    · rintro fits _ ⟨t,member,rfl⟩
      have := fits t member
      omega

/-- The entries of a module are in the order of lines exactly when its own map is. -/
theorem pairwise_placed_iff (line : Nat) (m : Module) :
    ((placed root o line m).map Entry.line).Pairwise (· ≤ ·) ↔ m.InOrder := by
  cases mapped : m.sourceMap with
  | none =>
    have sorted : ((List.range (Text.lineCount m.contents)).map (line + ·)).Pairwise (· ≤ ·) :=
      List.pairwise_map.mpr (List.pairwise_lt_range.imp fun below => by omega)
    simpa [lines_placed_unmapped mapped,Module.InOrder,mapped] using sorted
  | some own =>
    simp [lines_placed mapped,Module.InOrder,SourceMap.InOrder,mapped,List.pairwise_map]

/-- Entries of modules with maps that fit stand before what comes behind these modules. -/
theorem mem_placedAll_below {line : Nat} {ms : List Module} (fits : ∀ m ∈ ms, m.Fits) {e : Entry}
    (member : e ∈ placedAll root o line ms) : e.line < lineBehind line ms := by
  induction ms generalizing line with
  | nil => exact absurd member List.not_mem_nil
  | cons m ms ih =>
    rcases List.mem_append.mp member with here | later
    · have below := (placed_below_iff line m).mpr (fits m List.mem_cons_self) e here
      exact Nat.lt_of_lt_of_le (by omega) (le_lineBehind (line + Text.lineCount m.contents + 2) ms)
    · exact ih (fun n inside => fits n (List.mem_cons_of_mem _ inside)) later

theorem pairwise_placedAll {line : Nat} {ms : List Module} (fits : ∀ m ∈ ms, m.Fits) (ordered : ∀ m ∈ ms, m.InOrder) :
    ((placedAll root o line ms).map Entry.line).Pairwise (· ≤ ·) := by
  induction ms generalizing line with
  | nil => exact List.Pairwise.nil
  | cons m ms ih =>
    rw [placedAll,List.map_append,List.pairwise_append]
    refine ⟨(pairwise_placed_iff line m).mpr (ordered m List.mem_cons_self),
      ih (fun n inside => fits n (List.mem_cons_of_mem _ inside)) fun n inside => ordered n (List.mem_cons_of_mem _ inside),?_⟩
    intro k first l last
    obtain ⟨e,here,rfl⟩ := List.mem_map.mp first
    obtain ⟨f,later,rfl⟩ := List.mem_map.mp last
    have below := (placed_below_iff line m).mpr (fits m List.mem_cons_self) e here
    have above := (mem_placedAll later).1
    omega

/-! ## The map of a bundle -/

section

variable {runtime : String} {c : Chunk} {paths : PublicPaths}

/-- The map of a bundle that is made from the modules of a chunk. -/
def mapOf (root : ProjectRoot) (o : GeneratorOptions) (runtime : String) (c : Chunk) (paths : PublicPaths) : SourceMap :=
  (c.files.foldl (addModule root o) (start c.outputName runtime paths)).map

theorem mapOf_spec : Listed root o (mapOf root o runtime c paths) c.files ∧
    (mapOf root o runtime c paths).entries = placedAll root o (start c.outputName runtime paths).line c.files := by
  have intact : (start c.outputName runtime paths).map.Intact :=
    ⟨rfl,fun _ member => absurd member List.not_mem_nil,fun _ member => absurd member List.not_mem_nil⟩
  have listed : Listed root o (start c.outputName runtime paths).map [] :=
    ⟨List.nodup_nil,fun _ member => absurd member List.not_mem_nil,fun _ _ at_k => absurd (List.mem_of_getElem? at_k) List.not_mem_nil⟩
  exact map_foldl intact listed c.files

theorem entries_mapOf : (mapOf root o runtime c paths).entries = placedAll root o (start c.outputName runtime paths).line c.files :=
  mapOf_spec.2

theorem lineOf_eq (i : Nat) : lineOf root o runtime c paths i =
    lineBehind (start c.outputName runtime paths).line (c.files.take i) := line_foldl ..

/-- The entries of the module at a place stand between those of the modules before and behind it. -/
theorem entries_around {i : Nat} (inside : i < c.files.length) :
    (mapOf root o runtime c paths).entries =
      placedAll root o (start c.outputName runtime paths).line (c.files.take i) ++
        (placed root o (lineOf root o runtime c paths i) c.files[i] ++
          placedAll root o (lineOf root o runtime c paths i + Text.lineCount c.files[i].contents + 2) (c.files.drop (i + 1))) := by
  have split : c.files = c.files.take i ++ c.files[i] :: c.files.drop (i + 1) := by
    rw [← List.drop_eq_getElem_cons inside,List.take_append_drop]
  rw [entries_mapOf,lineOf_eq]
  conv_lhs => rw [split]
  rw [placedAll_append,placedAll]

theorem infix_placed {i : Nat} (inside : i < c.files.length) :
    placed root o (lineOf root o runtime c paths i) c.files[i] <:+: (mapOf root o runtime c paths).entries :=
  ⟨_,_,by rw [entries_around inside,List.append_assoc]⟩

/-- What leads to a source of its own are the entries of its module. -/
theorem entries_of_source {i : Nat} (inside : i < c.files.length) (own : OwnSource root o c i) :
    (mapOf root o runtime c paths).entries.filter (·.source? = some (sourceName root o c.files[i])) =
      placed root o (lineOf root o runtime c paths i) c.files[i] := by
  have apart : ∀ j n, c.files[j]? = some n → j ≠ i → sourceName root o n ≠ sourceName root o c.files[i] :=
    fun j n at_j other same => other (own _ (List.getElem?_eq_getElem inside) j n at_j same)
  have other : ∀ {line ms}, (∀ m ∈ ms, sourceName root o m ≠ sourceName root o c.files[i]) →
      (placedAll root o line ms).filter (·.source? = some (sourceName root o c.files[i])) = [] := by
    intro line ms others
    refine List.filter_eq_nil_iff.mpr fun e member same => ?_
    obtain ⟨-,m,among,source⟩ := mem_placedAll member
    exact others m among (Option.some.inj (source.symm.trans (of_decide_eq_true same)))
  have before : ∀ m ∈ c.files.take i, sourceName root o m ≠ sourceName root o c.files[i] := by
    intro m member
    obtain ⟨j,at_j⟩ := List.getElem?_of_mem member
    rw [List.getElem?_take] at at_j
    split at at_j
    case isTrue small => exact apart j m at_j (Nat.ne_of_lt small)
    case isFalse => cases at_j
  have behind : ∀ m ∈ c.files.drop (i + 1), sourceName root o m ≠ sourceName root o c.files[i] := by
    intro m member
    obtain ⟨j,at_j⟩ := List.getElem?_of_mem member
    rw [List.getElem?_drop] at at_j
    exact apart (i + 1 + j) m at_j (by omega)
  have own : (placed root o (lineOf root o runtime c paths i) c.files[i]).filter
      (·.source? = some (sourceName root o c.files[i])) = placed root o (lineOf root o runtime c paths i) c.files[i] :=
    List.filter_eq_self.mpr fun e member => decide_eq_true (mem_placed member).1
  rw [entries_around inside,List.filter_append,List.filter_append,other before,own,other behind]
  simp

end

/-! ## Lines of contents -/

theorem sourceMap_of_render {runtime : String} {c : Chunk} {paths paths' : PublicPaths} {b : Bundle}
    (made : render root o runtime c paths = (.ok b,paths')) (wanted : o.sourceMap = true) :
    b.sourceMap = some (mapOf root o runtime c paths) := by
  obtain ⟨p,rfl,-,map⟩ := render_ok made
  exact map.trans (if_pos wanted)

theorem inOrder_iff (m : SourceMap) : m.InOrder ↔ (m.entries.map Entry.line).Pairwise (· ≤ ·) := by
  rw [SourceMap.InOrder,SourceMap.entries,List.map_map,List.pairwise_map]
  rfl

section

variable {context : GenerateContext σ} {c : Chunk} {s s' : PublicPaths × σ} {b : Bundle}

/-- Where a runtime is an empty file. -/
def bareContext : GenerateContext Unit where
  root := ⟨.absolute []⟩
  store := {
    read := fun _ => pure (.ok "")
    write := fun _ _ => pure (.ok ())
    stat := fun _ path => .error (.notFound path)
    makeDir := fun _ => pure (.ok ())
    has := fun _ _ => false }
  options := { wrapper := "runtime.js", sourceMap := true }

/-- A module of two lines without a map. -/
def twoLines : Module := { id := ⟨[⟨"plain.js",by decide⟩]⟩, sources := "x\ny", contents := "x\ny" }

/-- A module of one line, with a map that has an origin for its first letter alone. -/
def oneWord : Module where
  id := ⟨[⟨"typed.ts",by decide⟩]⟩
  sources := "let z"
  contents := "z!"
  sourceMap := some { names := ["z"], sources := ["typed.ts"], mappings := [⟨0,0,some ⟨0,0,4,some 0⟩⟩,⟨0,1,none⟩] }

def couple : Chunk := { id := 0, files := [twoLines,oneWord] }

theorem lineOf_oneWord : lineOf bareContext.root bareContext.options "" couple {} 1 = 7 := by
  rw [lineOf_eq]
  decide +kernel

theorem sourceName_oneWord : sourceName bareContext.root bareContext.options couple.files[1] = "bale:///$app/typed.ts" := by
  decide +kernel

theorem ownSource_couple (i : Nat) : OwnSource bareContext.root bareContext.options couple i :=
  ownSource (by decide) (by decide) i

/-- Where the source of a module is that of no other place, a bundle's map leads to it from the lines of the module's contents
alone exactly when the module's own map fits it. The map of the bundle is in the order of lines when all that the modules'
own maps say fits them and is in order, and only if all of it is in order. -/
theorem regions_kept_iff (wanted : context.options.sourceMap = true) (made : standard.generate context c s = (.ok b,s')) :
    ∃ text map, (Generator.runtime context s.2).1 = .ok text ∧ b.sourceMap = some map ∧
      (∀ i (inside : i < c.files.length),
        b.Holds c.files[i].contents (lineOf context.root context.options text c s.1 i) ∧
        (OwnSource context.root context.options c i →
          ((∀ e ∈ map.entries, e.source? = some (sourceName context.root context.options c.files[i]) →
              lineOf context.root context.options text c s.1 i ≤ e.line ∧
              e.line < lineOf context.root context.options text c s.1 i + Text.lineCount c.files[i].contents) ↔
            c.files[i].Fits))) ∧
      (map.InOrder → ∀ m ∈ c.files, m.InOrder) ∧ ((∀ m ∈ c.files, m.Fits ∧ m.InOrder) → map.InOrder) := by
  obtain ⟨text,found,made⟩ := standard_ok made
  refine ⟨text,_,found,sourceMap_of_render made wanted,fun i inside => ⟨holds_contents made inside,fun own => ?_⟩,?_,fun all => ?_⟩
  · rw [← placed_below_iff (lineOf context.root context.options text c s.1 i),← entries_of_source inside own]
    simp only [List.mem_filter,decide_eq_true_eq,and_imp]
    refine forall₃_congr fun e member source => ⟨And.right,fun below => ⟨?_,below⟩⟩
    have placed : e ∈ placed context.root context.options (lineOf context.root context.options text c s.1 i) c.files[i] :=
      entries_of_source inside own ▸ List.mem_filter.mpr ⟨member,decide_eq_true source⟩
    exact (mem_placed placed).2
  · intro ordered m member
    obtain ⟨i,inside,rfl⟩ := List.getElem_of_mem member
    have entries := @infix_placed context.root context.options text c s.1 i inside
    exact (pairwise_placed_iff _ _).mp (((inOrder_iff _).mp ordered).sublist (entries.sublist.map Entry.line))
  · rw [inOrder_iff,entries_mapOf]
    exact pairwise_placedAll (fun m member => (all m member).1) fun m member => (all m member).2

/-- A module that lost lines after its map was made. -/
def shortened : Module where
  id := ⟨[⟨"long.ts",by decide⟩]⟩
  sources := "x"
  contents := "x"
  sourceMap := some { sources := ["long.ts"], mappings := [⟨0,0,some ⟨0,0,0,none⟩⟩,⟨3,0,some ⟨0,0,0,none⟩⟩] }

def afterShortened : Chunk := { id := 0, files := [shortened,Module.ofSources ⟨[⟨"next.js",by decide⟩]⟩ "y"] }

theorem regions_kept_iff_couple : bareContext.options.sourceMap = true ∧ ∃ b s', standard.generate bareContext couple ({},()) = (.ok b,s') ∧ ∃ map, b.sourceMap = some map ∧ map.InOrder ∧
      ∀ e ∈ map.entries, e.source? = some "bale:///$app/typed.ts" → 7 ≤ e.line ∧ e.line < 8 := by
  obtain ⟨b,s',made⟩ : ∃ b s', standard.generate bareContext couple ({},()) = (.ok b,s') := ⟨_,_,rfl⟩
  obtain ⟨text,map,found,kept,regions,-,ordered⟩ := regions_kept_iff rfl made
  obtain rfl : text = "" := Except.ok.inj (found.symm.trans rfl)
  have plain : twoLines.Fits ∧ twoLines.InOrder := ⟨fun _ mapped => (nomatch mapped),fun _ mapped => (nomatch mapped)⟩
  have word : oneWord.Fits ∧ oneWord.InOrder := by
    refine ⟨?_,?_⟩ <;> rintro own ⟨⟩ <;> decide
  have region := ((regions 1 (by decide)).2 (ownSource_couple 1)).mpr word.1
  rw [lineOf_oneWord,sourceName_oneWord] at region
  exact ⟨rfl,b,s',made,map,kept,ordered (List.forall_mem_cons.mpr ⟨plain,List.forall_mem_singleton.mpr word⟩),region⟩

/-- The map of a bundle leads to a module from a line of the module behind it. -/
theorem region_left : (afterShortened.files.map Module.id).Nodup ∧
    ∃ b s', standard.generate bareContext afterShortened ({},()) = (.ok b,s') ∧ b.Holds "x" 3 ∧ b.Holds "y" 6 ∧
      ∃ map, b.sourceMap = some map ∧ ∃ e ∈ map.entries, e.source? = some "bale:///$app/long.ts" ∧ e.line = 6 := by
  obtain ⟨b,s',made⟩ : ∃ b s', standard.generate bareContext afterShortened ({},()) = (.ok b,s') := ⟨_,_,rfl⟩
  obtain ⟨text,found,rendered⟩ := standard_ok made
  obtain rfl : text = "" := Except.ok.inj (found.symm.trans rfl)
  have second : lineOf bareContext.root bareContext.options "" afterShortened {} 1 = 6 := by
    rw [lineOf_eq]
    decide +kernel
  refine ⟨by decide,b,s',made,holds_contents rendered (i := 0) (by decide),second ▸ holds_contents rendered (i := 1) (by decide),
    _,sourceMap_of_render rendered rfl,⟨6,0,some ⟨some "bale:///$app/long.ts",0,0,none⟩⟩,?_,rfl,rfl⟩
  decide +kernel

end

end Generator

end Bundling
