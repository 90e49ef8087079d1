import Mathlib.Data.List.Basic
import Bundling.Bundle.SourceMapMerge

/-!
# What a merged source map says

A map is read as a list of entries, in which sources and names stand for themselves and not for places in a table. The
tables of a map that is being merged only grow, so what its entries say stays (`entries_addModule`): a module adds the
entries of its own map that have an origin, moved down and with its own source, or else one entry for each line.
-/

namespace Bundling.SourceMap

/-- A mapping that needs no tables to be read. -/
structure Entry where
  line : Nat
  column : Nat
  position : Option SourcePosition
  deriving DecidableEq

/-- Where a mapping leads, by the tables of a map. -/
def position? (m : SourceMap) (t : Mapping) : Option SourcePosition :=
  t.origin.map fun o => ⟨m.sources[o.source]?,o.line,o.column,o.name.bind (m.names[·]?)⟩

def entry (m : SourceMap) (t : Mapping) : Entry := ⟨t.line,t.column,m.position? t⟩

def entries (m : SourceMap) : List Entry := m.mappings.map m.entry

/-- The source position that entries give for a generated one: that of the last entry of its line that does not start
behind it. -/
def positionAt (es : List Entry) (line column : Nat) : Option SourcePosition :=
  ((es.filter fun e => e.line = line ∧ e.column ≤ column).getLast?).bind Entry.position

theorem lookup?_eq (m : SourceMap) (line column : Nat) : m.lookup? line column = positionAt m.entries line column := by
  have held : (m.entries.filter fun e => e.line = line ∧ e.column ≤ column).getLast? = (m.mappingAt? line column).map m.entry := by
    rw [entries,List.filter_map,List.getLast?_map]
    rfl
  rw [lookup?,positionAt,held]
  cases m.mappingAt? line column with
  | none => rfl
  | some t =>
    cases origin : t.origin <;> simp [entry,position?,origin]

/-! ## Tables -/

theorem prefix_intern (item : String) (items : List String) : items <+: (intern item items).2 := by
  unfold intern
  split
  · exact List.prefix_rfl
  · exact List.prefix_append _ _

theorem getElem?_intern (item : String) (items : List String) : (intern item items).2[(intern item items).1]? = some item := by
  unfold intern
  split
  · rename_i i found
    obtain ⟨inside,same,-⟩ := List.idxOf?_eq_some_iff.mp found
    rw [List.getElem?_eq_getElem inside,same]
  · simp

theorem intern_of_not_mem {item : String} {items : List String} (new : item ∉ items) :
    intern item items = (items.length,items ++ [item]) := by
  rw [intern,List.idxOf?_eq_none_iff.mpr new]

/-- All places in the tables that mappings refer to are there, and each source has a text. -/
structure Intact (m : SourceMap) : Prop where
  texts : m.contents.length = m.sources.length
  sources : ∀ t ∈ m.mappings, ∀ o, t.origin = some o → o.source < m.sources.length
  names : ∀ t ∈ m.mappings, ∀ o, t.origin = some o → ∀ n, o.name = some n → n < m.names.length

theorem getElem?_of_prefix {α : Type} {as bs : List α} (before : as <+: bs) {i : Nat} (inside : i < as.length) :
    bs[i]? = as[i]? := by
  obtain ⟨rest,rfl⟩ := before
  exact List.getElem?_append_left inside

/-- What a mapping says stays while tables grow. -/
theorem Intact.entry_eq {m m' : SourceMap} (intact : m.Intact) (sources : m.sources <+: m'.sources)
    (names : m.names <+: m'.names) {t : Mapping} (member : t ∈ m.mappings) : m'.entry t = m.entry t := by
  have position : m'.position? t = m.position? t := by
    unfold position?
    cases origin : t.origin with
    | none => rfl
    | some o =>
      have source := getElem?_of_prefix sources (intact.sources t member o origin)
      have name : (o.name.bind (m'.names[·]?)) = o.name.bind (m.names[·]?) := by
        cases named : o.name with
        | none => rfl
        | some n => exact getElem?_of_prefix names (intact.names t member o origin n named)
      rw [Option.map_some,Option.map_some,source,name]
  rw [entry,entry,position]

theorem Intact.entries_eq {m m' : SourceMap} (intact : m.Intact) (sources : m.sources <+: m'.sources)
    (names : m.names <+: m'.names) : m.mappings.map m'.entry = m.entries :=
  List.map_congr_left fun _ member => intact.entry_eq sources names member

/-! ## Modules -/

/-- A position that is attributed to another source. -/
def SourcePosition.inSource (source : String) (p : SourcePosition) : SourcePosition := { p with source := some source }

/-- An entry of a module's own map, at its place in the text that modules are written to. -/
def Entry.moved (source : String) (offset : Nat) (e : Entry) : Entry :=
  ⟨e.line + offset,e.column,e.position.map (SourcePosition.inSource source)⟩

/-- A map without the mappings that have no origin. -/
def withOrigins (m : SourceMap) : SourceMap := { m with mappings := m.mappings.filter (·.origin.isSome) }

/-- The entries of a module that starts on a line: those of its own map that have an origin, or one for each line of
its contents. -/
def moduleEntries (source : String) (own : Option SourceMap) (contents : String) (offset : Nat) : List Entry :=
  match own with
  | some own => own.withOrigins.entries.map (Entry.moved source offset)
  | none => (List.range (Text.lineCount contents)).map fun l => ⟨offset + l,0,some ⟨some source,l,0,none⟩⟩

section

variable {m : SourceMap} {k : Nat} {source : String}

/-- Mappings are added at the end; names may have been added before them. -/
theorem Intact.append (intact : m.Intact) {names : List String} (grown : m.names <+: names) (ts : List Mapping)
    (valid : ∀ t ∈ ts, ∀ o, t.origin = some o → o.source < m.sources.length ∧ ∀ n, o.name = some n → n < names.length) :
    Intact { m with names := names, mappings := m.mappings ++ ts } ∧
      entries { m with names := names, mappings := m.mappings ++ ts } =
        m.entries ++ ts.map (entry { m with names := names, mappings := m.mappings ++ ts }) := by
  have kept : m.mappings.map (entry { m with names := names, mappings := m.mappings ++ ts }) = m.entries :=
    intact.entries_eq List.prefix_rfl grown
  refine ⟨⟨intact.texts,fun t member o origin => ?_,fun t member o origin n named => ?_⟩,?_⟩
  · rcases List.mem_append.mp member with old | new
    · exact intact.sources t old o origin
    · exact (valid t new o origin).1
  · rcases List.mem_append.mp member with old | new
    · exact Nat.lt_of_lt_of_le (intact.names t old o origin n named) grown.length_le
    · exact (valid t new o origin).2 n named
  · rw [entries,List.map_append,kept]

/-- One mapping of a module's own map adds its entry, if it has an origin. -/
theorem addMapping_spec (intact : m.Intact) (here : m.sources[k]? = some source) (own : SourceMap) (offset : Nat) (t : Mapping) :
    (addMapping own k offset m t).Intact ∧ (addMapping own k offset m t).sources = m.sources ∧
      (addMapping own k offset m t).contents = m.contents ∧
      (addMapping own k offset m t).entries =
        m.entries ++ if t.origin.isSome then [(own.entry t).moved source offset] else [] := by
  obtain ⟨inside,-⟩ := List.getElem?_eq_some_iff.mp here
  cases origin : t.origin with
  | none =>
    have same : addMapping own k offset m t = m := by rw [addMapping,origin]
    rw [same]
    exact ⟨intact,rfl,rfl,by simp⟩
  | some o =>
    cases named : o.name.bind (own.names[·]?) with
    | none =>
      let moved : Mapping := ⟨t.line + offset,t.column,some { o with source := k, name := none }⟩
      have added : addMapping own k offset m t = { m with mappings := m.mappings ++ [moved] } := by
        simp only [addMapping,origin,named,moved]
      obtain ⟨intact',entries⟩ := intact.append List.prefix_rfl [moved] (by simpa [moved] using inside)
      rw [added]
      refine ⟨intact',rfl,rfl,entries.trans ?_⟩
      simp [moved,Entry.moved,SourcePosition.inSource,entry,position?,origin,named,here]
    | some text =>
      have interned := getElem?_intern text m.names
      obtain ⟨known,-⟩ := List.getElem?_eq_some_iff.mp interned
      let moved : Mapping := ⟨t.line + offset,t.column,some { o with source := k, name := some (intern text m.names).1 }⟩
      have added : addMapping own k offset m t =
          { m with names := (intern text m.names).2, mappings := m.mappings ++ [moved] } := by
        simp only [addMapping,origin,named,moved]
      obtain ⟨intact',entries⟩ :=
        intact.append (prefix_intern text m.names) [moved] (by simpa [moved] using ⟨inside,known⟩)
      rw [added]
      refine ⟨intact',rfl,rfl,entries.trans ?_⟩
      simp [moved,Entry.moved,SourcePosition.inSource,entry,position?,origin,named,here,interned]

/-- The mappings of a module's own map add their entries, as far as they have an origin. -/
theorem foldl_addMapping (intact : m.Intact) (here : m.sources[k]? = some source) (own : SourceMap) (offset : Nat)
    (ts : List Mapping) :
    (ts.foldl (addMapping own k offset) m).Intact ∧ (ts.foldl (addMapping own k offset) m).sources = m.sources ∧
      (ts.foldl (addMapping own k offset) m).contents = m.contents ∧
      (ts.foldl (addMapping own k offset) m).entries =
        m.entries ++ ((ts.filter (·.origin.isSome)).map own.entry).map (Entry.moved source offset) := by
  induction ts generalizing m with
  | nil => exact ⟨intact,rfl,rfl,(List.append_nil _).symm⟩
  | cons t ts ih =>
    obtain ⟨intact',sources,contents,entries⟩ := addMapping_spec intact here own offset t
    obtain ⟨last,sources',contents',entries'⟩ := ih intact' (sources ▸ here)
    refine ⟨last,sources'.trans sources,contents'.trans contents,?_⟩
    rw [List.foldl_cons,entries',entries,List.append_assoc,List.filter_cons]
    split <;> rfl

/-- Lines of a text that stands for its source add one entry each. -/
theorem append_identity (intact : m.Intact) (here : m.sources[k]? = some source) (offset lines : Nat) :
    Intact { m with mappings := m.mappings ++ identityMappings k offset lines } ∧
      entries { m with mappings := m.mappings ++ identityMappings k offset lines } =
        m.entries ++ (List.range lines).map fun l => ⟨offset + l,0,some ⟨some source,l,0,none⟩⟩ := by
  obtain ⟨inside,-⟩ := List.getElem?_eq_some_iff.mp here
  have valid : ∀ t ∈ identityMappings k offset lines, ∀ o, t.origin = some o →
      o.source < m.sources.length ∧ ∀ n, o.name = some n → n < m.names.length := by
    intro t member o origin
    obtain ⟨l,-,rfl⟩ := List.mem_map.mp member
    cases origin
    exact ⟨inside,fun n named => nomatch named⟩
  obtain ⟨intact',entries⟩ := intact.append List.prefix_rfl _ valid
  refine ⟨intact',entries.trans ?_⟩
  rw [identityMappings,List.map_map]
  simp only [Function.comp_def,entry,position?,Option.map_some,here,Option.bind_none]

/-- A source that is there is taken as it is, and a new one is added with its text. Nothing changes what entries say. -/
theorem addSource_spec (intact : m.Intact) (source text : String) :
    (m.addSource source text).2.Intact ∧ (m.addSource source text).2.entries = m.entries ∧
      (m.addSource source text).2.sources[(m.addSource source text).1]? = some source ∧
      (m.addSource source text).2.sources = (if source ∈ m.sources then m.sources else m.sources ++ [source]) ∧
      (m.addSource source text).2.contents = if source ∈ m.sources then m.contents else m.contents ++ [some text] := by
  by_cases known : source ∈ m.sources
  · have interned := getElem?_intern source m.sources
    obtain ⟨k,found⟩ := Option.isSome_iff_exists.mp (List.isSome_idxOf?.mpr known)
    have same : intern source m.sources = (k,m.sources) := by rw [intern,found]
    rw [same] at interned
    obtain ⟨inside,-⟩ := List.getElem?_eq_some_iff.mp interned
    have added : m.addSource source text = (k,m) := by simp [addSource,same,show k < m.sources.length from inside]
    rw [added,if_pos known,if_pos known]
    exact ⟨intact,rfl,interned,rfl,rfl⟩
  · let grown : SourceMap := { m with sources := m.sources ++ [source], contents := m.contents ++ [some text] }
    have added : m.addSource source text = (m.sources.length,grown) := by
      rw [addSource,intern_of_not_mem known]
      simp [grown]
    have longer : m.sources <+: grown.sources := List.prefix_append _ _
    rw [added,if_neg known,if_neg known]
    refine ⟨⟨by simp [grown,intact.texts],fun t member o origin => ?_,intact.names⟩,
      intact.entries_eq longer (List.prefix_rfl : m.names <+: grown.names),by simp [grown],rfl,rfl⟩
    exact Nat.lt_of_lt_of_le (intact.sources t member o origin) longer.length_le

/-- A module adds its entries, and its text as that of its source if this is new. -/
theorem addModule_spec (intact : m.Intact) (source text : String) (own : Option SourceMap) (contents : String) (offset : Nat) :
    (m.addModule source text own contents offset).Intact ∧
      (m.addModule source text own contents offset).entries = m.entries ++ moduleEntries source own contents offset ∧
      (m.addModule source text own contents offset).sources = (if source ∈ m.sources then m.sources else m.sources ++ [source]) ∧
      (m.addModule source text own contents offset).contents =
        if source ∈ m.sources then m.contents else m.contents ++ [some text] := by
  obtain ⟨intact',entries,here,sources,contents'⟩ := addSource_spec intact source text
  rw [addModule]
  generalize m.addSource source text = added at *
  cases own with
  | none =>
    obtain ⟨last,entries'⟩ := append_identity intact' here offset (Text.lineCount contents)
    exact ⟨last,entries'.trans (by rw [entries]; rfl),sources,contents'⟩
  | some own =>
    obtain ⟨last,sources',contents'',entries'⟩ := foldl_addMapping intact' here own offset own.mappings
    exact ⟨last,entries'.trans (by rw [entries]; rfl),sources'.trans sources,contents''.trans contents'⟩

end

end Bundling.SourceMap
