import Bundling.Config.Validation
import Bundling.Config.Writer
import Bundling.Proofs.Padding

/-!
# Options that are not given

A configuration that was written is read again as it was, and where keys of it were deleted, at any depth, exactly these options
have their defaults. A group that is absent, a group that is empty, and a group that is written out as its default are read
alike, whatever else a value holds (`Config.ofValue_written`).
-/

namespace Bundling

namespace Json

variable {gone : List String → Bool} {d e i j new new' : Json} {k : String} {path : List String}

/-! ## Deleted keys -/

mutual

/-- A value without the members at some paths of keys. -/
def without (gone : List String → Bool) : Json → Json
  | object ms => object (withoutMembers gone ms)
  | j => j

def withoutMembers (gone : List String → Bool) : List (String × Json) → List (String × Json)
  | [] => []
  | (key,j) :: ms =>
    if gone [key] then withoutMembers gone ms
    else (key,without (fun path => gone (key :: path)) j) :: withoutMembers gone ms

end

/-- A value with a new one under a path of keys, if there is an object to put it into. -/
def put : Json → (path : List String) → (new : Json) → Json
  | _,[],new => new
  | object ms,key :: path,new =>
    if path = [] ∨ (object ms).get? key ≠ none then object (ms ++ [(key,put (((object ms).get? key).getD .null) path new)])
    else object ms
  | j,_,_ => j

theorem get?_cons (k : String) (m : String × Json) (ms : List (String × Json)) :
    (object (m :: ms)).get? k = ((object ms).get? k).or (if m.1 = k then some m.2 else none) := by
  rw [get?,get?,List.reverse_cons,List.find?_append,List.find?_singleton,Option.map_or]
  by_cases here : m.1 = k
  · rw [if_pos here,if_pos (beq_iff_eq.mpr here)]
    rfl
  · rw [if_neg here,if_neg (mt beq_iff_eq.mp here)]
    rfl

theorem get?_withoutMembers (gone : List String → Bool) (k : String) (ms : List (String × Json)) :
    (object (withoutMembers gone ms)).get? k =
      if gone [k] then none else ((object ms).get? k).map (without fun path => gone (k :: path)) := by
  induction ms with
  | nil => exact (ite_self none).symm
  | cons m ms ih =>
    obtain ⟨key,j⟩ := m
    rw [withoutMembers,get?_cons]
    by_cases here : key = k
    · subst here
      split
      · rename_i deleted
        rw [ih,if_pos deleted]
      · rename_i kept
        rw [get?_cons,ih,if_neg kept,if_pos rfl,if_pos rfl,Option.map_or]
        rfl
    · rw [if_neg here,Option.or_none]
      split
      · exact ih
      · rw [get?_cons,if_neg here,Option.or_none,ih]

/-- What is left under a key. -/
theorem get?_without (gone : List String → Bool) (k : String) (j : Json) :
    (j.without gone).get? k = if gone [k] then none else (j.get? k).map (without fun path => gone (k :: path)) := by
  cases j with
  | object ms =>
    rw [without]
    exact get?_withoutMembers gone k ms
  | null | bool | number | string | array => exact (ite_self none).symm

theorem get?_append (k : String) (ms ns : List (String × Json)) :
    (object (ms ++ ns)).get? k = ((object ns).get? k).or ((object ms).get? k) := by
  simp only [get?,List.reverse_append,List.find?_append,Option.map_or]

theorem get?_append_of_ne {key : String} (other : k ≠ key) (ms : List (String × Json)) (j : Json) :
    (object (ms ++ [(key,j)])).get? k = (object ms).get? k := by
  rw [get?_append]
  simp [get?,Ne.symm other]

theorem get?_append_self (k : String) (ms : List (String × Json)) (j : Json) : (object (ms ++ [(k,j)])).get? k = some j := by
  rw [get?_append]
  simp [get?]

mutual

theorem without_nothing : (j : Json) → j.without (fun _ => false) = j
  | object ms => by rw [without,withoutMembers_nothing ms]
  | null | bool _ | number _ | string _ | array _ => rfl

theorem withoutMembers_nothing : (ms : List (String × Json)) → withoutMembers (fun _ => false) ms = ms
  | [] => rfl
  | (key,j) :: ms => by rw [withoutMembers,if_neg Bool.false_ne_true,without_nothing j,withoutMembers_nothing ms]

end

/-- A value without one path has what it had under the keys off that path. -/
theorem get?_without_of_ne {key : String} (other : k ≠ key) (path : List String) (j : Json) :
    (j.without (· == key :: path)).get? k = j.get? k := by
  have nothing : (fun rest => k :: rest == key :: path) = fun _ => false := funext fun rest => by simp [other]
  rw [get?_without,if_neg (by simp [other]),nothing]
  cases j.get? k with
  | none => rfl
  | some i => exact congrArg some (without_nothing i)

/-- What a value without one path has under the first key of it. -/
theorem get?_without_cons (k : String) (path : List String) (j : Json) :
    (j.without (· == k :: path)).get? k = if path = [] then none else (j.get? k).map (without (· == path)) := by
  have below : (fun rest => k :: rest == k :: path) = (· == path) := funext fun rest => by simp
  rw [get?_without,below]
  cases path <;> simp

theorem padded_append {ds ms : List (String × Json)} (padded : Padded (((object ds).get? k).getD .null) new new') :
    Padded (object ds) (object (ms ++ [(k,new)])) (object (ms ++ [(k,new')])) := by
  refine .of_keys fun key => ?_
  by_cases here : key = k
  · subst here
    exact .inr ⟨new,new',get?_append_self ..,get?_append_self ..,padded⟩
  · exact Padded.under_of_eq (by rw [get?_append_of_ne here,get?_append_of_ne here])

/-- What is filled up under a path is filled up as a whole. -/
theorem padded_put (found : d.at? path = some e) (padded : Padded e new new') (j : Json) :
    Padded d (j.put path new) (j.put path new') := by
  induction path generalizing d j with
  | nil =>
    cases found
    exact padded
  | cons k path ih =>
    obtain ⟨f,default,below⟩ := Option.bind_eq_some_iff.mp found
    obtain ⟨ds,rfl⟩ := (isTable_of_get? default).exists_eq
    cases j with
    | object ms =>
      rw [put,put]
      split
      · refine padded_append ?_
        rw [default]
        exact ih below _
      · exact .same
    | null | bool | number | string | array => exact .same

/-- A value without a path is filled up by the default under that path. -/
theorem padded_without (found : d.at? path = some e) (proper : path ≠ []) (j : Json) :
    Padded d (j.without (· == path)) (j.put path e) := by
  induction path generalizing d j with
  | nil => exact absurd rfl proper
  | cons k path ih =>
    obtain ⟨f,default,below⟩ := Option.bind_eq_some_iff.mp found
    obtain ⟨ds,rfl⟩ := (isTable_of_get? default).exists_eq
    cases j with
    | object ms =>
      rw [put]
      split
      · rename_i parent
        refine .of_keys fun key => ?_
        by_cases here : key = k
        · subst here
          have left := get?_without_cons key path (object ms)
          rw [Padded.Under,get?_append_self,default]
          by_cases last : path = []
          · subst last
            cases below
            exact .inl ⟨left,.inr rfl⟩
          · rw [if_neg last] at left
            obtain ⟨i,there⟩ := Option.ne_none_iff_exists'.mp (parent.resolve_left last)
            rw [there] at left ⊢
            exact .inr ⟨_,_,left,rfl,ih below last i⟩
        · exact Padded.under_of_eq ((get?_without_of_ne here path (object ms)).trans (get?_append_of_ne here ..).symm)
      · rename_i missing
        rw [not_or,not_not] at missing
        refine .of_keys fun key => Padded.under_of_eq ?_
        by_cases here : key = k
        · subst here
          have left := get?_without_cons key path (object ms)
          rw [if_neg missing.1,missing.2] at left
          exact left.trans missing.2.symm
        · exact get?_without_of_ne here path (object ms)
    | null | bool | number | string | array => exact .same

/-! ## Reading what is left of a record -/

namespace Record

variable {α β : Type} {fields fs : List (RecordField α)} {a : α} {r : Reading}

/-- A field that was written is read again, unless it was deleted. -/
theorem read_left {d : Decoder β} {name : String} {set : β → α → α} {b v : β} {ms : List (String × Json)}
    (written : (object ms).get? name = some j) (has : set b a = a) (reads : d r (j.without fun path => gone (name :: path)) = .ok v) :
    readFields r (fun k => ((object ms).without gone).get? k) (.of name d set :: fs) a =
      readFields r (fun k => ((object ms).without gone).get? k) fs (set (if gone [name] then b else v) a) := by
  have taken : given d b r (((object ms).without gone).get? name) = .ok (if gone [name] then b else v) := by
    rw [get?_without,written]
    split
    · rfl
    · exact reads
  rw [readFields_cons name set fs has,taken]
  rfl

end Record

namespace Decoder

theorem list_map {α : Type} {d : Decoder α} {write : α → Json} {r : Reading} {as : List α}
    (reads : ∀ a ∈ as, d r (write a) = .ok a) : d.list r (.array (as.map write)) = .ok as := by
  rw [list]
  induction as with
  | nil => rfl
  | cons a as ih =>
    rw [List.map_cons,items_cons,reads a List.mem_cons_self,ih fun b member => reads b (List.mem_cons_of_mem _ member)]
    rfl

theorem word_toNat (r : Reading) (n : UInt64) : word r (.number (.int n.toNat)) = .ok n := by
  rw [word,if_pos (Int.natCast_nonneg _),Int.toNat_natCast,UInt64.ofNat_toNat]

end Decoder

end Json

open Json Json.Record Json.Decoder

variable {gone : List String → Bool} {r : Reading}

theorem PathType.read_text (t : PathType) : variant names r (.string t.text) = .ok t := by
  cases t <;> rfl

theorem MapPlacement.read_text (p : MapPlacement) : variant names r (.string p.text) = .ok p := by
  cases p <;> rfl

theorem ChunkStrategy.read_text (s : ChunkStrategy) : variant names r (.string s.text) = .ok s := by
  cases s <;> rfl

namespace GeneratorOptions

theorem distinct : (fields.map RecordField.name).Nodup := by decide

theorem steady : Steady ofJson := by
  refine steady_decoder _ ?_ _
  simp only [fields,List.forall_mem_cons]
  exact ⟨steady_of steady_string _ _,steady_of steady_bool _ _,steady_of (steady_variant _) _ _,steady_of (steady_variant _) _ _,
    steady_of steady_string _ _,steady_of steady_string _ _,nofun⟩

theorem pads : Pads ({} : GeneratorOptions).toJson ofJson := by
  refine pads_decoder _ distinct ?_
  exact .value rfl id (fun _ => rfl) rfl fun _ =>
    .value rfl id (fun _ => rfl) rfl fun _ =>
    .value rfl id (fun _ => rfl) rfl fun _ =>
    .value rfl id (fun _ => rfl) rfl fun _ =>
    .value rfl id (fun _ => rfl) rfl fun _ =>
    .value rfl id (fun _ => rfl) rfl fun _ => .nil

/-- The options with their defaults where keys are deleted. -/
def reset (gone : List String → Bool) (o : GeneratorOptions) : GeneratorOptions where
  wrapper := if gone ["wrapper"] then ({} : GeneratorOptions).wrapper else o.wrapper
  sourceMap := if gone ["source_map"] then ({} : GeneratorOptions).sourceMap else o.sourceMap
  mapPlacement := if gone ["source_map_path"] then ({} : GeneratorOptions).mapPlacement else o.mapPlacement
  pathType := if gone ["path_type"] then ({} : GeneratorOptions).pathType else o.pathType
  sourceNamespace := if gone ["source_namespace"] then ({} : GeneratorOptions).sourceNamespace else o.sourceNamespace
  mapNamespace := if gone ["source_map_namespace"] then ({} : GeneratorOptions).mapNamespace else o.mapNamespace

theorem ofJson_without (o : GeneratorOptions) : ofJson r (o.toJson.without gone) = .ok (o.reset gone) := by
  refine (decoder_object distinct _ r _).trans ?_
  refine (read_left rfl rfl (PathType.read_text _)).trans ?_
  refine (read_left rfl rfl rfl).trans ?_
  refine (read_left rfl rfl rfl).trans ?_
  refine (read_left rfl rfl (MapPlacement.read_text _)).trans ?_
  refine (read_left rfl rfl rfl).trans ?_
  refine (read_left rfl rfl rfl).trans ?_
  rfl

end GeneratorOptions

namespace ChunkingOptions

theorem distinct : (fields.map RecordField.name).Nodup := by decide

theorem steady : Steady ofJson := by
  refine steady_decoder _ ?_ _
  simp only [fields,List.forall_mem_cons]
  exact ⟨steady_of (steady_variant _) _ _,steady_of steady_bool _ _,nofun⟩

theorem pads : Pads ({} : ChunkingOptions).toJson ofJson := by
  refine pads_decoder _ distinct ?_
  exact .value rfl id (fun _ => rfl) rfl fun _ =>
    .value rfl id (fun _ => rfl) rfl fun _ => .nil

/-- The options with their defaults where keys are deleted. -/
def reset (gone : List String → Bool) (o : ChunkingOptions) : ChunkingOptions where
  strategy := if gone ["strategy"] then ({} : ChunkingOptions).strategy else o.strategy
  commons := if gone ["commons"] then ({} : ChunkingOptions).commons else o.commons

theorem ofJson_without (o : ChunkingOptions) : ofJson r (o.toJson.without gone) = .ok (o.reset gone) := by
  refine (decoder_object distinct _ r _).trans ?_
  refine (read_left rfl rfl rfl).trans ?_
  refine (read_left rfl rfl (ChunkStrategy.read_text _)).trans ?_
  rfl

end ChunkingOptions

namespace InstallOptions

theorem distinct : (fields.map RecordField.name).Nodup := by decide

theorem steady : Steady ofJson := by
  refine steady_decoder _ ?_ _
  simp only [fields,List.forall_mem_cons]
  exact ⟨steady_of steady_bool _ _,steady_of steady_bool _ _,steady_of steady_bool _ _,steady_of steady_string.list _ _,
    steady_of steady_string.list _ _,steady_of steady_string _ _,nofun⟩

theorem pads : Pads ({} : InstallOptions).toJson ofJson := by
  refine pads_decoder _ distinct ?_
  exact .value rfl id (fun _ => rfl) rfl fun _ =>
    .value rfl id (fun _ => rfl) rfl fun _ =>
    .value rfl id (fun _ => rfl) rfl fun _ =>
    .value rfl id (fun _ => rfl) rfl fun _ =>
    .value rfl id (fun _ => rfl) rfl fun _ =>
    .value rfl id (fun _ => rfl) rfl fun _ => .nil

/-- The options with their defaults where keys are deleted. -/
def reset (gone : List String → Bool) (o : InstallOptions) : InstallOptions where
  enabled := if gone ["enabled"] then ({} : InstallOptions).enabled else o.enabled
  save := if gone ["save"] then ({} : InstallOptions).save else o.save
  silent := if gone ["silent"] then ({} : InstallOptions).silent else o.silent
  includes := if gone ["include"] then ({} : InstallOptions).includes else o.includes
  excludes := if gone ["exclude"] then ({} : InstallOptions).excludes else o.excludes
  command := if gone ["command"] then ({} : InstallOptions).command else o.command

theorem ofJson_without (o : InstallOptions) : ofJson r (o.toJson.without gone) = .ok (o.reset gone) := by
  refine (decoder_object distinct _ r _).trans ?_
  refine (read_left rfl rfl rfl).trans ?_
  refine (read_left rfl rfl rfl).trans ?_
  refine (read_left rfl rfl (list_map fun _ _ => rfl)).trans ?_
  refine (read_left rfl rfl (list_map fun _ _ => rfl)).trans ?_
  refine (read_left rfl rfl rfl).trans ?_
  refine (read_left rfl rfl rfl).trans ?_
  rfl

end InstallOptions

namespace ResolveOptions

theorem distinct : (fields.map RecordField.name).Nodup := by decide

theorem steady : Steady ofJson := by
  refine steady_decoder _ ?_ _
  simp only [fields,List.forall_mem_cons]
  exact ⟨steady_of steady_string.list _ _,steady_of InstallOptions.steady _ _,nofun⟩

theorem pads : Pads ({} : ResolveOptions).toJson ofJson := by
  refine pads_decoder _ distinct ?_
  exact .value rfl id (fun _ => rfl) rfl fun _ =>
    .cons rfl InstallOptions.pads (fun _ => rfl) rfl fun _ => .nil

/-- The options with their defaults where keys are deleted. -/
def reset (gone : List String → Bool) (o : ResolveOptions) : ResolveOptions where
  extensions := if gone ["extensions"] then ({} : ResolveOptions).extensions else o.extensions
  install := if gone ["install"] then ({} : ResolveOptions).install else o.install.reset fun path => gone ("install" :: path)

theorem ofJson_without (o : ResolveOptions) : ofJson r (o.toJson.without gone) = .ok (o.reset gone) := by
  refine (decoder_object distinct _ r _).trans ?_
  refine (read_left rfl rfl (list_map fun _ _ => rfl)).trans ?_
  refine (read_left rfl rfl o.install.ofJson_without).trans ?_
  rfl

end ResolveOptions

namespace WatchOptions

theorem distinct : (fields.map RecordField.name).Nodup := by decide

theorem steady : Steady ofJson := by
  refine steady_decoder _ ?_ _
  simp only [fields,List.forall_mem_cons]
  exact ⟨steady_of steady_string.list _ _,steady_of steady_word _ _,steady_of steady_bool _ _,nofun⟩

theorem pads : Pads ({} : WatchOptions).toJson ofJson := by
  refine pads_decoder _ distinct ?_
  exact .value rfl id (fun _ => rfl) rfl fun _ =>
    .value rfl id (fun _ => rfl) rfl fun _ =>
    .value rfl id (fun _ => rfl) rfl fun _ => .nil

/-- The options with their defaults where keys are deleted. -/
def reset (gone : List String → Bool) (o : WatchOptions) : WatchOptions where
  ignored := if gone ["ignored"] then ({} : WatchOptions).ignored else o.ignored
  debounce := if gone ["debounce_ms"] then ({} : WatchOptions).debounce else o.debounce
  generate := if gone ["generate"] then ({} : WatchOptions).generate else o.generate

theorem ofJson_without (o : WatchOptions) : ofJson r (o.toJson.without gone) = .ok (o.reset gone) := by
  refine (decoder_object distinct _ r _).trans ?_
  refine (read_left rfl rfl (word_toNat r _)).trans ?_
  refine (read_left rfl rfl rfl).trans ?_
  refine (read_left rfl rfl (list_map fun _ _ => rfl)).trans ?_
  rfl

end WatchOptions

namespace Settings

theorem distinct : (fields.map RecordField.name).Nodup := by decide

theorem steady : Steady ofJson := by
  refine steady_decoder _ ?_ _
  simp only [fields,List.forall_mem_cons]
  exact ⟨steady_of (steady_string.nullable fun _ _ refused => by cases refused) _ _,nofun⟩

theorem pads : Pads ({} : Settings).toJson ofJson := by
  refine pads_decoder _ distinct ?_
  exact .value rfl id (fun _ => rfl) rfl fun _ => .nil

/-- The settings with their defaults where keys are deleted. -/
def reset (gone : List String → Bool) (s : Settings) : Settings where
  logLevel := if gone ["log_level"] then ({} : Settings).logLevel else s.logLevel

theorem ofJson_without (s : Settings) : ofJson r (s.toJson.without gone) = .ok (s.reset gone) := by
  obtain ⟨level⟩ := s
  refine (decoder_object distinct _ r _).trans ?_
  cases level with
  | none => exact read_left rfl rfl rfl
  | some level => exact read_left rfl rfl rfl

end Settings

theorem Path.steady_decoder : Steady Path.decoder :=
  steady_of_scalar "path string" (fun j => by cases j <;> rfl) (fun _ _ => rfl) (fun _ _ => rfl) fun _ _ _ read => by cases read

namespace Config

theorem distinct : (fields.map RecordField.name).Nodup := by decide

theorem steady : Steady ofJson := by
  refine steady_decoder _ ?_ _
  simp only [fields,List.forall_mem_cons]
  exact ⟨steady_of Path.steady_decoder _ _,steady_of Path.steady_decoder.list _ _,steady_of Path.steady_decoder _ _,
    steady_of GeneratorOptions.steady _ _,steady_of ChunkingOptions.steady _ _,steady_of ResolveOptions.steady _ _,
    steady_of WatchOptions.steady _ _,steady_of steady_string.list _ _,steady_of Settings.steady _ _,nofun⟩

/-- Where a value has less than the defaults, it is read as if it had the rest. -/
theorem pads : Pads ({} : Config).toJson ofJson := by
  refine pads_decoder _ distinct ?_
  exact .cons rfl ChunkingOptions.pads (fun _ => rfl) rfl fun _ =>
    .value rfl id (fun _ => rfl) rfl fun _ =>
    .cons rfl GeneratorOptions.pads (fun _ => rfl) rfl fun _ =>
    .value rfl id (fun _ => rfl) rfl fun _ =>
    .value rfl id (fun _ => rfl) rfl fun _ =>
    .cons rfl ResolveOptions.pads (fun _ => rfl) rfl fun _ =>
    .value rfl id (fun _ => rfl) rfl fun _ =>
    .cons rfl Settings.pads (fun _ => rfl) rfl fun _ =>
    .cons rfl WatchOptions.pads (fun _ => rfl) rfl fun _ => .nil

/-- The configuration with its defaults where keys are deleted, be it options or whole groups. -/
def reset (gone : List String → Bool) (c : Config) : Config where
  rootDirectory := if gone ["root_directory"] then ({} : Config).rootDirectory else c.rootDirectory
  entries := if gone ["entries"] then ({} : Config).entries else c.entries
  outputDir := if gone ["output_dir"] then ({} : Config).outputDir else c.outputDir
  generator := if gone ["generator"] then ({} : Config).generator else c.generator.reset fun path => gone ("generator" :: path)
  chunking := if gone ["chunking"] then ({} : Config).chunking else c.chunking.reset fun path => gone ("chunking" :: path)
  resolve := if gone ["resolve"] then ({} : Config).resolve else c.resolve.reset fun path => gone ("resolve" :: path)
  watch := if gone ["watch"] then ({} : Config).watch else c.watch.reset fun path => gone ("watch" :: path)
  plugins := if gone ["plugins"] then ({} : Config).plugins else c.plugins
  settings := if gone ["settings"] then ({} : Config).settings else c.settings.reset fun path => gone ("settings" :: path)

/-- The paths of a configuration are texts, as JSON can hold them. -/
structure HasTexts (c : Config) : Prop where
  rootDirectory : c.rootDirectory.IsText
  entries : ∀ e ∈ c.entries, e.IsText
  outputDir : c.outputDir.IsText

theorem ofJson_without {c : Config} (texts : c.HasTexts) : ofJson r (c.toJson.without gone) = .ok (c.reset gone) := by
  have path {p : Path} (isText : p.IsText) : Path.decoder r (.string p.text) = .ok p := congrArg Except.ok isText.mk_text
  have entries : Path.decoder.list r (.array ((c.entries.map Path.text).map .string)) = .ok c.entries := by
    rw [List.map_map]
    exact list_map fun e member => path (texts.entries e member)
  refine (decoder_object distinct _ r _).trans ?_
  refine (read_left rfl rfl c.chunking.ofJson_without).trans ?_
  refine (read_left rfl rfl entries).trans ?_
  refine (read_left rfl rfl c.generator.ofJson_without).trans ?_
  refine (read_left rfl rfl (path texts.outputDir)).trans ?_
  refine (read_left rfl rfl (list_map fun _ _ => rfl)).trans ?_
  refine (read_left rfl rfl c.resolve.ofJson_without).trans ?_
  refine (read_left rfl rfl (path texts.rootDirectory)).trans ?_
  refine (read_left rfl rfl c.settings.ofJson_without).trans ?_
  refine (read_left rfl rfl c.watch.ofJson_without).trans ?_
  rfl

/-- The groups of options by their paths, and what each is by default. -/
def groups : List (List String × Json) := [
  (["generator"],({} : GeneratorOptions).toJson),
  (["chunking"],({} : ChunkingOptions).toJson),
  (["resolve"],({} : ResolveOptions).toJson),
  (["resolve","install"],({} : InstallOptions).toJson),
  (["watch"],({} : WatchOptions).toJson),
  (["settings"],({} : Settings).toJson)]

theorem at?_of_mem_groups {g : List String × Json} (member : g ∈ groups) :
    g.1 ≠ [] ∧ ({} : Config).toJson.at? g.1 = some g.2 ∧ g.2.IsTable := by
  simp only [groups,List.mem_cons,List.not_mem_nil,or_false] at member
  rcases member with rfl | rfl | rfl | rfl | rfl | rfl <;> exact ⟨by decide,rfl,trivial⟩

/-- What is filled up with defaults is the same configuration. -/
theorem ofValue_padded {x y : Json} (padded : Padded ({} : Config).toJson x y) : ofValue x = ofValue y :=
  congrArg (Except.mapError ConfigError.ofDecodeError) (pads padded)

/-- Every configuration whose paths are texts is read as it was written. Whatever keys are deleted of it, what is read has the defaults there and is
the same elsewhere. In any value at all, that a group is missing, that it is empty and that it is the default one are the same. -/
theorem ofValue_written : (∀ c : Config, c.HasTexts → ofValue c.toJson = .ok c) ∧
    (∀ (c : Config) (gone : List String → Bool), c.HasTexts → ofValue (c.toJson.without gone) = .ok (c.reset gone)) ∧
    ∀ (j : Json), ∀ g ∈ groups,
      ofValue (j.put g.1 (.object [])) = ofValue (j.without (· == g.1)) ∧ ofValue (j.put g.1 g.2) = ofValue (j.without (· == g.1)) := by
  have left (c : Config) (gone : List String → Bool) (texts : c.HasTexts) :
      ofValue (c.toJson.without gone) = .ok (c.reset gone) := by
    rw [ofValue,ofJson_without texts]
    rfl
  refine ⟨fun c texts => ?_,left,fun j g member => ?_⟩
  · have whole := left c (fun _ => false) texts
    rwa [without_nothing] at whole
  · obtain ⟨proper,found,table⟩ := at?_of_mem_groups member
    have filled := ofValue_padded (padded_without found proper j)
    exact ⟨(ofValue_padded (padded_put found (.full table) j)).trans filled.symm,filled.symm⟩

/-- A configuration that names an entry outside of ASCII, and the same without its root and the command that installs. -/
theorem ofValue_written_umlaut :
    let c : Config := { rootDirectory := ⟨"/p"⟩, entries := [⟨"ä.js"⟩], resolve := { install := { command := "pnpm" } } }
    c.HasTexts ∧ ofValue c.toJson = .ok c ∧
      ofValue (c.toJson.without fun key => key ∈ [["root_directory"],["resolve","install"]]) = .ok { entries := [⟨"ä.js"⟩] } := by
  intro c
  have texts : c.HasTexts :=
    ⟨Path.isText_mk "/p",fun e member => List.mem_singleton.mp member ▸ Path.isText_mk "ä.js",Path.isText_mk "dist"⟩
  exact ⟨texts,ofValue_written.1 c texts,ofValue_written.2.1 c _ texts⟩

end Config

end Bundling
