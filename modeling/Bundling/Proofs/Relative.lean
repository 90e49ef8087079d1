import Bundling.Proofs.Paths

/-!
# Relative paths

A relative path says how many levels it goes up, and so where it leaves the path of its base. It is a text, which shows the
octets of names: what can be told from it is how the components of the way are shown, segment by segment
(`Component.joined_eq_iff`). So with one base, modules have the same relative path exactly if the ways to them look the same
(`ProjectRoot.relative_eq_iff`), and modules whose names on the way are texts are told apart.
-/

namespace Bundling

open Bundling.Path (slash dot)

/-! ## Names as they are shown -/

namespace Name

variable {n m : Name}

/-- A replacement character is neither a point nor a separator, so what is shown for a name is a name again. -/
theorem isName_text (n : Name) : IsName (Text.Utf8.encode n.text) := by
  have other : ∀ s : String, '\uFFFD' ∉ s.toList → Text.Utf8.encode s ≠ n.octets → Text.Utf8.encode n.text ≠ Text.Utf8.encode s := by
    intro s clean other same
    have shown : Text.Utf8.lenient n.octets = s := Text.Utf8.encode_injective same
    exact other (shown ▸ Text.Utf8.encode_lenient (shown ▸ clean))
  refine ⟨other "" (by decide) (Ne.symm n.isName.1),other "." (by decide) (Ne.symm n.isName.2.1),
    other ".." (by decide) (Ne.symm n.isName.2.2.1),?_⟩
  rw [show slash = .ofNat ('/' : Char).toNat from rfl,Text.Utf8.mem_encode_iff (by decide),text,Text.Utf8.lenient,
    String.toList_ofList]
  intro member
  rcases Text.Utf8.mem_lenientFrom member with fault | all
  · exact absurd fault (by decide)
  · exact n.isName.2.2.2 (all slash (by decide))

/-- The name that a name looks like. -/
def shown (n : Name) : Name := ⟨n.text,n.isName_text⟩

/-- The octets of the name are those of a text. -/
def IsText (n : Name) : Prop := Text.Utf8.encode n.text = n.octets

instance (n : Name) : Decidable n.IsText := inferInstanceAs (Decidable (_ = _))

theorem isText_iff : n.IsText ↔ ∃ s, Text.Utf8.encode s = n.octets := by
  constructor
  · exact fun isText => ⟨_,isText⟩
  · rintro ⟨s,same⟩
    rw [IsText,text,← same,Text.Utf8.lenient_encode]

theorem shown_eq_self_iff : n.shown = n ↔ n.IsText := octets_injective.eq_iff.symm

end Name

namespace Path

theorem segments_flatMap {parts : List (List UInt8)} (some : parts ≠ []) :
    segments ([slash].intercalate parts) = parts.flatMap segments := by
  induction parts with
  | nil => exact absurd rfl some
  | cons s parts ih =>
    cases parts with
    | nil => simp
    | cons t rest =>
      rw [List.intercalate_cons_cons,List.append_assoc,List.singleton_append,segments_append_slash,ih (by simp)]
      rfl

theorem segments_append_of_not_mem {s : List UInt8} (plain : slash ∉ s) (rest : List UInt8) :
    ∃ first others, segments rest = first :: others ∧ segments (s ++ rest) = (s ++ first) :: others := by
  induction s with
  | nil =>
    cases parts : segments rest with
    | nil => exact absurd parts (segments_ne_nil rest)
    | cons first others => exact ⟨first,others,rfl,parts⟩
  | cons b s ih =>
    have parts : slash ≠ b ∧ slash ∉ s := by simpa using plain
    obtain ⟨first,others,split,whole⟩ := ih parts.2
    refine ⟨first,others,split,?_⟩
    rw [List.cons_append,segments,if_neg (Ne.symm parts.1),whole]
    rfl

/-- The segments of a text are texts. -/
theorem text_of_mem_segments {text : String} {s : List UInt8} (member : s ∈ segments (Text.Utf8.encode text)) :
    ∃ t, Text.Utf8.encode t = s := by
  rw [Text.Utf8.encode] at member
  generalize text.toList = cs at member
  induction cs generalizing s with
  | nil => exact ⟨"",(List.mem_singleton.mp member).symm⟩
  | cons c cs ih =>
    rw [List.flatMap_cons] at member
    by_cases separator : c = '/'
    · subst separator
      rw [show String.utf8EncodeChar '/' = [slash] from rfl,List.singleton_append,segments,if_pos rfl] at member
      rcases List.mem_cons.mp member with rfl | later
      · exact ⟨"",rfl⟩
      · exact ih later
    · have plain : slash ∉ String.utf8EncodeChar c := fun inside =>
        separator ((Text.Utf8.mem_encodeChar_iff (c := '/') (by decide)).mp inside)
      obtain ⟨first,others,split,whole⟩ := segments_append_of_not_mem plain (cs.flatMap String.utf8EncodeChar)
      rw [whole] at member
      rcases List.mem_cons.mp member with rfl | later
      · obtain ⟨t,same⟩ := ih (split ▸ List.mem_cons_self)
        exact ⟨String.ofList [c] ++ t,by rw [Text.Utf8.encode_append,same]; simp [Text.Utf8.encode]⟩
      · exact ih (split ▸ List.mem_cons_of_mem _ later)

end Path

namespace Component

theorem segments_root : Path.segments root.octets = [[],[]] := by decide

theorem segments_here : Path.segments here.octets = [[dot]] := by decide

theorem segments_up : Path.segments up.octets = [[dot,dot]] := by decide

theorem segments_name (n : Name) : Path.segments (name n).octets = [n.octets] :=
  Path.segments_of_not_mem n.isName.2.2.2

/-- No component is written as the beginning of another one. -/
theorem eq_of_segments {a b : Component} {as bs : List (List UInt8)}
    (same : Path.segments a.octets ++ as = Path.segments b.octets ++ bs) : a = b ∧ as = bs := by
  have filled : ∀ n : Name, n.octets ≠ [] := fun n => n.isName.1
  have point : ∀ n : Name, n.octets ≠ [dot] := fun n => n.isName.2.1
  have points : ∀ n : Name, n.octets ≠ [dot,dot] := fun n => n.isName.2.2.1
  cases a <;> cases b <;>
    simp only [segments_root,segments_here,segments_up,segments_name,List.cons_append,List.nil_append,List.cons.injEq] at same
  case name.name n m => exact ⟨congrArg name (Name.octets_injective same.1),same.2⟩
  all_goals grind

theorem octets_injective : Function.Injective octets := fun a b same =>
  (@eq_of_segments a b [] [] (by rw [same])).1

/-- Components are told from their segments. -/
theorem eq_of_flatMap {cs ds : List Component} (same : (cs.flatMap fun c => Path.segments c.octets) =
    ds.flatMap fun c => Path.segments c.octets) : cs = ds := by
  induction cs generalizing ds with
  | nil =>
    cases ds with
    | nil => rfl
    | cons d ds => simp [Path.segments_ne_nil] at same
  | cons c cs ih =>
    cases ds with
    | nil => simp [Path.segments_ne_nil] at same
    | cons d ds =>
      obtain ⟨rfl,rest⟩ := eq_of_segments same
      rw [ih rest]

/-- The component that a component looks like. -/
def shown : Component → Component
  | name n => name n.shown
  | c => c

theorem octets_shown (c : Component) : c.shown.octets = Text.Utf8.encode c.text := by
  cases c with
  | name n => rfl
  | root | here | up => decide

theorem text_shown (c : Component) : c.shown.text = c.text := by
  rw [text,octets_shown,Text.Utf8.lenient_encode]

/-- What a component is written with is a text. -/
def IsText : Component → Prop
  | name n => n.IsText
  | _ => True

instance : (c : Component) → Decidable c.IsText
  | name n => inferInstanceAs (Decidable n.IsText)
  | root | here | up => .isTrue trivial

theorem shown_eq_self_iff {c : Component} : c.shown = c ↔ c.IsText := by
  cases c with
  | name n => rw [shown,name.injEq,Name.shown_eq_self_iff,IsText]
  | root | here | up => exact ⟨fun _ => trivial,fun _ => rfl⟩

theorem map_shown {cs : List Component} (texts : ∀ c ∈ cs, c.IsText) : cs.map shown = cs :=
  (List.map_congr_left fun c member => shown_eq_self_iff.mpr (texts c member)).trans (List.map_id' cs)

/-- Texts of components, joined by separators. -/
def joined (cs : List Component) : String := "/".intercalate (cs.map text)

theorem encode_joined (cs : List Component) : Text.Utf8.encode (joined cs) = [slash].intercalate ((cs.map shown).map octets) := by
  induction cs with
  | nil => rfl
  | cons c cs ih =>
    cases cs with
    | nil => simp [joined,octets_shown]
    | cons d ds =>
      rw [joined,List.map_cons,List.map_cons,String.intercalate_cons_cons,← List.map_cons,← joined,Text.Utf8.encode_append,
        Text.Utf8.encode_append,ih]
      simp only [List.map_cons,List.intercalate_cons_cons,octets_shown]
      rfl

theorem joined_ne_empty (c : Component) (cs : List Component) : joined (c :: cs) ≠ "" := by
  have filled : c.text ≠ "" := Text.Utf8.lenient_ne_empty (by
    cases c with
    | name n => exact n.isName.1
    | root | here | up => decide)
  rw [joined]
  cases cs with
  | nil => simpa using filled
  | cons d ds => simp [String.intercalate_cons_cons,String.append_eq_empty_iff]

theorem segments_joined (c : Component) (cs : List Component) :
    Path.segments (Text.Utf8.encode (joined (c :: cs))) = ((c :: cs).map shown).flatMap fun c => Path.segments c.octets := by
  rw [encode_joined,Path.segments_flatMap (by simp)]
  simp [List.flatMap_map]

theorem map_shown_eq_iff {cs ds : List Component} : cs.map shown = ds.map shown ↔ cs.map text = ds.map text := by
  constructor
  · intro same
    have texts := congrArg (List.map text) same
    rw [List.map_map,List.map_map] at texts
    simpa only [Function.comp_def,text_shown] using texts
  · intro same
    have octets : (cs.map shown).map octets = (ds.map shown).map octets := by
      simpa only [List.map_map,Function.comp_def,octets_shown] using congrArg (List.map Text.Utf8.encode) same
    exact octets_injective.list_map octets

/-- What can be told from the text that components are joined to is how each of them is shown. -/
theorem joined_eq_iff {cs ds : List Component} : joined cs = joined ds ↔ cs.map text = ds.map text := by
  constructor
  · intro same
    refine map_shown_eq_iff.mp ?_
    cases cs with
    | nil =>
      cases ds with
      | nil => rfl
      | cons d ds => exact absurd same.symm (joined_ne_empty d ds)
    | cons c cs =>
      cases ds with
      | nil => exact absurd same (joined_ne_empty c cs)
      | cons d ds => exact eq_of_flatMap (by rw [← segments_joined,← segments_joined,same])
  · intro same
    rw [joined,joined,same]

end Component

/-- The way from one place to another leaves what both share at the front. -/
theorem relativeComponents_cases (bs ts : List Component) : ∃ shared bs' ts', bs = shared ++ bs' ∧ ts = shared ++ ts' ∧
    relativeComponents bs ts = bs'.map (fun _ => .up) ++ ts' := by
  induction bs generalizing ts with
  | nil => exact ⟨[],[],ts,rfl,rfl,by simp [relativeComponents]⟩
  | cons b bs ih =>
    cases ts with
    | nil => exact ⟨[],b :: bs,[],rfl,rfl,by simp [relativeComponents]⟩
    | cons t ts =>
      by_cases same : b = t
      · obtain ⟨shared,bs',ts',base,target,way⟩ := ih ts
        refine ⟨b :: shared,bs',ts',by rw [base]; rfl,by rw [same,target]; rfl,?_⟩
        rw [relativeComponents,if_pos same,way]
      · exact ⟨[],b :: bs,t :: ts,rfl,rfl,by rw [relativeComponents,if_neg same]⟩

/-- From one base, different places that need no step up are reached on different ways. -/
theorem eq_of_relativeComponents {bs ts us : List Component} (down : .up ∉ ts) (down' : .up ∉ us)
    (same : relativeComponents bs ts = relativeComponents bs us) : ts = us := by
  obtain ⟨shared,bs₁,ts',base,rfl,way⟩ := relativeComponents_cases bs ts
  obtain ⟨shared',bs₂,us',base',rfl,way'⟩ := relativeComponents_cases bs us
  -- As many steps up lead to the same place above the base.
  have ups : ∀ (bs : List Component) {cs : List Component}, .up ∉ cs →
      (bs.map (fun _ => Component.up) ++ cs).takeWhile (· = .up) = bs.map fun _ => .up := by
    intro bs cs down
    rw [List.takeWhile_append_of_pos (by simp)]
    cases cs with
    | nil => simp
    | cons c cs => rw [List.takeWhile_cons_of_neg (by simpa using fun same => down (by simp [same])),List.append_nil]
  rw [way,way'] at same
  have levels := congrArg (List.takeWhile (· = .up)) same
  rw [ups bs₁ fun member => down (List.mem_append_right _ member),
    ups bs₂ fun member => down' (List.mem_append_right _ member)] at levels
  have height : bs₁.length = bs₂.length := by simpa using congrArg List.length levels
  obtain ⟨-,rfl⟩ := List.append_inj same (by simpa using height)
  obtain ⟨rfl,-⟩ := List.append_inj' (base.symm.trans base') height
  rfl

namespace ProjectRoot

variable {root : ProjectRoot} {a b : ModuleId}

/-- The way from the root of a project to a module. -/
def way (root : ProjectRoot) (id : ModuleId) : List Component := relativeComponents root.dir.components id.components

theorem relative_eq (root : ProjectRoot) (id : ModuleId) : root.relative id = Component.joined (root.way id) := rfl

/-- Modules have the same path as seen from the root of a project if the ways to them are shown in the same way. -/
theorem relative_eq_iff : root.relative a = root.relative b ↔ (root.way a).map Component.text = (root.way b).map Component.text :=
  Component.joined_eq_iff

/-- The names on the way to a module are texts. -/
def Legible (root : ProjectRoot) (id : ModuleId) : Prop := ∀ c ∈ root.way id, c.IsText

instance (root : ProjectRoot) (id : ModuleId) : Decidable (root.Legible id) := inferInstanceAs (Decidable (∀ c ∈ _, _))

theorem eq_of_way (same : root.way a = root.way b) : a = b := by
  have down : ∀ id : ModuleId, .up ∉ id.components := fun id => by simp [ModuleId.components,ModuleId.clean,CleanPath.components]
  have components : a.components = b.components := eq_of_relativeComponents (down a) (down b) same
  obtain ⟨as⟩ := a
  obtain ⟨bs⟩ := b
  have names : as.map Component.name = bs.map Component.name := (List.cons.inj components).2
  exact congrArg ModuleId.mk (Component.name_injective.list_map names)

/-- Where the names on the way are texts, modules have different paths as seen from the root. -/
theorem eq_of_relative (legible : root.Legible a) (legible' : root.Legible b) (same : root.relative a = root.relative b) : a = b := by
  have shown : (root.way a).map Component.shown = (root.way b).map Component.shown :=
    Component.map_shown_eq_iff.mpr (relative_eq_iff.mp same)
  rw [Component.map_shown legible,Component.map_shown legible'] at shown
  exact eq_of_way shown

end ProjectRoot

end Bundling
