import Mathlib.Algebra.Ring.Nat
import Mathlib.Data.List.Induction
import Bundling.Proofs.Placement
import Bundling.Proofs.Relative

/-!
# Public paths

The public path of a module is the root token with the relative path of the module behind it. Read as a path that a user
writes, it gives the module again, wherever the module lies (`toId_publicPath_iff`), but for two exceptions. A public path is
a text, so modules do not come back whose names on the way from the root are none: what is shown for them leads elsewhere
(`legible_of_foldl`). And behind the token separators of both kinds are passed over, and a backslash with them that the way
starts with: what is passed over is missing in the end, which is counted in octets.
-/

namespace Bundling

open Bundling.Path (slash)

/-! ## Octets -/

/-- The octets of names, each with a separator. -/
def octetCount (ns : List Name) : Nat := (ns.map fun n => n.octets.length + 1).sum

theorem octetCount_append (ns ms : List Name) : octetCount (ns ++ ms) = octetCount ns + octetCount ms := by
  simp [octetCount]

theorem octetCount_dropLast_le (ns : List Name) : octetCount ns.dropLast ≤ octetCount ns := by
  rcases List.eq_nil_or_concat ns with rfl | ⟨before,last,rfl⟩
  · exact Nat.le_refl _
  · rw [List.concat_eq_append,List.dropLast_concat,octetCount_append]
    exact Nat.le_add_right _ _

namespace Path

/-- Every segment has a separator of its own, but for the first one. -/
theorem length_segments (bytes : List UInt8) : ((segments bytes).map fun s => s.length + 1).sum = bytes.length + 1 := by
  induction bytes with
  | nil => rfl
  | cons b bytes ih =>
    rw [segments]
    split
    · rw [List.map_cons,List.sum_cons,ih,List.length_nil,List.length_cons]
      omega
    · cases parts : segments bytes with
      | nil => exact absurd parts (segments_ne_nil bytes)
      | cons s ss =>
        rw [parts,List.map_cons,List.sum_cons] at ih
        rw [List.map_cons,List.sum_cons,List.length_cons,List.length_cons]
        omega

/-- No segment leads to more octets than it has. -/
theorem octetCount_foldl_le {segments : List (List UInt8)} {ns ns' : List Name}
    (led : (segments.filterMap Component.ofSegment?).foldl CleanPath.push (.absolute ns) = .absolute ns') :
    octetCount ns' ≤ octetCount ns + (segments.map fun s => s.length + 1).sum := by
  induction segments generalizing ns with
  | nil =>
    cases led
    exact Nat.le_refl _
  | cons s segments ih =>
    rw [List.map_cons,List.sum_cons]
    by_cases up : s = [dot,dot]
    · rw [List.filterMap_cons_some (by rw [Component.ofSegment?,if_pos up])] at led
      have fewer := octetCount_dropLast_le ns
      have rest := ih led
      omega
    · by_cases named : IsName s
      · rw [List.filterMap_cons_some (by rw [Component.ofSegment?,if_neg up,dif_pos named])] at led
        have rest := ih led
        have one : octetCount [⟨s,named⟩] = s.length + 1 := by simp [octetCount]
        rw [octetCount_append,one] at rest
        omega
      · rw [List.filterMap_cons_none (by rw [Component.ofSegment?,if_neg up,dif_neg named])] at led
        have rest := ih led
        omega

/-- A relative path leads to no more octets than it has itself, and a separator. -/
theorem octetCount_inner_le {bytes : List UInt8} {ns ns' : List Name}
    (led : (inner bytes).foldl CleanPath.push (.absolute ns) = .absolute ns') :
    octetCount ns' ≤ octetCount ns + bytes.length + 1 := by
  have bound := octetCount_foldl_le led
  rwa [length_segments,← Nat.add_assoc] at bound

/-- The segments of a text stand for texts. -/
theorem isText_of_mem_inner {text : String} {c : Component} (member : c ∈ inner (Text.Utf8.encode text)) : c.IsText := by
  obtain ⟨s,inside,stands⟩ := List.mem_filterMap.mp member
  rw [Component.ofSegment?] at stands
  split at stands
  · cases stands
    trivial
  · split at stands
    · cases stands
      exact Name.isText_iff.mpr (text_of_mem_segments inside)
    · cases stands

end Path

theorem length_encode_dropWhile_le (p : Char → Bool) (cs : List Char) :
    (Text.Utf8.encode (String.ofList (cs.dropWhile p))).length ≤ (Text.Utf8.encode (String.ofList cs)).length := by
  conv_rhs => rw [← List.takeWhile_append_dropWhile (p := p) (l := cs),String.ofList_append,Text.Utf8.encode_append,List.length_append]
  exact Nat.le_add_left _ _

/-! ## Relative paths -/

namespace Component

/-- A component that stands for a segment. -/
def IsStep : Component → Prop
  | up | name _ => True
  | root | here => False

theorem segments_step {c : Component} (step : c.IsStep) : (Path.segments c.octets).filterMap ofSegment? = [c] := by
  cases c with
  | root | here => exact step.elim
  | up => decide
  | name n => rw [segments_name,List.filterMap_cons_some (ofSegment?_name n)]; rfl

theorem isStep_shown {c : Component} (step : c.IsStep) : c.shown.IsStep := by
  cases c with
  | root | here => exact step.elim
  | up | name n => trivial

/-- No step starts with a separator. -/
theorem IsStep.head?_ne {c : Component} (step : c.IsStep) : c.text.toList.head? ≠ some '/' := by
  cases c with
  | root | here => exact step.elim
  | up => decide
  | name n =>
    intro first
    exact n.isName_text.2.2.2 (List.mem_of_head? ((Text.Utf8.head?_encode_iff (c := '/') (by decide)).mpr first))

/-- Joined components start as the first one does. -/
theorem head?_joined (c : Component) (cs : List Component) : (joined (c :: cs)).toList.head? = c.text.toList.head? := by
  cases cs with
  | nil => simp [joined]
  | cons d ds =>
    have filled : c.text.toList ≠ [] := by simpa [joined] using joined_ne_empty c []
    rw [joined,List.map_cons,List.map_cons,String.intercalate_cons_cons,String.toList_append,String.toList_append,List.append_assoc,
      List.head?_append_of_ne_nil _ filled]

/-- Steps are told from the text that they are joined to as they are shown. -/
theorem inner_joined {cs : List Component} (steps : ∀ c ∈ cs, c.IsStep) :
    Path.inner (Text.Utf8.encode (joined cs)) = cs.map shown := by
  cases cs with
  | nil => decide
  | cons c cs =>
    have shown : ∀ d ∈ (c :: cs).map shown, d.IsStep := List.forall_mem_map.mpr fun d member => isStep_shown (steps d member)
    rw [Path.inner,segments_joined,List.filterMap_flatMap,List.flatMap_congr fun d member => segments_step (shown d member)]
    simp

end Component

/-- Steps up take as many names away. -/
theorem CleanPath.foldl_push_up {α : Type} (ns : List Name) (levels : List α) (names : List Name) (few : names.length = levels.length) :
    (levels.map fun _ => Component.up).foldl push (absolute (ns ++ names)) = absolute ns := by
  induction levels generalizing names with
  | nil => simp [List.length_eq_zero_iff.mp few]
  | cons l levels ih =>
    obtain ⟨before,last,rfl⟩ : ∃ before last, names = before ++ [last] := by
      rcases List.eq_nil_or_concat names with rfl | ⟨before,last,rfl⟩
      · simp at few
      · exact ⟨before,last,List.concat_eq_append⟩
    rw [List.map_cons,List.foldl_cons,push,← List.append_assoc,List.dropLast_concat]
    exact ih before (by simpa using few)

/-- What is pushed keeps a front of the names, and adds names from among what is pushed. -/
theorem CleanPath.foldl_push_front {cs : List Component} {ns ns' : List Name} (roots : .root ∉ cs)
    (led : cs.foldl push (absolute ns) = absolute ns') :
    ∃ front behind added, ns = front ++ behind ∧ ns' = front ++ added ∧ ∀ n ∈ added, .name n ∈ cs := by
  induction cs using List.reverseRecOn generalizing ns' with
  | nil =>
    cases led
    exact ⟨ns,[],[],by simp,by simp,by simp⟩
  | append_singleton cs c ih =>
    obtain ⟨middle,reached⟩ := foldl_push_absolute cs ns
    obtain ⟨front,behind,added,rfl,rfl,inside⟩ := ih (fun root => roots (List.mem_append_left _ root)) reached
    have before : ∀ n ∈ added, .name n ∈ cs ++ [c] := fun n member => List.mem_append_left _ (inside n member)
    rw [List.foldl_append,reached,List.foldl_cons,List.foldl_nil] at led
    cases c with
    | root => exact absurd (List.mem_append_right _ List.mem_cons_self) roots
    | here =>
      cases led
      exact ⟨front,behind,added,rfl,rfl,before⟩
    | name n =>
      cases led
      refine ⟨front,behind,added ++ [n],rfl,List.append_assoc .., fun m member => ?_⟩
      rcases List.mem_append.mp member with old | new
      · exact before m old
      · exact List.mem_append_right _ (by simp [List.mem_singleton.mp new])
    | up =>
      cases led
      rcases List.eq_nil_or_concat added with rfl | ⟨fewer,last,rfl⟩
      · refine ⟨front.dropLast,front.drop (front.length - 1) ++ behind,[],?_,by simp,by simp⟩
        rw [← List.append_assoc,List.dropLast_eq_take,List.take_append_drop]
      · refine ⟨front,behind,fewer,rfl,by simp [← List.append_assoc],fun n member => before n ?_⟩
        simp [member]

theorem relativeComponents_append_left (fs bs ts : List Component) :
    relativeComponents (fs ++ bs) (fs ++ ts) = relativeComponents bs ts := by
  induction fs with
  | nil => rfl
  | cons f fs ih => rw [List.cons_append,List.cons_append,relativeComponents,if_pos rfl,ih]

theorem mem_relativeComponents {bs ts : List Component} {c : Component} (member : c ∈ relativeComponents bs ts) : c = .up ∨ c ∈ ts := by
  obtain ⟨shared,above,below,rfl,rfl,way⟩ := relativeComponents_cases bs ts
  rcases List.mem_append.mp (way ▸ member) with up | down
  · obtain ⟨-,-,rfl⟩ := List.mem_map.mp up
    exact .inl rfl
  · exact .inr (List.mem_append_right _ down)

/-- A text leads along texts, so it does not lead to a place on the way to which a name is none. -/
theorem legible_of_foldl {text : String} {base target : List Name}
    (led : (Path.inner (Text.Utf8.encode text)).foldl CleanPath.push (.absolute base) = .absolute target) :
    ∀ c ∈ relativeComponents (CleanPath.absolute base).components (CleanPath.absolute target).components, c.IsText := by
  have roots : Component.root ∉ Path.inner (Text.Utf8.encode text) := by
    intro root
    obtain ⟨s,-,stands⟩ := List.mem_filterMap.mp root
    simp only [Component.ofSegment?] at stands
    grind
  obtain ⟨front,behind,added,rfl,rfl,inside⟩ := CleanPath.foldl_push_front roots led
  intro c member
  rw [CleanPath.components,CleanPath.components,relativeComponents,if_pos rfl,List.map_append,List.map_append,
    relativeComponents_append_left] at member
  rcases mem_relativeComponents member with rfl | down
  · trivial
  · obtain ⟨n,new,rfl⟩ := List.mem_map.mp down
    exact Path.isText_of_mem_inner (inside n new)

namespace ProjectRoot

variable {names : List Name} {id : ModuleId} {p : Path}

/-- The way from the root of a project to a module goes up, and then down along names. -/
theorem way_to (names : List Name) (id : ModuleId) : ∃ shared above below, names = shared ++ above ∧ id.names = shared ++ below ∧
    relativeComponents (CleanPath.absolute names).components id.components = above.map (fun _ => .up) ++ below.map .name := by
  obtain ⟨shared,above,below,base,target,way⟩ := relativeComponents_cases (names.map Component.name) (id.names.map Component.name)
  obtain ⟨front,back,rfl,rfl,rfl⟩ := List.map_eq_append_iff.mp base
  obtain ⟨front',back',ids,same,rfl⟩ := List.map_eq_append_iff.mp target
  obtain rfl := Component.name_injective.list_map same
  refine ⟨front',back,back',rfl,ids,?_⟩
  rw [CleanPath.components,ModuleId.components,ModuleId.clean,CleanPath.components,relativeComponents,if_pos rfl,way,List.map_map]
  rfl

theorem way_of_led (led : p.clean = .absolute names) :
    (ofPath p).way id = relativeComponents (CleanPath.absolute names).components id.components := by
  rw [way,ofPath,led]

/-- The way that is left of a public path behind the token and separators of both kinds. -/
theorem afterToken?_publicPath (r : ProjectRoot) (id : ModuleId) : afterToken? (r.publicPath id) =
    some (String.ofList ((r.relative id).toList.dropWhile fun c => c == '/' || c == '\\')) := by
  have text : (r.publicPath id).toList = rootToken.toList ++ '/' :: (r.relative id).toList := by simp [publicPath]
  have token : rootToken.length = rootToken.toList.length := String.length_toList.symm
  rw [afterToken?,text,if_pos (List.isPrefixOf_iff_prefix.mpr (List.prefix_append _ _)),token,List.drop_left]
  rfl

/-- What a path stands for, seen from an absolute one. -/
theorem ofPathFrom_eq {r q : Path} (absolute : r.isAbsolute = true) (filled : q.isEmpty = false) :
    ModuleId.ofPathFrom r q = ModuleId.ofClean (r.join q) (r.join q).clean := by
  obtain ⟨more,start⟩ := Path.octets_of_isAbsolute (Path.isAbsolute_join absolute q)
  have joined : (r.join q).isEmpty = false := by simp [Path.isEmpty,start]
  rw [ModuleId.ofPathFrom,ModuleId.ofPath,filled,joined,if_neg (by simp),if_neg (by simp)]

theorem ofClean_eq_ok {written : Path} {c : CleanPath} : ModuleId.ofClean written c = .ok id ↔ c = id.clean := by
  cases c with
  | relative ups ns => simp [ModuleId.ofClean,ModuleId.clean]
  | absolute ns =>
    obtain ⟨ids⟩ := id
    simp [ModuleId.ofClean,ModuleId.clean]

/-- A module below the root of a project, on a way that starts with a backslash. -/
def Backslashed (p : Path) (id : ModuleId) : Prop :=
  ∃ names n below, p.clean = .absolute names ∧ id.names = names ++ n :: below ∧ n.text.toList.head? = some '\\'

/-- A public path is read behind the token and the separators that follow it. -/
theorem toId_publicPath (led : p.clean = .absolute names) : (ofPath p).toId ⟨(ofPath p).publicPath id⟩ =
    ModuleId.ofPathFrom (CleanPath.absolute names).toPath
      ⟨String.ofList (((ofPath p).relative id).toList.dropWhile fun c => c == '/' || c == '\\')⟩ := by
  rw [toId,afterToken?_publicPath,path,ofPath,led]

/-- Where the rest of a public path leads, when something is left that does not start with a slash. -/
theorem ofPathFrom_rest {rest : List Char} (filled : rest ≠ []) (relative : rest.head? ≠ some '/') :
    ModuleId.ofPathFrom (CleanPath.absolute names).toPath ⟨String.ofList rest⟩ = .ok id ↔
      (Path.inner (Text.Utf8.encode (String.ofList rest))).foldl .push (.absolute names) = id.clean := by
  have absolute := CleanPath.isAbsolute_toPath names
  have seen : (Path.mk (String.ofList rest)).isAbsolute = false := by simp [Path.isAbsolute_mk,relative]
  have some : (Path.mk (String.ofList rest)).isEmpty = false := by simpa [Path.isEmpty_mk] using filled
  exact (ofPathFrom_eq absolute some).symm ▸ ofClean_eq_ok.trans (by rw [Path.clean_join absolute seen,CleanPath.clean_toPath]; rfl)

/-- The relative path of a module below the root: it starts as the first name does, and no octet of the names is missing if
they are texts. -/
theorem relative_below {n : Name} {below : List Name} (led : p.clean = .absolute names) (under : id.names = names ++ n :: below) :
    ((ofPath p).relative id).toList.head? = n.text.toList.head? ∧
      ((ofPath p).Legible id → octetCount (n :: below) = (Text.Utf8.encode ((ofPath p).relative id)).length + 1) := by
  have way : (ofPath p).way id = (n :: below).map Component.name := by
    rw [way_of_led led,CleanPath.components,ModuleId.components,ModuleId.clean,CleanPath.components,under,List.map_append,
      relativeComponents,if_pos rfl]
    conv_lhs => arg 1; rw [← List.append_nil (names.map Component.name)]
    rw [relativeComponents_append_left,List.map_cons]
    rfl
  have relative : (ofPath p).relative id = Component.joined (.name n :: below.map Component.name) := by
    rw [relative_eq,way,List.map_cons]
  refine ⟨relative ▸ Component.head?_joined (.name n) _,fun legible => ?_⟩
  have shown : (.name n :: below.map Component.name).map Component.shown = (n :: below).map Component.name :=
    (Component.map_shown fun c member => legible c (way ▸ member)).trans rfl
  rw [relative,← Path.length_segments,Component.segments_joined,shown,List.flatMap_map]
  simp [Component.segments_name,← List.map_eq_flatMap,octetCount,Function.comp_def]

/-- The steps from the root to another module. The first one starts with a backslash only where the way does. -/
theorem relative_of_other (led : p.clean = .absolute names) (other : id.clean ≠ .absolute names) : ∃ c cs,
    (ofPath p).way id = c :: cs ∧ (∀ d ∈ c :: cs, d.IsStep) ∧
    (c :: cs).foldl .push (.absolute names) = id.clean ∧ (c.text.toList.head? = some '\\' → Backslashed p id) := by
  obtain ⟨shared,above,below,rfl,target,way⟩ := way_to names id
  rw [← way_of_led led] at way
  have leads : (above.map (fun _ => Component.up) ++ below.map Component.name).foldl .push (.absolute (shared ++ above)) =
      id.clean := by
    rw [List.foldl_append,CleanPath.foldl_push_up shared above above rfl,CleanPath.foldl_push_names,ModuleId.clean,target]
  have steps : ∀ c ∈ above.map (fun _ => Component.up) ++ below.map Component.name, c.IsStep := by
    intro c member
    rcases List.mem_append.mp member with up | down
    · obtain ⟨_,-,rfl⟩ := List.mem_map.mp up
      trivial
    · obtain ⟨_,-,rfl⟩ := List.mem_map.mp down
      trivial
  cases above with
  | cons a above => exact ⟨_,_,way,steps,leads,fun backslash => absurd backslash (show Component.up.text.toList.head? ≠ some '\\' by decide)⟩
  | nil =>
    cases below with
    | nil => exact absurd (by rw [ModuleId.clean,target]) other
    | cons n below =>
      exact ⟨_,_,way,steps,leads,fun backslash => ⟨shared,n,below,by rw [led,List.append_nil],target,backslash⟩⟩

/-- The public path of a module other than the root is mapped back to the module, exactly if the names on the way from the
root are texts and the way does not start with a backslash. -/
theorem toId_publicPath_iff (absolute : p.isAbsolute = true) (other : id.clean ≠ p.clean) :
    (ofPath p).toId ⟨(ofPath p).publicPath id⟩ = .ok id ↔ (ofPath p).Legible id ∧ ¬ Backslashed p id := by
  obtain ⟨names,led⟩ := Path.clean_of_isAbsolute absolute
  rw [toId_publicPath led]
  constructor
  · intro back
    generalize left : ((ofPath p).relative id).toList.dropWhile (fun c => c == '/' || c == '\\') = rest at back
    have filled : rest ≠ [] := by
      rintro rfl
      rw [ModuleId.ofPathFrom,if_pos (by decide)] at back
      cases back
    have inside : rest.head? ≠ some '/' := by
      intro slash
      have kept := List.head?_dropWhile_not (fun c => c == '/' || c == '\\') ((ofPath p).relative id).toList
      rw [left,slash] at kept
      exact absurd kept (by decide)
    rw [ofPathFrom_rest filled inside] at back
    have legible : (ofPath p).Legible id := by
      rw [Legible,way_of_led led]
      exact legible_of_foldl back
    refine ⟨legible,?_⟩
    rintro ⟨names',n,below,led',under,backslash⟩
    obtain rfl : names = names' := CleanPath.absolute.inj (led.symm.trans led')
    obtain ⟨first,whole⟩ := relative_below led under
    obtain ⟨more,start⟩ : ∃ more, ((ofPath p).relative id).toList = '\\' :: more := List.head?_eq_some_iff.mp (first.trans backslash)
    have text : (ofPath p).relative id = String.ofList (['\\'] ++ more) := by
      rw [List.singleton_append,← start,String.ofList_toList]
    rw [start,List.dropWhile_cons_of_pos (by decide)] at left
    have shorter : (Text.Utf8.encode (String.ofList rest)).length ≤ (Text.Utf8.encode (String.ofList more)).length :=
      left ▸ length_encode_dropWhile_le _ more
    -- The backslash is missing in what is left, so it cannot lead to all the names.
    have fewer := Path.octetCount_inner_le back
    have whole := whole legible
    rw [under,octetCount_append] at fewer
    rw [text,String.ofList_append,Text.Utf8.encode_append,List.length_append,
      show (Text.Utf8.encode (String.ofList ['\\'])).length = 1 by decide] at whole
    omega
  · rintro ⟨legible,plain⟩
    obtain ⟨c,cs,way,steps,leads,backslashed⟩ := relative_of_other led (led ▸ other)
    have head := Component.head?_joined c cs
    have inner := Component.inner_joined steps
    rw [Component.map_shown (way ▸ legible)] at inner
    have filled := Component.joined_ne_empty c cs
    rw [relative_eq,way]
    generalize Component.joined (c :: cs) = text at head inner filled
    have step := steps c (List.mem_cons_self ..)
    have clear : text.toList.head? ≠ some '/' ∧ text.toList.head? ≠ some '\\' :=
      head ▸ ⟨step.head?_ne,fun backslash => plain (backslashed backslash)⟩
    have kept : text.toList.dropWhile (fun c => c == '/' || c == '\\') = text.toList := by
      cases chars : text.toList with
      | nil => rfl
      | cons c more => exact List.dropWhile_cons_of_neg (by simpa [chars] using clear)
    rw [kept,ofPathFrom_rest (by simpa [String.toList_eq_nil_iff] using filled) clear.1,String.ofList_toList,inner,leads]

/-- A module beside a project. -/
def beside : ModuleId := ⟨[⟨"p",by decide⟩,⟨"lib",by decide⟩,⟨"util.js",by decide⟩]⟩

theorem toId_publicPath_beside : (ofPath ⟨"/p/q"⟩).publicPath beside = "$root/../lib/util.js" ∧
    (ofPath ⟨"/p/q"⟩).Legible beside ∧ ¬ Backslashed ⟨"/p/q"⟩ beside ∧
    (ofPath ⟨"/p/q"⟩).toId ⟨(ofPath ⟨"/p/q"⟩).publicPath beside⟩ = .ok beside := by
  have plain : ¬ Backslashed ⟨"/p/q"⟩ beside := by
    rintro ⟨names,n,below,led,under,-⟩
    obtain rfl : [⟨"p",by decide⟩,⟨"q",by decide⟩] = names := by
      simpa using (show (Path.mk "/p/q").clean = .absolute [⟨"p",by decide⟩,⟨"q",by decide⟩] by decide).symm.trans led
    simp only [beside,List.cons_append,List.nil_append,List.cons.injEq,Name.mk.injEq] at under
    exact absurd under.2.1 (by decide)
  have legible : (ofPath ⟨"/p/q"⟩).Legible beside := by decide
  exact ⟨by decide,legible,plain,(toId_publicPath_iff (by decide) (by decide)).mpr ⟨legible,plain⟩⟩

/-- A module below the root `/p`, with a name that starts with a backslash. -/
def backslash : ModuleId := ⟨[⟨"p",by decide⟩,⟨"\\a.js",by decide⟩]⟩

/-- The backslash that a name right below the root starts with is taken for a separator. -/
theorem backslash_lost : (Path.mk "/p").isAbsolute = true ∧ backslash.clean ≠ (Path.mk "/p").clean ∧
    (ofPath ⟨"/p"⟩).publicPath backslash = "$root/\\a.js" ∧
    (ofPath ⟨"/p"⟩).toId ⟨"$root/\\a.js"⟩ = .ok ⟨[⟨"p",by decide⟩,⟨"a.js",by decide⟩]⟩ ∧
    (ofPath ⟨"/p"⟩).toId ⟨(ofPath ⟨"/p"⟩).publicPath backslash⟩ ≠ .ok backslash := by
  decide

end ProjectRoot

end Bundling
