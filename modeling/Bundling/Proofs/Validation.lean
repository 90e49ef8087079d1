import Bundling.Config.Validation
import Bundling.Graph.Operation
import Bundling.Proofs.Disks
import Bundling.Proofs.PublicPath

/-!
# Entries that were checked

A configuration is accepted when its entries are files, and these files are what is compiled (`entries_of_checkFiles`): the
module of an entry is where the file was seen. The check follows a path step by step, and a module is where its text leads,
so what is followed has to be followed again along the normalised path (`Disk.locate_clean`). Both take the root token off
an entry, the check as a component and the graph as a text, which is the same for the entries that are `Plain`.
-/

namespace Bundling

open Bundling.Path (slash)

/-! ## Segments without a meaning -/

namespace Path

theorem prefix_of_segments {bytes s : List UInt8} {rest : List (List UInt8)} (parts : segments bytes = s :: rest) : s <+: bytes := by
  induction bytes generalizing s rest with
  | nil =>
    cases parts
    exact List.nil_prefix
  | cons b bytes ih =>
    rw [segments] at parts
    split at parts
    · cases parts
      exact List.nil_prefix
    · cases below : segments bytes with
      | nil => exact absurd below (segments_ne_nil bytes)
      | cons first others =>
        rw [below] at parts
        cases parts
        exact List.cons_prefix_cons.mpr ⟨rfl,ih below⟩

theorem encode_slash_cons (cs : List Char) : Text.Utf8.encode (String.ofList ('/' :: cs)) = slash :: Text.Utf8.encode (String.ofList cs) := by
  simp only [Text.Utf8.encode,String.toList_ofList,List.flatMap_cons]
  rfl

theorem inner_dropWhile_slash (cs : List Char) : inner (Text.Utf8.encode (String.ofList (cs.dropWhile (· == '/')))) =
    inner (Text.Utf8.encode (String.ofList cs)) := by
  induction cs with
  | nil => rfl
  | cons c cs ih =>
    by_cases separator : c = '/'
    · subst separator
      rw [List.dropWhile_cons_of_pos (by decide),ih,encode_slash_cons]
      exact (inner_append_slash [] _).symm
    · rw [List.dropWhile_cons_of_neg (by simpa using separator)]

/-- What is left of segments when those without a meaning are taken off both ends: it is relative, and its components are
those of all the segments. -/
theorem inner_trimmed {parts : List (List UInt8)} (plain : ∀ s ∈ parts, slash ∉ s) {left : List UInt8}
    (trimmed : left = [slash].intercalate ((parts.dropWhile isVoid).reverse.dropWhile isVoid).reverse) :
    inner left = parts.filterMap Component.ofSegment? ∧ left.head? ≠ some slash := by
  have front : ((parts.dropWhile isVoid).reverse.dropWhile isVoid).reverse <+: parts.dropWhile isVoid := by
    rw [← List.reverse_suffix,List.reverse_reverse]
    exact List.dropWhile_suffix _
  have kept : ((parts.dropWhile isVoid).reverse.dropWhile isVoid).reverse.filterMap Component.ofSegment? =
      parts.filterMap Component.ofSegment? := by
    rw [List.filterMap_reverse]
    exact (congrArg List.reverse (filterMap_dropWhile_isVoid _)).trans
      (by rw [List.filterMap_reverse,List.reverse_reverse]; exact filterMap_dropWhile_isVoid parts)
  generalize ((parts.dropWhile isVoid).reverse.dropWhile isVoid).reverse = middle at front kept trimmed
  subst trimmed
  cases middle with
  | nil => exact ⟨kept,by simp⟩
  | cons s more =>
    have plain' : ∀ t ∈ s :: more, slash ∉ t := fun t member => plain t ((List.dropWhile_suffix _).subset (front.subset member))
    refine ⟨by rw [inner,segments_intercalate (by simp) plain',kept],fun absolute => ?_⟩
    have filled : s ≠ [] := by
      rintro rfl
      obtain ⟨rest,same⟩ := front
      have dropped := List.head?_dropWhile_not isVoid parts
      rw [← same] at dropped
      exact absurd dropped (by simp [isVoid])
    have first : ([slash].intercalate (s :: more)).head? = s.head? := by
      cases more with
      | nil => simp
      | cons t more => rw [List.intercalate_cons_cons,List.append_assoc,List.head?_append_of_ne_nil _ filled]
    exact plain' s List.mem_cons_self (List.mem_of_head? (first ▸ absolute))

/-- Paths that lead to the same place see others alike. -/
theorem clean_join_congr {r r' : Path} (absolute : r.isAbsolute = true) (absolute' : r'.isAbsolute = true)
    (same : r.clean = r'.clean) (q : Path) : (r.join q).clean = (r'.join q).clean := by
  cases relative : q.isAbsolute with
  | true => rw [join,join,if_pos relative,if_pos relative]
  | false => rw [clean_join absolute relative,clean_join absolute' relative,same]

end Path

/-! ## Places by their names -/

namespace Disk

variable {d : Disk} {p q : Place} {path : Path}

/-- A place that is in directories, all with names that are not too long. -/
def Enclosed (d : Disk) (q : Place) : Prop :=
  ∀ before n after, q = before ++ n :: after → d.node? before = some .dir ∧ n.octets.length ≤ 255

theorem Enclosed.dropLast (enclosed : d.Enclosed q) : d.Enclosed q.dropLast := by
  rcases List.eq_nil_or_concat q with rfl | ⟨front,last,rfl⟩
  · exact enclosed
  · rw [List.concat_eq_append] at enclosed ⊢
    rw [List.dropLast_concat]
    rintro before n after rfl
    exact enclosed before n (after ++ [last]) (by simp)

theorem Enclosed.append {n : Name} (enclosed : d.Enclosed q) (here : d.node? q = some .dir)
    (short : n.octets.length ≤ 255) : d.Enclosed (q ++ [n]) := by
  intro before m after same
  rcases List.eq_nil_or_concat after with rfl | ⟨after,last,rfl⟩
  · obtain ⟨rfl,last⟩ := List.append_inj' same rfl
    cases last
    exact ⟨here,short⟩
  · rw [List.concat_eq_append,← List.cons_append,← List.append_assoc] at same
    exact enclosed before m after (List.append_inj' same rfl).1

/-- Where there are no links, what is followed leads through directories. -/
theorem enclosed_of_leads {last : Bool} {hops : Nat} {segments : List (List UInt8)} (linkless : d.Linkless)
    (enclosed : d.Enclosed p) (leads : Leads d last hops p segments q) :
    d.Enclosed q ∧ ∀ n ∈ q, n ∈ p ∨ n.octets ∈ segments := by
  induction leads with
  | done => exact ⟨enclosed,fun n member => .inl member⟩
  | @up hops p q segments _ _ ih =>
    obtain ⟨enclosed',known⟩ := ih enclosed.dropLast
    exact ⟨enclosed',fun n member => (known n member).imp (fun before => List.dropLast_subset p before) (List.mem_cons_of_mem _)⟩
  | stay _ _ _ _ ih =>
    obtain ⟨enclosed',known⟩ := ih enclosed
    exact ⟨enclosed',fun n member => (known n member).imp id (List.mem_cons_of_mem _)⟩
  | down here short _ _ ih =>
    obtain ⟨enclosed',known⟩ := ih (enclosed.append here short)
    refine ⟨enclosed',fun n member => ?_⟩
    rcases known n member with before | after
    · rcases List.mem_append.mp before with before | new
      · exact .inl before
      · exact .inr (List.mem_singleton.mp new ▸ List.mem_cons_self)
    · exact .inr (List.mem_cons_of_mem _ after)
  | stop _ _ linked _ => cases (linkless _).symm.trans linked
  | jump _ _ linked _ _ _ _ => cases (linkless _).symm.trans linked

/-- A place that is in directories is found by its names. -/
theorem leads_of_enclosed {last : Bool} {hops : Nat} {names : List Name} (linkless : d.Linkless)
    (enclosed : d.Enclosed (p ++ names)) : Leads d last hops p (names.map Name.octets) (p ++ names) := by
  induction names generalizing p with
  | nil =>
    rw [List.append_nil]
    exact .done
  | cons n names ih =>
    obtain ⟨here,short⟩ := enclosed p n names rfl
    rw [List.append_cons] at enclosed ⊢
    exact .down here short (linkless _) (ih enclosed)

/-- The path of a place is as long as its names, each with a separator. -/
theorem length_octets_toPath {names : Place} (low : names ≠ []) : (CleanPath.absolute names).toPath.octets.length = octetCount names := by
  have total := Path.length_segments (CleanPath.absolute names).toPath.octets
  have named : ((names.map Name.octets).map fun s => s.length + 1).sum = octetCount names := by simp [octetCount,Function.comp_def]
  rw [CleanPath.segments_toPath low,List.map_cons,List.sum_cons,named,List.length_nil] at total
  omega

/-- Where there are no links, what a path leads to is found by the normalised path, too: it is no longer than the path. -/
theorem locate_clean (linkless : d.Linkless) (absolute : path.isAbsolute = true) (led : d.locate path = .ok q) (low : q ≠ []) :
    d.locate (CleanPath.absolute q).toPath = .ok q := by
  obtain ⟨valid,short,followed⟩ := (resolve_iff absolute).mp led
  obtain ⟨rest,start⟩ := Path.octets_of_isAbsolute absolute
  rw [start,Path.segments,if_pos rfl,List.drop_one,List.tail_cons] at followed
  obtain ⟨enclosed,known⟩ := enclosed_of_leads linkless (p := []) (fun before n after none => by simp at none) followed
  refine (resolve_iff (CleanPath.isAbsolute_toPath q)).mpr ⟨fun void => ?_,?_,?_⟩
  · obtain ⟨s,member,within⟩ := Path.mem_segments_iff.mpr ⟨void,by decide⟩
    rw [CleanPath.segments_toPath low] at member
    rcases List.mem_cons.mp member with rfl | member
    · exact absurd within List.not_mem_nil
    · obtain ⟨n,there,rfl⟩ := List.mem_map.mp member
      have known := (known n there).resolve_left List.not_mem_nil
      exact valid (start ▸ List.mem_cons_of_mem slash (Path.mem_segments_iff.mp ⟨_,known,within⟩).1)
  · have fewer : octetCount q ≤ octetCount [] + rest.length + 1 := Path.octetCount_inner_le (followed.clean linkless).symm
    have whole : path.octets.length = rest.length + 1 := by rw [start,List.length_cons]
    have none : octetCount [] = 0 := rfl
    rw [length_octets_toPath low]
    omega
  · rw [drop_segments_toPath low]
    exact leads_of_enclosed linkless enclosed

end Disk

/-! ## Entries -/

namespace Config

variable {c : Config} {d : Disk} {base e : Path} {id : ModuleId}

/-- An entry that starts with the root token is a text, the token is followed by a slash or by nothing, and no backslash comes
after slashes. -/
def Plain (e : Path) : Prop :=
  ∀ more, e.text.toList = rootToken.toList ++ more →
    e.IsText ∧ (∀ c, more.head? = some c → c = '/') ∧ (more.dropWhile (· == '/')).head? ≠ some '\\'

/-- An entry without the root token, if its text starts with it, and without the separators that follow. -/
def behindToken (e : Path) : Path :=
  match ProjectRoot.afterToken? e.text with
  | some rest => ⟨rest⟩
  | none => e

theorem toId_eq (r : ProjectRoot) (e : Path) : r.toId e = ModuleId.ofPathFrom r.path (behindToken e) := by
  unfold ProjectRoot.toId behindToken
  cases ProjectRoot.afterToken? e.text <;> rfl

/-- Behind slashes that no backslash follows, separators of both kinds are the slashes. -/
theorem dropWhile_separators {cs : List Char} (clear : (cs.dropWhile (· == '/')).head? ≠ some '\\') :
    cs.dropWhile (fun c => c == '/' || c == '\\') = cs.dropWhile (· == '/') := by
  induction cs with
  | nil => rfl
  | cons c cs ih =>
    by_cases slash : c = '/'
    · subst slash
      exact ih clear
    · have kept : (c :: cs).dropWhile (· == '/') = c :: cs := List.dropWhile_cons_of_neg (by simpa using slash)
      rw [kept] at clear ⊢
      exact List.dropWhile_cons_of_neg (by simpa [slash] using fun same : c = '\\' => clear (congrArg some same))

/-- What starts with the octets of a text is shown with the text in front. -/
theorem prefix_text {text : String} (front : Text.Utf8.encode text <+: e.octets) : text.toList <+: e.text.toList := by
  obtain ⟨rest,octets⟩ := front
  rw [Path.text_eq,← octets,Text.Utf8.lenient,String.toList_ofList,Text.Utf8.encode,Text.Utf8.lenientFrom_encode]
  exact List.prefix_append _ _

/-- Without the token, a plain entry is what the check looks at, up to the way in which it is written. -/
theorem behindToken_cases (plain : Plain e) : behindToken e = plainEntry e ∨
    (behindToken e).isAbsolute = false ∧ (plainEntry e).isAbsolute = false ∧
      Path.inner (behindToken e).octets = Path.inner (plainEntry e).octets := by
  have length : rootToken.length = rootToken.toList.length := String.length_toList.symm
  by_cases token : rootToken.toList <+: e.text.toList
  · obtain ⟨more,text⟩ := token
    obtain ⟨isText,separator,clear⟩ := plain more text.symm
    have octets : e.octets = Text.Utf8.encode rootToken ++ Text.Utf8.encode (String.ofList more) := by
      rw [← isText,← Text.Utf8.encode_append]
      exact congrArg _ (String.toList_injective (by simp [text]))
    -- What comes behind the token are the segments of the entry but for the first one.
    obtain ⟨rest,parts,same,pieces⟩ : ∃ rest, Path.segments e.octets = Text.Utf8.encode rootToken :: rest ∧
        Path.inner (Text.Utf8.encode (String.ofList more)) = rest.filterMap Component.ofSegment? ∧ ∀ s ∈ rest, slash ∉ s := by
      rw [octets]
      cases more with
      | nil => exact ⟨[],by decide,by decide,fun s member => absurd member List.not_mem_nil⟩
      | cons c more =>
        obtain rfl := separator c rfl
        rw [Path.encode_slash_cons]
        refine ⟨_,Path.segments_append (by decide),Path.inner_append_slash [] _,fun s member within => ?_⟩
        exact (Path.mem_segments_iff.mp ⟨s,member,within⟩).2 rfl
    have left : behindToken e = ⟨String.ofList (more.dropWhile (· == '/'))⟩ := by
      rw [behindToken,ProjectRoot.afterToken?,if_pos (List.isPrefixOf_iff_prefix.mpr ⟨more,text⟩),← text,length,List.drop_left,
        dropWhile_separators clear]
    have checked : plainEntry e = .ofOctets ([slash].intercalate
        ((rest.dropWhile Path.isVoid).reverse.dropWhile Path.isVoid).reverse) := by
      rw [plainEntry,parts]
      exact if_pos rfl
    obtain ⟨inner,relative⟩ := Path.inner_trimmed pieces rfl
    have head := List.head?_dropWhile_not (· == '/') more
    refine .inr ⟨?_,?_,?_⟩
    · rw [left]
      refine (Path.isAbsolute_mk _).trans ?_
      rw [String.toList_ofList]
      cases first : (more.dropWhile (· == '/')).head? with
      | none => rfl
      | some c =>
        rw [first] at head
        simpa using head
    · rw [checked,Path.isAbsolute,Path.octets_ofOctets]
      simpa using relative
    · rw [left,checked,Path.octets_ofOctets,inner,← same]
      exact Path.inner_dropWhile_slash more
  · left
    have whole : behindToken e = e := by
      rw [behindToken,ProjectRoot.afterToken?,if_neg (mt List.isPrefixOf_iff_prefix.mp token)]
    rw [whole,plainEntry]
    cases parts : Path.segments e.octets with
    | nil => exact absurd parts (Path.segments_ne_nil _)
    | cons first rest =>
      have other : first ≠ Text.Utf8.encode rootToken := by
        rintro rfl
        exact token (prefix_text (Path.prefix_of_segments parts))
      exact (if_neg other).symm

/-- A configuration that was accepted has a root directory, and every entry, seen from there, is a file. -/
theorem files_of_checkFiles (absolute : c.rootDirectory.isAbsolute = true) (accepted : c.checkFiles d base = .ok ()) :
    d.isDir c.rootDirectory = true ∧ ∀ e ∈ c.entries, d.isFile (c.rootDirectory.join (plainEntry e)) = true := by
  have root : base.join c.rootDirectory = c.rootDirectory := by rw [Path.join,if_pos absolute]
  unfold checkFiles at accepted
  rw [root] at accepted
  cases schema : c.checkSchema with
  | error e => simp [schema,bind,Except.bind] at accepted
  | ok _ =>
    cases directory : d.isDir c.rootDirectory with
    | false => simp [schema,directory,bind,Except.bind] at accepted
    | true =>
      simp only [schema,directory,bind,Except.bind,Bool.not_true] at accepted
      refine ⟨rfl,fun e member => ?_⟩
      cases found : (c.entries.map fun e => c.rootDirectory.join (plainEntry e)).find? fun p => !d.isFile p with
      | some p => simp [found] at accepted
      | none => simpa using List.find?_eq_none.mp found _ (List.mem_map_of_mem member)

/-- Seen from the root, the check and the graph look at the same place. -/
theorem clean_join_behindToken {r : Path} (plain : Plain e) (absolute : r.isAbsolute = true) :
    (r.join (behindToken e)).clean = (r.join (plainEntry e)).clean := by
  rcases behindToken_cases plain with same | ⟨relative,relative',inner⟩
  · rw [same]
  · rw [Path.clean_join absolute relative,Path.clean_join absolute relative',inner]

/-- The id of a plain entry is the place where its file was seen. -/
theorem toId_of_file {names : Place} {bytes : List UInt8} {executable : Bool} (linkless : d.Linkless) (absolute : c.rootDirectory.isAbsolute = true)
    (plain : Plain e) (directory : d.isDir c.rootDirectory = true)
    (led : d.locate (c.rootDirectory.join (plainEntry e)) = .ok names) (file : d.node? names = some (.file bytes executable)) :
    (ProjectRoot.ofPath c.rootDirectory).toId e = .ok ⟨names⟩ := by
  obtain ⟨roots,root⟩ := Path.clean_of_isAbsolute absolute
  have path : (ProjectRoot.ofPath c.rootDirectory).path = (CleanPath.absolute roots).toPath := by
    rw [ProjectRoot.path,ProjectRoot.ofPath,root]
  have absolute' := CleanPath.isAbsolute_toPath roots
  have place : (c.rootDirectory.join (plainEntry e)).clean = .absolute names := by
    obtain ⟨ns,clean⟩ := Path.clean_of_isAbsolute (Path.isAbsolute_join absolute (plainEntry e))
    rw [clean,Disk.resolve_place linkless (Path.isAbsolute_join absolute _) led,Path.place_eq clean]
  have same : ((CleanPath.absolute roots).toPath.join (behindToken e)).clean = .absolute names := by
    rw [← place,← clean_join_behindToken plain absolute]
    exact Path.clean_join_congr absolute' absolute ((CleanPath.clean_toPath roots).trans root.symm) _
  have filled : (behindToken e).isEmpty = false := by
    -- Nothing behind the token is the root itself, which is no file.
    by_contra void
    have blank : (behindToken e).octets = [] := by simpa [Path.isEmpty] using void
    have relative : (behindToken e).isAbsolute = false := by rw [Path.isAbsolute,blank]; rfl
    rw [Path.clean_join absolute' relative,blank,Path.inner_nil,CleanPath.clean_toPath] at same
    obtain ⟨q,led',dir⟩ := Disk.isDir_iff.mp directory
    obtain rfl : q = names := by rw [Disk.resolve_place linkless absolute led',Path.place_eq root,CleanPath.absolute.inj same]
    rw [dir] at file
    cases file
  rw [toId_eq,path,ProjectRoot.ofPathFrom_eq absolute' filled,ProjectRoot.ofClean_eq_ok,same,ModuleId.clean]

theorem entryIds_ok {root : ProjectRoot} {es : List Path} (known : ∀ e ∈ es, ∃ id, root.toId e = .ok id) :
    ∃ ids, Graph.entryIds root es = .ok ids := by
  induction es with
  | nil => exact ⟨[],rfl⟩
  | cons e es ih =>
    obtain ⟨id,first⟩ := known e List.mem_cons_self
    obtain ⟨ids,rest⟩ := ih fun e member => known e (List.mem_cons_of_mem _ member)
    rw [Graph.entryIds] at rest
    exact ⟨id :: ids,by rw [Graph.entryIds,List.mapM_cons,first,rest]; rfl⟩

/-- The module of an accepted entry is where its file was seen, and the file is not missing when it is read. -/
theorem entry_of_checkFiles (linkless : d.Linkless) (absolute : c.rootDirectory.isAbsolute = true) (accepted : c.checkFiles d base = .ok ())
    (member : e ∈ c.entries) (plain : Plain e) : ∃ id, (ProjectRoot.ofPath c.rootDirectory).toId e = .ok id ∧
      d.locate (c.rootDirectory.join (plainEntry e)) = .ok id.names ∧ d.isFile id.path = true ∧
      ∀ missing, d.readText id.path ≠ .error (.notFound missing) := by
  obtain ⟨directory,files⟩ := files_of_checkFiles absolute accepted
  obtain ⟨names,bytes,executable,led,file⟩ := Disk.isFile_iff.mp (files e member)
  have low : names ≠ [] := Disk.ne_root_of_not_dir (by rw [file]; simp)
  have again : d.locate (ModuleId.path ⟨names⟩) = .ok names := Disk.locate_clean linkless (Path.isAbsolute_join absolute _) led low
  refine ⟨⟨names⟩,toId_of_file linkless absolute plain directory led file,led,
    Disk.isFile_iff.mpr ⟨names,bytes,executable,again,file⟩,fun missing => ?_⟩
  have found : d.find (ModuleId.path ⟨names⟩) = .ok (.file bytes executable) := by
    simp only [Disk.find,again,file,bind,Except.bind]
  have read : d.readBytes (ModuleId.path ⟨names⟩) = .ok bytes := by simp only [Disk.readBytes,found,bind,Except.bind]
  rw [Disk.readText,read]
  dsimp only
  split <;> simp

/-- Where there are no links, the entries of an accepted configuration are the modules whose files were seen: a graph is built of them, and no file
of theirs is missing. -/
theorem entries_of_checkFiles {σ : Type} (linkless : d.Linkless) (absolute : c.rootDirectory.isAbsolute = true)
    (accepted : c.checkFiles d base = .ok ()) :
    (∀ e ∈ c.entries, Plain e → ∃ id, (ProjectRoot.ofPath c.rootDirectory).toId e = .ok id ∧
      d.locate (c.rootDirectory.join (plainEntry e)) = .ok id.names ∧ d.isFile id.path = true ∧
      ∀ missing, d.readText id.path ≠ .error (.notFound missing)) ∧
    ((∀ e ∈ c.entries, Plain e) → ∀ env : σ, ∃ g, Graph.build (ProjectRoot.ofPath c.rootDirectory) c.entries env = .ok g) := by
  refine ⟨fun e member plain => entry_of_checkFiles linkless absolute accepted member plain,fun plain env => ?_⟩
  obtain ⟨ids,known⟩ := entryIds_ok fun e member =>
    (entry_of_checkFiles linkless absolute accepted member (plain e member)).imp fun _ facts => facts.1
  exact ⟨_,by rw [Graph.build,known]; rfl⟩

/-- A project of two files, the name of one of which starts as the root token does. -/
def tokens : Disk where
  workingDir := []
  nodes := [([⟨"work",by decide⟩],.dir),([⟨"work",by decide⟩,⟨"main.js",by decide⟩],.file [] false),
    ([⟨"work",by decide⟩,⟨"$rootfoo.js",by decide⟩],.file [] false)]

/-- The entry of a public path with a doubled separator. -/
def doubled : Config := { rootDirectory := ⟨"/work/."⟩, entries := [⟨"$root//./main.js"⟩] }

theorem linkless_tokens : tokens.Linkless := Disk.linkless_of_nodes (by simp [tokens])

theorem entries_of_doubled : doubled.checkFiles tokens ⟨"/"⟩ = .ok () ∧
    ∃ id, (ProjectRoot.ofPath ⟨"/work/."⟩).toId ⟨"$root//./main.js"⟩ = .ok id ∧ tokens.isFile id.path = true := by
  have accepted : doubled.checkFiles tokens ⟨"/"⟩ = .ok () := by decide +kernel
  have plain : Plain ⟨"$root//./main.js"⟩ := by
    intro more text
    have split : "$root//./main.js".toList = rootToken.toList ++ "//./main.js".toList := by decide
    obtain rfl := List.append_cancel_left (text.symm.trans split)
    exact ⟨Path.isText_mk _,fun c first => (Option.some.inj first).symm,by decide⟩
  obtain ⟨id,known,-,file,-⟩ := (entries_of_checkFiles (σ := Unit) linkless_tokens rfl accepted).1 ⟨"$root//./main.js"⟩ List.mem_cons_self plain
  exact ⟨accepted,id,known,file⟩

/-- The entry is accepted as the file that it names, but what is compiled has the token taken off. -/
theorem token_taken_off : tokens.Linkless ∧ { doubled with entries := [⟨"$rootfoo.js"⟩] }.checkFiles tokens ⟨"/"⟩ = .ok () ∧
    (ProjectRoot.ofPath ⟨"/work/."⟩).toId ⟨"$rootfoo.js"⟩ = .ok ⟨[⟨"work",by decide⟩,⟨"foo.js",by decide⟩]⟩ ∧
    tokens.readText ⟨"/work/foo.js"⟩ = .error (.notFound ⟨"/work/foo.js"⟩) := by
  refine ⟨linkless_tokens,?_⟩
  decide +kernel

end Config

end Bundling
