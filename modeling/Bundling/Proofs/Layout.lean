import Mathlib.Data.List.Basic
import Bundling.Bundle.Generator

/-!
# Lines of bundles

The line on which the contents of a module stand is counted while the parts of a bundle are made; the text is put
together at the end. Both agree (`holds_contents`): parts that are joined by line ends have the lines of each of
them, and a block is one line, the lines of the contents, and one more line, since no quoted path breaks a line.
-/

namespace Bundling

namespace Text

/-- The lines of a text. -/
def lines (s : String) : List (List Char) := s.toList.splitOn '\n'

theorem length_lines (s : String) : (lines s).length = lineCount s := by
  unfold lines lineCount
  induction s.toList with
  | nil => rfl
  | cons c cs ih =>
    rw [List.splitOn_cons_eq_if_modifyHead,List.count_cons]
    split
    · rw [List.length_cons,ih]
    · rw [List.length_modifyHead,ih]

theorem lines_append (s t : String) : lines (s ++ "\n" ++ t) = lines s ++ lines t := by
  have chars : (s ++ "\n" ++ t).toList = s.toList ++ '\n' :: t.toList := by simp
  rw [lines,chars,List.splitOn_append_cons_self]
  rfl

theorem lines_of_not_mem {s : String} (single : '\n' ∉ s.toList) : lines s = [s.toList] :=
  List.splitOn_eq_singleton single

theorem lines_intercalate {parts : List String} (some : parts ≠ []) :
    lines ("\n".intercalate parts) = parts.flatMap lines := by
  induction parts with
  | nil => exact absurd rfl some
  | cons s parts ih =>
    cases parts with
    | nil => simp
    | cons t rest => rw [String.intercalate_cons_cons,lines_append,ih (by simp),← List.flatMap_cons]

end Text

namespace Json

theorem newline_not_mem_escapeChar (c : Char) : '\n' ∉ escapeChar c := by
  have digits : ∀ n < 16, hexDigit n ≠ '\n' := by decide
  unfold escapeChar
  repeat' split
  any_goals decide
  · have high := digits (c.toNat / 16) (by omega)
    have low := digits (c.toNat % 16) (by omega)
    simp [high.symm,low.symm]
  · simpa using Ne.symm ‹¬c = '\n'›

/-- A quoted text does not break the line it stands on. -/
theorem newline_not_mem_quote (s : String) : '\n' ∉ (quote s).toList := by
  unfold quote
  split
  · have escaped : '\n' ∉ s.toList.flatMap escapeChar := by
      simp only [List.mem_flatMap,not_exists,not_and]
      exact fun c _ => newline_not_mem_escapeChar c
    simpa using escaped
  · rename_i plain
    have absent : '\n' ∉ s.toList := fun member => plain (by
      rw [String.any,String.contains_bool_eq]
      exact List.any_eq_true.mpr ⟨_,member,by decide⟩)
    simpa using absent

end Json

/-- A text stands in a bundle from a line on. -/
def Bundle.Holds (b : Bundle) (text : String) (line : Nat) : Prop :=
  ((Text.lines b.contents).drop line).take (Text.lineCount text) = Text.lines text

instance (b : Bundle) (text : String) (line : Nat) : Decidable (b.Holds text line) := by
  unfold Bundle.Holds
  infer_instance

namespace Generator

variable {σ : Type} {root : ProjectRoot} {o : GeneratorOptions}

/-! ## Blocks -/

/-- The line that opens the block of a module. -/
def opening (publicPath : String) : String :=
  Runtime.globalName ++ ".registerModule(" ++ Json.quote publicPath ++
    ", function(__filename, __dirname, require, module, exports) \x7b"

theorem lines_block (publicPath contents : String) :
    Text.lines (block publicPath contents) = (opening publicPath).toList :: Text.lines contents ++ ["\x7d);".toList] := by
  have single : '\n' ∉ (opening publicPath).toList := by
    simp [opening,Runtime.globalName,Json.newline_not_mem_quote]
  have text : block publicPath contents = opening publicPath ++ "\n" ++ (contents ++ "\n" ++ "\x7d);") := by
    simp [block,opening,← String.toList_inj]
  rw [text,Text.lines_append,Text.lines_append,Text.lines_of_not_mem single,Text.lines_of_not_mem (s := "\x7d);") (by decide)]
  simp

/-! ## Bundles on their way -/

/-- A bundle on its way, before the module at a place of its chunk is added. -/
def upTo (root : ProjectRoot) (o : GeneratorOptions) (runtime : String) (c : Chunk) (paths : PublicPaths) (i : Nat) : Progress :=
  (c.files.take i).foldl (addModule root o) (start c.outputName runtime paths)

/-- The line that the map of the module at a place of a chunk is moved to: where its contents are counted to start. -/
def lineOf (root : ProjectRoot) (o : GeneratorOptions) (runtime : String) (c : Chunk) (paths : PublicPaths) (i : Nat) : Nat :=
  (upTo root o runtime c paths i).line

/-- The line that was counted is behind the one that opens the next block. -/
def Progress.Counted (p : Progress) : Prop := p.line = (p.parts.flatMap Text.lines).length + 1

theorem counted_start (outputName runtime : String) (paths : PublicPaths) : (start outputName runtime paths).Counted := by
  unfold Progress.Counted start
  rw [← Text.length_lines,Text.lines_intercalate (by simp)]

theorem Progress.Counted.addModule {p : Progress} (counted : p.Counted) (m : Module) : (addModule root o p m).Counted := by
  unfold Progress.Counted at counted ⊢
  simp only [Generator.addModule,List.flatMap_append,List.flatMap_singleton,List.length_append,Text.length_lines,counted]
  omega

theorem Progress.Counted.foldl {p : Progress} (counted : p.Counted) (ms : List Module) :
    (ms.foldl (Generator.addModule root o) p).Counted := by
  induction ms generalizing p with
  | nil => exact counted
  | cons m ms ih => exact ih (counted.addModule m)

theorem counted_upTo (runtime : String) (c : Chunk) (paths : PublicPaths) (i : Nat) : (upTo root o runtime c paths i).Counted :=
  (counted_start ..).foldl _

/-- The modules of a chunk are added one after the other. -/
theorem foldl_files {runtime : String} {c : Chunk} {paths : PublicPaths} {i : Nat} (inside : i < c.files.length) :
    c.files.foldl (addModule root o) (start c.outputName runtime paths) =
      (c.files.drop (i + 1)).foldl (addModule root o) (addModule root o (upTo root o runtime c paths i) c.files[i]) := by
  rw [← List.foldl_cons,← List.drop_eq_getElem_cons inside,upTo,← List.foldl_append,List.take_append_drop]

/-- Modules are added as blocks, in order. -/
theorem parts_addModule (ms : List Module) (p : Progress) :
    ∃ blocks, (ms.foldl (addModule root o) p).parts = p.parts ++ blocks ∧
      List.Forall₂ (fun m text => ∃ path, text = block path m.contents) ms blocks := by
  induction ms generalizing p with
  | nil => exact ⟨[],(List.append_nil _).symm,.nil⟩
  | cons m ms ih =>
    obtain ⟨blocks,parts,each⟩ := ih (addModule root o p m)
    refine ⟨block (p.paths.get root m.id).1 m.contents :: blocks,?_,.cons ⟨_,rfl⟩ each⟩
    rw [List.foldl_cons,parts,List.append_cons]
    rfl

/-- A bundle is what its modules become, then the tables, and then what loads them. -/
theorem render_ok {runtime : String} {c : Chunk} {paths paths' : PublicPaths} {b : Bundle}
    (made : render root o runtime c paths = (.ok b,paths')) :
    ∃ p, p = c.files.foldl (addModule root o) (start c.outputName runtime paths) ∧
      (∃ rest, b.contents = "\n".intercalate (p.parts ++ tables c.id p :: rest)) ∧ b.sourceMap = if o.sourceMap then some p.map else none := by
  unfold render at made
  split at made
  · cases made
  · cases made
    exact ⟨_,rfl,⟨_,congrArg ("\n".intercalate ·) (List.append_assoc ..)⟩,rfl⟩

/-- Chunks are generated one after the other, up to the first that fails. -/
theorem generateAll_cons (g : Generator σ) {context : GenerateContext σ} {c : Chunk} {chunks : List Chunk}
    {s : PublicPaths × σ} : generateAll g context (c :: chunks) s =
    match g.generate context c s with
    | (.error e,s) => (.error e,s)
    | (.ok b,s) =>
      match generateAll g context chunks s with
      | (.error e,s) => (.error e,s)
      | (.ok bs,s) => (.ok (b :: bs),s) := by
  simp only [generateAll,bind,StateT.bind,pure]
  cases g.generate context c s with
  | mk first s =>
    cases first with
    | error e => rfl
    | ok b =>
      simp only [StateT.bind]
      cases generateAll g context chunks s with
      | mk rest s => cases rest <;> rfl

/-- A bundle that is made has a runtime. -/
theorem standard_ok {context : GenerateContext σ} {c : Chunk} {s s' : PublicPaths × σ} {b : Bundle}
    (made : standard.generate context c s = (.ok b,s')) : ∃ text, (Generator.runtime context s.2).1 = .ok text ∧
      render context.root context.options text c s.1 = (.ok b,s'.1) := by
  obtain ⟨paths,env⟩ := s
  unfold standard at made
  simp only at made
  split at made
  · cases made
  · rename_i text env' found
    refine ⟨text,by rw [found],?_⟩
    cases rendered : render context.root context.options text c paths with
    | mk r paths' =>
      simp only [rendered] at made
      cases made
      rfl

/-- The contents of a module stand where they were counted to be. -/
theorem holds_contents {runtime : String} {c : Chunk} {paths paths' : PublicPaths} {b : Bundle}
    (made : render root o runtime c paths = (.ok b,paths')) {i : Nat} (inside : i < c.files.length) :
    b.Holds c.files[i].contents (lineOf root o runtime c paths i) := by
  obtain ⟨p,whole,⟨rest,text⟩,-⟩ := render_ok made
  generalize tables c.id p :: rest = rest at text
  let before := upTo root o runtime c paths i
  let name := (before.paths.get root c.files[i].id).1
  obtain ⟨blocks,parts,-⟩ := @parts_addModule root o (c.files.drop (i + 1)) (addModule root o before c.files[i])
  have parts : p.parts = before.parts ++ [block name c.files[i].contents] ++ blocks := by
    rw [whole,foldl_files inside,parts]
    rfl
  have filled : p.parts ++ rest ≠ [] := by simp [parts]
  have split : Text.lines b.contents = (before.parts.flatMap Text.lines ++ [(opening name).toList]) ++
      (Text.lines c.files[i].contents ++ ("\x7d);".toList :: (blocks ++ rest).flatMap Text.lines)) := by
    rw [text,Text.lines_intercalate filled,parts]
    simp [lines_block]
  have counted : before.line = (before.parts.flatMap Text.lines).length + 1 := counted_upTo ..
  rw [Bundle.Holds,lineOf,split,List.drop_left' (by rw [counted,List.length_append,List.length_singleton]),
    List.take_left' (Text.length_lines _)]

end Generator

end Bundling
