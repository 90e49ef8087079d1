import Bundling.Proofs.Layers

/-!
# A configuration from several files

What is loaded for a directory is what one value says in which the configuration file hides the package file, and this the
defaults, path by path (`Config.load_layers`). What the configuration file settles, the package file has no say in. One file
alone says what it says when it is read as a value, but for numbers that no JSON text has: a value without them is read in
their place, whereas they are refused when they are loaded (`Config.load_undefined`).
-/

namespace Bundling

open Json Json.Decoder

variable {start : String} {environment : List (String × String)}

namespace Environment

/-- No variable has a name that starts with a prefix, in whatever case. -/
def Unset (start : String) (environment : List (String × String)) : Prop :=
  ∀ v ∈ environment, ¬ start.toList.map Char.toLower <+: v.1.toList.map Char.toLower

theorem settings_of_unset (unset : Unset start environment) : settings start environment = [] := by
  refine List.filterMap_eq_nil_iff.mpr fun v member => ?_
  have other : ¬ (start.toList.map Char.toLower).isPrefixOf (v.1.toList.map Char.toLower) = true :=
    fun front => unset v member (List.isPrefixOf_iff_prefix.mp front)
  simp only [option?,after?,if_neg other,Option.map_none]

end Environment

namespace Config

variable {disk disk' : Disk} {dir : Path} {p p' t x y : Json} {c : Config}

/-- The package file of a directory has a table for us; `p` is its canonical form. -/
structure PackageHolds (disk : Disk) (dir : Path) (p : Json) : Prop where
  file : disk.isFile (dir / packageFileName)
  holds : ∃ text package, disk.readText (dir / packageFileName) = .ok text ∧ Json.parse? text = some package ∧
    package.sorted.get? packageField = some p
  table : p.IsTable

/-- What the configuration file of a directory says, in canonical form. -/
structure FileHolds (disk : Disk) (dir : Path) (t : Json) : Prop where
  file : disk.isFile (dir / fileName)
  holds : ∃ text j, disk.readText (dir / fileName) = .ok text ∧ Toml.parse? text = some j ∧ j.sorted = t

/-- The configuration that a value says, seen from a directory. -/
def extract (dir : Path) (tree : Json) : Except ConfigError Config :=
  match ofJson .lenient tree with
  | .ok c => .ok (c.withBase dir)
  | .error e => .error (layersError e.message)

/-- What holds where nothing is said. -/
def defaults : Json := toJson {}

theorem once_defaults : defaults.Once := once_sorted defaults

theorem PackageHolds.layer (holds : PackageHolds disk dir p) : fileLayer disk (dir / packageFileName) readPackage = .ok [p] := by
  obtain ⟨file,⟨text,package,read,parsed,field⟩,table⟩ := holds
  obtain ⟨ms,rfl⟩ := table.exists_eq
  obtain ⟨ns,whole⟩ := (isTable_of_get? field).exists_eq
  rw [whole] at field
  have layers : readPackage text = some [.object ms] := by
    rw [readPackage,parsed]
    simp only [Option.bind_eq_bind,Option.bind_some,whole,packageLayer,field]
  rw [fileLayer,if_pos file,read]
  simp only [layers]

theorem PackageHolds.once (holds : PackageHolds disk dir p) : p.Once := by
  obtain ⟨-,⟨text,package,-,-,field⟩,-⟩ := holds
  exact (once_sorted package).get? field

theorem FileHolds.layer (holds : FileHolds disk dir t) : fileLayer disk (dir / fileName) readToml = .ok [t] := by
  obtain ⟨file,text,j,read,parsed,rfl⟩ := holds
  have layers : readToml text = some [j.sorted] := by rw [readToml,parsed]; rfl
  rw [fileLayer,if_pos file,read]
  simp only [layers]

theorem FileHolds.once (holds : FileHolds disk dir t) : t.Once := by
  obtain ⟨-,text,j,-,-,rfl⟩ := holds
  exact once_sorted j

theorem fileLayer_of_missing {path : Path} (missing : ¬ disk.isFile path) (read : String → Option (List Json)) :
    fileLayer disk path read = .ok [] := if_neg missing

/-- The layers are laid over the defaults, and the result is read. -/
theorem load_eq (unset : Environment.Unset start environment) {ps ts : List Json}
    (package : fileLayer disk (dir / packageFileName) readPackage = .ok ps)
    (file : fileLayer disk (dir / fileName) readToml = .ok ts) :
    load disk dir start environment = extract dir ((ps ++ ts).foldl overlay defaults) := by
  rw [load,package,file,Environment.settings_of_unset unset]
  exact congrArg (fun layers => extract dir (layers.foldl overlay defaults)) (List.append_nil _)

theorem extract_eq (dir : Path) (tree : Json) :
    extract dir tree = (((ofJson .lenient tree).mapError DecodeError.message).map (·.withBase dir)).mapError layersError := by
  rw [extract]
  cases ofJson .lenient tree <;> rfl

/-- It does not matter in which order keys are written. -/
theorem extract_congr (same : x.sorted = y.sorted) : extract dir x = extract dir y := by
  rw [extract_eq,extract_eq,← steady.sorted,same,steady.sorted]

/-- It does not matter whether the defaults are written. -/
theorem extract_padded (padded : Padded defaults x y) : extract dir x = extract dir y := by
  rw [extract,extract,pads padded]

theorem extract_overlay (once : x.Once) : extract dir (defaults.overlay x) = extract dir x :=
  (extract_padded (padded_overlay once_defaults once)).symm

theorem extract_eq_ok_iff : extract dir x = .ok c ↔ ∃ c', ofJson .lenient x = .ok c' ∧ c'.withBase dir = c := by
  rw [extract]
  cases ofJson .lenient x <;> simp

/-- What is read as a value is read from layers as well. -/
theorem ofJson_of_ofValue (read : ofValue x = .ok c) : ofJson .lenient x = .ok c := by
  refine steady.lenient ?_
  rw [ofValue] at read
  cases taken : ofJson .strict x with
  | ok c' =>
    rw [taken] at read
    cases read
    rfl
  | error e =>
    rw [taken] at read
    cases read

section

variable (unset : Environment.Unset start environment)

include unset

theorem load_both (package : PackageHolds disk dir p) (file : FileHolds disk dir t) :
    load disk dir start environment = extract dir (p.overlay t) := by
  rw [load_eq unset package.layer file.layer]
  have lower := padded_overlay once_defaults package.once
  exact (extract_padded (lower.overlay once_defaults package.once (once_defaults.overlay package.once) file.once)).symm

theorem load_package (package : PackageHolds disk dir p) (alone : ¬ disk.isFile (dir / fileName)) :
    load disk dir start environment = extract dir p := by
  rw [load_eq unset package.layer (fileLayer_of_missing alone _)]
  exact extract_overlay package.once

theorem load_file (file : FileHolds disk dir t) (alone : ¬ disk.isFile (dir / packageFileName)) :
    load disk dir start environment = extract dir t := by
  rw [load_eq unset (fileLayer_of_missing alone _) file.layer]
  exact extract_overlay file.once

end

/-- Where no variable of the environment says anything:
- with both files, what is loaded is what any value says that has under each path what the configuration file has there, or else
  the package file, or else the defaults; and there is such a value;
- what the package file has where the configuration file settles things makes no difference;
- with one file alone, what is loaded is what its value is read as, seen from the directory, if it can be read; for the
  configuration file, if no number in it is infinite or undefined, and otherwise nothing else is loaded. -/
theorem load_layers (disk disk' : Disk) (dir : Path) (unset : Environment.Unset start environment) :
    (∀ p t, PackageHolds disk dir p → FileHolds disk dir t →
      (∃ tree, Layered [t,p,defaults] tree) ∧
      ∀ tree, Layered [t,p,defaults] tree → load disk dir start environment = extract dir tree) ∧
    (∀ p p' t, PackageHolds disk dir p → FileHolds disk dir t → PackageHolds disk' dir p' → FileHolds disk' dir t →
      (∀ path, ¬ t.Settles path → (p.at? path).map bare = (p'.at? path).map bare) →
      load disk dir start environment = load disk' dir start environment) ∧
    (∀ p c, PackageHolds disk dir p → ¬ disk.isFile (dir / fileName) → ofValue p = .ok c →
      load disk dir start environment = .ok (c.withBase dir)) ∧
    ∀ t c, FileHolds disk dir t → ¬ disk.isFile (dir / packageFileName) → ofValue t.finite = .ok c →
      (t.finite = t → load disk dir start environment = .ok (c.withBase dir)) ∧
      ∀ c', load disk dir start environment = .ok c' → c' = c.withBase dir := by
  refine ⟨fun p t package file => ?_,fun p p' t package file package' file' same => ?_,fun p c package alone read => ?_,
    fun t c file alone read => ⟨fun finite => ?_,fun c' loaded => ?_⟩⟩
  · have once := package.once.overlay file.once
    have two : Layered [t,p] (p.overlay t) := (layered_singleton t).overlay package.once file.once
    have layered : Layered [t,p,defaults] (defaults.overlay (p.overlay t)) := two.overlay once_defaults once
    refine ⟨⟨_,layered⟩,fun tree other => ?_⟩
    rw [load_both unset package file,← extract_congr (layered.same other),extract_overlay once]
  · rw [load_both unset package file,load_both unset package' file']
    exact extract_congr (sorted_overlay_congr package.once package'.once file.once same)
  · rw [load_package unset package alone]
    exact extract_eq_ok_iff.mpr ⟨c,ofJson_of_ofValue read,rfl⟩
  · rw [load_file unset file alone]
    exact extract_eq_ok_iff.mpr ⟨c,finite ▸ ofJson_of_ofValue read,rfl⟩
  · rw [load_file unset file alone] at loaded
    obtain ⟨c₀,taken,rfl⟩ := extract_eq_ok_iff.mp loaded
    obtain rfl : c = c₀ := Except.ok.inj ((ofJson_of_ofValue read).symm.trans (steady.finite taken))
    rfl

/-! ### Files at the root of a disk -/

def root : Path := ⟨"/"⟩

/-- A disk with some files at its root. -/
def rootWith (files : List (String × String)) : Disk :=
  files.foldl (fun disk file => disk.plantFile (root / file.1) file.2 false) { workingDir := [] }

/-- A configuration file with plugins. -/
def pluginFile : String × String := (fileName,"plugins = [\"scan\", \"lint\"]")

def pluginValue : Json := .object [("plugins",.array [.string "scan",.string "lint"])]

/-- A package file with a number for plugins. -/
def numberPackage : String × String := (packageFileName,"\x7b\"bale\": \x7b\"plugins\": 3\x7d\x7d")

/-- A package file with a table for plugins. -/
def tablePackage : String × String := (packageFileName,"\x7b\"bale\": \x7b\"plugins\": \x7b\"lint\": true\x7d\x7d\x7d")

/-- A package file that leaves all as it is. -/
def emptyPackage : String × String := (packageFileName,"\x7b\"bale\": \x7b\x7d\x7d")

/-- What a package file has for plugins makes no difference under a configuration file with plugins. -/
theorem load_layers_plugins : Environment.Unset environmentPrefix [] ∧
    (∃ tree, Layered [pluginValue,.object [("plugins",.number (.int 3))],defaults] tree ∧
      load (rootWith [numberPackage,pluginFile]) root environmentPrefix [] = extract root tree) ∧
    load (rootWith [numberPackage,pluginFile]) root environmentPrefix [] =
      load (rootWith [tablePackage,pluginFile]) root environmentPrefix [] ∧
    load (rootWith [emptyPackage]) root environmentPrefix [] = .ok { rootDirectory := root } ∧
    load (rootWith [pluginFile]) root environmentPrefix [] = .ok { rootDirectory := root,plugins := ["scan","lint"] } := by
  have unset : Environment.Unset environmentPrefix [] := nofun
  have file {disk : Disk} (there : disk.isFile (root / fileName)) (read : disk.readText (root / fileName) = .ok pluginFile.2) :
      FileHolds disk root pluginValue := ⟨there,pluginFile.2,pluginValue,read,by decide +kernel,by decide +kernel⟩
  have number : PackageHolds (rootWith [numberPackage,pluginFile]) root (.object [("plugins",.number (.int 3))]) :=
    ⟨by decide +kernel,⟨numberPackage.2,.object [("bale",.object [("plugins",.number (.int 3))])],
      by decide +kernel,by decide +kernel,by decide +kernel⟩,trivial⟩
  have table : PackageHolds (rootWith [tablePackage,pluginFile]) root (.object [("plugins",.object [("lint",.bool true)])]) :=
    ⟨by decide +kernel,⟨tablePackage.2,.object [("bale",.object [("plugins",.object [("lint",.bool true)])])],
      by decide +kernel,by decide +kernel,by decide +kernel⟩,trivial⟩
  have empty : PackageHolds (rootWith [emptyPackage]) root (.object []) :=
    ⟨by decide +kernel,⟨emptyPackage.2,.object [("bale",.object [])],by decide +kernel,by decide +kernel,by decide +kernel⟩,trivial⟩
  have file₁ : FileHolds (rootWith [numberPackage,pluginFile]) root pluginValue := file (by decide +kernel) (by decide +kernel)
  have file₂ : FileHolds (rootWith [tablePackage,pluginFile]) root pluginValue := file (by decide +kernel) (by decide +kernel)
  have file₃ : FileHolds (rootWith [pluginFile]) root pluginValue := file (by decide +kernel) (by decide +kernel)
  obtain ⟨layers,runs,-,-⟩ := load_layers (rootWith [numberPackage,pluginFile]) (rootWith [tablePackage,pluginFile]) root unset
  obtain ⟨-,-,package,-⟩ := load_layers (rootWith [emptyPackage]) (rootWith []) root unset
  obtain ⟨-,-,-,alone⟩ := load_layers (rootWith [pluginFile]) (rootWith []) root unset
  obtain ⟨⟨tree,layered⟩,extracted⟩ := layers _ _ number file₁
  refine ⟨unset,⟨tree,layered,extracted tree layered⟩,runs _ _ _ number file₁ table file₂ fun path unsettled => ?_,?_,?_⟩
  · cases path with
    | nil => exact absurd trivial unsettled
    | cons k path =>
      by_cases here : k = "plugins"
      · subst here
        refine absurd (fun _ => ⟨_,rfl,?_⟩) unsettled
        cases path with
        | nil => trivial
        | cons => exact fun table => table.elim
      · simp [at?,get?,Ne.symm here]
  · exact (package _ {} empty (by decide +kernel) (by decide +kernel)).trans (by decide +kernel)
  · have read := alone _ { plugins := ["scan","lint"] } file₃ (by decide +kernel) (by decide +kernel)
    exact (read.1 (by decide +kernel)).trans (by decide +kernel)

/-- A configuration file with a level that is no number. -/
def undefinedFile : String × String := (fileName,"[settings]\nlog_level = nan\n")

def undefinedValue : Json := .object [("settings",.object [("log_level",.number (.beyond "NaN"))])]

/-- What the configuration file alone is read as need not be loaded: where a number is undefined, a value that holds JSON has
nothing. -/
theorem load_undefined : ¬ ∀ (disk : Disk) (dir : Path) (start : String) (environment : List (String × String)) (t : Json) (c : Config),
    Environment.Unset start environment → FileHolds disk dir t → ¬ disk.isFile (dir / packageFileName) →
    ofValue t.finite = .ok c → load disk dir start environment = .ok (c.withBase dir) := by
  intro all
  have holds : FileHolds (rootWith [undefinedFile]) root undefinedValue :=
    ⟨by decide +kernel,undefinedFile.2,undefinedValue,by decide +kernel,by decide +kernel,by decide +kernel⟩
  have loaded := all _ root environmentPrefix [] _ {} nofun holds (by decide +kernel) (by decide +kernel)
  exact absurd loaded (by decide +kernel)

end Config

end Bundling
