import Bundling.Module
import Bundling.Store.Basic
import Bundling.Text.Utf8

/-!
# A disk

A tree of directories, files and symbolic links as an operating system keeps it. Every step of a path
has to lead through an existing directory, `..` included. The root always exists.

Reading and writing follow a link that a path ends with (`locate`); what makes, moves or removes is
about the link itself (`entry`).
-/

namespace Bundling

/-- What an operating system refuses, with its text. -/
inductive DiskError where
  | notFound
  | exists
  | notDirectory
  | isDirectory
  | notEmpty
  | nameTooLong
  | tooManyLinks
  | invalidName
  deriving DecidableEq

namespace DiskError

def message : DiskError → String
  | notFound => "No such file or directory (os error 2)"
  | «exists» => "File exists (os error 17)"
  | notDirectory => "Not a directory (os error 20)"
  | isDirectory => "Is a directory (os error 21)"
  | nameTooLong => "File name too long (os error 36)"
  | notEmpty => "Directory not empty (os error 39)"
  | tooManyLinks => "Too many levels of symbolic links (os error 40)"
  | invalidName => "file name contained an unexpected NUL byte"

end DiskError

/-- A place on a disk, from the root. -/
abbrev Place := List Name

/-- What stands at a place. -/
inductive Node where
  | dir
  | file (bytes : List UInt8) (executable : Bool)
  | link (target : Path)
  deriving DecidableEq

/-- A disk, and the directory that relative paths start from. -/
structure Disk where
  workingDir : Place
  nodes : List (Place × Node) := []

namespace Disk

open Bundling.Path (slash dot)

/-- What stands at a place. -/
def node? (d : Disk) (p : Place) : Option Node := if p = [] then some .dir else d.nodes.lookup p

def setNode (d : Disk) (p : Place) (n : Node) : Disk := { d with nodes := assign p n d.nodes }

def dropNode (d : Disk) (p : Place) : Disk := { d with nodes := d.nodes.filter (·.1 != p) }

/-- Makes a directory and all above it, whatever stands there. -/
def plantDir (d : Disk) (p : Place) : Disk :=
  (List.range p.length).foldl (fun d i =>
    let q := p.take (i + 1)
    if (d.node? q).isSome then d else d.setNode q .dir) d

/-- The place that a path names, told from its text alone. -/
def placeOf (d : Disk) (p : Path) : Place :=
  match p.clean with
  | .absolute names => names
  | .relative ups names => d.workingDir.take (d.workingDir.length - ups) ++ names

/-- Puts a file in its place with all directories above it. -/
def plantFile (d : Disk) (path : Path) (text : String) (executable : Bool) : Disk :=
  let p := d.placeOf path
  (d.plantDir p.dropLast).setNode p (.file (Text.Utf8.encode text) executable)

/-! ## Finding places -/

/-- Whether one may go on from a place. -/
def enter (d : Disk) (p : Place) : Except DiskError Unit :=
  match d.node? p with
  | some .dir => .ok ()
  | some _ => .error .notDirectory
  | none => .error .notFound

/-- The segments of a path behind the place where it starts. -/
def way (p : Path) : List (List UInt8) :=
  (Path.segments p.octets).drop (if p.isAbsolute then 1 else 0)

/-- Follows the segments of a path. From a link `jump` goes on; one at the end is only followed if
`last` holds. -/
def followWith (jump : Place → Path → List (List UInt8) → Except DiskError Place) (d : Disk)
    (last : Bool) : Place → List (List UInt8) → Except DiskError Place
  | p, [] => .ok p
  | p, s :: ss => do
    d.enter p
    if s = [dot, dot] then d.followWith jump last p.dropLast ss
    else if h : IsName s then
      if 255 < s.length then .error .nameTooLong
      else match d.node? (p ++ [⟨s, h⟩]) with
        | some (.link target) =>
          if ss = [] && !last then .ok (p ++ [⟨s, h⟩]) else jump p target ss
        | _ => d.followWith jump last (p ++ [⟨s, h⟩]) ss
    else d.followWith jump last p ss

/-- Follows the segments of a path, over `hops` links at most. A link leads on from where it is. -/
def follow (d : Disk) (last : Bool) : (hops : Nat) → Place → List (List UInt8) → Except DiskError Place
  | 0 => d.followWith (fun _ _ _ => .error .tooManyLinks) last
  | hops + 1 =>
    d.followWith (fun p target ss =>
      if target.isEmpty then .error .notFound
      else d.follow last hops (if target.isAbsolute then [] else p) (way target ++ ss)) last

/-- How many links a path may lead over. -/
def maxHops : Nat := 40

/-- The place that a path leads to. -/
def resolve (d : Disk) (last : Bool) (p : Path) : Except DiskError Place :=
  if p.isEmpty then .error .notFound
  else if p.octets.contains 0 then .error .invalidName
  else if 4096 ≤ p.octets.length then .error .nameTooLong
  else d.follow last maxHops (if p.isAbsolute then [] else d.workingDir) (way p)

/-- The place that a path names. All directories on the way exist; what stands there may not. -/
def locate (d : Disk) (p : Path) : Except DiskError Place := d.resolve true p

/-- The place that a path names, where a link at its end stands for itself. -/
def entry (d : Disk) (p : Path) : Except DiskError Place := d.resolve false p

/-- What a path names, if it exists. -/
def find (d : Disk) (p : Path) : Except DiskError Node := do
  match d.node? (← d.locate p) with
  | some n => .ok n
  | none => .error .notFound

def has (d : Disk) (p : Path) : Bool := (d.find p).isOk

def isDir (d : Disk) (p : Path) : Bool :=
  match d.find p with
  | .ok .dir => true
  | _ => false

def isFile (d : Disk) (p : Path) : Bool :=
  match d.find p with
  | .ok (.file ..) => true
  | _ => false

/-! ## Operations -/

def readBytes (d : Disk) (p : Path) : Except DiskError (List UInt8) := do
  match ← d.find p with
  | .file bytes _ => .ok bytes
  | _ => .error .isDirectory

/-- The path without separators at its end. -/
def unterminated (p : Path) : Path :=
  let kept := (p.octets.reverse.dropWhile (· == slash)).reverse
  if kept.isEmpty then p else .ofOctets kept

/-- Writes a file, which may be there already. A link is written through, and a separator at the end
asks for a directory. -/
def writeBytes (d : Disk) (p : Path) (bytes : List UInt8) : Except DiskError Disk := do
  let q ← d.locate (unterminated p)
  match d.node? q with
  | some .dir => .error .isDirectory
  | some (.link _) => .error .tooManyLinks
  | some (.file _ executable) =>
    if unterminated p = p then .ok (d.setNode q (.file bytes executable)) else .error .isDirectory
  | none => if unterminated p = p then .ok (d.setNode q (.file bytes false)) else .error .isDirectory

/-- Makes one directory. -/
def makeDir (d : Disk) (p : Path) : Except DiskError Disk := do
  let q ← d.entry (unterminated p)
  if (d.node? q).isSome then .error .exists else .ok (d.setNode q .dir)

/-- Makes a link. -/
def makeLink (d : Disk) (p target : Path) : Except DiskError Disk := do
  let q ← d.entry p
  if (d.node? q).isSome then .error .exists
  else if target.isEmpty then .error .notFound
  else .ok (d.setNode q (.link target))

/-- Makes a directory, which may be there already. -/
def makeMissing (d : Disk) (p : Path) : Except DiskError Unit × Disk :=
  match d.makeDir p with
  | .ok d => (.ok (), d)
  | .error e => (if d.isDir p then .ok () else .error e, d)

/-- Makes a directory and the missing ones above it, `limit` at most. What was made stays. -/
def makeDirs : (limit : Nat) → Disk → Path → Except DiskError Unit × Disk
  | 0, d, _ => (.error .notFound, d)
  | limit + 1, d, p =>
    if p.isEmpty then (.ok (), d)
    else match d.makeDir p, p.parent? with
      | .error .notFound, none => (.error .notFound, d)
      | .error .notFound, some above =>
        match makeDirs limit d above with
        | (.ok (), d) => d.makeMissing p
        | failed => failed
      | _, _ => d.makeMissing p

/-- Makes a directory and all missing ones above it. -/
def makeDirAll (d : Disk) (p : Path) : Except DiskError Unit × Disk :=
  makeDirs (p.octets.length + 1) d p

/-- Moves a file or a link; a file or a link at its target is replaced. -/
def rename (d : Disk) (source target : Path) : Except DiskError Disk := do
  let p ← d.entry source
  let q ← d.entry target
  match d.node? p, d.node? q with
  | none, _ => .error .notFound
  | some .dir, _ => .error .notDirectory
  | some _, some .dir => .error .isDirectory
  | some n, _ => if p = q then .ok d else .ok ((d.dropNode p).setNode q n)

/-- Removes a file or a link. -/
def removeFile (d : Disk) (p : Path) : Except DiskError Disk := do
  let q ← d.entry p
  match d.node? q with
  | none => .error .notFound
  | some .dir => .error .isDirectory
  | some _ => .ok (d.dropNode q)

/-! ## The store -/

/-- A refusal as a store reports it. -/
def storeError (action : String) (p : Path) : DiskError → StoreError
  | .notFound => .notFound p
  | e => .io ("Failed to " ++ action ++ " " ++ p.text ++ ": " ++ e.message)

/-- Carries out a change of the disk. -/
def change {σ : Type} (view : σ → Disk) (update : Disk → σ → σ) (action : String) (p : Path)
    (f : Disk → Except DiskError Disk) : StateM σ (Except StoreError Unit) := fun s =>
  match f (view s) with
  | .ok d => (.ok (), update d s)
  | .error e => (.error (storeError action p e), s)

def readText (d : Disk) (p : Path) : Except StoreError String :=
  match d.readBytes p with
  | .error e => .error (storeError "read" p e)
  | .ok bytes =>
    match Text.Utf8.decode bytes with
    | .ok cs => .ok (String.ofList cs)
    | .error _ => .error (.io ("Failed to read " ++ p.text ++ ": stream did not contain valid UTF-8"))

/-- A disk as a store; it may be a part of a larger state. -/
def store {σ : Type} (view : σ → Disk) (update : Disk → σ → σ) : FileStore σ where
  read p s := ((view s).readText p, s)
  write p bytes := change view update "write" p (·.writeBytes p bytes)
  stat s p :=
    match (view s).find p with
    | .ok (.file bytes _) => .ok ⟨some bytes.length, false, true, true⟩
    | .ok _ => .ok ⟨none, true, false, true⟩
    | .error e => .error (storeError "stat" p e)
  makeDir p := change view update "create" p (·.makeDir p)
  has s p := (view s).has p

/-! ## Listing -/

/-- What lies below a place, by the way that leads there: files with their octets, links as the files
that they lead to, and directories that are empty. -/
def below (d : Disk) (p : Place) : List (Place × Option (List UInt8)) :=
  d.nodes.filterMap fun (q, n) =>
    if p.isPrefixOf q && p != q then
      match n with
      | .file bytes _ => some (q.drop p.length, some bytes)
      | .link _ =>
        match d.node? <$> d.follow true maxHops [] (q.map Name.octets) with
        | .ok (some (.file bytes _)) => some (q.drop p.length, some bytes)
        | _ => none
      | .dir =>
        if d.nodes.any fun m => q.isPrefixOf m.1 && q != m.1 then none
        else some (q.drop p.length, none)
    else none

end Disk

end Bundling
