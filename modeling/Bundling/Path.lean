import Bundling.Text.Spelling

/-!
# Paths

A path is kept as it was written: in octets, which need not be those of a text. What it means is its
list of components: repeated separators and inner `.` segments carry no meaning, a leading `.` of a
relative path is a component of its own, and `..` is never resolved here. `Path.clean` is the lexical
normal form: `..` removes the name before it, stops at the root, and is kept only at the front of a
relative path.

A text stands for its octets wherever these are asked for. The other way round, paths and names are
shown with a replacement character for every fault, so different ones may be shown as the same text.
-/

namespace Bundling

instance octetsOfText : Coe String (List UInt8) := ⟨Text.Utf8.encode⟩

/-- Octets that are shown as a text. -/
class Octets (text : String) where
  bytes : List UInt8
  shown : Text.Utf8.lenient bytes = text

/-- Unless others are named, these are the octets of the text. -/
instance (text : String) : Octets text := ⟨text, Text.Utf8.lenient_encode text⟩

/-- A path as it was written, and how it is shown. -/
structure Path where
  ofText ::
  text : String
  [written : Octets text]

namespace Path

def mk (text : String) : Path := ⟨text⟩

def ofOctets (bytes : List UInt8) : Path := @ofText (Text.Utf8.lenient bytes) ⟨bytes, rfl⟩

def octets (p : Path) : List UInt8 := p.written.bytes

@[simp] theorem octets_ofText (text : String) : (ofText text).octets = Text.Utf8.encode text := rfl

@[simp] theorem octets_mk (text : String) : (mk text).octets = Text.Utf8.encode text := rfl

@[simp] theorem octets_ofOctets (bytes : List UInt8) : (ofOctets bytes).octets = bytes := rfl

theorem text_eq (p : Path) : p.text = Text.Utf8.lenient p.octets := p.written.shown.symm

/-- The octets are those of a text. -/
def IsText (p : Path) : Prop := Text.Utf8.encode p.text = p.octets

@[ext]
theorem ext {p q : Path} (same : p.octets = q.octets) : p = q := by
  obtain @⟨text, bytes, rfl⟩ := p
  obtain @⟨text', bytes', rfl⟩ := q
  obtain rfl : bytes = bytes' := same
  rfl

theorem IsText.mk_text {p : Path} (isText : p.IsText) : mk p.text = p := ext isText

theorem isText_mk (text : String) : (mk text).IsText := rfl

instance (p : Path) : Decidable p.IsText := inferInstanceAs (Decidable (_ = _))

instance : DecidableEq Path := fun _ _ => decidable_of_iff _ ⟨ext, congrArg octets⟩
instance : Inhabited Path := ⟨⟨""⟩⟩
instance : Repr Path := ⟨fun p n => reprPrec p.text n⟩

/-- The octet between segments. -/
abbrev slash : UInt8 := 0x2F

abbrev dot : UInt8 := 0x2E

end Path

open Bundling.Path (slash dot)

/-- What a single file name may be: not empty, not `.` or `..`, and without a separator. -/
def IsName (s : List UInt8) : Prop := s ≠ [] ∧ s ≠ [dot] ∧ s ≠ [dot, dot] ∧ slash ∉ s

instance (s : List UInt8) : Decidable (IsName s) := by unfold IsName; infer_instance

/-- One file or directory name. -/
structure Name where
  octets : List UInt8
  isName : IsName octets
  deriving DecidableEq

instance : Hashable Name := ⟨fun n => hash n.octets⟩

/-- How a name is shown. -/
def Name.text (n : Name) : String := Text.Utf8.lenient n.octets

instance : Repr Name := ⟨fun n p => reprPrec n.text p⟩

/-- One step of a path. -/
inductive Component where
  | root
  | here
  | up
  | name (n : Name)
  deriving DecidableEq

namespace Component

/-- A segment between separators as a component; the empty segment and `.` are none. -/
def ofSegment? (s : List UInt8) : Option Component :=
  if s = [dot, dot] then some up
  else if h : IsName s then some (name ⟨s, h⟩)
  else none

/-- How a component is written. -/
def octets : Component → List UInt8
  | root => [slash]
  | here => [dot]
  | up => [dot, dot]
  | name n => n.octets

/-- How a component is shown. -/
def text (c : Component) : String := Text.Utf8.lenient c.octets

/-- A list of components as a path. -/
def toPath : List Component → Path
  | root :: cs => .ofOctets (slash :: [slash].intercalate (cs.map octets))
  | cs => .ofOctets ([slash].intercalate (cs.map octets))

end Component

namespace Path

/-- The segments between separators; always at least one. -/
def segments : List UInt8 → List (List UInt8)
  | [] => [[]]
  | b :: bs =>
    if b = slash then [] :: segments bs
    else match segments bs with
      | [] => [[b]]
      | s :: ss => (b :: s) :: ss

theorem segments_ne_nil (bs : List UInt8) : segments bs ≠ [] := by
  cases bs with
  | nil => simp [segments]
  | cons b bs => unfold segments; split <;> (try split) <;> simp

/-- Whether the path starts at the root. -/
def isAbsolute (p : Path) : Bool := p.octets.head? == some slash

def isEmpty (p : Path) : Bool := p.octets.isEmpty

/-- The components of a path, from the front. -/
def components (p : Path) : List Component :=
  let segs := segments p.octets
  if p.isAbsolute then .root :: segs.filterMap Component.ofSegment?
  else match segs with
    | [] => []
    | first :: rest =>
      if first = [dot] then .here :: rest.filterMap Component.ofSegment?
      else segs.filterMap Component.ofSegment?

/-- `q` seen from the directory `p`: an absolute `q` stands for itself. -/
def join (p q : Path) : Path :=
  if q.isAbsolute then q
  else if p.isEmpty || p.octets.getLast? == some slash then ofOctets (p.octets ++ q.octets)
  else ofOctets (p.octets ++ slash :: q.octets)

instance : HDiv Path String Path := ⟨fun p q => p.join ⟨q⟩⟩

/-- Whether a segment counts when the path is cut from its end. -/
def counts (absolute : Bool) (index : Nat) (s : List UInt8) : Bool :=
  s != [] && (s != [dot] || (index == 0 && !absolute))

/-- The path without its last component, as it was written; none for the root and the empty path. -/
def parent? (p : Path) : Option Path :=
  let absolute := p.isAbsolute
  let tagged := (segments p.octets).zipIdx.map fun (s, i) => (s, counts absolute i s)
  match tagged.reverse.dropWhile (!·.2) with
  | [] => none
  | _ :: before =>
    let kept := (before.dropWhile (!·.2)).reverse.map (·.1)
    some (ofOctets (if absolute && kept.isEmpty then [slash] else [slash].intercalate kept))

/-- At most `limit` of the path, its parent, the parent of that, and so on. -/
def ancestorsUpTo : (limit : Nat) → Path → List Path
  | 0, _ => []
  | limit + 1, p =>
    match p.parent? with
    | some q => p :: ancestorsUpTo limit q
    | none => [p]

/-- The path and everything above it, the nearest first. -/
def ancestors (p : Path) : List Path := ancestorsUpTo (p.octets.length + 1) p

/-- The last component, when it is a name. -/
def fileName? (p : Path) : Option (List UInt8) :=
  match p.components.getLast? with
  | some (.name n) => some n.octets
  | _ => none

/-- The part of a file name after its last dot; a name that only starts with a dot has none. -/
def extensionOf (name : List UInt8) : Option (List UInt8) :=
  let rev := name.reverse
  let after := rev.takeWhile (· != dot)
  match rev.dropWhile (· != dot) with
  | [] | [_] => none
  | _ => some after.reverse

/-- The extension of the file name, if it is a text. -/
def extension? (p : Path) : Option String := p.fileName?.bind extensionOf |>.bind Text.Utf8.text?

/-- Whether `p` is `q` or lies below it, component by component. -/
def startsWith (p q : Path) : Bool := q.components.isPrefixOf p.components

/-- Whether a segment of an absolute path carries no meaning. -/
def isVoid (s : List UInt8) : Bool := s == [] || s == [dot]

/-- Segments without the first `n` that carry a meaning. -/
def dropSegments : (n : Nat) → List (List UInt8) → List (List UInt8)
  | 0, ss => ss
  | _ + 1, [] => []
  | n + 1, s :: ss => if isVoid s then dropSegments (n + 1) ss else dropSegments n ss

/-- The absolute path `p` seen from the absolute path `q`, as it was written; none where it is not
below. -/
def below? (p q : Path) : Option Path :=
  if p.isAbsolute && q.isAbsolute && p.startsWith q then
    let rest := dropSegments (q.components.length - 1) (segments p.octets)
    let rest := ((rest.dropWhile isVoid).reverse.dropWhile isVoid).reverse
    some (ofOctets ([slash].intercalate rest))
  else none

end Path

/-- A lexically normalised path: from the root, or `ups` levels up from the working directory. -/
inductive CleanPath where
  | absolute (names : List Name)
  | relative (ups : Nat) (names : List Name)
  deriving DecidableEq

namespace CleanPath

instance : Hashable CleanPath where
  hash
    | absolute ns => hash ns
    | relative u ns => mixHash (hash u) (hash ns)

/-- Follows one more component. -/
def push : CleanPath → Component → CleanPath
  | _, .root => absolute []
  | p, .here => p
  | absolute ns, .up => absolute ns.dropLast
  | relative u [], .up => relative (u + 1) []
  | relative u ns, .up => relative u ns.dropLast
  | absolute ns, .name n => absolute (ns ++ [n])
  | relative u ns, .name n => relative u (ns ++ [n])

/-- Where a list of components leads, seen from nowhere. -/
def ofComponents (cs : List Component) : CleanPath := cs.foldl push (relative 0 [])

/-- The components that are left. -/
def components : CleanPath → List Component
  | absolute ns => .root :: ns.map .name
  | relative 0 [] => [.here]
  | relative u ns => List.replicate u .up ++ ns.map .name

def toPath (p : CleanPath) : Path := Component.toPath p.components

/-- How the path is shown. -/
def text (p : CleanPath) : String := p.toPath.text

instance : ToString CleanPath := ⟨text⟩

def isAbsolute : CleanPath → Bool
  | absolute _ => true
  | relative .. => false

/-- The components of the directory that holds the path: none for the root, and no component at
all for a single relative step. -/
def parent? (p : CleanPath) : Option (List Component) :=
  match p with
  | absolute [] => none
  | _ => some p.components.dropLast

/-- Whether `p` lies strictly below the place that `cs` names. -/
def below (p : CleanPath) (cs : List Component) : Bool :=
  cs.isPrefixOf p.components && p.components != cs

end CleanPath

/-- The lexical normal form of a path. -/
def Path.clean (p : Path) : CleanPath := CleanPath.ofComponents p.components

end Bundling
