/-!
# UTF-8

Reading octets as text: strictly, with the place and length of the first fault, or leniently, with a
replacement character for every fault. A fault ends where the octets stop being the start of some
character. A text can be cut behind so many octets, unless this is inside of a character.
-/

namespace Bundling.Text.Utf8

/-- What stands at the front of a list of octets. -/
inductive Piece where
  /-- A character, and how many octets of it follow the first. -/
  | char (c : Char) (more : Nat)
  /-- A fault of so many octets. -/
  | invalid (length : Nat)
  /-- The list ends within a character. -/
  | incomplete
  deriving DecidableEq

def isContinuation (b : UInt8) : Bool := 0x80 ≤ b && b < 0xC0

/-- The octets that may follow the first one of three or four. -/
def secondRange (first : UInt8) : UInt8 × UInt8 :=
  if first = 0xE0 then (0xA0, 0xBF)
  else if first = 0xED then (0x80, 0x9F)
  else if first = 0xF0 then (0x90, 0xBF)
  else if first = 0xF4 then (0x80, 0x8F)
  else (0x80, 0xBF)

def low6 (b : UInt8) : Nat := b.toNat % 64

/-- Reads one piece: the first octet, and those after it. -/
def piece (a : UInt8) (rest : List UInt8) : Piece :=
  if a < 0x80 then .char (Char.ofNat a.toNat) 0
  else if 0xC2 ≤ a && a < 0xE0 then
    match rest with
    | [] => .incomplete
    | b :: _ =>
      if isContinuation b then .char (Char.ofNat (a.toNat % 32 * 64 + low6 b)) 1 else .invalid 1
  else if 0xE0 ≤ a && a < 0xF5 then
    let (low, high) := secondRange a
    match rest with
    | [] => .incomplete
    | b :: rest =>
      if b < low || high < b then .invalid 1
      else match rest with
        | [] => .incomplete
        | c :: rest =>
          if !isContinuation c then .invalid 2
          else if a < 0xF0 then
            .char (Char.ofNat (a.toNat % 16 * 4096 + low6 b * 64 + low6 c)) 2
          else match rest with
            | [] => .incomplete
            | d :: _ =>
              if isContinuation d then
                .char (Char.ofNat
                  (a.toNat % 8 * 262144 + low6 b * 4096 + low6 c * 64 + low6 d)) 3
              else .invalid 3
  else .invalid 1

/-- The first fault of a list of octets: its place, and its length unless the list just ends there. -/
structure Fault where
  index : Nat
  length : Option Nat
  deriving DecidableEq

namespace Fault

def message (f : Fault) : String :=
  match f.length with
  | some n =>
    "invalid utf-8 sequence of " ++ toString n ++ " bytes from index " ++ toString f.index
  | none => "incomplete utf-8 byte sequence from index " ++ toString f.index

end Fault

/-- Reads from the octet at `index` on, after passing over `skip` octets. -/
def decodeFrom : (skip index : Nat) → List UInt8 → Except Fault (List Char)
  | _, _, [] => .ok []
  | skip + 1, index, _ :: rest => decodeFrom skip (index + 1) rest
  | 0, index, a :: rest =>
    match piece a rest with
    | .char c more => (decodeFrom more (index + 1) rest).map (c :: ·)
    | .invalid n => .error ⟨index, some n⟩
    | .incomplete => .error ⟨index, none⟩

/-- The text of octets, or its first fault. -/
def decode (bytes : List UInt8) : Except Fault (List Char) := decodeFrom 0 0 bytes

/-- The text of octets that are one. -/
def text? (bytes : List UInt8) : Option String := (decode bytes).toOption.map String.ofList

/-- The text after `skip` octets, with a replacement character for every fault. -/
def lenientFrom : (skip : Nat) → List UInt8 → List Char
  | _, [] => []
  | skip + 1, _ :: rest => lenientFrom skip rest
  | 0, a :: rest =>
    match piece a rest with
    | .char c more => c :: lenientFrom more rest
    | .invalid n => '\uFFFD' :: lenientFrom (n - 1) rest
    | .incomplete => ['\uFFFD']

def lenient (bytes : List UInt8) : String := String.ofList (lenientFrom 0 bytes)

/-- The octets of a text. -/
def encode (s : String) : List UInt8 := s.toList.flatMap String.utf8EncodeChar

/-- The front of a text that takes so many octets; none where a character goes across its end, or the
text is shorter. -/
def front? : (octets : Nat) → List Char → Option (List Char)
  | 0, _ => some []
  | _ + 1, [] => none
  | octets + 1, c :: cs =>
    if octets + 1 < c.utf8Size then none
    else (front? (octets + 1 - c.utf8Size) cs).map (c :: ·)

end Bundling.Text.Utf8
