import Bundling.Text.Utf8

/-!
# Spelling texts

Every character is spelt in one way (`exists_spells`), and reading octets finds the characters that they spell and no others
(`Spells.piece`, `spells_of_piece`). So a text is read as it was written (`lenient_encode`), and octets that are read without a
fault are those of what is read (`encode_lenientFrom`).
-/

namespace Bundling.Text.Utf8

theorem toNat_ofNat {n : Nat} (valid : n.isValidChar) : (Char.ofNat n).toNat = n := by
  rw [Char.ofNat,dif_pos valid]
  rfl

/-- The octets of a character by its number. -/
theorem encodeChar_eq (c : Char) : String.utf8EncodeChar c =
    if c.toNat ≤ 0x7F then [UInt8.ofNat c.toNat]
    else if c.toNat ≤ 0x7FF then [UInt8.ofNat (c.toNat / 64 % 32 + 192),UInt8.ofNat (c.toNat % 64 + 128)]
    else if c.toNat ≤ 0xFFFF then
      [UInt8.ofNat (c.toNat / 4096 % 16 + 224),UInt8.ofNat (c.toNat / 64 % 64 + 128),UInt8.ofNat (c.toNat % 64 + 128)]
    else
      [UInt8.ofNat (c.toNat / 262144 % 8 + 240),UInt8.ofNat (c.toNat / 4096 % 64 + 128),UInt8.ofNat (c.toNat / 64 % 64 + 128),
        UInt8.ofNat (c.toNat % 64 + 128)] := rfl

/-- An octet that goes on with a character. -/
def Tail (b : UInt8) : Prop := 0x80 ≤ b.toNat ∧ b.toNat < 0xC0

/-- The first and the second octet of a character of three or four: what is too small for so many, or no character, is left
out. -/
def Pair (a b : UInt8) : Prop :=
  Tail b ∧ (a.toNat = 0xE0 → 0xA0 ≤ b.toNat) ∧ (a.toNat = 0xED → b.toNat ≤ 0x9F) ∧ (a.toNat = 0xF0 → 0x90 ≤ b.toNat) ∧
    (a.toNat = 0xF4 → b.toNat ≤ 0x8F)

/-- How a character is written: its first octet, and those that follow it. -/
inductive Spells (c : Char) (a : UInt8) : List UInt8 → Prop where
  | one (low : a.toNat < 0x80) (number : c.toNat = a.toNat) : Spells c a []
  | two {b : UInt8} (low : 0xC2 ≤ a.toNat) (high : a.toNat < 0xE0) (second : Tail b)
      (number : c.toNat = a.toNat % 32 * 64 + b.toNat % 64) : Spells c a [b]
  | three {b d : UInt8} (low : 0xE0 ≤ a.toNat) (high : a.toNat < 0xF0) (second : Pair a b) (third : Tail d)
      (number : c.toNat = a.toNat % 16 * 4096 + b.toNat % 64 * 64 + d.toNat % 64) : Spells c a [b,d]
  | four {b d e : UInt8} (low : 0xF0 ≤ a.toNat) (high : a.toNat < 0xF5) (second : Pair a b) (third : Tail d) (fourth : Tail e)
      (number : c.toNat = a.toNat % 8 * 262144 + b.toNat % 64 * 4096 + d.toNat % 64 * 64 + e.toNat % 64) : Spells c a [b,d,e]

variable {a b : UInt8} {more rest : List UInt8} {c : Char}

theorem isContinuation_iff : isContinuation b = true ↔ Tail b := by
  simp [isContinuation,Tail,UInt8.le_iff_toNat_le,UInt8.lt_iff_toNat_lt]

theorem secondRange_iff : (b < (secondRange a).1 || (secondRange a).2 < b) = false ↔ Pair a b := by
  have same : ∀ {b : UInt8}, a = b ↔ a.toNat = b.toNat := UInt8.toNat_inj.symm
  simp only [secondRange,same,Bool.or_eq_false_iff,decide_eq_false_iff_not,UInt8.lt_iff_toNat_lt,Nat.not_lt,Pair,Tail,UInt8.reduceToNat]
  split
  · simp only [UInt8.reduceToNat]; omega
  split
  · simp only [UInt8.reduceToNat]; omega
  split
  · simp only [UInt8.reduceToNat]; omega
  split
  · simp only [UInt8.reduceToNat]; omega
  · simp only [UInt8.reduceToNat]; omega

theorem Spells.piece (spells : Spells c a more) (rest : List UInt8) : piece a (more ++ rest) = .char c more.length := by
  have back : ∀ {n}, c.toNat = n → Char.ofNat n = c := fun same => same ▸ Char.ofNat_toNat c
  have low : ∀ {b : UInt8}, a < b ↔ a.toNat < b.toNat := UInt8.lt_iff_toNat_lt
  have low' : ∀ {b : UInt8}, b ≤ a ↔ b.toNat ≤ a.toNat := UInt8.le_iff_toNat_le
  cases spells with
  | one small number =>
    rw [Utf8.piece.eq_def,if_pos (UInt8.lt_iff_toNat_lt.mpr small),back number]
    rfl
  | two first first' second number =>
    have high : ¬ a.toNat < 0x80 := by omega
    simp [Utf8.piece,low,low',high,first,first',isContinuation_iff.mpr second,low6,back number]
  | three first first' second third number =>
    have high : ¬ a.toNat < 0x80 := by omega
    have other : ¬ a.toNat < 0xE0 := by omega
    have range : a.toNat < 0xF5 := by omega
    simp only [List.cons_append,Utf8.piece,secondRange_iff.mpr second]
    simp [low,low',high,first,first',other,range,isContinuation_iff.mpr third,low6,back number]
  | four first first' second third fourth number =>
    have high : ¬ a.toNat < 0x80 := by omega
    have other : ¬ a.toNat < 0xE0 := by omega
    have other' : ¬ a.toNat < 0xF0 := by omega
    have range : 0xE0 ≤ a.toNat := by omega
    simp only [List.cons_append,Utf8.piece,secondRange_iff.mpr second]
    simp [low,low',high,first',other,other',range,isContinuation_iff.mpr third,isContinuation_iff.mpr fourth,low6,back number]

theorem spells_of_piece {n : Nat} (found : piece a rest = .char c n) :
    ∃ more after, rest = more ++ after ∧ more.length = n ∧ Spells c a more := by
  have low : ∀ {a b : UInt8}, a < b ↔ a.toNat < b.toNat := UInt8.lt_iff_toNat_lt
  have low' : ∀ {a b : UInt8}, a ≤ b ↔ a.toNat ≤ b.toNat := UInt8.le_iff_toNat_le
  have number : ∀ {n}, (n < 0xD800 ∨ 0xDFFF < n ∧ n < 0x110000) → (Char.ofNat n).toNat = n := toNat_ofNat
  unfold piece at found
  split at found
  · rename_i small
    have small := low.mp small
    cases found
    exact ⟨[],rest,rfl,rfl,.one small (number (.inl (by simp at small; omega)))⟩
  split at found
  · rename_i first
    simp only [Bool.and_eq_true,decide_eq_true_eq,low,low'] at first
    cases rest with
    | nil => cases found
    | cons b rest =>
      simp only at found
      split at found
      · rename_i second
        cases found
        simp only [UInt8.reduceToNat] at first
        refine ⟨[b],rest,rfl,rfl,.two first.1 first.2 (isContinuation_iff.mp second) (number (.inl ?_))⟩
        rw [low6]
        omega
      · cases found
  split at found
  · rename_i first
    simp only [Bool.and_eq_true,decide_eq_true_eq,low,low'] at first
    cases rest with
    | nil => cases found
    | cons b rest =>
      dsimp only at found
      split at found
      · cases found
      rename_i range
      have second := secondRange_iff.mp (Bool.not_eq_true _ ▸ range)
      cases rest with
      | nil => cases found
      | cons d rest =>
        dsimp only at found
        split at found
        · cases found
        rename_i continues
        have third := isContinuation_iff.mp (by simpa using continues)
        split at found
        · rename_i high
          have high := low.mp high
          cases found
          refine ⟨[b,d],rest,rfl,rfl,.three first.1 high second third (number ?_)⟩
          unfold Pair Tail at second
          simp only [UInt8.reduceToNat] at first high
          simp only [low6]
          omega
        · rename_i wide
          simp only [low,Nat.not_lt,UInt8.reduceToNat] at wide first
          cases rest with
          | nil => cases found
          | cons e rest =>
            dsimp only at found
            split at found
            · rename_i last
              cases found
              refine ⟨[b,d,e],rest,rfl,rfl,.four wide first.2 second third (isContinuation_iff.mp last) (number ?_)⟩
              unfold Pair Tail at second
              simp only [low6]
              omega
            · cases found
  · cases found


theorem Spells.encode (spells : Spells c a more) : String.utf8EncodeChar c = a :: more := by
  have octet : ∀ {n : Nat} {b : UInt8}, n = b.toNat → UInt8.ofNat n = b := fun same => by rw [same,UInt8.ofNat_toNat]
  cases spells with
  | one small number => rw [encodeChar_eq,if_pos (by omega),octet number]
  | @two b low high second number =>
    unfold Tail at second
    rw [encodeChar_eq,if_neg (by omega),if_pos (by omega),octet (b := a) (by omega),octet (b := b) (by omega)]
  | @three b d low high second third number =>
    unfold Pair Tail at second
    unfold Tail at third
    rw [encodeChar_eq,if_neg (by omega),if_neg (by omega),if_pos (by omega),octet (b := a) (by omega),octet (b := b) (by omega),
      octet (b := d) (by omega)]
  | @four b d e low high second third fourth number =>
    unfold Pair Tail at second
    unfold Tail at third fourth
    rw [encodeChar_eq,if_neg (by omega),if_neg (by omega),if_neg (by omega),octet (b := a) (by omega),octet (b := b) (by omega),
      octet (b := d) (by omega),octet (b := e) (by omega)]

/-- Every character is spelt in one way. -/
theorem exists_spells (c : Char) : ∃ a more, Spells c a more := by
  have octet : ∀ {n : Nat}, n < 256 → (UInt8.ofNat n).toNat = n := fun small => UInt8.toNat_ofNat_of_lt' small
  have valid : c.toNat < 0xD800 ∨ 0xDFFF < c.toNat ∧ c.toNat < 0x110000 := c.valid
  by_cases one : c.toNat < 0x80
  · have first := octet (n := c.toNat) (by omega)
    exact ⟨.ofNat c.toNat,[],.one (by omega) first.symm⟩
  by_cases two : c.toNat < 0x800
  · have first := octet (n := c.toNat / 64 + 0xC0) (by omega)
    have second := octet (n := c.toNat % 64 + 0x80) (by omega)
    exact ⟨.ofNat (c.toNat / 64 + 0xC0),[.ofNat (c.toNat % 64 + 0x80)],
      .two (by omega) (by omega) (by unfold Tail; omega) (by omega)⟩
  by_cases three : c.toNat < 0x10000
  · have first := octet (n := c.toNat / 4096 + 0xE0) (by omega)
    have second := octet (n := c.toNat / 64 % 64 + 0x80) (by omega)
    have third := octet (n := c.toNat % 64 + 0x80) (by omega)
    exact ⟨.ofNat (c.toNat / 4096 + 0xE0),[.ofNat (c.toNat / 64 % 64 + 0x80),.ofNat (c.toNat % 64 + 0x80)],
      .three (by omega) (by omega) (by unfold Pair Tail; omega) (by unfold Tail; omega) (by omega)⟩
  · have first := octet (n := c.toNat / 262144 + 0xF0) (by omega)
    have second := octet (n := c.toNat / 4096 % 64 + 0x80) (by omega)
    have third := octet (n := c.toNat / 64 % 64 + 0x80) (by omega)
    have fourth := octet (n := c.toNat % 64 + 0x80) (by omega)
    exact ⟨.ofNat (c.toNat / 262144 + 0xF0),
      [.ofNat (c.toNat / 4096 % 64 + 0x80),.ofNat (c.toNat / 64 % 64 + 0x80),.ofNat (c.toNat % 64 + 0x80)],
      .four (by omega) (by omega) (by unfold Pair Tail; omega) (by unfold Tail; omega) (by unfold Tail; omega) (by omega)⟩

/-! ## Reading leniently -/

theorem lenientFrom_append (more rest : List UInt8) : lenientFrom more.length (more ++ rest) = lenientFrom 0 rest := by
  induction more with
  | nil => rfl
  | cons a more ih => exact ih

theorem lenientFrom_spelt (spells : Spells c a more) (rest : List UInt8) :
    lenientFrom 0 (a :: (more ++ rest)) = c :: lenientFrom 0 rest := by
  rw [lenientFrom,spells.piece,← lenientFrom_append more rest]

theorem lenientFrom_encode (cs : List Char) (rest : List UInt8) :
    lenientFrom 0 (cs.flatMap String.utf8EncodeChar ++ rest) = cs ++ lenientFrom 0 rest := by
  induction cs with
  | nil => rfl
  | cons c cs ih =>
    obtain ⟨a,more,spells⟩ := exists_spells c
    rw [List.flatMap_cons,spells.encode,List.append_assoc,List.cons_append,lenientFrom_spelt spells,ih]
    rfl

/-- A text is read as it is. -/
theorem lenient_encode (s : String) : lenient (encode s) = s := by
  have whole := lenientFrom_encode s.toList []
  rw [List.append_nil,lenientFrom,List.append_nil] at whole
  rw [lenient,encode,whole,String.ofList_toList]

theorem lenientFrom_cases (a : UInt8) (rest : List UInt8) :
    (∃ c more after, rest = more ++ after ∧ Spells c a more ∧ lenientFrom 0 (a :: rest) = c :: lenientFrom 0 after) ∨
      ∃ skip, lenientFrom 0 (a :: rest) = '\uFFFD' :: lenientFrom skip rest := by
  rw [lenientFrom]
  cases found : piece a rest with
  | char c n =>
    obtain ⟨more,after,rfl,rfl,spells⟩ := spells_of_piece found
    exact .inl ⟨c,more,after,rfl,spells,by simp only [lenientFrom_append]⟩
  | invalid n => exact .inr ⟨n - 1,rfl⟩
  | incomplete =>
    refine .inr ⟨rest.length,?_⟩
    have none := lenientFrom_append rest []
    rw [List.append_nil] at none
    rw [none]
    rfl

/-- Octets that are read without a fault are those of the text. -/
theorem encode_lenientFrom {bytes : List UInt8} (clean : '\uFFFD' ∉ lenientFrom 0 bytes) :
    (lenientFrom 0 bytes).flatMap String.utf8EncodeChar = bytes := by
  induction length : bytes.length using Nat.strongRecOn generalizing bytes with
  | ind n ih =>
    cases bytes with
    | nil => rfl
    | cons a rest =>
      rcases lenientFrom_cases a rest with ⟨c,more,after,rfl,spells,read⟩ | ⟨skip,read⟩
      · rw [read,List.mem_cons,not_or] at clean
        have shorter : after.length < n := by rw [← length,List.length_cons,List.length_append]; omega
        rw [read,List.flatMap_cons,ih _ shorter clean.2 rfl,spells.encode]
        rfl
      · exact absurd (read ▸ List.mem_cons_self) clean

/-- Octets without a fault are those of what they are shown as. -/
theorem encode_lenient {bytes : List UInt8} (clean : '\uFFFD' ∉ (lenient bytes).toList) : encode (lenient bytes) = bytes := by
  rw [lenient,String.toList_ofList] at clean
  rw [encode,lenient,String.toList_ofList]
  exact encode_lenientFrom clean

theorem lenient_ne_empty {bytes : List UInt8} (some : bytes ≠ []) : lenient bytes ≠ "" := by
  cases bytes with
  | nil => exact absurd rfl some
  | cons a rest =>
    intro empty
    have none := congrArg String.toList empty
    rw [lenient,String.toList_ofList] at none
    rcases lenientFrom_cases a rest with ⟨c,more,after,-,-,read⟩ | ⟨skip,read⟩ <;> simp [read] at none

/-- What is read stands there, unless it is a fault. -/
theorem mem_lenientFrom {skip : Nat} {bytes : List UInt8} (member : c ∈ lenientFrom skip bytes) :
    c = '\uFFFD' ∨ ∀ b ∈ String.utf8EncodeChar c, b ∈ bytes := by
  induction length : bytes.length using Nat.strongRecOn generalizing bytes skip with
  | ind n ih =>
    cases bytes with
    | nil => cases skip <;> cases member
    | cons a rest =>
      have shorter : rest.length < n := by rw [← length,List.length_cons]; omega
      cases skip with
      | succ skip =>
        have later : c ∈ lenientFrom skip rest := member
        exact (ih _ shorter later rfl).imp_right fun all b inside => List.mem_cons_of_mem _ (all b inside)
      | zero =>
        rcases lenientFrom_cases a rest with ⟨d,more,after,rfl,spells,read⟩ | ⟨skip,read⟩
        · rcases List.mem_cons.mp (read ▸ member) with rfl | later
          · rw [spells.encode]
            exact .inr fun b inside => List.mem_append_left after inside
          · have shorter : after.length < n := by rw [← length,List.length_cons,List.length_append]; omega
            exact (ih _ shorter later rfl).imp_right fun all b inside =>
              List.mem_cons_of_mem _ (List.mem_append_right _ (all b inside))
        · rcases List.mem_cons.mp (read ▸ member) with rfl | later
          · exact .inl rfl
          · exact (ih _ shorter later rfl).imp_right fun all b inside => List.mem_cons_of_mem _ (all b inside)

/-! ## ASCII -/

/-- An octet below 128 is a character by itself. -/
theorem toNat_of_mem_encodeChar (low : b.toNat < 0x80) (member : b ∈ String.utf8EncodeChar c) : c.toNat = b.toNat := by
  obtain ⟨a,more,spells⟩ := exists_spells c
  rw [spells.encode] at member
  cases spells with
  | one small number => rw [number,List.mem_singleton.mp member]
  | two first first' second number =>
    unfold Tail at second
    simp only [List.mem_cons,List.not_mem_nil,or_false] at member
    rcases member with rfl | rfl <;> omega
  | three first first' second third number =>
    unfold Pair Tail at second
    unfold Tail at third
    simp only [List.mem_cons,List.not_mem_nil,or_false] at member
    rcases member with rfl | rfl | rfl <;> omega
  | four first first' second third fourth number =>
    unfold Pair Tail at second
    unfold Tail at third fourth
    simp only [List.mem_cons,List.not_mem_nil,or_false] at member
    rcases member with rfl | rfl | rfl | rfl <;> omega

theorem encodeChar_ascii (ascii : c.toNat < 0x80) : String.utf8EncodeChar c = [.ofNat c.toNat] := by
  rw [encodeChar_eq,if_pos (by omega)]

theorem mem_encodeChar_iff {d : Char} (ascii : c.toNat < 0x80) : .ofNat c.toNat ∈ String.utf8EncodeChar d ↔ d = c := by
  have number : (UInt8.ofNat c.toNat).toNat = c.toNat := UInt8.toNat_ofNat_of_lt' (Nat.lt_trans ascii (by decide))
  constructor
  · intro member
    have same := toNat_of_mem_encodeChar (by omega) member
    rw [← Char.ofNat_toNat c,← Char.ofNat_toNat d,same,number]
  · rintro rfl
    rw [encodeChar_ascii ascii]
    exact List.mem_singleton_self _

theorem mem_encode_iff {s : String} (ascii : c.toNat < 0x80) : .ofNat c.toNat ∈ encode s ↔ c ∈ s.toList := by
  simp [encode,List.mem_flatMap,mem_encodeChar_iff ascii]

theorem head?_encode_iff {s : String} (ascii : c.toNat < 0x80) :
    (encode s).head? = some (.ofNat c.toNat) ↔ s.toList.head? = some c := by
  rw [encode]
  cases s.toList with
  | nil => simp
  | cons d cs =>
    obtain ⟨a,more,spells⟩ := exists_spells d
    rw [List.flatMap_cons,List.head?_cons,Option.some.injEq]
    constructor
    · intro first
      rw [spells.encode,List.cons_append,List.head?_cons,Option.some.injEq] at first
      exact (mem_encodeChar_iff ascii).mp (spells.encode ▸ first ▸ List.mem_cons_self)
    · rintro rfl
      rw [encodeChar_ascii ascii]
      rfl

theorem encode_eq_nil_iff {s : String} : encode s = [] ↔ s = "" := by
  constructor
  · intro empty
    rw [← lenient_encode s,empty]
    rfl
  · rintro rfl
    rfl

theorem encode_injective {s t : String} (same : encode s = encode t) : s = t := by
  rw [← lenient_encode s,same,lenient_encode]

theorem encode_append (s t : String) : encode (s ++ t) = encode s ++ encode t := by
  simp [encode]

end Bundling.Text.Utf8
