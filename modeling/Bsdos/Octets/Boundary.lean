import Bsdos.Octets.Unicode

namespace Octets

/-- `text.get(i..)`: what comes from the byte `i` on, if a character begins there. -/
def textFrom : List Char → Nat → Option (List Char)
  | cs, 0 => some cs
  | [], _ + 1 => none
  | c :: cs, i + 1 => if c.utf8Size ≤ i + 1 then textFrom cs (i + 1 - c.utf8Size) else none

/-- `text.get(..i)`. -/
def textTo : List Char → Nat → Option (List Char)
  | _, 0 => some []
  | [], _ + 1 => none
  | c :: cs, i + 1 => if c.utf8Size ≤ i + 1 then (textTo cs (i + 1 - c.utf8Size)).map (c :: ·) else none

/-- `text.get(start..stop)`. -/
def textRange (text : List Char) (start stop : Nat) : Option (List Char) :=
  if start ≤ stop then (textFrom text start).bind fun rest => textTo rest (stop - start) else none

/-- A character begins at the byte `i`, or the text ends there. -/
def IsBoundary (text : List Char) (i : Nat) : Prop := ∃ front back, text = front ++ back ∧ i = (utf8 front).length

variable {front back middle : List Char}

theorem utf8_length_cons (c : Char) (cs : List Char) : (utf8 (c :: cs)).length = c.utf8Size + (utf8 cs).length := by
  rw [utf8, List.flatMap_cons, List.length_append, String.length_utf8EncodeChar]
  rfl

theorem utf8_length_append (front back : List Char) : (utf8 (front ++ back)).length = (utf8 front).length + (utf8 back).length := by
  rw [utf8_append, List.length_append]

theorem utf8_length_le (cs : List Char) : cs.length ≤ (utf8 cs).length := by
  induction cs with
  | nil => exact Nat.le_refl 0
  | cons c cs ih =>
    have positive := c.utf8Size_pos
    rw [utf8_length_cons, List.length_cons]
    omega

theorem textFrom_boundary : textFrom (front ++ back) (utf8 front).length = some back := by
  induction front with
  | nil => rw [utf8, List.flatMap_nil, List.length_nil, List.nil_append, textFrom]
  | cons c front ih =>
    have positive := c.utf8Size_pos
    obtain ⟨i, next⟩ : ∃ i, (utf8 (c :: front)).length = i + 1 := ⟨(utf8 (c :: front)).length - 1, by rw [utf8_length_cons]; omega⟩
    have size := utf8_length_cons c front
    have rest : i + 1 - c.utf8Size = (utf8 front).length := by omega
    rw [next, List.cons_append, textFrom, if_pos (by omega), rest, ih]

theorem textTo_boundary : textTo (front ++ back) (utf8 front).length = some front := by
  induction front with
  | nil => rw [utf8, List.flatMap_nil, List.length_nil, List.nil_append, textTo]
  | cons c front ih =>
    have positive := c.utf8Size_pos
    obtain ⟨i, next⟩ : ∃ i, (utf8 (c :: front)).length = i + 1 := ⟨(utf8 (c :: front)).length - 1, by rw [utf8_length_cons]; omega⟩
    have size := utf8_length_cons c front
    have rest : i + 1 - c.utf8Size = (utf8 front).length := by omega
    rw [next, List.cons_append, textTo, if_pos (by omega), rest, ih, Option.map_some]

theorem textRange_boundary : textRange (front ++ (middle ++ back)) (utf8 front).length (utf8 (front ++ middle)).length =
    some middle := by
  rw [textRange, utf8_length_append, if_pos (Nat.le_add_right _ _), textFrom_boundary, Option.bind_some,
    Nat.add_sub_cancel_left, textTo_boundary]

/-- The first byte of a character tells how long its encoding is. -/
theorem utf8EncodeChar_first (c : Char) : ∃ first rest, String.utf8EncodeChar c = first :: rest ∧
    (c.utf8Size = 1 ∧ first.toNat < 0x80 ∨ c.utf8Size = 2 ∧ 0xC0 ≤ first.toNat ∧ first.toNat < 0xE0 ∨
      c.utf8Size = 3 ∧ 0xE0 ≤ first.toNat ∧ first.toNat < 0xF0 ∨ c.utf8Size = 4 ∧ 0xF0 ≤ first.toNat) := by
  have valid : c.toNat < 0xD800 ∨ 0xDFFF < c.toNat ∧ c.toNat < 0x110000 := c.valid
  have size : c.utf8Size = (String.utf8EncodeChar c).length := (String.length_utf8EncodeChar c).symm
  have encoded : String.utf8EncodeChar c = String.utf8EncodeChar c := rfl
  unfold String.utf8EncodeChar at encoded
  change String.utf8EncodeChar c = if c.toNat ≤ 0x7f then [UInt8.ofNat c.toNat]
    else if c.toNat ≤ 0x7ff then
      [UInt8.ofNat (c.toNat / 64 % 0x20 + 0xc0), UInt8.ofNat (c.toNat % 0x40 + 0x80)]
    else if c.toNat ≤ 0xffff then
      [UInt8.ofNat (c.toNat / 4096 % 0x10 + 0xe0), UInt8.ofNat (c.toNat / 64 % 0x40 + 0x80),
        UInt8.ofNat (c.toNat % 0x40 + 0x80)]
    else [UInt8.ofNat (c.toNat / 262144 % 0x08 + 0xf0), UInt8.ofNat (c.toNat / 4096 % 0x40 + 0x80),
      UInt8.ofNat (c.toNat / 64 % 0x40 + 0x80), UInt8.ofNat (c.toNat % 0x40 + 0x80)] at encoded
  rw [size]
  generalize c.toNat = n at valid encoded
  by_cases one : n ≤ 0x7f
  · rw [if_pos one] at encoded
    refine ⟨_, _, encoded, .inl ⟨congrArg List.length encoded, ?_⟩⟩
    rw [UInt8.toNat_ofNat']
    omega
  by_cases two : n ≤ 0x7ff
  · rw [if_neg one, if_pos two] at encoded
    refine ⟨_, _, encoded, .inr (.inl ⟨congrArg List.length encoded, ?_⟩)⟩
    rw [UInt8.toNat_ofNat']
    omega
  by_cases three : n ≤ 0xffff
  · rw [if_neg one, if_neg two, if_pos three] at encoded
    refine ⟨_, _, encoded, .inr (.inr (.inl ⟨congrArg List.length encoded, ?_⟩))⟩
    rw [UInt8.toNat_ofNat']
    omega
  · rw [if_neg one, if_neg two, if_neg three] at encoded
    refine ⟨_, _, encoded, .inr (.inr (.inr ⟨congrArg List.length encoded, ?_⟩))⟩
    rw [UInt8.toNat_ofNat']
    omega

end Octets
