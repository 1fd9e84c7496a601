import Bsdos.Octets.Endian

namespace Octets

/-- The UTF-16 code units of a character. -/
def utf16Units (c : Char) : List UInt16 :=
  if c.toNat < 0x10000 then [UInt16.ofNat c.toNat]
  else [UInt16.ofNat (0xD800 + (c.toNat - 0x10000) / 0x400), UInt16.ofNat (0xDC00 + (c.toNat - 0x10000) % 0x400)]

def utf16 (cs : List Char) : List UInt16 := cs.flatMap utf16Units

def isSurrogate (unit : UInt16) : Bool := 0xD800 ≤ unit.toNat && unit.toNat ≤ 0xDFFF

/-- Whether two units make up one character. -/
def isPair (high low : UInt16) : Bool :=
  (0xD800 ≤ high.toNat && high.toNat ≤ 0xDBFF) && (0xDC00 ≤ low.toNat && low.toNat ≤ 0xDFFF)

/-- The characters of a text in UTF-16, a replacement character for each unit without its
other half. -/
def utf16Chars : List UInt16 → List Char
  | [] => []
  | [last] => [if isSurrogate last then '\uFFFD' else Char.ofNat last.toNat]
  | high :: low :: rest =>
    if isSurrogate high = false then Char.ofNat high.toNat :: utf16Chars (low :: rest)
    else if isPair high low then
      Char.ofNat (0x10000 + (high.toNat - 0xD800) * 0x400 + (low.toNat - 0xDC00)) :: utf16Chars rest
    else '\uFFFD' :: utf16Chars (low :: rest)

/-- `String::from_utf16_lossy`. -/
def fromUtf16Lossy (units : List UInt16) : String := String.ofList (utf16Chars units)

/-- The units in these bytes, the higher byte of each first; an odd byte at the end is dropped. -/
def unitsBe : List UInt8 → List UInt16
  | high :: low :: rest => UInt16.ofNat (ofBe [high, low]) :: unitsBe rest
  | _ => []

def bytesBe (units : List UInt16) : List UInt8 := units.flatMap fun unit => toBe 2 unit.toNat

@[simp] theorem bytesBe_length (units : List UInt16) : (bytesBe units).length = 2 * units.length := by
  induction units with
  | nil => rfl
  | cons unit units ih =>
    have whole : bytesBe (unit :: units) = toBe 2 unit.toNat ++ bytesBe units := rfl
    rw [whole, List.length_append, ih, toBe_length, List.length_cons]
    omega

theorem unitsBe_bytesBe (units : List UInt16) : unitsBe (bytesBe units) = units := by
  induction units with
  | nil => rfl
  | cons unit units ih =>
    obtain ⟨high, low, bytes⟩ := List.length_eq_two.mp (toBe_length 2 unit.toNat)
    have value : ofBe [high, low] = unit.toNat := bytes ▸ ofBe_toBe unit.toNat_lt
    have whole : bytesBe (unit :: units) = high :: low :: bytesBe units := by
      rw [bytesBe, List.flatMap_cons, bytes]
      rfl
    rw [whole, unitsBe, ih, value, UInt16.ofNat_toNat]

theorem utf16Chars_single {unit : UInt16} (single : isSurrogate unit = false) (rest : List UInt16) :
    utf16Chars (unit :: rest) = Char.ofNat unit.toNat :: utf16Chars rest := by
  cases rest with
  | nil => simp only [utf16Chars, single, Bool.false_eq_true, if_false]
  | cons next rest => rw [utf16Chars, if_pos single]

theorem utf16Chars_pair {high low : UInt16} (surrogate : isSurrogate high = true) (pair : isPair high low = true)
    (rest : List UInt16) : utf16Chars (high :: low :: rest) =
      Char.ofNat (0x10000 + (high.toNat - 0xD800) * 0x400 + (low.toNat - 0xDC00)) :: utf16Chars rest := by
  rw [utf16Chars, if_neg (by simp [surrogate]), if_pos pair]

theorem utf16Chars_units (c : Char) (rest : List UInt16) : utf16Chars (utf16Units c ++ rest) = c :: utf16Chars rest := by
  have valid : c.toNat < 0xD800 ∨ 0xDFFF < c.toNat ∧ c.toNat < 0x110000 := c.valid
  unfold utf16Units
  by_cases one : c.toNat < 0x10000
  · have value : (UInt16.ofNat c.toNat).toNat = c.toNat := by
      rw [UInt16.toNat_ofNat']
      omega
    have single : isSurrogate (UInt16.ofNat c.toNat) = false := by
      simp only [isSurrogate, value, Bool.and_eq_false_iff, decide_eq_false_iff_not]
      omega
    rw [if_pos one, List.singleton_append, utf16Chars_single single, value, Char.ofNat_toNat]
  · have high : (UInt16.ofNat (0xD800 + (c.toNat - 0x10000) / 0x400)).toNat = 0xD800 + (c.toNat - 0x10000) / 0x400 := by
      rw [UInt16.toNat_ofNat']
      omega
    have low : (UInt16.ofNat (0xDC00 + (c.toNat - 0x10000) % 0x400)).toNat = 0xDC00 + (c.toNat - 0x10000) % 0x400 := by
      rw [UInt16.toNat_ofNat']
      omega
    have surrogate : isSurrogate (UInt16.ofNat (0xD800 + (c.toNat - 0x10000) / 0x400)) = true := by
      simp only [isSurrogate, high, Bool.and_eq_true, decide_eq_true_eq]
      omega
    have pair : isPair (UInt16.ofNat (0xD800 + (c.toNat - 0x10000) / 0x400))
        (UInt16.ofNat (0xDC00 + (c.toNat - 0x10000) % 0x400)) = true := by
      simp only [isPair, high, low, Bool.and_eq_true, decide_eq_true_eq]
      omega
    have number : 0x10000 + (0xD800 + (c.toNat - 0x10000) / 0x400 - 0xD800) * 0x400 +
        (0xDC00 + (c.toNat - 0x10000) % 0x400 - 0xDC00) = c.toNat := by omega
    rw [if_neg one, List.cons_append, List.singleton_append, utf16Chars_pair surrogate pair, high, low, number,
      Char.ofNat_toNat]

/-- A text in UTF-16 is read back as it was. -/
theorem fromUtf16Lossy_utf16 (s : String) : fromUtf16Lossy (utf16 s.toList) = s := by
  have chars (cs : List Char) : utf16Chars (utf16 cs) = cs := by
    induction cs with
    | nil => rfl
    | cons c cs ih =>
      have whole : utf16 (c :: cs) = utf16Units c ++ utf16 cs := rfl
      rw [whole, utf16Chars_units, ih]
  rw [fromUtf16Lossy, chars, String.ofList_toList]

end Octets
