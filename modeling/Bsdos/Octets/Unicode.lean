import Mathlib.Data.UInt
import Mathlib.Tactic.Common

namespace Octets

/-- The UTF-8 encoding of a text. -/
def utf8 (cs : List Char) : List UInt8 := cs.flatMap String.utf8EncodeChar

def isContinuation (byte : UInt8) : Bool := 0x80 ≤ byte.toNat && byte.toNat ≤ 0xBF

/-- What may follow the first byte of a longer sequence. -/
def mayFollow (first second : UInt8) : Bool :=
  (if first.toNat = 0xE0 then 0xA0 else if first.toNat = 0xF0 then 0x90 else 0x80) ≤ second.toNat &&
    second.toNat ≤ (if first.toNat = 0xED then 0x9F else if first.toNat = 0xF4 then 0x8F else 0xBF)

/-- Reads so many continuation bytes; a sequence that breaks off has no number. -/
def continuation : Nat → Nat → List UInt8 → Option Nat × List UInt8
  | 0, n, rest => (some n, rest)
  | _ + 1, _, [] => (none, [])
  | more + 1, n, byte :: rest =>
    if isContinuation byte then continuation more (n * 64 + (byte.toNat - 0x80)) rest else (none, byte :: rest)

/-- The sequence that begins with `first`, where it is one, and what comes after it. -/
def sequence (first : UInt8) (rest : List UInt8) : Option Nat × List UInt8 :=
  let n := first.toNat
  if n < 0x80 then (some n, rest)
  else if 0xC2 ≤ n ∧ n ≤ 0xDF then continuation 1 (n - 0xC0) rest
  else if 0xE0 ≤ n ∧ n ≤ 0xEF then
    if rest.head?.any (mayFollow first) then continuation 2 (n - 0xE0) rest else (none, rest)
  else if 0xF0 ≤ n ∧ n ≤ 0xF4 then
    if rest.head?.any (mayFollow first) then continuation 3 (n - 0xF0) rest else (none, rest)
  else (none, rest)

/-- The characters of a text in UTF-8, a replacement character for each sequence that is
not one. Every step reads a byte, so the number of bytes is enough fuel. -/
def lossyChars : Nat → List UInt8 → List Char
  | fuel + 1, first :: rest => ((sequence first rest).1.elim '\uFFFD' Char.ofNat) :: lossyChars fuel (sequence first rest).2
  | _, _ => []

/-- `String::from_utf8_lossy`. -/
def fromUtf8Lossy (bytes : List UInt8) : String := String.ofList (lossyChars bytes.length bytes)

/-- The characters of a text in UTF-8, if it is one. -/
def strictChars : Nat → List UInt8 → Option (List Char)
  | fuel + 1, first :: rest => do
    let n ← (sequence first rest).1
    let later ← strictChars fuel (sequence first rest).2
    return Char.ofNat n :: later
  | _, [] => some []
  | 0, _ => none

/-- `str::from_utf8`. -/
def fromUtf8 (bytes : List UInt8) : Option String := (strictChars bytes.length bytes).map String.ofList

theorem continuation_next {more n low : Nat} {rest : List UInt8} (small : low < 64) :
    continuation (more + 1) n (UInt8.ofNat (low + 0x80) :: rest) = continuation more (n * 64 + low) rest := by
  have value : (UInt8.ofNat (low + 0x80)).toNat = low + 0x80 := by
    rw [UInt8.toNat_ofNat']
    omega
  have cont : isContinuation (UInt8.ofNat (low + 0x80)) = true := by
    simp only [isContinuation, value, Bool.and_eq_true, decide_eq_true_eq]
    omega
  have lower : low + 0x80 - 0x80 = low := by omega
  rw [continuation, if_pos cont, value, lower]

/-- The encoding of a character is read back, whatever follows it. -/
theorem sequence_encoded (c : Char) (tail : List UInt8) :
    ∃ first rest, String.utf8EncodeChar c = first :: rest ∧ sequence first (rest ++ tail) = (some c.toNat, tail) := by
  have valid : c.toNat < 0xD800 ∨ 0xDFFF < c.toNat ∧ c.toNat < 0x110000 := c.valid
  have encoded : String.utf8EncodeChar c = String.utf8EncodeChar c := rfl
  unfold String.utf8EncodeChar at encoded
  change String.utf8EncodeChar c = if c.toNat ≤ 0x7f then [UInt8.ofNat c.toNat]
    else if c.toNat ≤ 0x7ff then
      [UInt8.ofNat (c.toNat / 64 % 0x20 + 0xc0), UInt8.ofNat (c.toNat % 0x40 + 0x80)]
    else if c.toNat ≤ 0xffff then
      [UInt8.ofNat (c.toNat / 4096 % 0x10 + 0xe0), UInt8.ofNat (c.toNat / 64 % 0x40 + 0x80),
        UInt8.ofNat (c.toNat % 0x40 + 0x80)]
    else [UInt8.ofNat (c.toNat / 262144 % 0x08 + 0xf0), UInt8.ofNat (c.toNat / 4096 % 0x40 + 0x80),
      UInt8.ofNat (c.toNat / 64 % 0x40 + 0x80), UInt8.ofNat (c.toNat % 0x40 + 0x80)] at encoded
  generalize c.toNat = n at valid encoded
  by_cases one : n ≤ 0x7f
  · rw [if_pos one] at encoded
    have first : (UInt8.ofNat n).toNat = n := by
      rw [UInt8.toNat_ofNat']
      omega
    refine ⟨_, _, encoded, ?_⟩
    rw [sequence, first, if_pos (by omega), List.nil_append]
  by_cases two : n ≤ 0x7ff
  · rw [if_neg one, if_pos two] at encoded
    have first : (UInt8.ofNat (n / 64 % 0x20 + 0xc0)).toNat = n / 64 + 0xc0 := by
      rw [UInt8.toNat_ofNat']
      omega
    refine ⟨_, _, encoded, ?_⟩
    rw [sequence, first, if_neg (by omega), if_pos (by omega), List.singleton_append, continuation_next (by omega),
      continuation]
    have whole : (n / 64 + 0xc0 - 0xC0) * 64 + n % 0x40 = n := by omega
    rw [whole]
  by_cases three : n ≤ 0xffff
  · rw [if_neg one, if_neg two, if_pos three] at encoded
    have first : (UInt8.ofNat (n / 4096 % 0x10 + 0xe0)).toNat = n / 4096 + 0xe0 := by
      rw [UInt8.toNat_ofNat']
      omega
    have second : (UInt8.ofNat (n / 64 % 0x40 + 0x80)).toNat = n / 64 % 64 + 0x80 := by
      rw [UInt8.toNat_ofNat']
      omega
    have follows : mayFollow (UInt8.ofNat (n / 4096 % 0x10 + 0xe0)) (UInt8.ofNat (n / 64 % 0x40 + 0x80)) = true := by
      simp only [mayFollow, first, second, Bool.and_eq_true, decide_eq_true_eq]
      refine ⟨?_, ?_⟩
      · split
        · omega
        · split <;> omega
      · split
        · omega
        · split <;> omega
    refine ⟨_, _, encoded, ?_⟩
    rw [sequence, first, if_neg (by omega), if_neg (by omega), if_pos (by omega), if_pos (by exact follows)]
    rw [List.cons_append, continuation_next (by omega), List.singleton_append, continuation_next (by omega), continuation]
    have whole : ((n / 4096 + 0xe0 - 0xE0) * 64 + n / 64 % 0x40) * 64 + n % 0x40 = n := by omega
    rw [whole]
  · rw [if_neg one, if_neg two, if_neg three] at encoded
    have first : (UInt8.ofNat (n / 262144 % 0x08 + 0xf0)).toNat = n / 262144 + 0xf0 := by
      rw [UInt8.toNat_ofNat']
      omega
    have second : (UInt8.ofNat (n / 4096 % 0x40 + 0x80)).toNat = n / 4096 % 64 + 0x80 := by
      rw [UInt8.toNat_ofNat']
      omega
    have follows : mayFollow (UInt8.ofNat (n / 262144 % 0x08 + 0xf0)) (UInt8.ofNat (n / 4096 % 0x40 + 0x80)) = true := by
      simp only [mayFollow, first, second, Bool.and_eq_true, decide_eq_true_eq]
      refine ⟨?_, ?_⟩
      · split
        · omega
        · split <;> omega
      · split
        · omega
        · split <;> omega
    refine ⟨_, _, encoded, ?_⟩
    rw [sequence, first, if_neg (by omega), if_neg (by omega), if_neg (by omega), if_pos (by omega),
      if_pos (by exact follows)]
    rw [List.cons_append, continuation_next (by omega), List.cons_append, continuation_next (by omega),
      List.singleton_append, continuation_next (by omega), continuation]
    have whole : (((n / 262144 + 0xf0 - 0xF0) * 64 + n / 4096 % 0x40) * 64 + n / 64 % 0x40) * 64 + n % 0x40 = n := by
      omega
    rw [whole]

theorem lossyChars_utf8 (cs : List Char) (fuel : Nat) (enough : (utf8 cs).length ≤ fuel) :
    lossyChars fuel (utf8 cs) = cs := by
  induction cs generalizing fuel with
  | nil => cases fuel <;> rfl
  | cons c cs ih =>
    obtain ⟨first, rest, encoded, read⟩ := sequence_encoded c (utf8 cs)
    have whole : utf8 (c :: cs) = first :: (rest ++ utf8 cs) := by
      rw [utf8, List.flatMap_cons, encoded]
      rfl
    rw [whole] at enough ⊢
    simp only [List.length_cons, List.length_append] at enough
    cases fuel with
    | zero => omega
    | succ fuel =>
      rw [lossyChars, read]
      exact congrArg₂ List.cons (Char.ofNat_toNat c) (ih fuel (by omega))

/-- A text in UTF-8 is read back as it was. -/
theorem fromUtf8Lossy_utf8 (s : String) : fromUtf8Lossy (utf8 s.toList) = s := by
  rw [fromUtf8Lossy, lossyChars_utf8 _ _ (Nat.le_refl _), String.ofList_toList]

theorem fromUtf8_utf8 (s : String) : fromUtf8 (utf8 s.toList) = some s := by
  have chars (cs : List Char) (fuel : Nat) (enough : (utf8 cs).length ≤ fuel) : strictChars fuel (utf8 cs) = some cs := by
    induction cs generalizing fuel with
    | nil => cases fuel <;> rfl
    | cons c cs ih =>
      obtain ⟨first, rest, encoded, read⟩ := sequence_encoded c (utf8 cs)
      have whole : utf8 (c :: cs) = first :: (rest ++ utf8 cs) := by
        rw [utf8, List.flatMap_cons, encoded]
        rfl
      rw [whole] at enough ⊢
      simp only [List.length_cons, List.length_append] at enough
      cases fuel with
      | zero => omega
      | succ fuel =>
        rw [strictChars, read, ih fuel (by omega)]
        exact congrArg (fun c => some (c :: cs)) (Char.ofNat_toNat c)
  rw [fromUtf8, chars _ _ (Nat.le_refl _), Option.map_some, String.ofList_toList]

/-- A byte below 0x80 is the encoding of its own character only. -/
theorem utf8_ascii {cs : List Char} {low : Char} (ascii : low.toNat < 0x80) (member : UInt8.ofNat low.toNat ∈ utf8 cs) :
    low ∈ cs := by
  obtain ⟨c, inside, byte⟩ := List.mem_flatMap.mp member
  have bound : c.toNat < 0x110000 := by
    rcases c.valid with below | ⟨_, high⟩
    · exact Nat.lt_trans below (by decide)
    · exact high
  have same : c.toNat = low.toNat := by
    have value {n : Nat} (same : UInt8.ofNat low.toNat = UInt8.ofNat n) : n % 256 = low.toNat := by
      have numbers := congrArg UInt8.toNat same
      rw [UInt8.toNat_ofNat', UInt8.toNat_ofNat'] at numbers
      omega
    have number : c.val.toNat = c.toNat := rfl
    unfold String.utf8EncodeChar at byte
    simp only [number] at byte
    split at byte
    · have here := value (List.mem_singleton.mp byte)
      omega
    · split at byte
      · simp only [List.mem_cons, List.not_mem_nil, or_false] at byte
        rcases byte with here | here <;> have none := value here <;> omega
      · split at byte
        · simp only [List.mem_cons, List.not_mem_nil, or_false] at byte
          rcases byte with here | here | here <;> have none := value here <;> omega
        · simp only [List.mem_cons, List.not_mem_nil, or_false] at byte
          rcases byte with here | here | here | here <;> have none := value here <;> omega
  have equal : c = low := by
    rw [← Char.ofNat_toNat c, same, Char.ofNat_toNat]
  exact equal ▸ inside

theorem utf8_zero {cs : List Char} (member : 0 ∈ utf8 cs) : '\x00' ∈ cs := utf8_ascii (by decide) member

theorem utf8_append (front back : List Char) : utf8 (front ++ back) = utf8 front ++ utf8 back := List.flatMap_append

theorem utf8_cons {c : Char} (ascii : c.toNat < 0x80) (cs : List Char) : utf8 (c :: cs) = UInt8.ofNat c.toNat :: utf8 cs := by
  have one : String.utf8EncodeChar c = [UInt8.ofNat c.toNat] := by
    have number : c.val.toNat = c.toNat := rfl
    unfold String.utf8EncodeChar
    simp only [number]
    rw [if_pos (by omega)]
  have whole : utf8 (c :: cs) = String.utf8EncodeChar c ++ utf8 cs := rfl
  rw [whole, one, List.singleton_append]

theorem utf8_filled {cs : List Char} (filled : cs ≠ []) : utf8 cs ≠ [] := by
  cases cs with
  | nil => exact absurd rfl filled
  | cons c cs =>
    obtain ⟨first, rest, encoded, _⟩ := sequence_encoded c []
    rw [utf8, List.flatMap_cons, encoded]
    simp

end Octets
