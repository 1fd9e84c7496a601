import Bsdos.Octets.Unicode

namespace Octets

variable {first : UInt8} {rest tail bytes : List UInt8} {more fuel n m : Nat} {cs : List Char}

/-- A continuation byte that is read gives six more bits. -/
theorem continuation_cases (read : continuation (more + 1) n bytes = (some m, tail)) :
    ∃ low rest, low < 64 ∧ bytes = UInt8.ofNat (low + 0x80) :: rest ∧ continuation more (n * 64 + low) rest = (some m, tail) := by
  cases bytes with
  | nil => cases read
  | cons byte rest =>
    rw [continuation] at read
    split at read
    · rename_i inside
      simp only [isContinuation, Bool.and_eq_true, decide_eq_true_eq] at inside
      have high := inside.2
      exact ⟨byte.toNat - 0x80, rest, by omega, by rw [Nat.sub_add_cancel inside.1, UInt8.ofNat_toNat], read⟩
    · cases read

theorem continuation_last (read : continuation 0 n bytes = (some m, tail)) : n = m ∧ bytes = tail := by
  cases read
  exact ⟨rfl, rfl⟩

theorem encoded (valid : m.isValidChar) : String.utf8EncodeChar (Char.ofNat m) =
    if m ≤ 0x7f then [UInt8.ofNat m]
    else if m ≤ 0x7ff then [UInt8.ofNat (m / 64 % 0x20 + 0xc0), UInt8.ofNat (m % 0x40 + 0x80)]
    else if m ≤ 0xffff then
      [UInt8.ofNat (m / 4096 % 0x10 + 0xe0), UInt8.ofNat (m / 64 % 0x40 + 0x80), UInt8.ofNat (m % 0x40 + 0x80)]
    else [UInt8.ofNat (m / 262144 % 0x08 + 0xf0), UInt8.ofNat (m / 4096 % 0x40 + 0x80), UInt8.ofNat (m / 64 % 0x40 + 0x80),
      UInt8.ofNat (m % 0x40 + 0x80)] := by
  have number : (Char.ofNat m).val.toNat = m := by
    rw [Char.ofNat, dif_pos valid]
    rfl
  unfold String.utf8EncodeChar
  simp only [number]

/-- Of two bytes, in the bits of what they encode. -/
theorem encoded_two {high low : Nat} (small : low < 64) (least : 2 ≤ high) (greatest : high < 32) :
    String.utf8EncodeChar (Char.ofNat (high * 64 + low)) = [UInt8.ofNat (high + 0xC0), UInt8.ofNat (low + 0x80)] := by
  have parts : (high * 64 + low) / 64 % 0x20 = high ∧ (high * 64 + low) % 0x40 = low := by omega
  rw [encoded (.inl (by omega)), if_neg (by omega), if_pos (by omega), parts.1, parts.2]

theorem encoded_three {high middle low : Nat} (small : low < 64) (small' : middle < 64) (greatest : high < 16)
    (valid : ((high * 64 + middle) * 64 + low).isValidChar) (long : 0x7FF < (high * 64 + middle) * 64 + low) :
    String.utf8EncodeChar (Char.ofNat ((high * 64 + middle) * 64 + low)) =
      [UInt8.ofNat (high + 0xE0), UInt8.ofNat (middle + 0x80), UInt8.ofNat (low + 0x80)] := by
  have parts : ((high * 64 + middle) * 64 + low) / 4096 % 0x10 = high ∧ ((high * 64 + middle) * 64 + low) / 64 % 0x40 = middle ∧
      ((high * 64 + middle) * 64 + low) % 0x40 = low := by omega
  rw [encoded valid, if_neg (by omega), if_neg (by omega), if_pos (by omega), parts.1, parts.2.1, parts.2.2]

theorem encoded_four {high middle middle' low : Nat} (small : low < 64) (small' : middle' < 64) (small'' : middle < 64)
    (greatest : high < 8) (valid : (((high * 64 + middle) * 64 + middle') * 64 + low).isValidChar)
    (long : 0xFFFF < ((high * 64 + middle) * 64 + middle') * 64 + low) :
    String.utf8EncodeChar (Char.ofNat (((high * 64 + middle) * 64 + middle') * 64 + low)) =
      [UInt8.ofNat (high + 0xF0), UInt8.ofNat (middle + 0x80), UInt8.ofNat (middle' + 0x80), UInt8.ofNat (low + 0x80)] := by
  have parts : (((high * 64 + middle) * 64 + middle') * 64 + low) / 262144 % 0x08 = high ∧
      (((high * 64 + middle) * 64 + middle') * 64 + low) / 4096 % 0x40 = middle ∧
      (((high * 64 + middle) * 64 + middle') * 64 + low) / 64 % 0x40 = middle' ∧
      (((high * 64 + middle) * 64 + middle') * 64 + low) % 0x40 = low := by omega
  rw [encoded valid, if_neg (by omega), if_neg (by omega), if_neg (by omega), parts.1, parts.2.1, parts.2.2.1, parts.2.2.2]

/-- What the first byte allows the second to be, in its own bits. -/
theorem mayFollow_bounds {low : Nat} (small : low < 64)
    (follows : mayFollow first (UInt8.ofNat (low + 0x80)) = true) :
    (first.toNat = 0xE0 → 0x20 ≤ low) ∧ (first.toNat = 0xF0 → 0x10 ≤ low) ∧ (first.toNat = 0xED → low ≤ 0x1F) ∧
      (first.toNat = 0xF4 → low ≤ 0xF) := by
  have value : (UInt8.ofNat (low + 0x80)).toNat = low + 0x80 := by
    rw [UInt8.toNat_ofNat']
    omega
  simp only [mayFollow, value, Bool.and_eq_true, decide_eq_true_eq] at follows
  obtain ⟨lower, upper⟩ := follows
  refine ⟨fun e0 => ?_, fun f0 => ?_, fun ed => ?_, fun f4 => ?_⟩
  · rw [if_pos e0] at lower
    omega
  · rw [if_neg (by omega), if_pos f0] at lower
    omega
  · rw [if_pos ed] at upper
    omega
  · rw [if_neg (by omega), if_pos f4] at upper
    omega

theorem byte_eq {k : Nat} (value : first.toNat = k) : first = UInt8.ofNat k := by
  rw [← value, UInt8.ofNat_toNat]

/-- What is read as a character is its encoding. -/
theorem sequence_some (read : sequence first rest = (some m, tail)) :
    first :: rest = String.utf8EncodeChar (Char.ofNat m) ++ tail := by
  simp only [sequence] at read
  split at read
  · rename_i one
    cases read
    rw [encoded (.inl (by omega)), if_pos (by omega), UInt8.ofNat_toNat, List.singleton_append]
  split at read
  · rename_i two
    obtain ⟨low, rest, small, rfl, last⟩ := continuation_cases read
    obtain ⟨rfl, rfl⟩ := continuation_last last
    have high : first = UInt8.ofNat (first.toNat - 0xC0 + 0xC0) := byte_eq (by omega)
    rw [encoded_two small (by omega) (by omega), ← high, List.cons_append, List.singleton_append]
  split at read
  · rename_i three
    split at read
    · rename_i follows
      obtain ⟨middle, rest, small', rfl, later⟩ := continuation_cases read
      obtain ⟨low, rest, small, rfl, last⟩ := continuation_cases later
      obtain ⟨rfl, rfl⟩ := continuation_last last
      obtain ⟨e0, -, ed, -⟩ := mayFollow_bounds small' follows
      have valid : (((first.toNat - 0xE0) * 64 + middle) * 64 + low).isValidChar := by
        show _ < 0xD800 ∨ 0xDFFF < _ ∧ _ < 0x110000
        omega
      have high : first = UInt8.ofNat (first.toNat - 0xE0 + 0xE0) := byte_eq (by omega)
      rw [encoded_three small small' (by omega) valid (by omega), ← high, List.cons_append, List.cons_append,
        List.singleton_append]
    · cases read
  split at read
  · rename_i four
    split at read
    · rename_i follows
      obtain ⟨middle, rest, small'', rfl, later⟩ := continuation_cases read
      obtain ⟨middle', rest, small', rfl, later'⟩ := continuation_cases later
      obtain ⟨low, rest, small, rfl, last⟩ := continuation_cases later'
      obtain ⟨rfl, rfl⟩ := continuation_last last
      obtain ⟨-, f0, -, f4⟩ := mayFollow_bounds small'' follows
      have valid : ((((first.toNat - 0xF0) * 64 + middle) * 64 + middle') * 64 + low).isValidChar := by
        show _ < 0xD800 ∨ 0xDFFF < _ ∧ _ < 0x110000
        omega
      have high : first = UInt8.ofNat (first.toNat - 0xF0 + 0xF0) := byte_eq (by omega)
      rw [encoded_four small small' small'' (by omega) valid (by omega), ← high, List.cons_append, List.cons_append,
        List.cons_append, List.singleton_append]
    · cases read
  · cases read

theorem strictChars_some (read : strictChars fuel bytes = some cs) : utf8 cs = bytes := by
  induction fuel generalizing bytes cs with
  | zero =>
    cases bytes with
    | nil =>
      cases read
      rfl
    | cons => cases read
  | succ fuel ih =>
    cases bytes with
    | nil =>
      cases read
      rfl
    | cons first rest =>
      obtain ⟨n, number, later⟩ := Option.bind_eq_some_iff.mp read
      obtain ⟨cs', chars, same⟩ := Option.bind_eq_some_iff.mp later
      cases same
      have whole := sequence_some (Prod.ext number rfl : sequence first rest = (some n, (sequence first rest).2))
      rw [whole, ← ih chars]
      rfl

/-- A text is read of its encoding, and of nothing else. -/
theorem fromUtf8_iff {s : String} : fromUtf8 bytes = some s ↔ bytes = utf8 s.toList := by
  constructor
  · intro read
    obtain ⟨cs, chars, rfl⟩ := Option.map_eq_some_iff.mp read
    rw [String.toList_ofList, strictChars_some chars]
  · rintro rfl
    exact fromUtf8_utf8 s

end Octets
