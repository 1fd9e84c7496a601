import Bsdos.Octets.Endian

namespace Octets

/-- `buf.get(start..stop)`. -/
def slice (buf : List UInt8) (start stop : Nat) : Option (List UInt8) :=
  if start ≤ stop ∧ stop ≤ buf.length then some ((buf.drop start).take (stop - start)) else none

/-- `a.checked_add(b)` on 64 bits. -/
def checkedAdd (a b : Nat) : Option Nat := if a + b < 2 ^ 64 then some (a + b) else none

def checkedMul (a b : Nat) : Option Nat := if a * b < 2 ^ 64 then some (a * b) else none

/-- These bytes are in the buffer from `off` on. -/
def Holds (buf : List UInt8) (off : Nat) (bytes : List UInt8) : Prop :=
  off ≤ buf.length ∧ bytes <+: buf.drop off

variable {buf front back bytes : List UInt8} {off : Nat}

theorem Holds.bound (holds : Holds buf off bytes) : off + bytes.length ≤ buf.length := by
  have inside := holds.2.length_le
  have start := holds.1
  rw [List.length_drop] at inside
  omega

theorem Holds.left (holds : Holds buf off (front ++ back)) : Holds buf off front :=
  ⟨holds.1, (List.prefix_append front back).trans holds.2⟩

theorem Holds.right (holds : Holds buf off (front ++ back)) : Holds buf (off + front.length) back := by
  have bound := holds.bound
  obtain ⟨rest, whole⟩ := holds.2
  rw [List.length_append] at bound
  refine ⟨by omega, rest, ?_⟩
  rw [← List.drop_drop, ← whole, List.append_assoc, List.drop_left]

theorem Holds.whole (bytes rest : List UInt8) : Holds (bytes ++ rest) 0 bytes :=
  ⟨Nat.zero_le _, List.prefix_append bytes rest⟩

theorem Holds.shift {rest : List UInt8} (holds : Holds bytes off front) : Holds (rest ++ bytes) (rest.length + off) front := by
  refine ⟨by have start := holds.1; rw [List.length_append]; omega, ?_⟩
  rw [← List.drop_drop, List.drop_left]
  exact holds.2

theorem Holds.slice (holds : Holds buf off bytes) : slice buf off (off + bytes.length) = some bytes := by
  have bound := holds.bound
  unfold Octets.slice
  rw [if_pos ⟨Nat.le_add_right .., bound⟩, Nat.add_sub_cancel_left]
  exact congrArg some (List.prefix_iff_eq_take.mp holds.2).symm

theorem Holds.head {byte : UInt8} (holds : Holds buf off (byte :: back)) : buf[off]? = some byte := by
  obtain ⟨tail, whole⟩ := holds.2
  rw [← Nat.add_zero off, ← List.getElem?_drop, ← whole]
  rfl

theorem Holds.extend (holds : Holds bytes off front) (rest : List UInt8) : Holds (bytes ++ rest) off front := by
  refine ⟨by have start := holds.1; rw [List.length_append]; omega, ?_⟩
  rw [List.drop_append_of_le_length holds.1]
  exact holds.2.trans (List.prefix_append _ _)

theorem Holds.taken (holds : Holds buf off bytes) : (buf.drop off).take bytes.length = bytes :=
  (List.prefix_iff_eq_take.mp holds.2).symm

/-- `buf[base..base + size]`. -/
def part (buf : List UInt8) (base size : Nat) : List UInt8 := (buf.drop base).take size

theorem part_length {base size : Nat} (inside : base + size ≤ buf.length) : (part buf base size).length = size := by
  rw [part, List.length_take, List.length_drop]
  omega

/-- Reading from a part is reading further on in the whole. -/
theorem slice_part {base size start stop : Nat} (inside : base + size ≤ buf.length) (fits : stop ≤ size) :
    slice (part buf base size) start stop = slice buf (base + start) (base + stop) := by
  unfold slice
  rw [part_length inside]
  by_cases ordered : start ≤ stop
  · rw [if_pos ⟨ordered, fits⟩, if_pos ⟨by omega, by omega⟩, part, List.drop_take, List.take_take, List.drop_drop]
    congr 2
    omega
  · rw [if_neg (by omega), if_neg (by omega)]

theorem slice_past_part {base size start stop : Nat} (inside : base + size ≤ buf.length) (past : size < stop) :
    slice (part buf base size) start stop = none := by
  unfold slice
  rw [part_length inside, if_neg (by omega)]

theorem checkedAdd_small {a b : Nat} (small : a + b < 2 ^ 64) : checkedAdd a b = some (a + b) := if_pos small

end Octets
