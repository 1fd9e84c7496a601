import Mathlib.Data.UInt
import Mathlib.Tactic.Common

namespace Octets

/-- The number written in these bytes, the least significant one first. -/
def ofLe : List UInt8 → Nat
  | [] => 0
  | byte :: rest => byte.toNat + 256 * ofLe rest

/-- The number written in these bytes, the most significant one first. -/
def ofBe (bytes : List UInt8) : Nat := ofLe bytes.reverse

/-- The lowest `width` bytes of a number, the least significant one first. -/
def toLe : Nat → Nat → List UInt8
  | 0, _ => []
  | width + 1, n => UInt8.ofNat n :: toLe width (n / 256)

def toBe (width n : Nat) : List UInt8 := (toLe width n).reverse

@[simp] theorem toLe_length (width n : Nat) : (toLe width n).length = width := by
  induction width generalizing n with
  | zero => rfl
  | succ width ih => simp only [toLe, List.length_cons, ih]

@[simp] theorem toBe_length (width n : Nat) : (toBe width n).length = width := by
  rw [toBe, List.length_reverse, toLe_length]

theorem ofLe_lt (bytes : List UInt8) : ofLe bytes < 256 ^ bytes.length := by
  induction bytes with
  | nil => exact Nat.one_pos
  | cons byte rest ih =>
    have small := byte.toNat_lt
    simp only [ofLe, List.length_cons, Nat.pow_succ]
    omega

/-- What is written is read back, if it fits. -/
theorem ofLe_toLe {width n : Nat} (fits : n < 256 ^ width) : ofLe (toLe width n) = n := by
  induction width generalizing n with
  | zero =>
    have none : n = 0 := Nat.lt_one_iff.mp fits
    exact none.symm
  | succ width ih =>
    have higher : n / 256 < 256 ^ width := by
      rw [Nat.pow_succ] at fits
      omega
    have lowest : (UInt8.ofNat n).toNat = n % 256 := UInt8.toNat_ofNat'
    simp only [toLe, ofLe, ih higher, lowest]
    omega

theorem toLe_ofLe (bytes : List UInt8) : toLe bytes.length (ofLe bytes) = bytes := by
  induction bytes with
  | nil => rfl
  | cons byte rest ih =>
    have small := byte.toNat_lt
    have lowest : UInt8.ofNat (byte.toNat + 256 * ofLe rest) = byte := by
      refine UInt8.toNat_inj.mp ?_
      rw [UInt8.toNat_ofNat']
      omega
    have higher : (byte.toNat + 256 * ofLe rest) / 256 = ofLe rest := by omega
    rw [List.length_cons, ofLe, toLe, lowest, higher, ih]

theorem ofBe_toBe {width n : Nat} (fits : n < 256 ^ width) : ofBe (toBe width n) = n := by
  rw [ofBe, toBe, List.reverse_reverse, ofLe_toLe fits]

theorem toLe_drop (width k n : Nat) : (toLe width n).drop k = toLe (width - k) (n / 256 ^ k) := by
  induction k generalizing width n with
  | zero => simp
  | succ k ih =>
    cases width with
    | zero => simp [toLe]
    | succ width =>
      rw [toLe, List.drop_succ_cons, ih, Nat.div_div_eq_div_mul, Nat.add_sub_add_right, Nat.pow_succ, Nat.mul_comm 256]

end Octets
