import Bsdos.Octets.Endian

namespace Bsdos.Core.Capnp
open Octets

/-- A message of the fixed size. -/
structure Buffer where
  bytes : List UInt8
  filled : bytes.length = 32
  deriving DecidableEq

/-- The segment count less one, then the number of words in the only segment. -/
def framing : List UInt8 := toLe 4 0 ++ toLe 4 3

/-- Two data words and no pointers, right behind this word. -/
def structPointer : List UInt8 := toLe 8 0x0000000200000000

def dataSection (uptime : UInt64) (battery cpu : UInt32) : List UInt8 :=
  toLe 8 uptime.toNat ++ toLe 4 battery.toNat ++ toLe 4 cpu.toNat

theorem framing_length : framing.length = 8 := rfl

theorem structPointer_length : structPointer.length = 8 := rfl

theorem dataSection_length (uptime : UInt64) (battery cpu : UInt32) : (dataSection uptime battery cpu).length = 16 := by
  simp only [dataSection, List.length_append, toLe_length]

theorem message_length (uptime : UInt64) (battery cpu : UInt32) :
    (framing ++ (structPointer ++ dataSection uptime battery cpu)).length = 32 := by
  simp only [List.length_append, framing_length, structPointer_length, dataSection_length]

/-- The parts of the buffer in the order in which they are copied; together they fill it. -/
def encode (uptime : UInt64) (battery cpu : UInt32) : Buffer :=
  ⟨framing ++ (structPointer ++ dataSection uptime battery cpu), message_length uptime battery cpu⟩

/-- `from_le_bytes` of so many bytes from `start` on. -/
def Buffer.le (buf : Buffer) (start width : Nat) : Nat := ofLe ((buf.bytes.drop start).take width)

/-- The struct pointer is not looked at. -/
def decode (buf : Buffer) : Except String (UInt64 × UInt32 × UInt32) :=
  if buf.le 0 4 ≠ 0 then .error "Invalid segment count"
  else if buf.le 4 4 ≠ 3 then .error "Invalid segment size"
  else .ok (UInt64.ofNat (buf.le 16 8), UInt32.ofNat (buf.le 24 4), UInt32.ofNat (buf.le 28 4))

/-- A number that is read is the one that is written there. -/
theorem Buffer.le_iff {buf : Buffer} {start width n : Nat} (inside : start + width ≤ 32) (fits : n < 256 ^ width) :
    buf.le start width = n ↔ (buf.bytes.drop start).take width = toLe width n := by
  have filled := buf.filled
  have length : ((buf.bytes.drop start).take width).length = width := by
    rw [List.length_take, List.length_drop]
    omega
  have back := toLe_ofLe ((buf.bytes.drop start).take width)
  rw [length] at back
  constructor
  · rintro rfl
    exact back.symm
  · intro written
    rw [Buffer.le, written, ofLe_toLe fits]

/-- Two neighbouring parts of a list together. -/
theorem take_drop_iff {α : Type} {whole front back : List α} {k m : Nat} (start : Nat) (length : front.length = k) :
    (whole.drop start).take k = front ∧ (whole.drop (start + k)).take m = back ↔
      (whole.drop start).take (k + m) = front ++ back := by
  rw [List.take_add, List.drop_drop]
  constructor
  · rintro ⟨rfl, rfl⟩
    rfl
  · intro joined
    by_cases enough : ((whole.drop start).take k).length = k
    · exact List.append_inj joined (enough.trans length.symm)
    · have short := List.length_take_le k (whole.drop start)
      have total := congrArg List.length joined
      rw [List.length_take, List.length_drop] at enough
      simp only [List.length_append, List.length_take, List.length_drop, length] at total
      omega

theorem decode_ok {buf : Buffer} {uptime : UInt64} {battery cpu : UInt32} :
    decode buf = .ok (uptime, battery, cpu) ↔
      (buf.le 0 4 = 0 ∧ buf.le 4 4 = 3) ∧
        (buf.le 16 8 = uptime.toNat ∧ buf.le 24 4 = battery.toNat) ∧ buf.le 28 4 = cpu.toNat := by
  have wide (start : Nat) : buf.le start 8 < 2 ^ 64 := by
    have bound := ofLe_lt ((buf.bytes.drop start).take 8)
    exact bound.trans_le (Nat.pow_le_pow_right (by omega) (List.length_take_le ..))
  have narrow (start : Nat) : buf.le start 4 < 2 ^ 32 := by
    have bound := ofLe_lt ((buf.bytes.drop start).take 4)
    exact bound.trans_le (Nat.pow_le_pow_right (by omega) (List.length_take_le ..))
  have first : UInt64.ofNat (buf.le 16 8) = uptime ↔ buf.le 16 8 = uptime.toNat := by
    rw [← UInt64.toNat_inj, UInt64.toNat_ofNat_of_lt' (wide 16)]
  have word (start : Nat) (n : UInt32) : UInt32.ofNat (buf.le start 4) = n ↔ buf.le start 4 = n.toNat := by
    rw [← UInt32.toNat_inj, UInt32.toNat_ofNat_of_lt' (narrow start)]
  unfold decode
  by_cases count : buf.le 0 4 = 0
  · by_cases size : buf.le 4 4 = 3
    · simp only [count, size, ne_eq, not_true_eq_false, if_false, Except.ok.injEq, Prod.mk.injEq, first, word, true_and,
        and_assoc]
    · simp only [count, size, ne_eq, not_true_eq_false, not_false_eq_true, if_false, if_true, reduceCtorEq, and_false,
        false_and]
  · simp only [count, ne_eq, not_false_eq_true, if_true, reduceCtorEq, false_and]

/-- The framing is checked, and the three numbers are those of the data section. -/
theorem decode_iff (buf : Buffer) (uptime : UInt64) (battery cpu : UInt32) :
    decode buf = .ok (uptime, battery, cpu) ↔
      buf.bytes.take 8 = framing ∧ buf.bytes.drop 16 = dataSection uptime battery cpu := by
  have filled := buf.filled
  have rest : buf.bytes.drop 16 = (buf.bytes.drop 16).take (8 + 4 + 4) :=
    (List.take_of_length_le (by rw [List.length_drop]; omega)).symm
  rw [decode_ok, Buffer.le_iff (by omega) (by omega), Buffer.le_iff (by omega) (by omega),
    Buffer.le_iff (by omega) uptime.toNat_lt, Buffer.le_iff (by omega) battery.toNat_lt,
    Buffer.le_iff (by omega) cpu.toNat_lt, take_drop_iff 0 (toLe_length 4 0), take_drop_iff 16 (toLe_length 8 _)]
  have both : (toLe 8 uptime.toNat ++ toLe 4 battery.toNat).length = 8 + 4 := by
    rw [List.length_append, toLe_length, toLe_length]
  have data : _ ↔ (buf.bytes.drop 16).take (8 + 4 + 4) = dataSection uptime battery cpu := take_drop_iff 16 both
  rw [← rest] at data
  exact and_congr_right fun _ => data

/-- What is encoded is decoded; what is decoded was encoded but for the struct pointer,
which may be any. -/
theorem codec_exact :
    (∀ uptime battery cpu, decode (encode uptime battery cpu) = .ok (uptime, battery, cpu)) ∧
      ∀ (buf : Buffer) (uptime : UInt64) (battery cpu : UInt32),
        (decode buf = .ok (uptime, battery, cpu) ↔
          buf.bytes.take 8 = (encode uptime battery cpu).bytes.take 8 ∧
            buf.bytes.drop 16 = (encode uptime battery cpu).bytes.drop 16) ∧
          (decode buf = .ok (uptime, battery, cpu) →
            (encode uptime battery cpu = buf ↔ (buf.bytes.drop 8).take 8 = structPointer)) := by
  have front (uptime battery cpu) : (encode uptime battery cpu).bytes.take 8 = framing := List.take_left' framing_length
  have back (uptime battery cpu) : (encode uptime battery cpu).bytes.drop 16 = dataSection uptime battery cpu := by
    have both : (framing ++ structPointer).length = 16 := rfl
    change (framing ++ (structPointer ++ dataSection uptime battery cpu)).drop 16 = _
    rw [← List.append_assoc, List.drop_left' both]
  refine ⟨fun uptime battery cpu => (decode_iff ..).mpr ⟨front .., back ..⟩, fun buf uptime battery cpu => ?_⟩
  rw [decode_iff, front, back]
  refine ⟨Iff.rfl, fun agree => ⟨?_, fun pointer => ?_⟩⟩
  · rintro rfl
    rw [encode, List.drop_left' framing_length, List.take_left' structPointer_length]
  · have whole : buf.bytes = framing ++ (structPointer ++ dataSection uptime battery cpu) := by
      rw [← agree.1, ← agree.2, ← pointer, ← List.append_assoc, ← List.take_add, List.take_append_drop]
    cases buf
    subst whole
    rfl

/-- A message whose pointer claims no data words. -/
def pointless : Buffer := ⟨framing ++ (toLe 8 0 ++ dataSection 1 2 3), rfl⟩

theorem pointless_accepted :
    ¬ ∀ (buf : Buffer) (uptime : UInt64) (battery cpu : UInt32),
      decode buf = .ok (uptime, battery, cpu) → encode uptime battery cpu = buf := by
  intro all
  have equal := all pointless 1 2 3 (by decide)
  exact absurd equal (by decide)

end Bsdos.Core.Capnp
