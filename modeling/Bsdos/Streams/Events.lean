import Bsdos.Octets.Endian
import Bsdos.Streams.Forwarder

namespace Bsdos.Streams
open Octets

/-- The event types of the wire format that the forwarder does not look at itself. -/
def evSurfaceCreate : UInt8 := 0x01

def evSurfaceDestroy : UInt8 := 0x02

def evCursorMove : UInt8 := 0x05

def evSessionReset : UInt8 := 0xFE

def evError : UInt8 := 0xFF

/-- The bytes of a field whose length stands before it in `width` bytes. -/
structure Field (width : Nat) where
  data : Payload
  fits : data.length < 256 ^ width
  deriving DecidableEq

/-- An event of the stream. -/
inductive StreamEvent
  | surfaceCreate (surfaceId : UInt32)
  | surfaceDestroy (surfaceId : UInt32)
  | poolData (poolId : UInt32) (width height : UInt16) (stride format rawLen : UInt32) (lz4Data : Field 4)
  | surfaceCommit (surfaceId poolId offset : UInt32) (bufWidth bufHeight : UInt16) (bufStride format : UInt32)
      (damageX damageY damageW damageH : UInt16)
  | cursorMove (x y : Int32)
  | sessionReset (reason : UInt8) (msg : Field 1)
  | error (code : UInt16) (msg : Field 1)
  deriving DecidableEq

def le16 (n : UInt16) : Payload := toLe 2 n.toNat

def le32 (n : UInt32) : Payload := toLe 4 n.toNat

def Field.bytes {width : Nat} (field : Field width) : Payload := toLe width field.data.length ++ field.data

/-- An event as it is written: its type, then its fields. -/
def StreamEvent.bytes : StreamEvent → Payload
  | .surfaceCreate surfaceId => evSurfaceCreate :: le32 surfaceId
  | .surfaceDestroy surfaceId => evSurfaceDestroy :: le32 surfaceId
  | .poolData poolId width height stride format rawLen lz4Data =>
    evPoolData :: (le32 poolId ++ (le16 width ++ (le16 height ++ (le32 stride ++ (le32 format ++ (le32 rawLen ++
      lz4Data.bytes))))))
  | .surfaceCommit surfaceId poolId offset bufWidth bufHeight bufStride format damageX damageY damageW damageH =>
    evSurfaceCommit :: (le32 surfaceId ++ (le32 poolId ++ (le32 offset ++ (le16 bufWidth ++ (le16 bufHeight ++
      (le32 bufStride ++ (le32 format ++ (le16 damageX ++ (le16 damageY ++ (le16 damageW ++ le16 damageH))))))))))
  | .cursorMove x y => evCursorMove :: (le32 x.toUInt32 ++ le32 y.toUInt32)
  | .sessionReset reason msg => evSessionReset :: reason :: msg.bytes
  | .error code msg => evError :: (le16 code ++ msg.bytes)

/-- A payload: one or more events, no more of them than the forwarder takes. -/
structure EventPayload where
  events : List StreamEvent
  filled : events ≠ []
  small : (events.flatMap StreamEvent.bytes).length ≤ maxPayload

def EventPayload.body (payload : EventPayload) : Payload := payload.events.flatMap StreamEvent.bytes

/-- The payload behind its size. -/
def EventPayload.frame (payload : EventPayload) : Payload := toLe 4 payload.body.length ++ payload.body

section Inverse
variable {r r' : Payload}

theorem toLe_front {width n m : Nat} (fits : n < 256 ^ width) (fits' : m < 256 ^ width)
    (same : toLe width n ++ r = toLe width m ++ r') : n = m ∧ r = r' := by
  obtain ⟨front, back⟩ := List.append_inj same (by rw [toLe_length, toLe_length])
  have number := congrArg ofLe front
  rw [ofLe_toLe fits, ofLe_toLe fits'] at number
  exact ⟨number, back⟩

theorem le16_front {n m : UInt16} : le16 n ++ r = le16 m ++ r' ↔ n = m ∧ r = r' := by
  refine ⟨fun same => ?_, fun both => by rw [both.1, both.2]⟩
  obtain ⟨number, back⟩ := toLe_front n.toNat_lt m.toNat_lt same
  exact ⟨UInt16.toNat_inj.mp number, back⟩

theorem le32_front {n m : UInt32} : le32 n ++ r = le32 m ++ r' ↔ n = m ∧ r = r' := by
  refine ⟨fun same => ?_, fun both => by rw [both.1, both.2]⟩
  obtain ⟨number, back⟩ := toLe_front n.toNat_lt m.toNat_lt same
  exact ⟨UInt32.toNat_inj.mp number, back⟩

theorem Field.front {width : Nat} {field field' : Field width} :
    field.bytes ++ r = field'.bytes ++ r' ↔ field = field' ∧ r = r' := by
  refine ⟨fun same => ?_, fun both => by rw [both.1, both.2]⟩
  rw [Field.bytes, Field.bytes, List.append_assoc, List.append_assoc] at same
  obtain ⟨length, later⟩ := toLe_front field.fits field'.fits same
  obtain ⟨data, back⟩ := List.append_inj later length
  obtain ⟨data', fits⟩ := field
  obtain ⟨data'', fits'⟩ := field'
  exact ⟨by subst data; rfl, back⟩

/-- An event can be told from what follows it. -/
theorem StreamEvent.front {e e' : StreamEvent} (same : e.bytes ++ r = e'.bytes ++ r') : e = e' ∧ r = r' := by
  have type : ∀ {c c' : UInt8} {t t' : Payload}, c :: t = c' :: t' → c = c' := fun equal => (List.cons.inj equal).1
  cases e with
  | surfaceCreate =>
    cases e' with
    | surfaceCreate =>
      simp only [bytes, List.cons_append, List.cons.injEq, le32_front, true_and] at same
      exact ⟨by rw [same.1], same.2⟩
    | _ => exact absurd (type same) (by decide)
  | surfaceDestroy =>
    cases e' with
    | surfaceDestroy =>
      simp only [bytes, List.cons_append, List.cons.injEq, le32_front, true_and] at same
      exact ⟨by rw [same.1], same.2⟩
    | _ => exact absurd (type same) (by decide)
  | poolData =>
    cases e' with
    | poolData =>
      simp only [bytes, List.cons_append, List.append_assoc, List.cons.injEq, le32_front, le16_front, Field.front,
        true_and] at same
      obtain ⟨rfl, rfl, rfl, rfl, rfl, rfl, rfl, back⟩ := same
      exact ⟨rfl, back⟩
    | _ => exact absurd (type same) (by decide)
  | surfaceCommit =>
    cases e' with
    | surfaceCommit =>
      simp only [bytes, List.cons_append, List.append_assoc, List.cons.injEq, le32_front, le16_front, true_and] at same
      obtain ⟨rfl, rfl, rfl, rfl, rfl, rfl, rfl, rfl, rfl, rfl, rfl, back⟩ := same
      exact ⟨rfl, back⟩
    | _ => exact absurd (type same) (by decide)
  | cursorMove x y =>
    cases e' with
    | cursorMove x' y' =>
      simp only [bytes, List.cons_append, List.append_assoc, List.cons.injEq, le32_front, true_and] at same
      obtain ⟨first, second, back⟩ := same
      have same : x = x' ∧ y = y' := ⟨congrArg UInt32.toInt32 first, congrArg UInt32.toInt32 second⟩
      exact ⟨by rw [same.1, same.2], back⟩
    | _ => exact absurd (type same) (by decide)
  | sessionReset =>
    cases e' with
    | sessionReset =>
      simp only [bytes, List.cons_append, List.cons.injEq, Field.front, true_and] at same
      obtain ⟨rfl, rfl, back⟩ := same
      exact ⟨rfl, back⟩
    | _ => exact absurd (type same) (by decide)
  | error =>
    cases e' with
    | error =>
      simp only [bytes, List.cons_append, List.append_assoc, List.cons.injEq, le16_front, Field.front, true_and] at same
      obtain ⟨rfl, rfl, back⟩ := same
      exact ⟨rfl, back⟩
    | _ => exact absurd (type same) (by decide)

theorem StreamEvent.bytes_filled (e : StreamEvent) : e.bytes ≠ [] := by
  cases e <;> exact List.cons_ne_nil _ _

theorem events_inj {es es' : List StreamEvent} (same : es.flatMap StreamEvent.bytes = es'.flatMap StreamEvent.bytes) :
    es = es' := by
  induction es generalizing es' with
  | nil =>
    cases es' with
    | nil => rfl
    | cons e' es' => exact absurd (List.append_eq_nil_iff.mp same.symm).1 e'.bytes_filled
  | cons e es ih =>
    cases es' with
    | nil => exact absurd (List.append_eq_nil_iff.mp same).1 e.bytes_filled
    | cons e' es' =>
      obtain ⟨rfl, later⟩ := StreamEvent.front same
      rw [ih later]

end Inverse

/-- A frame has the events of one payload only. -/
theorem EventPayload.frame_inj {payload payload' : EventPayload} (same : payload.frame = payload'.frame) :
    payload.events = payload'.events := by
  obtain ⟨_, body⟩ := List.append_inj same (by rw [toLe_length, toLe_length])
  exact events_inj body

theorem fromLeBytes_eq (bytes : Payload) : fromLeBytes bytes = UInt32.ofNat (ofLe bytes) := by
  have number : bytes.foldr (fun byte rest => byte.toNat + 256 * rest) 0 = ofLe bytes := by
    induction bytes with
    | nil => rfl
    | cons byte rest ih => rw [List.foldr_cons, ofLe, ih]
  rw [fromLeBytes, number]

theorem fromLeBytes_le32 (n : UInt32) : fromLeBytes (le32 n) = n := by
  rw [fromLeBytes_eq, le32, ofLe_toLe n.toNat_lt]
  exact UInt32.ofNat_toNat

/-- Four bytes are the number that is read of them, as it is written. -/
theorem toLe_fromLeBytes {bytes : Payload} (four : bytes.length = 4) : toLe 4 (fromLeBytes bytes).toNat = bytes := by
  have bound := ofLe_lt bytes
  rw [four] at bound
  rw [fromLeBytes_eq, UInt32.toNat_ofNat_of_lt' bound, ← four, toLe_ofLe]

end Bsdos.Streams
