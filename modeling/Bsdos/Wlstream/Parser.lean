import Bsdos.Framing
import Bsdos.Octets.Slice
import Bsdos.Text

namespace Bsdos.Wlstream
open Octets

abbrev Bytes := List UInt8

def evSurfaceCreate : UInt8 := 0x01

def evSurfaceDestroy : UInt8 := 0x02

def evPoolData : UInt8 := 0x03

def evSurfaceCommit : UInt8 := 0x04

def evCursorMove : UInt8 := 0x05

inductive StreamEvent
  | surfaceCreate (surfaceId : UInt32)
  | surfaceDestroy (surfaceId : UInt32)
  | poolData (poolId : UInt32) (width height : UInt16) (stride format rawLen : UInt32) (lz4Data : Bytes)
  | surfaceCommit (surfaceId poolId offset : UInt32) (bufWidth bufHeight : UInt16) (bufStride format : UInt32)
      (damageX damageY damageW damageH : UInt16)
  | cursorMove (x y : Int32)
  deriving DecidableEq

/-! Numbers in a buffer, least byte first. -/

def u16At (data : Bytes) (i : Nat) : UInt16 := UInt16.ofNat (ofLe (part data i 2))

def u32At (data : Bytes) (i : Nat) : UInt32 := UInt32.ofNat (ofLe (part data i 4))

def i32At (data : Bytes) (i : Nat) : Int32 := (u32At data i).toInt32

def parseSurfaceCreate (data : Bytes) : Except String (StreamEvent × Nat) :=
  if data.length < 4 then .error "SURFACE_CREATE: need 4 bytes" else .ok (.surfaceCreate (u32At data 0), 4)

def parseSurfaceDestroy (data : Bytes) : Except String (StreamEvent × Nat) :=
  if data.length < 4 then .error "SURFACE_DESTROY: need 4 bytes" else .ok (.surfaceDestroy (u32At data 0), 4)

def parsePoolData (data : Bytes) : Except String (StreamEvent × Nat) :=
  if data.length < 24 then .error ("POOL_DATA: need 24 bytes header, got " ++ toString data.length)
  else
    let lz4Len := (u32At data 20).toNat
    if data.length < 24 + lz4Len then
      .error ("POOL_DATA: need " ++ toString lz4Len ++ " bytes lz4 data, got " ++ toString (data.length - 24))
    else
      .ok (.poolData (u32At data 0) (u16At data 4) (u16At data 6) (u32At data 8) (u32At data 12) (u32At data 16)
        (part data 24 lz4Len), 24 + lz4Len)

def parseSurfaceCommit (data : Bytes) : Except String (StreamEvent × Nat) :=
  if data.length < 32 then .error ("SURFACE_COMMIT: need 32 bytes, got " ++ toString data.length)
  else
    .ok (.surfaceCommit (u32At data 0) (u32At data 4) (u32At data 8) (u16At data 12) (u16At data 14) (u32At data 16)
      (u32At data 20) (u16At data 24) (u16At data 26) (u16At data 28) (u16At data 30), 32)

def parseCursorMove (data : Bytes) : Except String (StreamEvent × Nat) :=
  if data.length < 8 then .error "CURSOR_MOVE: need 8 bytes" else .ok (.cursorMove (i32At data 0) (i32At data 4), 8)

def unknown (eventType : UInt8) : String := "Unknown event type 0x" ++ Text.hexEncode [eventType]

/-- What the type of an event selects. -/
def parseEvent (eventType : UInt8) (data : Bytes) : Except String (StreamEvent × Nat) :=
  if eventType = evSurfaceCreate then parseSurfaceCreate data
  else if eventType = evSurfaceDestroy then parseSurfaceDestroy data
  else if eventType = evPoolData then parsePoolData data
  else if eventType = evSurfaceCommit then parseSurfaceCommit data
  else if eventType = evCursorMove then parseCursorMove data
  else .error (unknown eventType)

/-- The loop over the events, on what is left of the payload. Each event takes a byte at least,
so that as many rounds as there are bytes are enough. -/
def parseLoop : Nat → Bytes → List (Except String StreamEvent)
  | 0, _ => []
  | _ + 1, [] => []
  | n + 1, eventType :: data =>
    match parseEvent eventType data with
    | .ok (event, consumed) => .ok event :: parseLoop n (data.drop consumed)
    | .error e => [.error e]

/-- The events of a payload: they end where its size says, or where the data does. -/
def region (data : Bytes) : Bytes := (data.take (min (4 + (u32At data 0).toNat) data.length)).drop 4

def parseEvents (data : Bytes) : List (Except String StreamEvent) :=
  if data.length < 4 then [] else parseLoop (region data).length (region data)

def isV1Protocol (data : Bytes) : Bool :=
  if data.length < 5 then false
  else
    let totalSize := (u32At data 0).toNat
    let firstEvent := data.getD 4 0
    0 < totalSize && totalSize ≤ data.length - 4 && 0x01 ≤ firstEvent && firstEvent ≤ 0x05

/-! The sender. -/

def le16 (n : UInt16) : Bytes := toLe 2 n.toNat

def le32 (n : UInt32) : Bytes := toLe 4 n.toNat

def lei32 (n : Int32) : Bytes := le32 n.toUInt32

/-- A builder for payloads. -/
structure Encoder where
  events : Bytes := []

namespace Encoder

def surfaceCreate (enc : Encoder) (surfaceId : UInt32) : Encoder :=
  { events := enc.events ++ (evSurfaceCreate :: le32 surfaceId) }

def surfaceDestroy (enc : Encoder) (surfaceId : UInt32) : Encoder :=
  { events := enc.events ++ (evSurfaceDestroy :: le32 surfaceId) }

def poolData (enc : Encoder) (poolId : UInt32) (width height : UInt16) (stride format rawLen : UInt32) (lz4Data : Bytes) :
    Encoder :=
  { events := enc.events ++ (evPoolData :: (le32 poolId ++ (le16 width ++ (le16 height ++ (le32 stride ++ (le32 format ++
      (le32 rawLen ++ (le32 (UInt32.ofNat lz4Data.length) ++ lz4Data)))))))) }

def surfaceCommit (enc : Encoder) (surfaceId poolId offset : UInt32) (bufWidth bufHeight : UInt16)
    (bufStride format : UInt32) (damageX damageY damageW damageH : UInt16) : Encoder :=
  { events := enc.events ++ (evSurfaceCommit :: (le32 surfaceId ++ (le32 poolId ++ (le32 offset ++ (le16 bufWidth ++
      (le16 bufHeight ++ (le32 bufStride ++ (le32 format ++ (le16 damageX ++ (le16 damageY ++ (le16 damageW ++
        le16 damageH))))))))))) }

def cursorMove (enc : Encoder) (x y : Int32) : Encoder :=
  { events := enc.events ++ (evCursorMove :: (lei32 x ++ lei32 y)) }

def finish (enc : Encoder) : Bytes := le32 (UInt32.ofNat enc.events.length) ++ enc.events

/-- The method for an event. -/
def push (enc : Encoder) : StreamEvent → Encoder
  | .surfaceCreate surfaceId => enc.surfaceCreate surfaceId
  | .surfaceDestroy surfaceId => enc.surfaceDestroy surfaceId
  | .poolData poolId width height stride format rawLen lz4Data =>
    enc.poolData poolId width height stride format rawLen lz4Data
  | .surfaceCommit surfaceId poolId offset bufWidth bufHeight bufStride format damageX damageY damageW damageH =>
    enc.surfaceCommit surfaceId poolId offset bufWidth bufHeight bufStride format damageX damageY damageW damageH
  | .cursorMove x y => enc.cursorMove x y

end Encoder

/-- The payload of these events. -/
def encode (events : List StreamEvent) : Bytes := (events.foldl Encoder.push {}).finish

end Bsdos.Wlstream
