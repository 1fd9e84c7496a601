import Bsdos.Maps.Ordered
import Bsdos.Octets.Slice
import Bsdos.Octets.Unicode
import Bsdos.Octets.Utf16
import Bsdos.Text

namespace Bsdos.Plist
open Octets

abbrev Bytes := List UInt8

/-- Decoded object tree. The map of a dictionary is in the order of its keys. -/
inductive BPlistValue
  | null
  | bool (b : Bool)
  | int (n : Int)
  | real (x : Float)
  | data (bytes : Bytes)
  | str (s : String)
  | array (items : List BPlistValue)
  | dict (map : List (String × BPlistValue))

inductive RunError
  | plist (message : String)
  deriving DecidableEq, Repr

def BPlistValue.get (root : BPlistValue) (key : String) : Option BPlistValue :=
  match root with
  | .dict map => map.lookup key
  | _ => none

def BPlistValue.getString (root : BPlistValue) (key : String) : Option String :=
  match root.get key with
  | some (.str s) => some s
  | _ => none

def BPlistValue.getBool (root : BPlistValue) (key : String) : Option Bool :=
  match root.get key with
  | some (.bool b) => some b
  | _ => none

def BPlistValue.str? : BPlistValue → Option String
  | .str s => some s
  | _ => none

def BPlistValue.getArrayStrings (root : BPlistValue) (key : String) : List String :=
  match root.get key with
  | some (.array items) => items.filterMap BPlistValue.str?
  | _ => []

/-- The trailer: the geometry needed to walk the object table. -/
structure Trailer where
  offsetIntSize : Nat
  objectRefSize : Nat
  numObjects : Nat
  topObject : Nat
  offsetTableOffset : Nat
  deriving DecidableEq, Repr

def bplistMagic : Bytes := [0x62, 0x70, 0x6c, 0x69, 0x73, 0x74, 0x30, 0x30]

def orFail {α : Type} (message : String) : Option α → Except RunError α
  | some a => .ok a
  | none => .error (.plist message)

/-- Reads a big-endian number; bytes after the eighth are ignored. -/
def readBeUint (data : Bytes) : Nat := ofBe (data.take 8)

/-- `raw as i64`. -/
def asI64 (raw : Nat) : Int := if raw < 2 ^ 63 then raw else raw - 2 ^ 64

def sliceAt (bytes : Bytes) (offset len : Nat) : Except RunError Bytes := do
  let stop ← orFail "bplist slice length overflow" (checkedAdd offset len)
  orFail "bplist slice past end of file" (slice bytes offset stop)

/-- The number of elements of an object and where the first of them is. -/
def readCount (bytes : Bytes) (start objInfo : Nat) : Except RunError (Nat × Nat) :=
  if objInfo ≠ 0x0F then .ok (objInfo, start + 1)
  else do
    let intMarker ← orFail "bplist truncated extended count marker" bytes[start + 1]?
    if intMarker >>> 4 ≠ 0x1 then throw (.plist "bplist extended count is not an integer")
    let intLen := 2 ^ (intMarker &&& 0x0F).toNat
    let countBytes ← sliceAt bytes (start + 2) intLen
    return (readBeUint countBytes, start + 2 + intLen)

def decodeUtf16Be (data : Bytes) : String := fromUtf16Lossy (unitsBe data)

/-- A computation that counts down the recursion budget. -/
abbrev Budget := StateT Nat (Except RunError)

def parseReal (n : Nat) (data : Bytes) : Except RunError BPlistValue :=
  if n = 4 then .ok (.real (Float32.ofBits (UInt32.ofNat (ofBe data))).toFloat)
  else if n = 8 then .ok (.real (Float.ofBits (UInt64.ofNat (ofBe data))))
  else .error (.plist ("bplist unsupported real width " ++ toString n))

/-- The objects without children. -/
def parseScalar (bytes : Bytes) (start : Nat) (marker : UInt8) : Except RunError BPlistValue :=
  let objType := marker >>> 4
  let objInfo := (marker &&& 0x0F).toNat
  if objType = 0x0 then
    if marker = 0x00 then .ok .null
    else if marker = 0x08 then .ok (.bool false)
    else if marker = 0x09 then .ok (.bool true)
    else if marker = 0x0F then .ok .null
    else .error (.plist ("bplist unknown 0x0 marker 0x" ++ Text.hexEncode [marker]))
  else if objType = 0x1 then do
    let data ← sliceAt bytes (start + 1) (2 ^ objInfo)
    return .int (asI64 (readBeUint data))
  else if objType = 0x2 then do
    let data ← sliceAt bytes (start + 1) (2 ^ objInfo)
    parseReal (2 ^ objInfo) data
  else if objType = 0x4 then do
    let (count, dataStart) ← readCount bytes start objInfo
    let data ← sliceAt bytes dataStart count
    return .data data
  else if objType = 0x5 then do
    let (count, dataStart) ← readCount bytes start objInfo
    let data ← sliceAt bytes dataStart count
    return .str (fromUtf8Lossy data)
  else if objType = 0x6 then do
    let (count, dataStart) ← readCount bytes start objInfo
    let byteLen ← orFail "bplist utf16 length overflow" (checkedMul count 2)
    let data ← sliceAt bytes dataStart byteLen
    return .str (decodeUtf16Be data)
  else .error (.plist ("bplist unsupported object type 0x" ++ String.ofList (Nat.toDigits 16 objType.toNat)))

/-- The loop over the references of an array, from reference `i` on. -/
def parseItems (bytes : Bytes) (refSize refsStart : Nat) (parseObject : Nat → Budget BPlistValue) :
    Nat → Nat → Budget (List BPlistValue)
  | 0, _ => return []
  | left + 1, i => do
    let refBytes ← sliceAt bytes (refsStart + i * refSize) refSize
    let item ← parseObject (readBeUint refBytes)
    let items ← parseItems bytes refSize refsStart parseObject left (i + 1)
    return item :: items

/-- Keys that are not strings are ignored. -/
def insertEntry (map : List (String × BPlistValue)) (keyObj valObj : BPlistValue) : List (String × BPlistValue) :=
  match keyObj with
  | .str k => OrderedMap.insert k valObj map
  | _ => map

/-- The loop over the entries of a dictionary, from entry `i` on. -/
def parseEntries (bytes : Bytes) (refSize keysStart valuesStart : Nat) (parseObject : Nat → Budget BPlistValue) :
    Nat → Nat → List (String × BPlistValue) → Budget (List (String × BPlistValue))
  | 0, _, map => return map
  | left + 1, i, map => do
    let keyRef ← sliceAt bytes (keysStart + i * refSize) refSize
    let valRef ← sliceAt bytes (valuesStart + i * refSize) refSize
    let keyObj ← parseObject (readBeUint keyRef)
    let valObj ← parseObject (readBeUint valRef)
    parseEntries bytes refSize keysStart valuesStart parseObject left (i + 1) (insertEntry map keyObj valObj)

/-- Every call counts the budget down, so that a call with as much fuel as budget
never runs out of fuel first. -/
def parseObject (bytes : Bytes) (offsets : List Nat) (trailer : Trailer) : Nat → Nat → Budget BPlistValue
  | 0, _ => throw (.plist "bplist nesting too deep")
  | fuel + 1, idx => do
    let depth ← get
    if depth = 0 then throw (.plist "bplist nesting too deep")
    set (depth - 1)
    let start ← orFail "bplist object index out of range" offsets[idx]?
    let marker ← orFail "bplist object offset past end" bytes[start]?
    let refSize := trailer.objectRefSize
    if marker >>> 4 = 0xA then do
      let (count, refsStart) ← readCount bytes start (marker &&& 0x0F).toNat
      let items ← parseItems bytes refSize refsStart (parseObject bytes offsets trailer fuel) count 0
      return .array items
    else if marker >>> 4 = 0xD then do
      let (count, keysStart) ← readCount bytes start (marker &&& 0x0F).toNat
      let valuesStart ← orFail "bplist dict layout overflow" (checkedAdd keysStart (count * refSize % 2 ^ 64))
      let map ← parseEntries bytes refSize keysStart valuesStart (parseObject bytes offsets trailer fuel) count 0 []
      return .dict map
    else parseScalar bytes start marker

/-- The trailer in the last 32 bytes. -/
def readTrailer (bytes : Bytes) : Trailer :=
  let t := bytes.drop (bytes.length - 32)
  { offsetIntSize := (t.getD 6 0).toNat
    objectRefSize := (t.getD 7 0).toNat
    numObjects := readBeUint ((t.drop 8).take 8)
    topObject := readBeUint ((t.drop 16).take 8)
    offsetTableOffset := readBeUint ((t.drop 24).take 8) }

/-- The loop over the offset table, from entry `i` on. -/
def readOffsets (bytes : Bytes) (tableOffset size : Nat) : Nat → Nat → Except RunError (List Nat)
  | 0, _ => return []
  | left + 1, i => do
    let off := readBeUint ((bytes.drop (tableOffset + i * size)).take size)
    if off ≥ bytes.length then throw (.plist "bplist object offset past end of file")
    let offsets ← readOffsets bytes tableOffset size left (i + 1)
    return off :: offsets

def depthBudget : Nat := 256

def parseBplist (bytes : Bytes) : Except RunError BPlistValue := do
  if bytes.length < 8 + 32 then throw (.plist "bplist too short to contain header + trailer")
  if bytes.take 8 ≠ bplistMagic then throw (.plist "not a bplist00 binary plist")
  let trailer := readTrailer bytes
  if trailer.offsetIntSize = 0 ∨ trailer.offsetIntSize > 8 then
    throw (.plist ("bplist invalid offset_int_size " ++ toString trailer.offsetIntSize))
  if trailer.objectRefSize = 0 ∨ trailer.objectRefSize > 8 then
    throw (.plist ("bplist invalid object_ref_size " ++ toString trailer.objectRefSize))
  if trailer.numObjects = 0 then throw (.plist "bplist has zero objects")
  if trailer.topObject ≥ trailer.numObjects then throw (.plist "bplist top_object index out of range")
  let tableSpan ← orFail "bplist offset table size overflow" (checkedMul trailer.numObjects trailer.offsetIntSize)
  let tableEnd ← orFail "bplist offset table end overflow" (checkedAdd trailer.offsetTableOffset tableSpan)
  if tableEnd > bytes.length then throw (.plist "bplist offset table extends past end of file")
  let offsets ← readOffsets bytes trailer.offsetTableOffset trailer.offsetIntSize trailer.numObjects 0
  let (value, _) ← (parseObject bytes offsets trailer depthBudget trailer.topObject).run depthBudget
  return value

end Bsdos.Plist
