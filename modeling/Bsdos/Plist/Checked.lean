import Bsdos.Effects.Machine
import Bsdos.Plist.Denoted

namespace Bsdos.Plist.Checked
open Octets Machine

/-- The recursion budget, and the objects that have been decoded, in order. -/
structure Meter where
  depth : Nat
  decoded : List Nat
  deriving DecidableEq, Repr

/-- A computation that counts down the recursion budget, also where it stops. -/
abbrev Budget := ExceptT (Stop RunError) (StateM Meter)

def fail {α : Type} (message : String) : Guarded RunError α := .error (.refused (.plist message))

def sliceAt (bytes : Bytes) (offset len : Nat) : Guarded RunError Bytes := refuse (Plist.sliceAt bytes offset len)

def readCount (bytes : Bytes) (start objInfo : Nat) : Guarded RunError (Nat × Nat) :=
  if objInfo ≠ 0x0F then do return (objInfo, ← add start 1)
  else do
    let intMarker ← refuse (orFail "bplist truncated extended count marker" bytes[← add start 1]?)
    if intMarker >>> 4 ≠ 0x1 then fail "bplist extended count is not an integer"
    let intLen ← bit (intMarker &&& 0x0F).toNat
    let countBytes ← sliceAt bytes (← add start 2) intLen
    return (readBeUint countBytes, ← add (← add start 2) intLen)

/-- `data.chunks_exact(2)`. -/
def chunksExact : Bytes → List Bytes
  | high :: low :: rest => [high, low] :: chunksExact rest
  | _ => []

def decodeUtf16Be (data : Bytes) : Guarded RunError String := do
  let units ← (chunksExact data).mapM fun c => do return UInt16.ofNat (ofBe [← index c 0, ← index c 1])
  return fromUtf16Lossy units

def parseReal (n : Nat) (data : Bytes) : Guarded RunError BPlistValue :=
  if n = 4 then do return .real (Float32.ofBits (UInt32.ofNat (ofBe (← copyFromSlice 4 data)))).toFloat
  else if n = 8 then do return .real (Float.ofBits (UInt64.ofNat (ofBe (← copyFromSlice 8 data))))
  else fail ("bplist unsupported real width " ++ toString n)

/-- The objects without children. -/
def parseScalar (bytes : Bytes) (start : Nat) (marker : UInt8) : Guarded RunError BPlistValue :=
  let objType := marker >>> 4
  let objInfo := (marker &&& 0x0F).toNat
  if objType = 0x0 then
    if marker = 0x00 then .ok .null
    else if marker = 0x08 then .ok (.bool false)
    else if marker = 0x09 then .ok (.bool true)
    else if marker = 0x0F then .ok .null
    else fail ("bplist unknown 0x0 marker 0x" ++ Text.hexEncode [marker])
  else if objType = 0x1 then do
    let n ← bit objInfo
    let data ← sliceAt bytes (← add start 1) n
    return .int (asI64 (readBeUint data))
  else if objType = 0x2 then do
    let n ← bit objInfo
    let data ← sliceAt bytes (← add start 1) n
    parseReal n data
  else if objType = 0x4 then do
    let (count, dataStart) ← readCount bytes start objInfo
    let data ← sliceAt bytes dataStart count
    return .data data
  else if objType = 0x5 then do
    let (count, dataStart) ← readCount bytes start objInfo
    let data ← sliceAt bytes dataStart count
    return .str (fromUtf8Lossy data)
  else if objType = 0x6 then do
    let (count, dataStart) ← readCount bytes start objInfo
    let byteLen ← refuse (orFail "bplist utf16 length overflow" (checkedMul count 2))
    let data ← sliceAt bytes dataStart byteLen
    return .str (← decodeUtf16Be data)
  else fail ("bplist unsupported object type 0x" ++ String.ofList (Nat.toDigits 16 objType.toNat))

/-- `base + i * size`. -/
def position (base i size : Nat) : Guarded RunError Nat := do add base (← mul i size)

/-- The loop over the references of an array, from reference `i` on. -/
def parseItems (bytes : Bytes) (refSize refsStart : Nat) (parseObject : Nat → Budget BPlistValue) :
    Nat → Nat → Budget (List BPlistValue)
  | 0, _ => return []
  | left + 1, i => do
    let refPos ← position refsStart i refSize
    let refBytes ← sliceAt bytes refPos refSize
    let item ← parseObject (readBeUint refBytes)
    let items ← parseItems bytes refSize refsStart parseObject left (i + 1)
    return item :: items

/-- The loop over the entries of a dictionary, from entry `i` on. -/
def parseEntries (bytes : Bytes) (refSize keysStart valuesStart : Nat) (parseObject : Nat → Budget BPlistValue) :
    Nat → Nat → List (String × BPlistValue) → Budget (List (String × BPlistValue))
  | 0, _, map => return map
  | left + 1, i, map => do
    let keyPos ← position keysStart i refSize
    let valPos ← position valuesStart i refSize
    let keyRef ← sliceAt bytes keyPos refSize
    let valRef ← sliceAt bytes valPos refSize
    let keyObj ← parseObject (readBeUint keyRef)
    let valObj ← parseObject (readBeUint valRef)
    parseEntries bytes refSize keysStart valuesStart parseObject left (i + 1) (insertEntry map keyObj valObj)

/-- How many elements the vectors are preallocated for at most, that of the offsets and that of the items of an array. -/
structure Room where
  offsets : Nat
  items : Nat
  deriving DecidableEq, Repr

/-- No more elements than the input has bytes. -/
def byBytes (bytes : Bytes) : Room := ⟨bytes.length, bytes.length⟩

/-- What `Vec` serves: no more than `isize::MAX` bytes, where a `BPlistValue` has `size` of them. -/
def bySize (size : Nat) : Room := ⟨capacityOf 64 8, capacityOf 64 size⟩

def parseObject (room : Room) (bytes : Bytes) (offsets : List Nat) (trailer : Trailer) : Nat → Nat → Budget BPlistValue
  | 0, _ => fail "bplist nesting too deep"
  | fuel + 1, idx => do
    let meter ← get
    if meter.depth = 0 then fail "bplist nesting too deep"
    let less ← (sub meter.depth 1 : Guarded RunError Nat)
    set { depth := less, decoded := meter.decoded ++ [idx] : Meter }
    let start ← refuse (orFail "bplist object index out of range" offsets[idx]?)
    let marker ← refuse (orFail "bplist object offset past end" bytes[start]?)
    let refSize := trailer.objectRefSize
    if marker >>> 4 = 0xA then do
      let (count, refsStart) ← readCount bytes start (marker &&& 0x0F).toNat
      (withCapacity room.items count : Guarded RunError Unit)
      let items ← parseItems bytes refSize refsStart (parseObject room bytes offsets trailer fuel) count 0
      return .array items
    else if marker >>> 4 = 0xD then do
      let (count, keysStart) ← readCount bytes start (marker &&& 0x0F).toNat
      let span ← (mul count refSize : Guarded RunError Nat)
      let valuesStart ← refuse (orFail "bplist dict layout overflow" (checkedAdd keysStart span))
      let map ← parseEntries bytes refSize keysStart valuesStart (parseObject room bytes offsets trailer fuel) count 0 []
      return .dict map
    else parseScalar bytes start marker

def u64FromBe (data : Bytes) : Guarded RunError Nat := do return readBeUint (← range data 0 (min 8 data.length))

def readTrailer (bytes : Bytes) : Guarded RunError Trailer := do
  let t ← range bytes (← sub bytes.length 32) bytes.length
  let offsetIntSize ← index t 6
  let objectRefSize ← index t 7
  let numObjects ← u64FromBe (← range t 8 16)
  let topObject ← u64FromBe (← range t 16 24)
  let offsetTableOffset ← u64FromBe (← range t 24 32)
  return { offsetIntSize := offsetIntSize.toNat
           objectRefSize := objectRefSize.toNat
           numObjects := numObjects
           topObject := topObject
           offsetTableOffset := offsetTableOffset }

/-- The loop over the offset table, from entry `i` on. -/
def readOffsets (bytes : Bytes) (tableOffset size : Nat) : Nat → Nat → Guarded RunError (List Nat)
  | 0, _ => return []
  | left + 1, i => do
    let pos ← position tableOffset i size
    let off := readBeUint (← range bytes pos (← add pos size))
    if off ≥ bytes.length then fail "bplist object offset past end of file"
    let offsets ← readOffsets bytes tableOffset size left (i + 1)
    return off :: offsets

/-- What the parser gives, and the meter at the end if it comes to the top object. -/
def parseMetered (room : Room) (fuel : Nat) (bytes : Bytes) : Guarded RunError (Guarded RunError BPlistValue × Meter) := do
  if bytes.length < 8 + 32 then fail "bplist too short to contain header + trailer"
  if (← range bytes 0 8) ≠ bplistMagic then fail "not a bplist00 binary plist"
  let trailer ← readTrailer bytes
  if trailer.offsetIntSize = 0 ∨ trailer.offsetIntSize > 8 then
    fail ("bplist invalid offset_int_size " ++ toString trailer.offsetIntSize)
  if trailer.objectRefSize = 0 ∨ trailer.objectRefSize > 8 then
    fail ("bplist invalid object_ref_size " ++ toString trailer.objectRefSize)
  if trailer.numObjects = 0 then fail "bplist has zero objects"
  if trailer.topObject ≥ trailer.numObjects then fail "bplist top_object index out of range"
  let tableSpan ← refuse (orFail "bplist offset table size overflow" (checkedMul trailer.numObjects trailer.offsetIntSize))
  let tableEnd ← refuse (orFail "bplist offset table end overflow" (checkedAdd trailer.offsetTableOffset tableSpan))
  if tableEnd > bytes.length then fail "bplist offset table extends past end of file"
  withCapacity room.offsets trailer.numObjects
  let offsets ← readOffsets bytes trailer.offsetTableOffset trailer.offsetIntSize trailer.numObjects 0
  return (parseObject room bytes offsets trailer fuel trailer.topObject).run.run { depth := depthBudget, decoded := [] }

/-- The parser with every step that can fault: `Plist.parseBplist` is what it does where none does. -/
def parseBplistIn (room : Room) (bytes : Bytes) : Guarded RunError BPlistValue := do
  let (value, _) ← parseMetered room depthBudget bytes
  value

def parseBplist (bytes : Bytes) : Guarded RunError BPlistValue := parseBplistIn (byBytes bytes) bytes

/-- The objects that are decoded, in order. -/
def decodedBy (room : Room) (bytes : Bytes) : List Nat :=
  match parseMetered room depthBudget bytes with
  | .ok (_, meter) => meter.decoded
  | .error _ => []

/-- What the parser comes to at an object. -/
inductive Met
  | malformed
  | oversized
  | refs (refs : List (Option Nat))

/-- The reference at a position, unless it is past the end of the file. -/
def refAt (bytes : Bytes) (refSize pos : Nat) : Option Nat := (slice bytes pos (pos + refSize)).map readBeUint

/-- The references of an array from reference `i` on, up to one that is past the end. -/
def itemRefs (bytes : Bytes) (refSize refsStart : Nat) : Nat → Nat → List (Option Nat)
  | 0, _ => []
  | left + 1, i =>
    match refAt bytes refSize (refsStart + i * refSize) with
    | some ref => some ref :: itemRefs bytes refSize refsStart left (i + 1)
    | none => [none]

/-- The references of a dictionary, the key and the value of one entry after the other. -/
def entryRefs (bytes : Bytes) (refSize keysStart valuesStart : Nat) : Nat → Nat → List (Option Nat)
  | 0, _ => []
  | left + 1, i =>
    match refAt bytes refSize (keysStart + i * refSize), refAt bytes refSize (valuesStart + i * refSize) with
    | some key, some value => some key :: some value :: entryRefs bytes refSize keysStart valuesStart left (i + 1)
    | _, _ => [none]

/-- An array is oversized if it declares more elements than there is room for, a dictionary if its references
would not fit into the address space. -/
def metAt (room : Room) (bytes : Bytes) (refSize start : Nat) (marker : UInt8) : Met :=
  if marker >>> 4 = 0xA then
    match Plist.readCount bytes start (marker &&& 0x0F).toNat with
    | .error _ => .malformed
    | .ok (count, refsStart) =>
      if room.items < count then .oversized else .refs (itemRefs bytes refSize refsStart count 0)
  else if marker >>> 4 = 0xD then
    match Plist.readCount bytes start (marker &&& 0x0F).toNat with
    | .error _ => .malformed
    | .ok (count, keysStart) =>
      if 2 ^ 64 ≤ count * refSize then .oversized
      else if 2 ^ 64 ≤ keysStart + count * refSize then .malformed
      else .refs (entryRefs bytes refSize keysStart (keysStart + count * refSize) count 0)
  else
    match Plist.parseScalar bytes start marker with
    | .error _ => .malformed
    | .ok _ => .refs []

def met (room : Room) (bytes : Bytes) (offsets : List Nat) (refSize idx : Nat) : Met :=
  match offsets[idx]? with
  | none => .malformed
  | some start =>
    match bytes[start]? with
    | none => .malformed
    | some marker => metAt room bytes refSize start marker

/-- How the visit of the objects ends. -/
inductive Ending
  | done
  | stuck
  | oversized
  deriving DecidableEq, Repr

/-- The objects that are visited, depth first, until one is malformed or oversized or the budget is spent. -/
def walk (met : Nat → Met) : Nat → List (Option Nat) → List Nat × Ending
  | _, [] => ([], .done)
  | budget + 1, some idx :: rest =>
    let later : List Nat × Ending :=
      match met idx with
      | .malformed => ([], .stuck)
      | .oversized => ([], .oversized)
      | .refs refs => walk met budget (refs ++ rest)
    (idx :: later.1, later.2)
  | _, _ => ([], .stuck)

/-- The header, the trailer and the offset table are as they must be. -/
def Headed (bytes : Bytes) : Prop :=
  let trailer := Plist.readTrailer bytes
  8 + 32 ≤ bytes.length ∧ bytes.take 8 = bplistMagic ∧ (1 ≤ trailer.offsetIntSize ∧ trailer.offsetIntSize ≤ 8) ∧
    (1 ≤ trailer.objectRefSize ∧ trailer.objectRefSize ≤ 8) ∧ trailer.topObject < trailer.numObjects ∧
    trailer.offsetTableOffset + trailer.numObjects * trailer.offsetIntSize ≤ bytes.length ∧
    ∀ off ∈ offsetTable bytes, off < bytes.length

instance (bytes : Bytes) : Decidable (Headed bytes) := inferInstanceAs (Decidable (_ ∧ _))

def walkFile (room : Room) (bytes : Bytes) : List Nat × Ending :=
  let trailer := Plist.readTrailer bytes
  walk (met room bytes (offsetTable bytes) trailer.objectRefSize) depthBudget [some trailer.topObject]

/-- There is room for the offsets, and the objects of the file lead to an oversized one. -/
def MeetsOversizedIn (room : Room) (bytes : Bytes) : Prop :=
  Headed bytes ∧ (Plist.readTrailer bytes).numObjects ≤ room.offsets ∧ (walkFile room bytes).2 = .oversized

instance (room : Room) (bytes : Bytes) : Decidable (MeetsOversizedIn room bytes) := inferInstanceAs (Decidable (_ ∧ _ ∧ _))

/-- The objects of the file lead to one that is oversized for the bytes it has. -/
def MeetsOversized (bytes : Bytes) : Prop := Headed bytes ∧ (walkFile (byBytes bytes) bytes).2 = .oversized

instance (bytes : Bytes) : Decidable (MeetsOversized bytes) := inferInstanceAs (Decidable (_ ∧ _))

theorem nibble_le (marker : UInt8) : (marker &&& 0x0F).toNat ≤ 15 := by
  rw [UInt8.toNat_and]
  exact Nat.and_le_right

theorem nibble_width (marker : UInt8) : 2 ^ (marker &&& 0x0F).toNat ≤ 2 ^ 15 :=
  Nat.pow_le_pow_right (by omega) (nibble_le marker)

section Defined
variable {bytes data : Bytes} {start objInfo : Nat}

theorem readCount_defined (small : start + 2 + 2 ^ 15 < 2 ^ 64) :
    readCount bytes start objInfo = refuse (Plist.readCount bytes start objInfo) := by
  rw [readCount, Plist.readCount]
  by_cases inline : objInfo ≠ 0x0F
  · rw [if_pos inline, if_pos inline, add_small (by omega)]
    rfl
  · rw [if_neg inline, if_neg inline, add_small (by omega), ok_bind]
    refine refuse_bind fun intMarker _ => ?_
    by_cases typed : intMarker >>> 4 ≠ 0x1
    · rw [if_pos typed, if_pos typed]
      rfl
    · have width := nibble_width intMarker
      have narrow := nibble_le intMarker
      rw [if_neg typed, if_neg typed, bit_small (by omega), add_small (by omega)]
      refine refuse_bind fun countBytes _ => ?_
      rw [ok_bind, add_small (by omega)]
      rfl

theorem readCount_start {r : Nat × Nat} (ok : Plist.readCount bytes start objInfo = .ok r) :
    r.2 ≤ start + 2 + 2 ^ 15 := by
  rw [Plist.readCount] at ok
  by_cases inline : objInfo ≠ 0x0F
  · rw [if_pos inline] at ok
    cases ok
    exact (by omega : start + 1 ≤ start + 2 + 2 ^ 15)
  · rw [if_neg inline] at ok
    obtain ⟨intMarker, -, ok⟩ := Results.bind_ok ok
    obtain ⟨-, ok⟩ := Results.guard_ok.mp ok
    obtain ⟨countBytes, -, made⟩ := Results.bind_ok ok
    cases Except.ok.inj made
    exact Nat.add_le_add_left (nibble_width intMarker) _

theorem decodeUtf16Be_defined : decodeUtf16Be data = .ok (Plist.decodeUtf16Be data) := by
  have units (data : Bytes) : ((chunksExact data).mapM fun c => do
      return UInt16.ofNat (ofBe [← index c 0, ← index c 1]) : Guarded RunError (List UInt16)) = .ok (unitsBe data) := by
    induction data using chunksExact.induct with
    | case1 high low rest ih =>
      rw [chunksExact, List.mapM_cons, ih]
      rfl
    | case2 data short =>
      rw [chunksExact, unitsBe]
      · rfl
      · exact short
      · exact short
  rw [decodeUtf16Be, units]
  rfl

theorem parseReal_defined {n : Nat} (width : data.length = n) : parseReal n data = refuse (Plist.parseReal n data) := by
  rw [parseReal, Plist.parseReal]
  by_cases single : n = 4
  · rw [if_pos single, if_pos single, copyFromSlice, demand_met (by omega)]
    rfl
  · rw [if_neg single, if_neg single]
    by_cases double : n = 8
    · rw [if_pos double, if_pos double, copyFromSlice, demand_met (by omega)]
      rfl
    · rw [if_neg double, if_neg double]
      rfl

theorem sliceAt_ok {pos len : Nat} (ok : Plist.sliceAt bytes pos len = .ok data) :
    slice bytes pos (pos + len) = some data ∧ pos + len ≤ bytes.length ∧ data.length = len := by
  obtain ⟨stop, summed, ok⟩ := Results.bind_ok ok
  have sum : stop = pos + len := by
    revert summed
    rw [checkedAdd]
    split <;> simp [orFail, eq_comm]
  subst sum
  cases found : slice bytes pos (pos + len) with
  | none => simp [found, orFail] at ok
  | some part =>
    rw [found] at ok
    cases ok
    rw [slice] at found
    split at found
    · rename_i inside
      cases found
      refine ⟨rfl, inside.2, ?_⟩
      rw [List.length_take, List.length_drop]
      omega
    · cases found

theorem parseScalar_defined {marker : UInt8} (small : start + 2 + 2 ^ 15 < 2 ^ 64) :
    parseScalar bytes start marker = refuse (Plist.parseScalar bytes start marker) := by
  have narrow := nibble_le marker
  have counted : readCount bytes start (marker &&& 0x0F).toNat = refuse (Plist.readCount bytes start (marker &&& 0x0F).toNat) :=
    readCount_defined small
  rw [parseScalar, Plist.parseScalar]
  dsimp only
  rw [bit_small (by omega), add_small (by omega), counted]
  by_cases zero : marker >>> 4 = 0x0
  · rw [if_pos zero, if_pos zero]
    split_ifs <;> rfl
  rw [if_neg zero, if_neg zero]
  by_cases one : marker >>> 4 = 0x1
  · rw [if_pos one, if_pos one]
    exact refuse_bind fun data _ => rfl
  rw [if_neg one, if_neg one]
  by_cases two : marker >>> 4 = 0x2
  · rw [if_pos two, if_pos two]
    exact refuse_bind fun data read => parseReal_defined (sliceAt_ok read).2.2
  rw [if_neg two, if_neg two]
  by_cases four : marker >>> 4 = 0x4
  · rw [if_pos four, if_pos four]
    exact refuse_bind fun count _ => refuse_bind fun data _ => rfl
  rw [if_neg four, if_neg four]
  by_cases five : marker >>> 4 = 0x5
  · rw [if_pos five, if_pos five]
    exact refuse_bind fun count _ => refuse_bind fun data _ => rfl
  rw [if_neg five, if_neg five]
  by_cases six : marker >>> 4 = 0x6
  · rw [if_pos six, if_pos six]
    refine refuse_bind fun count _ => refuse_bind fun byteLen _ => refuse_bind fun data _ => ?_
    rw [decodeUtf16Be_defined]
    rfl
  · rw [if_neg six, if_neg six]
    rfl

end Defined

/-- How the run with the steps that can fault and the run without them go on with a budget: as one, where what is
decoded is what is visited; or the first one faults, and the visit comes to an oversized object. -/
inductive Tracks {α : Type} (meter : Meter) (before : List Nat × Ending) (after : Nat → List Nat × Ending) :
    Guarded RunError α × Meter → Except RunError (α × Nat) → Prop
  | done {a : α} {meter' : Meter} {visited : List Nat} (less : meter'.depth ≤ meter.depth)
      (logged : meter'.decoded = meter.decoded ++ visited)
      (still : before = (visited ++ (after meter'.depth).1, (after meter'.depth).2)) :
      Tracks meter before after (.ok a, meter') (.ok (a, meter'.depth))
  | refused {e : RunError} {meter' : Meter} (logged : meter'.decoded = meter.decoded ++ before.1)
      (stuck : before.2 = .stuck) : Tracks meter before after (.error (.refused e), meter') (.error e)
  | fault {f : Fault} {meter' : Meter} {plain : Except RunError (α × Nat)} (logged : meter'.decoded = meter.decoded ++ before.1)
      (oversized : before.2 = .oversized) : Tracks meter before after (.error (.fault f), meter') plain

section Tracks
variable {α β : Type} {meter meter' : Meter} {before : List Nat × Ending} {mid after : Nat → List Nat × Ending}

theorem lift_ok {x : Guarded RunError α} {a : α} (known : x = .ok a) {f : α → Budget β} :
    ((liftM x : Budget α) >>= f) meter = f a meter := by
  subst known
  rfl

theorem Tracks.bind {x : Budget α} {x' : Plist.Budget α} {f : α → Budget β} {f' : α → Plist.Budget β}
    (first : Tracks meter before mid (x meter) (x' meter.depth))
    (next : ∀ a meter', meter'.depth ≤ meter.depth →
      Tracks meter' (mid meter'.depth) after (f a meter') (f' a meter'.depth)) :
    Tracks meter before after ((x >>= f) meter) ((x' >>= f') meter.depth) := by
  change Tracks meter before after (ExceptT.bindCont f (x meter).1 (x meter).2) (x' meter.depth >>= fun p => f' p.1 p.2)
  generalize x meter = ran, x' meter.depth = plain at first
  cases first with
  | done less logged still =>
    rename_i a meter' visited
    have then' := next a meter' less
    change Tracks meter before after (f a meter') (f' a meter'.depth)
    generalize f a meter' = ran, f' a meter'.depth = plain at then'
    subst still
    cases then' with
    | done less' logged' still' =>
      refine .done (less'.trans less) ((logged'.trans (congrArg (· ++ _) logged)).trans (List.append_assoc _ _ _)) ?_
      rw [still', List.append_assoc]
    | refused logged' stuck => exact .refused (by rw [logged', logged, List.append_assoc]) stuck
    | fault logged' oversized => exact .fault (by rw [logged', logged, List.append_assoc]) oversized
  | refused logged stuck => exact .refused logged stuck
  | fault logged oversized => exact .fault logged oversized

/-- A step that is defined and does not change the meter. -/
theorem Tracks.lift {x : Except RunError α} {f : α → Budget β} {f' : α → Plist.Budget β}
    (failed : ∀ e, x = .error e → before = ([], .stuck))
    (next : ∀ a, x = .ok a → Tracks meter before after (f a meter) (f' a meter.depth)) :
    Tracks meter before after (((liftM (refuse x) : Budget α) >>= f) meter)
      (((liftM x : Plist.Budget α) >>= f') meter.depth) := by
  cases x with
  | error e =>
    have stuck := failed e rfl
    exact .refused (by rw [stuck, List.append_nil]) (by rw [stuck])
  | ok a => exact next a rfl

theorem Tracks.pure {a : α} (still : before = after meter.depth) :
    Tracks meter before after ((Pure.pure a : Budget α) meter) ((Pure.pure a : Plist.Budget α) meter.depth) :=
  .done (Nat.le_refl _) (List.append_nil _).symm still

theorem Tracks.faulting {x : Guarded RunError α} {fault : Fault} {f : α → Budget β} {plain : Except RunError (β × Nat)}
    (known : x = .error (.fault fault)) (oversized : before = ([], .oversized)) :
    Tracks meter before after (((liftM x : Budget α) >>= f) meter) plain := by
  subst known
  exact .fault (by rw [oversized, List.append_nil]) (by rw [oversized])

/-- An object is decoded first, and then what follows it. -/
theorem Tracks.decoded {idx : Nat} {x : Guarded RunError α × Meter} {x' : Except RunError (α × Nat)}
    (tracks : Tracks { depth := meter.depth - 1, decoded := meter.decoded ++ [idx] } before after x x') :
    Tracks meter (idx :: before.1, before.2) after x x' := by
  cases tracks with
  | done less logged still =>
    refine .done (less.trans (Nat.sub_le _ _)) (logged.trans (List.append_assoc _ _ _)) ?_
    rw [still]
    rfl
  | refused logged stuck => exact .refused (logged.trans (List.append_assoc _ _ _)) stuck
  | fault logged oversized => exact .fault (logged.trans (List.append_assoc _ _ _)) oversized

theorem walk_none {met : Nat → Met} {budget : Nat} {rest : List (Option Nat)} :
    walk met budget (none :: rest) = ([], .stuck) := by
  cases budget <;> rfl

theorem walk_nil {met : Nat → Met} {budget : Nat} : walk met budget [] = ([], .done) := by
  cases budget <;> rfl

/-- A reference that is read is in the file. -/
theorem refAt_some {bytes data : Bytes} {pos refSize : Nat} (ok : Plist.sliceAt bytes pos refSize = .ok data) :
    refAt bytes refSize pos = some (readBeUint data) ∧ pos + refSize ≤ bytes.length := by
  obtain ⟨found, inside, -⟩ := sliceAt_ok ok
  rw [refAt, found]
  exact ⟨rfl, inside⟩

theorem refAt_none {bytes : Bytes} {pos refSize : Nat} {e : RunError} (addressable : bytes.length < 2 ^ 63)
    (failed : Plist.sliceAt bytes pos refSize = .error e) : refAt bytes refSize pos = none := by
  rw [refAt]
  cases found : slice bytes pos (pos + refSize) with
  | none => rfl
  | some part =>
    have inside : pos + refSize ≤ bytes.length := by
      rw [slice] at found
      split at found
      · rename_i inside
        exact inside.2
      · cases found
    rw [Plist.sliceAt, checkedAdd_small (by omega)] at failed
    simp [orFail, found, bind, Except.bind] at failed

theorem position_defined {base i size : Nat} (small : base + i * size < 2 ^ 64) : position base i size = .ok (base + i * size) := by
  rw [position, mul_small (by omega), ok_bind, add_small small]

section Loops
variable {bytes : Bytes} {refSize fuel : Nat} {met : Nat → Met} {child : Nat → Budget BPlistValue}
  {child' : Nat → Plist.Budget BPlistValue}
  (addressable : bytes.length < 2 ^ 63)
  (tracks : ∀ idx meter rest, meter.depth ≤ fuel → Tracks meter (walk met meter.depth (some idx :: rest))
    (fun depth => walk met depth rest) (child idx meter) (child' idx meter.depth))
include addressable tracks

theorem parseItems_tracks {refsStart left i : Nat} (small : refsStart + i * refSize < 2 ^ 64) (enough : meter.depth ≤ fuel)
    (rest : List (Option Nat)) :
    Tracks meter (walk met meter.depth (itemRefs bytes refSize refsStart left i ++ rest)) (fun depth => walk met depth rest)
      (parseItems bytes refSize refsStart child left i meter)
      (Plist.parseItems bytes refSize refsStart child' left i meter.depth) := by
  induction left generalizing i meter with
  | zero => exact .pure rfl
  | succ left ih =>
    rw [parseItems, Plist.parseItems, itemRefs, lift_ok (position_defined small)]
    refine .lift ?_ ?_
    · intro e failed
      rw [refAt_none addressable failed]
      exact walk_none
    · intro refBytes read
      obtain ⟨found, inside⟩ := refAt_some read
      have next : refsStart + (i + 1) * refSize < 2 ^ 64 := by
        rw [Nat.add_mul]
        omega
      rw [found]
      refine .bind (tracks (readBeUint refBytes) meter _ enough) fun item meter' less => ?_
      exact .bind (ih next (less.trans enough)) fun items meter'' _ => .pure rfl

theorem parseEntries_tracks {keysStart valuesStart left i : Nat} {map : List (String × BPlistValue)}
    (keys : keysStart + i * refSize < 2 ^ 64) (values : valuesStart + i * refSize < 2 ^ 64) (enough : meter.depth ≤ fuel)
    (rest : List (Option Nat)) :
    Tracks meter (walk met meter.depth (entryRefs bytes refSize keysStart valuesStart left i ++ rest))
      (fun depth => walk met depth rest) (parseEntries bytes refSize keysStart valuesStart child left i map meter)
      (Plist.parseEntries bytes refSize keysStart valuesStart child' left i map meter.depth) := by
  induction left generalizing i map meter with
  | zero => exact .pure rfl
  | succ left ih =>
    rw [parseEntries, Plist.parseEntries, entryRefs, lift_ok (position_defined keys), lift_ok (position_defined values)]
    refine .lift ?_ ?_
    · intro e failed
      rw [refAt_none addressable failed]
      exact walk_none
    · intro keyRef keyRead
      obtain ⟨keyFound, keyInside⟩ := refAt_some keyRead
      rw [keyFound]
      refine .lift ?_ ?_
      · intro e failed
        rw [refAt_none addressable failed]
        exact walk_none
      · intro valRef valueRead
        obtain ⟨valueFound, valueInside⟩ := refAt_some valueRead
        have next : keysStart + (i + 1) * refSize < 2 ^ 64 ∧ valuesStart + (i + 1) * refSize < 2 ^ 64 := by
          rw [Nat.add_mul]
          omega
        rw [valueFound]
        refine .bind (tracks (readBeUint keyRef) meter _ enough) fun keyObj meter' less => ?_
        refine .bind (tracks (readBeUint valRef) meter' _ (less.trans enough)) fun valObj meter'' less' => ?_
        exact ih next.1 next.2 (less'.trans (less.trans enough))

theorem parseArray_tracks {room : Room} {count refsStart : Nat} (small : refsStart < 2 ^ 64) (enough : meter.depth ≤ fuel)
    (rest : List (Option Nat)) (oversized : room.items < count → before = ([], .oversized))
    (fits : ¬ room.items < count → before = walk met meter.depth (itemRefs bytes refSize refsStart count 0 ++ rest)) :
    Tracks meter before (fun depth => walk met depth rest)
      ((do
        (withCapacity room.items count : Guarded RunError Unit)
        let items ← parseItems bytes refSize refsStart child count 0
        return .array items : Budget BPlistValue) meter)
      ((do
        let items ← Plist.parseItems bytes refSize refsStart child' count 0
        return .array items : Plist.Budget BPlistValue) meter.depth) := by
  by_cases large : room.items < count
  · exact .faulting (withCapacity_large large) (oversized large)
  · rw [fits large, lift_ok (withCapacity_small (by omega))]
    exact .bind (parseItems_tracks addressable tracks (by omega) enough rest) fun items meter' _ => .pure rfl

theorem parseDict_tracks {count keysStart : Nat} (small : keysStart < 2 ^ 64) (enough : meter.depth ≤ fuel)
    (rest : List (Option Nat)) (oversized : 2 ^ 64 ≤ count * refSize → before = ([], .oversized))
    (beyond : ¬ 2 ^ 64 ≤ count * refSize → 2 ^ 64 ≤ keysStart + count * refSize → before = ([], .stuck))
    (fits : ¬ 2 ^ 64 ≤ count * refSize → ¬ 2 ^ 64 ≤ keysStart + count * refSize → before =
      walk met meter.depth (entryRefs bytes refSize keysStart (keysStart + count * refSize) count 0 ++ rest)) :
    Tracks meter before (fun depth => walk met depth rest)
      ((do
        let span ← (mul count refSize : Guarded RunError Nat)
        let valuesStart ← refuse (orFail "bplist dict layout overflow" (checkedAdd keysStart span))
        let map ← parseEntries bytes refSize keysStart valuesStart child count 0 []
        return .dict map : Budget BPlistValue) meter)
      ((do
        let valuesStart ← orFail "bplist dict layout overflow" (checkedAdd keysStart (count * refSize % 2 ^ 64))
        let map ← Plist.parseEntries bytes refSize keysStart valuesStart child' count 0 []
        return .dict map : Plist.Budget BPlistValue) meter.depth) := by
  by_cases large : 2 ^ 64 ≤ count * refSize
  · exact .faulting (mul_large large) (oversized large)
  rw [lift_ok (mul_small (by omega)), Nat.mod_eq_of_lt (by omega)]
  by_cases past : 2 ^ 64 ≤ keysStart + count * refSize
  · refine .lift (fun e _ => beyond large past) fun valuesStart summed => ?_
    rw [checkedAdd, if_neg (by omega)] at summed
    cases summed
  · rw [fits large past, checkedAdd_small (by omega)]
    refine .lift (fun e failed => by cases failed) fun valuesStart summed => ?_
    cases summed
    exact .bind (parseEntries_tracks addressable tracks (by omega) (by omega) enough rest) fun map meter' _ => .pure rfl

end Loops

theorem orFail_ok {α : Type} {message : String} {x : Option α} {a : α} : orFail message x = .ok a ↔ x = some a := by
  cases x <;> simp [orFail]

theorem orFail_error {α : Type} {message : String} {x : Option α} {e : RunError} (failed : orFail message x = .error e) :
    x = none := by
  cases x with
  | none => rfl
  | some a => cases failed

/-- The budget is not spent. -/
theorem counted_down {α : Type} {k : Budget α} {idx d : Nat} {decoded : List Nat} : (do
    let meter ← get
    if meter.depth = 0 then fail "bplist nesting too deep"
    let less ← (sub meter.depth 1 : Guarded RunError Nat)
    set { depth := less, decoded := meter.decoded ++ [idx] : Meter }
    k : Budget α) ⟨d + 1, decoded⟩ = k ⟨d, decoded ++ [idx]⟩ := rfl

theorem counted_down_plain {α : Type} {k : Plist.Budget α} {d : Nat} : (do
    let depth ← get
    if depth = 0 then throw (.plist "bplist nesting too deep")
    set (depth - 1)
    k : Plist.Budget α) (d + 1) = k d := rfl

section Object
variable {room : Room} {bytes : Bytes} {offsets : List Nat} {trailer : Trailer} {fuel idx : Nat} {rest : List (Option Nat)}
  (addressable : bytes.length < 2 ^ 63)
include addressable

/-- From an object on, what is decoded is what is visited. -/
theorem parseObject_tracks (enough : meter.depth ≤ fuel) :
    Tracks meter (walk (met room bytes offsets trailer.objectRefSize) meter.depth (some idx :: rest))
      (fun depth => walk (met room bytes offsets trailer.objectRefSize) depth rest)
      (parseObject room bytes offsets trailer fuel idx meter) (Plist.parseObject bytes offsets trailer fuel idx meter.depth) := by
  induction fuel generalizing idx meter rest with
  | zero =>
    obtain ⟨depth, decoded⟩ := meter
    obtain rfl : depth = 0 := Nat.le_zero.mp enough
    exact .refused (List.append_nil _).symm rfl
  | succ fuel ih =>
    obtain ⟨depth, decoded⟩ := meter
    cases depth with
    | zero => exact .refused (List.append_nil _).symm rfl
    | succ depth =>
      rw [parseObject, Plist.parseObject, counted_down, counted_down_plain, walk]
      refine .decoded ?_
      dsimp only
      rw [met]
      refine .lift ?_ ?_
      · intro e failed
        rw [orFail_error failed]
      intro start found
      rw [orFail_ok.mp found]
      dsimp only
      refine .lift ?_ ?_
      · intro e failed
        rw [orFail_error failed]
      intro marker first
      have inside : start < bytes.length := (List.getElem?_eq_some_iff.mp (orFail_ok.mp first)).1
      have counted : readCount bytes start (marker &&& 0x0F).toNat =
          refuse (Plist.readCount bytes start (marker &&& 0x0F).toNat) := readCount_defined (by omega)
      have child := fun idx meter rest (enough : meter.depth ≤ fuel) => @ih meter idx rest enough
      have less : depth ≤ fuel := Nat.le_of_succ_le_succ enough
      rw [orFail_ok.mp first]
      dsimp only
      rw [metAt, counted]
      by_cases array : marker >>> 4 = 0xA
      · rw [if_pos array, if_pos array, if_pos array]
        refine .lift ?_ ?_
        · intro e failed
          rw [failed]
        rintro ⟨count, refsStart⟩ read
        have place : refsStart ≤ start + 2 + 2 ^ 15 := readCount_start read
        rw [read]
        dsimp only
        refine parseArray_tracks addressable child (by omega) less rest (fun large => ?_) fun small => ?_
        · rw [if_pos large]
        · rw [if_neg small]
          rfl
      rw [if_neg array, if_neg array, if_neg array]
      by_cases dict : marker >>> 4 = 0xD
      · rw [if_pos dict, if_pos dict, if_pos dict]
        refine .lift ?_ ?_
        · intro e failed
          rw [failed]
        rintro ⟨count, keysStart⟩ read
        have place : keysStart ≤ start + 2 + 2 ^ 15 := readCount_start read
        rw [read]
        dsimp only
        refine parseDict_tracks addressable child (by omega) less rest (fun large => ?_) (fun small past => ?_)
          fun small inside => ?_
        · rw [if_pos large]
        · rw [if_neg small, if_pos past]
        · rw [if_neg small, if_neg inside]
          rfl
      · rw [if_neg dict, if_neg dict, if_neg dict, parseScalar_defined (by omega)]
        cases scalar : Plist.parseScalar bytes start marker with
        | error e => exact .refused (List.append_nil _).symm rfl
        | ok value => exact .done (Nat.le_refl _) (List.append_nil _).symm rfl

end Object

end Tracks

section Header
variable {bytes : Bytes}

theorem u64FromBe_defined (data : Bytes) : u64FromBe data = .ok (readBeUint data) := by
  rw [u64FromBe, range_inside (Nat.zero_le _) (Nat.min_le_right _ _), ok_bind, List.drop_zero, Nat.sub_zero, readBeUint,
    List.take_take]
  have all : data.take (min 8 (min 8 data.length)) = data.take 8 := by
    by_cases long : 8 ≤ data.length
    · rw [Nat.min_eq_left long, Nat.min_self]
    · rw [Nat.min_eq_right (by omega), Nat.min_eq_right (by omega), List.take_length, List.take_of_length_le (by omega)]
  rw [all]
  rfl

theorem readTrailer_defined (long : 32 ≤ bytes.length) : readTrailer bytes = .ok (Plist.readTrailer bytes) := by
  have width : (bytes.drop (bytes.length - 32)).length = 32 := by
    rw [List.length_drop]
    omega
  have last : (bytes.drop (bytes.length - 32)).take (bytes.length - (bytes.length - 32)) = bytes.drop (bytes.length - 32) :=
    List.take_of_length_le (by rw [List.length_drop])
  rw [readTrailer, sub_small long, ok_bind, range_inside (Nat.sub_le _ _) (Nat.le_refl _), ok_bind, last, Plist.readTrailer]
  generalize bytes.drop (bytes.length - 32) = t at width
  rw [index_inside (by omega), ok_bind, index_inside (by omega), ok_bind, range_inside (by omega) (by omega), ok_bind,
    u64FromBe_defined, ok_bind, range_inside (by omega) (by omega), ok_bind, u64FromBe_defined, ok_bind,
    range_inside (by omega) (by omega), ok_bind, u64FromBe_defined, ok_bind]
  have sixth : t.getD 6 0 = t.get ⟨6, by omega⟩ := (List.getElem_eq_getD 0).symm
  have seventh : t.getD 7 0 = t.get ⟨7, by omega⟩ := (List.getElem_eq_getD 0).symm
  rw [sixth, seventh]
  rfl

theorem readOffsets_defined {tableOffset size left i : Nat} (addressable : bytes.length < 2 ^ 63)
    (inside : tableOffset + (i + left) * size ≤ bytes.length) :
    readOffsets bytes tableOffset size left i = refuse (Plist.readOffsets bytes tableOffset size left i) := by
  induction left generalizing i with
  | zero => rfl
  | succ left ih =>
    have whole : (i + (left + 1)) * size = i * size + size + left * size := by
      rw [Nat.add_mul, Nat.add_mul]
      omega
    rw [readOffsets, Plist.readOffsets, position_defined (by omega), ok_bind, add_small (by omega), ok_bind,
      range_inside (by omega) (by omega), ok_bind, Nat.add_sub_cancel_left]
    by_cases past : readBeUint ((bytes.drop (tableOffset + i * size)).take size) ≥ bytes.length
    · rw [if_pos past, if_pos past]
      rfl
    · rw [if_neg past, if_neg past, ih (by rw [Nat.add_right_comm i 1 left, Nat.add_assoc i left 1]; omega)]
      exact refuse_bind fun offsets _ => rfl

/-- The loop over the offset table fails exactly if an offset is past the end. -/
theorem readOffsets_inside {tableOffset size left i : Nat} (narrow : size ≤ 8) :
    (∃ offsets, Plist.readOffsets bytes tableOffset size left i = .ok offsets) ↔
      ∀ off ∈ (List.range' i left).map fun i => ofBe (part bytes (tableOffset + i * size) size), off < bytes.length := by
  induction left generalizing i with
  | zero => exact ⟨fun _ => by simp, fun _ => ⟨_, rfl⟩⟩
  | succ left ih =>
    have eight : readBeUint ((bytes.drop (tableOffset + i * size)).take size) = ofBe (part bytes (tableOffset + i * size) size) :=
      congrArg ofBe (List.take_of_length_le ((List.length_take_le _ _).trans narrow))
    rw [List.range'_succ, List.map_cons, List.forall_mem_cons, ← ih, Plist.readOffsets, eight]
    by_cases past : ofBe (part bytes (tableOffset + i * size) size) ≥ bytes.length
    · rw [if_pos past]
      refine iff_of_false ?_ fun inside => absurd inside.1 (Nat.not_lt.mpr past)
      rintro ⟨offsets, ok⟩
      cases ok
    · rw [if_neg past]
      constructor
      · rintro ⟨offsets, ok⟩
        obtain ⟨rest, others, -⟩ := Results.bind_ok ok
        exact ⟨Nat.not_le.mp past, rest, others⟩
      · rintro ⟨-, rest, others⟩
        exact ⟨_, Results.bind_ok_iff.mpr ⟨rest, others, rfl⟩⟩

/-- How far the parser comes, with and without the steps that can fault: to the top object, to a header it refuses, or to
an offset table there is no room for. -/
inductive Enters (room : Room) (fuel : Nat) (bytes : Bytes) :
    Guarded RunError (Guarded RunError BPlistValue × Meter) → Except RunError BPlistValue → Prop
  | reached (headed : Headed bytes) (fits : (Plist.readTrailer bytes).numObjects ≤ room.offsets) :
      Enters room fuel bytes
        (.ok (parseObject room bytes (offsetTable bytes) (Plist.readTrailer bytes) fuel (Plist.readTrailer bytes).topObject
          { depth := depthBudget, decoded := [] }))
        (Plist.parseObject bytes (offsetTable bytes) (Plist.readTrailer bytes) depthBudget (Plist.readTrailer bytes).topObject
          depthBudget >>= fun r => .ok r.1)
  | refused {e : RunError} (unheaded : ¬ Headed bytes) : Enters room fuel bytes (.error (.refused e)) (.error e)
  | full (many : room.offsets < (Plist.readTrailer bytes).numObjects)
      (held : (Plist.readTrailer bytes).numObjects ≤ bytes.length) (plain : Except RunError BPlistValue) :
      Enters room fuel bytes (.error (.fault .capacity)) plain

theorem parseMetered_enters (room : Room) (addressable : bytes.length < 2 ^ 63) (fuel : Nat) :
    Enters room fuel bytes (parseMetered room fuel bytes) (Plist.parseBplist bytes) := by
  rw [parseMetered, Plist.parseBplist]
  by_cases short : bytes.length < 8 + 32
  · rw [if_pos short, if_pos short]
    exact .refused fun headed => absurd headed.1 (Nat.not_le.mpr short)
  rw [if_neg short, if_neg short, range_inside (by omega) (by omega), ok_bind, List.drop_zero, Nat.sub_zero]
  by_cases magic : bytes.take 8 ≠ bplistMagic
  · rw [if_pos magic, if_pos magic]
    exact .refused fun headed => magic headed.2.1
  rw [if_neg magic, if_neg magic, readTrailer_defined (by omega), ok_bind]
  dsimp only
  by_cases intSize : (Plist.readTrailer bytes).offsetIntSize = 0 ∨ (Plist.readTrailer bytes).offsetIntSize > 8
  · rw [if_pos intSize, if_pos intSize]
    refine .refused fun headed => ?_
    have range := headed.2.2.1
    omega
  rw [if_neg intSize, if_neg intSize]
  by_cases refSize : (Plist.readTrailer bytes).objectRefSize = 0 ∨ (Plist.readTrailer bytes).objectRefSize > 8
  · rw [if_pos refSize, if_pos refSize]
    refine .refused fun headed => ?_
    have range := headed.2.2.2.1
    omega
  rw [if_neg refSize, if_neg refSize]
  by_cases empty : (Plist.readTrailer bytes).numObjects = 0
  · rw [if_pos empty, if_pos empty]
    refine .refused fun headed => ?_
    have top := headed.2.2.2.2.1
    omega
  rw [if_neg empty, if_neg empty]
  by_cases top : (Plist.readTrailer bytes).topObject ≥ (Plist.readTrailer bytes).numObjects
  · rw [if_pos top, if_pos top]
    exact .refused fun headed => absurd headed.2.2.2.2.1 (Nat.not_lt.mpr top)
  rw [if_neg top, if_neg top]
  by_cases span : (Plist.readTrailer bytes).numObjects * (Plist.readTrailer bytes).offsetIntSize < 2 ^ 64
  swap
  · rw [checkedMul, if_neg span]
    refine .refused fun headed => ?_
    have table := headed.2.2.2.2.2.1
    omega
  rw [checkedMul, if_pos span, orFail, refuse_ok, ok_bind, ok_bind]
  generalize stop : (Plist.readTrailer bytes).offsetTableOffset +
    (Plist.readTrailer bytes).numObjects * (Plist.readTrailer bytes).offsetIntSize = tableEnd
  by_cases fits : tableEnd < 2 ^ 64
  swap
  · rw [checkedAdd, if_neg (by omega)]
    refine .refused fun headed => ?_
    have table := headed.2.2.2.2.2.1
    omega
  rw [checkedAdd, if_pos (by omega), orFail, refuse_ok, ok_bind, ok_bind]
  by_cases past : tableEnd > bytes.length
  · rw [if_pos (by omega), if_pos (by omega)]
    refine .refused fun headed => ?_
    have table := headed.2.2.2.2.2.1
    omega
  have objects : (Plist.readTrailer bytes).numObjects * 1 ≤
      (Plist.readTrailer bytes).numObjects * (Plist.readTrailer bytes).offsetIntSize := Nat.mul_le_mul_left _ (by omega)
  rw [if_neg (by omega), if_neg (by omega)]
  by_cases many : room.offsets < (Plist.readTrailer bytes).numObjects
  · rw [withCapacity_large many]
    exact .full many (by omega) _
  rw [withCapacity_small (by omega), ok_bind, readOffsets_defined addressable (by rw [Nat.zero_add]; omega)]
  have table := @readOffsets_inside bytes (Plist.readTrailer bytes).offsetTableOffset (Plist.readTrailer bytes).offsetIntSize
    (Plist.readTrailer bytes).numObjects 0 (by omega)
  rw [← List.range_eq_range'] at table
  cases read : Plist.readOffsets bytes (Plist.readTrailer bytes).offsetTableOffset (Plist.readTrailer bytes).offsetIntSize
    (Plist.readTrailer bytes).numObjects 0 with
  | error e =>
    refine .refused fun headed => ?_
    obtain ⟨offsets, ok⟩ := table.mpr headed.2.2.2.2.2.2
    cases read.symm.trans ok
  | ok offsets =>
    have whole : offsets = offsetTable bytes := by
      rw [offsetTable, List.range_eq_range']
      exact readOffsets_table (by omega) read
    subst whole
    exact .reached ⟨by omega, not_not.mp magic, by omega, by omega, by omega, by omega, table.mp ⟨_, read⟩⟩ (by omega)

end Header

/-- What comes of a file: the objects that are decoded, the result, and that of the parser without the steps that can
fault. What is decoded is what is visited. -/
inductive Outcome (room : Room) (bytes : Bytes) : List Nat → Guarded RunError BPlistValue → Except RunError BPlistValue → Prop
  | oversized (headed : Headed bytes) (fits : (Plist.readTrailer bytes).numObjects ≤ room.offsets)
      (ends : (walkFile room bytes).2 = .oversized) (f : Fault) (plain : Except RunError BPlistValue) :
      Outcome room bytes (walkFile room bytes).1 (.error (.fault f)) plain
  | stuck (headed : Headed bytes) (ends : (walkFile room bytes).2 = .stuck) (e : RunError) :
      Outcome room bytes (walkFile room bytes).1 (.error (.refused e)) (.error e)
  | done (headed : Headed bytes) (ends : (walkFile room bytes).2 = .done) (value : BPlistValue) :
      Outcome room bytes (walkFile room bytes).1 (.ok value) (.ok value)
  | refused (unheaded : ¬ Headed bytes) (e : RunError) : Outcome room bytes [] (.error (.refused e)) (.error e)
  | full (many : room.offsets < (Plist.readTrailer bytes).numObjects)
      (held : (Plist.readTrailer bytes).numObjects ≤ bytes.length) (plain : Except RunError BPlistValue) :
      Outcome room bytes [] (.error (.fault .capacity)) plain

theorem parseBplistIn_outcome {bytes : Bytes} (room : Room) (addressable : bytes.length < 2 ^ 63) :
    Outcome room bytes (decodedBy room bytes) (parseBplistIn room bytes) (Plist.parseBplist bytes) := by
  have enters := parseMetered_enters room addressable depthBudget
  have tracks := @parseObject_tracks ⟨depthBudget, []⟩ room bytes (offsetTable bytes) (Plist.readTrailer bytes) depthBudget
    (Plist.readTrailer bytes).topObject [] addressable (Nat.le_refl _)
  have visit : walk (met room bytes (offsetTable bytes) (Plist.readTrailer bytes).objectRefSize) depthBudget
    [some (Plist.readTrailer bytes).topObject] = walkFile room bytes := rfl
  rw [parseBplistIn, decodedBy]
  generalize parseMetered room depthBudget bytes = metered, Plist.parseBplist bytes = plain at enters ⊢
  cases enters with
  | refused unheaded => exact .refused unheaded _
  | full many held => exact .full many held _
  | reached headed fits =>
    rw [ok_bind]
    dsimp only at tracks ⊢
    rw [visit] at tracks
    generalize parseObject room bytes (offsetTable bytes) (Plist.readTrailer bytes) depthBudget
      (Plist.readTrailer bytes).topObject ⟨depthBudget, []⟩ = ran, Plist.parseObject bytes (offsetTable bytes)
      (Plist.readTrailer bytes) depthBudget (Plist.readTrailer bytes).topObject depthBudget = ran' at tracks ⊢
    cases tracks with
    | done less logged still =>
      rw [walk_nil, List.append_nil] at still
      obtain ⟨visited, ends⟩ := Prod.ext_iff.mp still
      dsimp only at visited ⊢
      rw [logged, List.nil_append, ← visited]
      exact .done headed ends _
    | refused logged stuck =>
      dsimp only
      rw [logged, List.nil_append]
      exact .stuck headed stuck _
    | fault logged oversized =>
      dsimp only
      rw [logged, List.nil_append]
      exact .oversized headed fits oversized _ _

/-- The parser gives a value or an error, without a fault on the way, exactly if the objects of the file do not lead to
an oversized one. -/
theorem bplist_defined_iff {bytes : Bytes} (addressable : bytes.length < 2 ^ 63) :
    (∃ result, parseBplist bytes = refuse result) ↔ ¬ MeetsOversized bytes := by
  have outcome := parseBplistIn_outcome (byBytes bytes) addressable
  rw [parseBplist, MeetsOversized]
  generalize parseBplistIn (byBytes bytes) bytes = ran, decodedBy (byBytes bytes) bytes = decoded,
    Plist.parseBplist bytes = plain at outcome ⊢
  cases outcome with
  | oversized headed fits ends f =>
    refine iff_of_false ?_ (not_not.mpr ⟨headed, ends⟩)
    rintro ⟨result, same⟩
    cases result <;> cases same
  | stuck headed ends e => exact iff_of_true ⟨.error e, rfl⟩ (by rw [ends]; simp)
  | done headed ends value => exact iff_of_true ⟨.ok value, rfl⟩ (by rw [ends]; simp)
  | refused unheaded e => exact iff_of_true ⟨.error e, rfl⟩ fun meets => unheaded meets.1
  | full many held => exact absurd held (Nat.not_le.mpr many)

/-- A dictionary with one entry, `a`, whose value is an array of one number. -/
def entryOfOne : Bytes :=
  bplistMagic ++ [0xD1, 1, 2] ++ [0x51, 0x61] ++ [0xA1, 3] ++ [0x10, 42] ++ [8, 11, 13, 15] ++
    [0, 0, 0, 0, 0, 0, 1, 1] ++ toBe 8 4 ++ toBe 8 0 ++ toBe 8 17

theorem bplist_defined_entry : entryOfOne.length < 2 ^ 63 ∧ (walkFile (byBytes entryOfOne) entryOfOne).1 = [0, 1, 2, 3] ∧
    ∃ result, parseBplist entryOfOne = refuse result := by
  have addressable : entryOfOne.length < 2 ^ 63 := by decide
  exact ⟨addressable, by decide, (bplist_defined_iff addressable).mpr (by decide)⟩

/-- A file whose only object has the marker and declares as many elements as the bytes give. -/
def declaring (marker : UInt8) (count : Bytes) : Bytes :=
  bplistMagic ++ [marker, 0x13] ++ count ++ [8] ++ [0, 0, 0, 0, 0, 0, 1, 8] ++ toBe 8 1 ++ toBe 8 0 ++ toBe 8 18

/-- An array of 2⁶⁴ - 1 elements in a file of 51 bytes, and a dictionary of 2⁶¹ entries of eight bytes each. -/
theorem oversized_faults :
    parseBplist (declaring 0xAF [0xff, 0xff, 0xff, 0xff, 0xff, 0xff, 0xff, 0xff]) = .error (.fault .capacity) ∧
      parseBplist (declaring 0xDF [0x20, 0, 0, 0, 0, 0, 0, 0]) = .error (.fault .overflow) := by
  exact ⟨rfl, rfl⟩

end Bsdos.Plist.Checked
