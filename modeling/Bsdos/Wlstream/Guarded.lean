import Bsdos.Effects.Machine
import Bsdos.Wlstream.RoundTrip
import Bsdos.Wlstream.Picture

namespace Bsdos.Wlstream.Guarded
open Octets Machine

/-- The four bytes that a number is made of, read one by one. -/
def u32At {ε : Type} (data : Bytes) (i : Nat) : Guarded ε UInt32 := do
  let bytes := [← index data i, ← index data (i + 1), ← index data (i + 2), ← index data (i + 3)]
  return UInt32.ofNat (ofLe bytes)

def u16At {ε : Type} (data : Bytes) (i : Nat) : Guarded ε UInt16 := do
  let bytes := [← index data i, ← index data (i + 1)]
  return UInt16.ofNat (ofLe bytes)

def fail {α : Type} (e : String) : Guarded String α := .error (.refused e)

def parseSurfaceCreate (data : Bytes) : Guarded String (StreamEvent × Nat) := do
  if data.length < 4 then fail "SURFACE_CREATE: need 4 bytes"
  let surfaceId ← u32At data 0
  return (.surfaceCreate surfaceId, 4)

def parseSurfaceDestroy (data : Bytes) : Guarded String (StreamEvent × Nat) := do
  if data.length < 4 then fail "SURFACE_DESTROY: need 4 bytes"
  let surfaceId ← u32At data 0
  return (.surfaceDestroy surfaceId, 4)

def parsePoolData (bits : Nat) (data : Bytes) : Guarded String (StreamEvent × Nat) := do
  if data.length < 24 then fail ("POOL_DATA: need 24 bytes header, got " ++ toString data.length)
  let poolId ← u32At data 0
  let width ← u16At data 4
  let height ← u16At data 6
  let stride ← u32At data 8
  let format ← u32At data 12
  let rawLen ← u32At data 16
  let lz4Len := (← u32At data 20).toNat
  let stop ← addOn bits 24 lz4Len
  if data.length < stop then
    let got ← sub data.length 24
    fail ("POOL_DATA: need " ++ toString lz4Len ++ " bytes lz4 data, got " ++ toString got)
  let lz4Data ← range data 24 stop
  return (.poolData poolId width height stride format rawLen lz4Data, stop)

def parseSurfaceCommit (data : Bytes) : Guarded String (StreamEvent × Nat) := do
  if data.length < 32 then fail ("SURFACE_COMMIT: need 32 bytes, got " ++ toString data.length)
  let surfaceId ← u32At data 0
  let poolId ← u32At data 4
  let offset ← u32At data 8
  let bufWidth ← u16At data 12
  let bufHeight ← u16At data 14
  let bufStride ← u32At data 16
  let format ← u32At data 20
  let damageX ← u16At data 24
  let damageY ← u16At data 26
  let damageW ← u16At data 28
  let damageH ← u16At data 30
  return (.surfaceCommit surfaceId poolId offset bufWidth bufHeight bufStride format damageX damageY damageW damageH, 32)

def parseCursorMove (data : Bytes) : Guarded String (StreamEvent × Nat) := do
  if data.length < 8 then fail "CURSOR_MOVE: need 8 bytes"
  let x ← u32At data 0
  let y ← u32At data 4
  return (.cursorMove x.toInt32 y.toInt32, 8)

/-- The event of this type from `pos` on. -/
def parseEvent (bits : Nat) (data : Bytes) (pos stop : Nat) (eventType : UInt8) : Guarded String (StreamEvent × Nat) := do
  if eventType = evSurfaceCreate then parseSurfaceCreate (← range data pos stop)
  else if eventType = evSurfaceDestroy then parseSurfaceDestroy (← range data pos stop)
  else if eventType = evPoolData then parsePoolData bits (← range data pos stop)
  else if eventType = evSurfaceCommit then parseSurfaceCommit (← range data pos stop)
  else if eventType = evCursorMove then parseCursorMove (← range data pos stop)
  else fail (unknown eventType)

/-- The loop over the positions; `n` bounds its rounds. -/
def parseLoop (bits : Nat) (data : Bytes) (stop : Nat) : Nat → Nat → Guarded Empty (List (Except String StreamEvent))
  | 0, _ => return []
  | n + 1, pos =>
    if stop ≤ pos ∨ data.length ≤ pos then return []
    else do
      let eventType ← index data pos
      let pos ← addOn bits pos 1
      match parseEvent bits data pos stop eventType with
      | .ok (event, consumed) =>
        let pos ← addOn bits pos consumed
        return .ok event :: (← parseLoop bits data stop n pos)
      | .error (.refused e) => return [.error e]
      | .error (.fault f) => .error (.fault f)

/-- The parser with every step that can fault, on a word of so many bits. -/
def parseEvents (bits : Nat) (data : Bytes) : Guarded Empty (List (Except String StreamEvent)) :=
  if data.length < 4 then return []
  else do
    let totalSize := (← u32At data 0).toNat
    let stop := min (← addOn bits 4 totalSize) data.length
    parseLoop bits data stop data.length 4

/-- One row of the loop of a commit. -/
def copyRow (bits : Nat) (data : Bytes) (off s expectedStride : Nat) (pixels : Bytes) (row : Nat) : Guarded Empty Bytes := do
  let srcStart ← addOn bits off (← mulOn bits row s)
  let srcEnd ← addOn bits srcStart (min expectedStride s)
  let dstStart ← mulOn bits row expectedStride
  let copyLen := min (← sub srcEnd srcStart) expectedStride
  if srcEnd ≤ data.length then
    let dstEnd ← addOn bits dstStart copyLen
    if dstEnd ≤ pixels.length then
      let target ← range pixels dstStart dstEnd
      let source ← copyFromSlice target.length (← range data srcStart srcEnd)
      return pixels.take dstStart ++ (source ++ pixels.drop dstEnd)
    else return pixels
  else return pixels

def copyRows (bits : Nat) (data : Bytes) (off s expectedStride : Nat) : Bytes → List Nat → Guarded Empty Bytes
  | pixels, [] => return pixels
  | pixels, row :: rows => do copyRows bits data off s expectedStride (← copyRow bits data off s expectedStride pixels row) rows

/-- A commit with every step that can fault; a vector has no more bytes than half of the addresses. -/
def handleSurfaceCommit (bits : Nat) (c : Compositor) (surfaceId poolId offset : UInt32) (bufWidth bufHeight : UInt16)
    (bufStride format : UInt32) (damageX damageY damageW damageH : UInt16) : Guarded Empty Compositor :=
  match c.pools.lookup poolId with
  | none => return c
  | some pool => do
    let w := bufWidth.toUInt32
    let h := bufHeight.toUInt32
    let s := bufStride.toNat
    let off := offset.toNat
    let needed ← addOn bits off (← mulOn bits s h.toNat)
    if pool.data.length < needed then return c
    else do
      let expectedStride ← mulOn bits w.toNat 4
      let size ← mulOn bits expectedStride h.toNat
      withCapacity (2 ^ (bits - 1) - 1) size
      let pixels ← copyRows bits pool.data off s expectedStride (List.replicate size 0) (List.range h.toNat)
      let pixels := if format = 1 then setAlpha pixels else pixels
      let clamped := (clampDamage ⟨damageX, damageY, damageW, damageH⟩ bufWidth bufHeight).getD ⟨0, 0, bufWidth, bufHeight⟩
      let stride ← mulOn 32 w.toNat 4
      return { c with
        surfaces := match c.surfaces.lookup surfaceId with
          | some surface => c.surfaces.insert surfaceId { surface with damage := clamped }
          | none => c.surfaces
        lastDamage := clamped
        frame := ⟨w, h, UInt32.ofNat stride, pixels⟩
        dirty := true }

def handle (bits : Nat) (decompress : Bytes → Option Bytes) (c : Compositor) : StreamEvent → Guarded Empty Compositor
  | .surfaceCommit surfaceId poolId offset bufWidth bufHeight bufStride format damageX damageY damageW damageH =>
    handleSurfaceCommit bits c surfaceId poolId offset bufWidth bufHeight bufStride format damageX damageY damageW damageH
  | .surfaceCreate surfaceId => return c.handleSurfaceCreate surfaceId
  | .surfaceDestroy surfaceId => return c.handleSurfaceDestroy surfaceId
  | .poolData poolId width height stride format rawLen lz4Data =>
    return c.handlePoolData decompress poolId width height stride format rawLen lz4Data
  | .cursorMove x y => return c.handleCursorMove x y

def run (bits : Nat) (decompress : Bytes → Option Bytes) : Compositor → List StreamEvent → Guarded Empty Compositor
  | c, [] => return c
  | c, e :: events => do run bits decompress (← handle bits decompress c e) events

/-- A viewer of these payloads. -/
def view (bits : Nat) (decompress : Bytes → Option Bytes) : Compositor → List Bytes → Guarded Empty Compositor
  | c, [] => return c
  | c, frame :: frames => do
    let events ← parseEvents bits frame
    view bits decompress (← run bits decompress c (Framing.items events)) frames

section Parsed
variable {ε : Type} {data : Bytes} {i : Nat}

theorem part_four (inside : i + 4 ≤ data.length) : part data i 4 =
    [data.get ⟨i, by omega⟩, data.get ⟨i + 1, by omega⟩, data.get ⟨i + 2, by omega⟩, data.get ⟨i + 3, by omega⟩] := by
  rw [part, List.drop_eq_getElem_cons (by omega), List.drop_eq_getElem_cons (by omega),
    List.drop_eq_getElem_cons (by omega), List.drop_eq_getElem_cons (by omega)]
  rfl

theorem part_two (inside : i + 2 ≤ data.length) : part data i 2 = [data.get ⟨i, by omega⟩, data.get ⟨i + 1, by omega⟩] := by
  rw [part, List.drop_eq_getElem_cons (by omega), List.drop_eq_getElem_cons (by omega)]
  rfl

theorem u32At_inside (inside : i + 4 ≤ data.length) : u32At data i = (.ok (Wlstream.u32At data i) : Guarded ε UInt32) := by
  rw [u32At, index_inside (by omega), index_inside (by omega), index_inside (by omega), index_inside (by omega),
    Wlstream.u32At, part_four inside]
  rfl

theorem u16At_inside (inside : i + 2 ≤ data.length) : u16At data i = (.ok (Wlstream.u16At data i) : Guarded ε UInt16) := by
  rw [u16At, index_inside (by omega), index_inside (by omega), Wlstream.u16At, part_two inside]
  rfl

theorem parseSurfaceCreate_defined : parseSurfaceCreate data = refuse (Wlstream.parseSurfaceCreate data) := by
  rw [parseSurfaceCreate, Wlstream.parseSurfaceCreate]
  by_cases short : data.length < 4
  · rw [if_pos short, if_pos short]
    rfl
  · rw [if_neg short, if_neg short, u32At_inside (by omega)]
    rfl

theorem parseSurfaceDestroy_defined : parseSurfaceDestroy data = refuse (Wlstream.parseSurfaceDestroy data) := by
  rw [parseSurfaceDestroy, Wlstream.parseSurfaceDestroy]
  by_cases short : data.length < 4
  · rw [if_pos short, if_pos short]
    rfl
  · rw [if_neg short, if_neg short, u32At_inside (by omega)]
    rfl

theorem parsePoolData_defined : parsePoolData 64 data = refuse (Wlstream.parsePoolData data) := by
  rw [parsePoolData, Wlstream.parsePoolData]
  by_cases short : data.length < 24
  · rw [if_pos short, if_pos short]
    rfl
  · have size := (Wlstream.u32At data 20).toNat_lt
    rw [if_neg short, if_neg short, u32At_inside (by omega), u16At_inside (by omega), u16At_inside (by omega),
      u32At_inside (by omega), u32At_inside (by omega), u32At_inside (by omega), u32At_inside (by omega)]
    simp only [ok_bind]
    rw [addOn_small (by omega), ok_bind]
    by_cases cut : data.length < 24 + (Wlstream.u32At data 20).toNat
    · rw [if_pos cut, if_pos cut, sub_small (by omega)]
      rfl
    · rw [if_neg cut, if_neg cut, range_inside (by omega) (by omega), Nat.add_sub_cancel_left]
      rfl

theorem parseSurfaceCommit_defined : parseSurfaceCommit data = refuse (Wlstream.parseSurfaceCommit data) := by
  rw [parseSurfaceCommit, Wlstream.parseSurfaceCommit]
  by_cases short : data.length < 32
  · rw [if_pos short, if_pos short]
    rfl
  · rw [if_neg short, if_neg short, u32At_inside (by omega), u32At_inside (by omega), u32At_inside (by omega),
      u16At_inside (by omega), u16At_inside (by omega), u32At_inside (by omega), u32At_inside (by omega),
      u16At_inside (by omega), u16At_inside (by omega), u16At_inside (by omega), u16At_inside (by omega)]
    rfl

theorem parseCursorMove_defined : parseCursorMove data = refuse (Wlstream.parseCursorMove data) := by
  rw [parseCursorMove, Wlstream.parseCursorMove]
  by_cases short : data.length < 8
  · rw [if_pos short, if_pos short]
    rfl
  · rw [if_neg short, if_neg short, u32At_inside (by omega), u32At_inside (by omega)]
    rfl

variable {pos stop : Nat}

theorem parseEvent_defined (ordered : pos ≤ stop) (inside : stop ≤ data.length) (eventType : UInt8) :
    parseEvent 64 data pos stop eventType = refuse (Wlstream.parseEvent eventType ((data.drop pos).take (stop - pos))) := by
  rw [parseEvent, Wlstream.parseEvent, range_inside ordered inside]
  simp only [ok_bind, parseSurfaceCreate_defined, parseSurfaceDestroy_defined, parsePoolData_defined,
    parseSurfaceCommit_defined, parseCursorMove_defined]
  split
  · rfl
  split
  · rfl
  split
  · rfl
  split
  · rfl
  split
  · rfl
  · rfl

/-- No event takes more than there is. -/
theorem parseEvent_consumed {eventType : UInt8} {e : StreamEvent} {consumed : Nat}
    (parsed : Wlstream.parseEvent eventType data = .ok (e, consumed)) : consumed ≤ data.length := by
  rw [Wlstream.parseEvent, Wlstream.parseSurfaceCreate, Wlstream.parseSurfaceDestroy, Wlstream.parsePoolData,
    Wlstream.parseSurfaceCommit, Wlstream.parseCursorMove] at parsed
  dsimp only at parsed
  repeat' split at parsed
  all_goals cases parsed
  all_goals omega

theorem parseLoop_defined (small : data.length < 2 ^ 63) (inside : stop ≤ data.length) {n : Nat} (enough : stop ≤ pos + n) :
    parseLoop 64 data stop n pos = .ok (Wlstream.parseLoop n ((data.drop pos).take (stop - pos))) := by
  induction n generalizing pos with
  | zero => rfl
  | succ n ih =>
    rw [parseLoop]
    by_cases ended : stop ≤ pos ∨ data.length ≤ pos
    · have empty : (data.drop pos).take (stop - pos) = [] := by
        rw [Nat.sub_eq_zero_of_le (by omega), List.take_zero]
      rw [if_pos ended, empty]
      rfl
    · have first : (data.drop pos).take (stop - pos) =
          data.get ⟨pos, by omega⟩ :: (data.drop (pos + 1)).take (stop - (pos + 1)) := by
        rw [List.drop_eq_getElem_cons (by omega), show stop - pos = stop - (pos + 1) + 1 by omega, List.take_succ_cons]
        rfl
      rw [if_neg ended, first, Wlstream.parseLoop, index_inside (by omega), ok_bind, addOn_small (by omega), ok_bind,
        parseEvent_defined (by omega) inside]
      cases parsed : Wlstream.parseEvent (data.get ⟨pos, by omega⟩) ((data.drop (pos + 1)).take (stop - (pos + 1))) with
      | error e => rfl
      | ok found =>
        obtain ⟨event, consumed⟩ := found
        have bound := parseEvent_consumed parsed
        rw [List.length_take, List.length_drop] at bound
        have rest : ((data.drop (pos + 1)).take (stop - (pos + 1))).drop consumed =
            (data.drop (pos + 1 + consumed)).take (stop - (pos + 1 + consumed)) := by
          rw [List.drop_take, List.drop_drop, Nat.sub_sub stop]
        rw [refuse_ok]
        dsimp only
        rw [rest, addOn_small (by omega), ok_bind, ih (by omega)]
        rfl

/-- On 64 bits the parser reads every payload there can be, without a step that faults. -/
theorem parseEvents_defined (small : data.length < 2 ^ 63) : parseEvents 64 data = .ok (Wlstream.parseEvents data) := by
  rw [parseEvents, Wlstream.parseEvents]
  by_cases short : data.length < 4
  · rw [if_pos short, if_pos short]
    rfl
  · have size := (Wlstream.u32At data 0).toNat_lt
    rw [if_neg short, if_neg short, u32At_inside (by omega), ok_bind]
    dsimp only
    rw [addOn_small (by omega), ok_bind, parseLoop_defined small (Nat.min_le_right _ _) (by omega)]
    have rest : (data.drop 4).take (min (4 + (Wlstream.u32At data 0).toNat) data.length - 4) = region data := by
      rw [region, List.drop_take]
    rw [rest, parseLoop_eq, parseLoop_eq, Framing.readAll_enough]
    rw [region, List.length_drop, List.length_take]
    omega

/-- On 32 bits the sum with the size overflows, of four bytes. -/
example : parseEvents 32 [255, 255, 255, 255] = .error (.fault .overflow) := by decide

end Parsed

section Composed
variable {data pixels : Bytes} {off s w h row : Nat}

/-- The numbers of a commit are small enough for its products and sums. -/
structure Small (off s w h : Nat) : Prop where
  off : off < 2 ^ 32
  s : s < 2 ^ 32
  w : w < 2 ^ 16
  h : h < 2 ^ 16

theorem Small.product (small : Small off s w h) {row : Nat} (below : row ≤ h) : row * s < 2 ^ 48 ∧ row * (w * 4) < 2 ^ 34 := by
  obtain ⟨-, width, across, down⟩ := small
  constructor
  · exact Nat.lt_of_le_of_lt (Nat.mul_le_mul below (Nat.le_of_lt width)) (by omega)
  · have high : row * (w * 4) ≤ h * 2 ^ 18 := Nat.mul_le_mul below (by omega)
    omega

theorem copyRow_defined (small : Small off s w h) (below : row < h) :
    copyRow 64 data off s (w * 4) pixels row = .ok (Wlstream.copyRow data off s (w * 4) pixels row) := by
  obtain ⟨rows, columns⟩ := small.product (Nat.le_of_lt below)
  have start := small.off
  have narrow := small.w
  rw [copyRow, Wlstream.copyRow, mulOn_small (by omega), ok_bind, addOn_small (by omega), ok_bind, addOn_small (by omega),
    ok_bind, mulOn_small (by omega), ok_bind, sub_small (by omega), ok_bind]
  dsimp only
  by_cases inside : off + row * s + min (w * 4) s ≤ data.length
  · rw [if_pos inside, addOn_small (by omega), ok_bind]
    by_cases room : row * (w * 4) + min (off + row * s + min (w * 4) s - (off + row * s)) (w * 4) ≤ pixels.length
    · have source : range data (off + row * s) (off + row * s + min (w * 4) s) =
          (.ok (part data (off + row * s) (min (w * 4) s)) : Guarded Empty Bytes) := by
        rw [range_inside (by omega) inside, Nat.add_sub_cancel_left]
        rfl
      have same : (part data (off + row * s) (min (w * 4) s)).length =
          ((pixels.drop (row * (w * 4))).take (min (w * 4) s)).length := by
        rw [part_length inside, List.length_take, List.length_drop]
        omega
      have copied : min (off + row * s + min (w * 4) s - (off + row * s)) (w * 4) = min (w * 4) s := by omega
      rw [copied] at room ⊢
      rw [if_pos room, if_pos ⟨inside, room⟩, range_inside (by omega) room, ok_bind, source, ok_bind, copyFromSlice,
        Nat.add_sub_cancel_left, demand_met same, ok_bind, Nat.add_sub_cancel_left]
      rfl
    · rw [if_neg room, if_neg fun both => room both.2]
      rfl
  · rw [if_neg inside, if_neg fun both => inside both.1]
    rfl

theorem copyRows_defined (small : Small off s w h) {rows : List Nat} (below : ∀ row ∈ rows, row < h) :
    copyRows 64 data off s (w * 4) pixels rows = .ok (rows.foldl (Wlstream.copyRow data off s (w * 4)) pixels) := by
  induction rows generalizing pixels with
  | nil => rfl
  | cons row rows ih =>
    rw [copyRows, copyRow_defined small (below row List.mem_cons_self), ok_bind,
      ih fun row member => below row (List.mem_cons_of_mem _ member), List.foldl_cons]

theorem handleSurfaceCommit_defined (c : Compositor) (surfaceId poolId offset : UInt32) (bufWidth bufHeight : UInt16)
    (bufStride format : UInt32) (damageX damageY damageW damageH : UInt16) :
    handleSurfaceCommit 64 c surfaceId poolId offset bufWidth bufHeight bufStride format damageX damageY damageW damageH =
      .ok (c.handleSurfaceCommit surfaceId poolId offset bufWidth bufHeight bufStride format damageX damageY damageW
        damageH) := by
  have small : Small offset.toNat bufStride.toNat bufWidth.toUInt32.toNat bufHeight.toUInt32.toNat := by
    rw [UInt16.toNat_toUInt32, UInt16.toNat_toUInt32]
    exact ⟨offset.toNat_lt, bufStride.toNat_lt, bufWidth.toNat_lt, bufHeight.toNat_lt⟩
  obtain ⟨rows, size⟩ := small.product (Nat.le_refl _)
  have start := small.off
  have narrow := small.w
  rw [handleSurfaceCommit, Compositor.handleSurfaceCommit]
  cases c.pools.lookup poolId with
  | none => rfl
  | some pool =>
    dsimp only
    rw [Nat.mul_comm] at rows size
    rw [mulOn_small (by omega), ok_bind, addOn_small (by omega), ok_bind]
    by_cases short : pool.data.length < offset.toNat + bufStride.toNat * bufHeight.toUInt32.toNat
    · rw [if_pos short, if_pos short]
      rfl
    · have stride : UInt32.ofNat (bufWidth.toUInt32.toNat * 4) = bufWidth.toUInt32 * 4 := by
        have fits : bufWidth.toUInt32.toNat * 4 < 2 ^ 32 := by omega
        rw [← UInt32.toNat_inj, UInt32.toNat_ofNat_of_lt' fits, UInt32.toNat_mul]
        exact (Nat.mod_eq_of_lt fits).symm
      rw [if_neg short, if_neg short, mulOn_small (by omega), ok_bind, mulOn_small (by omega), ok_bind,
        withCapacity_small (by omega), copyRows_defined small fun row member => List.mem_range.mp member]
      simp only [ok_bind]
      rw [mulOn_small (by omega), ok_bind, stride]
      rfl

theorem run_defined (decompress : Bytes → Option Bytes) (c : Compositor) (events : List StreamEvent) :
    run 64 decompress c events = .ok (Compositor.run decompress c events) := by
  induction events generalizing c with
  | nil => rfl
  | cons e events ih =>
    have first : handle 64 decompress c e = .ok (Compositor.handle decompress c e) := by
      cases e with
      | surfaceCommit => exact handleSurfaceCommit_defined ..
      | _ => rfl
    rw [run, first, ok_bind, ih]
    rfl

/-- On 64 bits no payload makes a viewer fault, whatever it has seen before. -/
theorem view_defined (decompress : Bytes → Option Bytes) (c : Compositor) {frames : List Bytes}
    (small : ∀ frame ∈ frames, frame.length < 2 ^ 63) :
    view 64 decompress c frames = .ok (Wlstream.view decompress c frames) := by
  induction frames generalizing c with
  | nil => rfl
  | cons frame frames ih =>
    rw [view, parseEvents_defined (small frame List.mem_cons_self), ok_bind, run_defined, ok_bind,
      ih _ fun frame member => small frame (List.mem_cons_of_mem _ member), Wlstream.view, Wlstream.view,
      List.flatMap_cons, Compositor.run, Compositor.run, Compositor.run, List.foldl_append]
    rfl

theorem view_defined_data : view 64 (fun _ => none) .new [encode [.poolData 7 1 1 4 0 4 [10, 20, 30, 40]]] =
    .ok (Wlstream.view (fun _ => none) .new [encode [.poolData 7 1 1 4 0 4 [10, 20, 30, 40]]]) :=
  view_defined _ _ (List.forall_mem_singleton.mpr (by decide))

end Composed

end Bsdos.Wlstream.Guarded
