import Bsdos.Wlstream.Parser
import Bsdos.Wlstream.Rect
import Mathlib.Data.Finmap

namespace Bsdos.Wlstream
open Octets

structure Pool where
  data : Bytes
  width : UInt16
  height : UInt16
  stride : UInt32
  format : UInt32
  deriving DecidableEq

structure Surface where
  active : Bool
  damage : Rect
  deriving DecidableEq

structure FrameOutput where
  width : UInt32
  height : UInt32
  stride : UInt32
  data : Bytes
  deriving DecidableEq

structure Compositor where
  pools : Finmap fun _ : UInt32 => Pool
  surfaces : Finmap fun _ : UInt32 => Surface
  frame : FrameOutput
  dirty : Bool
  lastDamage : Rect

/-- The bytes of a pool: as they are, if they have the length that was announced, else decompressed
and filled up to it with zeros. -/
def decompressed (decompress : Bytes → Option Bytes) (rawLen : UInt32) (lz4Data : Bytes) : Option Bytes :=
  if lz4Data.length = rawLen.toNat then some lz4Data
  else
    match decompress lz4Data with
    | some d => if rawLen.toNat ≤ d.length then some d else some (d ++ List.replicate (rawLen.toNat - d.length) 0)
    | none => none

/-- One row of the loop of a commit, copied from the pool to its place. -/
def copyRow (data : Bytes) (off s expectedStride : Nat) (pixels : Bytes) (row : Nat) : Bytes :=
  let srcStart := off + row * s
  let srcEnd := srcStart + min expectedStride s
  let dstStart := row * expectedStride
  let copyLen := min (srcEnd - srcStart) expectedStride
  if srcEnd ≤ data.length ∧ dstStart + copyLen ≤ pixels.length then
    pixels.take dstStart ++ (part data srcStart (srcEnd - srcStart) ++ pixels.drop (dstStart + copyLen))
  else pixels

/-- The last of every four bytes is set. -/
def setAlpha : Bytes → Bytes
  | r :: g :: b :: _ :: rest => r :: g :: b :: 0xFF :: setAlpha rest
  | rest => rest

/-- The pixels that a commit takes from the data of its pool. -/
def commitPixels (data : Bytes) (off s w h : Nat) (format : UInt32) : Bytes :=
  let expectedStride := w * 4
  let pixels := (List.range h).foldl (copyRow data off s expectedStride) (List.replicate (expectedStride * h) 0)
  if format = 1 then setAlpha pixels else pixels

namespace Compositor

def new : Compositor := ⟨∅, ∅, ⟨0, 0, 0, []⟩, false, .zero⟩

def handleSurfaceCreate (c : Compositor) (surfaceId : UInt32) : Compositor :=
  { c with surfaces := c.surfaces.insert surfaceId ⟨true, .zero⟩ }

def handleSurfaceDestroy (c : Compositor) (surfaceId : UInt32) : Compositor :=
  { c with surfaces := c.surfaces.erase surfaceId }

def handlePoolData (decompress : Bytes → Option Bytes) (c : Compositor) (poolId : UInt32) (width height : UInt16)
    (stride format rawLen : UInt32) (lz4Data : Bytes) : Compositor :=
  match decompressed decompress rawLen lz4Data with
  | some data => { c with pools := c.pools.insert poolId ⟨data, width, height, stride, format⟩ }
  | none => c

def handleSurfaceCommit (c : Compositor) (surfaceId poolId offset : UInt32) (bufWidth bufHeight : UInt16)
    (bufStride format : UInt32) (damageX damageY damageW damageH : UInt16) : Compositor :=
  match c.pools.lookup poolId with
  | none => c
  | some pool =>
    let w := bufWidth.toUInt32
    let h := bufHeight.toUInt32
    let s := bufStride.toNat
    let off := offset.toNat
    let needed := off + s * h.toNat
    if pool.data.length < needed then c
    else
      let pixels := commitPixels pool.data off s w.toNat h.toNat format
      let clamped := (clampDamage ⟨damageX, damageY, damageW, damageH⟩ bufWidth bufHeight).getD ⟨0, 0, bufWidth, bufHeight⟩
      { c with
        surfaces := match c.surfaces.lookup surfaceId with
          | some surface => c.surfaces.insert surfaceId { surface with damage := clamped }
          | none => c.surfaces
        lastDamage := clamped
        frame := ⟨w, h, w * 4, pixels⟩
        dirty := true }

def handleCursorMove (c : Compositor) (_x _y : Int32) : Compositor := c

/-- The handler for an event. -/
def handle (decompress : Bytes → Option Bytes) (c : Compositor) : StreamEvent → Compositor
  | .surfaceCreate surfaceId => c.handleSurfaceCreate surfaceId
  | .surfaceDestroy surfaceId => c.handleSurfaceDestroy surfaceId
  | .poolData poolId width height stride format rawLen lz4Data =>
    c.handlePoolData decompress poolId width height stride format rawLen lz4Data
  | .surfaceCommit surfaceId poolId offset bufWidth bufHeight bufStride format damageX damageY damageW damageH =>
    c.handleSurfaceCommit surfaceId poolId offset bufWidth bufHeight bufStride format damageX damageY damageW damageH
  | .cursorMove x y => c.handleCursorMove x y

def run (decompress : Bytes → Option Bytes) (c : Compositor) (events : List StreamEvent) : Compositor :=
  events.foldl (handle decompress) c

end Compositor

/-! The pixels of a commit. -/

section Blocks
variable {f : Nat → Bytes} {n size row k : Nat}

theorem blocks_length (each : ∀ row < n, (f row).length = size) : ((List.range n).flatMap f).length = n * size := by
  induction n with
  | zero => exact (Nat.zero_mul size).symm
  | succ n ih =>
    rw [List.range_succ, List.flatMap_append, List.flatMap_singleton, List.length_append,
      ih fun row below => each row (Nat.lt_succ_of_lt below), each n (Nat.lt_succ_self n), Nat.add_one_mul]

/-- What stands in the block of a number. -/
theorem blocks_get (each : ∀ row < n, (f row).length = size) (below : row < n) (inside : k < size) :
    ((List.range n).flatMap f)[row * size + k]? = (f row)[k]? := by
  induction n with
  | zero => exact absurd below (Nat.not_lt_zero row)
  | succ n ih =>
    have front : ((List.range n).flatMap f).length = n * size :=
      blocks_length fun row below => each row (Nat.lt_succ_of_lt below)
    rw [List.range_succ, List.flatMap_append, List.flatMap_singleton]
    rcases Nat.lt_succ_iff_lt_or_eq.mp below with before | rfl
    · have bound : (row + 1) * size ≤ n * size := Nat.mul_le_mul_right size before
      rw [Nat.add_one_mul] at bound
      rw [List.getElem?_append_left (by omega), ih (fun row below => each row (Nat.lt_succ_of_lt below)) before]
    · rw [List.getElem?_append_right (by omega), front, Nat.add_sub_cancel_left]

theorem setAlpha_length (pixels : Bytes) : (setAlpha pixels).length = pixels.length := by
  induction pixels using setAlpha.induct with
  | case1 r g b a rest ih =>
    rw [setAlpha]
    simp only [List.length_cons, ih]
  | case2 rest short =>
    rw [setAlpha]
    exact short

theorem setAlpha_get (pixels : Bytes) {i : Nat} (whole : pixels.length % 4 = 0) (inside : i < pixels.length) :
    (setAlpha pixels)[i]? = if i % 4 = 3 then some 0xFF else pixels[i]? := by
  induction pixels using setAlpha.induct generalizing i with
  | case1 r g b a rest ih =>
    rw [setAlpha]
    simp only [List.length_cons] at whole inside
    rcases i with _ | _ | _ | _ | i
    · rfl
    · rfl
    · rfl
    · rfl
    · have same : (i + 1 + 1 + 1 + 1) % 4 = i % 4 := Nat.add_mod_right i 4
      rw [same]
      exact ih (by omega) (by omega)
  | case2 rest short =>
    rcases rest with _ | ⟨r, _ | ⟨g, _ | ⟨b, _ | ⟨a, rest⟩⟩⟩⟩
    · cases inside
    · cases whole
    · cases whole
    · cases whole
    · exact absurd rfl (short r g b a rest)

end Blocks

section Pixels
variable {data : Bytes} {off s w h : Nat} {format : UInt32}

/-- A row of a commit: what its pool has of it, and zeros up to its length. -/
def rowBytes (data : Bytes) (off s expectedStride row : Nat) : Bytes :=
  part data (off + row * s) (min expectedStride s) ++ List.replicate (expectedStride - min expectedStride s) 0

theorem row_inside {row : Nat} (enough : off + s * h ≤ data.length) (below : row < h) :
    off + row * s + min (w * 4) s ≤ data.length := by
  have rows : (row + 1) * s ≤ h * s := Nat.mul_le_mul_right s below
  rw [Nat.add_one_mul] at rows
  rw [Nat.mul_comm] at enough
  omega

theorem rowBytes_length {row : Nat} (enough : off + s * h ≤ data.length) (below : row < h) :
    (rowBytes data off s (w * 4) row).length = w * 4 := by
  have inside := row_inside (w := w) enough below
  rw [rowBytes, List.length_append, part_length inside, List.length_replicate]
  omega

theorem copyRow_next {n left : Nat} {front : Bytes} (enough : off + s * h ≤ data.length) (below : n < h)
    (length : front.length = n * (w * 4)) (room : w * 4 ≤ left) :
    copyRow data off s (w * 4) (front ++ List.replicate left 0) n =
      front ++ rowBytes data off s (w * 4) n ++ List.replicate (left - w * 4) 0 := by
  have inside := row_inside (w := w) enough below
  have taken : (front ++ List.replicate left (0 : UInt8)).take (n * (w * 4)) = front := List.take_left' length
  have dropped : (front ++ List.replicate left (0 : UInt8)).drop (n * (w * 4) + min (w * 4) s) =
      List.replicate (left - min (w * 4) s) 0 := by
    rw [← List.drop_drop, List.drop_left' length, List.drop_replicate]
  have copied : min (off + n * s + min (w * 4) s - (off + n * s)) (w * 4) = min (w * 4) s := by omega
  rw [copyRow, copied, Nat.add_sub_cancel_left, if_pos ⟨inside, by simp only [List.length_append, List.length_replicate]; omega⟩,
    taken, dropped, rowBytes, List.append_assoc, List.append_assoc, List.replicate_append_replicate]
  have same : w * 4 - min (w * 4) s + (left - w * 4) = left - min (w * 4) s := by omega
  rw [same]

/-- The loop over the rows leaves them one behind the other. -/
theorem copyRows (enough : off + s * h ≤ data.length) {n : Nat} (below : n ≤ h) :
    (List.range n).foldl (copyRow data off s (w * 4)) (List.replicate (w * 4 * h) 0) =
      (List.range n).flatMap (rowBytes data off s (w * 4)) ++ List.replicate (w * 4 * (h - n)) 0 := by
  induction n with
  | zero => rfl
  | succ n ih =>
    have length : ((List.range n).flatMap (rowBytes data off s (w * 4))).length = n * (w * 4) :=
      blocks_length fun row before => rowBytes_length enough (Nat.lt_trans before below)
    have room : w * 4 * (h - n) = w * 4 * (h - (n + 1)) + w * 4 := by
      rw [← Nat.mul_add_one]
      congr 1
      omega
    rw [List.range_succ, List.foldl_append, ih (Nat.le_of_succ_le below), List.foldl_cons, List.foldl_nil,
      copyRow_next enough below length (by omega), List.flatMap_append, List.flatMap_singleton, room, Nat.add_sub_cancel]

theorem commitPixels_eq (enough : off + s * h ≤ data.length) : commitPixels data off s w h format =
    if format = 1 then setAlpha ((List.range h).flatMap (rowBytes data off s (w * 4)))
    else (List.range h).flatMap (rowBytes data off s (w * 4)) := by
  rw [commitPixels, copyRows enough (Nat.le_refl h), Nat.sub_self, Nat.mul_zero, List.replicate_zero, List.append_nil]

theorem commitPixels_length (enough : off + s * h ≤ data.length) :
    (commitPixels data off s w h format).length = h * (w * 4) := by
  have length : ((List.range h).flatMap (rowBytes data off s (w * 4))).length = h * (w * 4) :=
    blocks_length fun row below => rowBytes_length enough below
  rw [commitPixels_eq enough]
  split
  · rw [setAlpha_length, length]
  · exact length

theorem rowBytes_get {row k : Nat} (enough : off + s * h ≤ data.length) (below : row < h) (inside : k < w * 4) :
    (rowBytes data off s (w * 4) row)[k]? = some (if k < s then data.getD (off + row * s + k) 0 else 0) := by
  have bound := row_inside (w := w) enough below
  have length : (part data (off + row * s) (min (w * 4) s)).length = min (w * 4) s := part_length bound
  rw [rowBytes]
  by_cases there : k < s
  · rw [if_pos there, List.getElem?_append_left (by omega), part, List.getElem?_take_of_lt (by omega), List.getElem?_drop,
      List.getD_eq_getElem?_getD, List.getElem?_eq_getElem (by omega)]
    rfl
  · rw [if_neg there, List.getElem?_append_right (by omega), List.getElem?_replicate_of_lt (by omega)]

/-- Every byte of a commit: of its pool, where the row has it, zero behind the row, and set where a
pixel of this format has nothing. -/
theorem commitPixels_get {row k : Nat} (enough : off + s * h ≤ data.length) (below : row < h) (inside : k < w * 4) :
    (commitPixels data off s w h format)[row * (w * 4) + k]? = some (
      if format = 1 ∧ k % 4 = 3 then 0xFF else if k < s then data.getD (off + row * s + k) 0 else 0) := by
  have each : ∀ row < h, (rowBytes data off s (w * 4) row).length = w * 4 := fun row below => rowBytes_length enough below
  have here := blocks_get each below inside
  have length := blocks_length each
  rw [rowBytes_get enough below inside] at here
  generalize (if k < s then data.getD (off + row * s + k) 0 else 0) = byte at here ⊢
  rw [commitPixels_eq enough]
  by_cases padded : format = 1
  · have rows : (row + 1) * (w * 4) ≤ h * (w * 4) := Nat.mul_le_mul_right _ below
    have column : (row * (w * 4) + k) % 4 = k % 4 := by
      rw [← Nat.mul_assoc, Nat.mul_add_mod']
    have whole : (h * (w * 4)) % 4 = 0 := by rw [← Nat.mul_assoc, Nat.mul_mod_left]
    rw [Nat.add_one_mul] at rows
    rw [if_pos padded, setAlpha_get _ (by rwa [length]) (by omega), column, here]
    by_cases last : k % 4 = 3
    · rw [if_pos last, if_pos ⟨padded, last⟩]
    · rw [if_neg last, if_neg fun both => last both.2]
  · rw [if_neg padded, here, if_neg fun both => padded both.1]

end Pixels

end Bsdos.Wlstream
