import Bsdos.Effects.Beside
import Bsdos.Effects.Fallible
import Bsdos.Streams.System

namespace Bsdos.Streams
open Effects

/-- A frame: the length prefix of four bytes and the event data. -/
abbrev Payload := List UInt8

def evPoolData : UInt8 := 0x03

def evSurfaceCommit : UInt8 := 0x04

def timerKeepaliveSecs : Nat := 5

def maxPayload : Nat := 4 * 1024 * 1024

def poolRefreshSecs : Nat := 3

/-- The tasks of an instance that publish its frames: the forwarder, by its handle, and the
timer keepalive task that this forwarder spawns. -/
inductive Worker
  | forwarder (handle : TaskHandle)
  | keepalive (handle : TaskHandle)
  deriving DecidableEq, Repr

def Worker.handle : Worker → TaskHandle
  | .forwarder handle | .keepalive handle => handle

/-- What these tasks ask of the runtime, of the socket, of the clock, of the shared pool
cache and of the Zenoh session. A task reads its arguments as it starts. -/
inductive WireOp
  | enter
  | enterKeepalive
  | declarePublisher (topic : String)
  | spawnKeepalive (topic : String) (secs : Nat)
  | connect (path : String)
  | sleep (millis : Nat)
  | interval (secs : Nat)
  | tick
  | readTimeout (secs : Nat) (count : Nat)
  | readExact (count : Nat)
  | now
  | cacheInsert (pool : UInt32) (payload : Payload)
  | cacheClear
  | cacheLock
  | cacheUnlock
  | put (topic : String) (payload : Payload)
  deriving DecidableEq, Repr

/-- Reading under a timeout answers `none` when the time is up. -/
def WireOp.Ret : WireOp → Type
  | .enter => String × String
  | .enterKeepalive => String × Nat
  | .declarePublisher _ | .connect _ | .put _ _ => Except String Unit
  | .readTimeout _ _ => Option (Except String Payload)
  | .readExact _ => Except String Payload
  | .now => Nat
  | .cacheLock => List Payload
  | _ => Unit

abbrev Wire : Signature := ⟨WireOp, WireOp.Ret⟩

abbrev Wired := Prog Wire

def wire (op : WireOp) : Wired op.Ret := Prog.perform (E := Wire) op

def streamTopic (appId : String) : String := "bsdos/app/" ++ appId ++ "/stream"

/-- The number written in these bytes, the least significant one first. -/
def fromLeBytes (bytes : Payload) : UInt32 :=
  UInt32.ofNat (bytes.foldr (fun byte rest => byte.toNat + 256 * rest) 0)

def evType (payload : Payload) : UInt8 := payload.getD 4 0

def poolIdAt (payload : Payload) (offset : Nat) : UInt32 := fromLeBytes ((payload.drop offset).take 4)

/-! A loop that never ends is run for as many rounds as it is given. -/

/-- The loop of the timer keepalive task: what is cached is published under the cache's lock. -/
def keepaliveTicks (topic : String) : Nat → Wired Unit
  | 0 => return
  | rounds + 1 => do
    wire .tick
    let cache : List Payload ← wire .cacheLock
    Prog.each (fun data => do let _ ← wire (.put topic data)) cache
    wire .cacheUnlock
    keepaliveTicks topic rounds

def timerKeepalive (rounds : Nat) : Wired Unit := do
  let arguments : String × Nat ← wire .enterKeepalive
  let declared : Except String Unit ← wire (.declarePublisher arguments.1)
  match declared with
  | .error _ => return
  | .ok _ =>
    wire (.interval arguments.2)
    wire .tick
    keepaliveTicks arguments.1 rounds

/-- Tries to connect until it goes through. -/
def connectTo (sock : String) : Nat → Wired Bool
  | 0 => return false
  | tries + 1 => do
    let connected : Except String Unit ← wire (.connect sock)
    match connected with
    | .ok _ => return true
    | .error _ =>
      wire (.sleep 1000)
      connectTo sock tries

/-- The next frame of the connection, if it has one in time. -/
def readFrame : Wired (Option Payload) := do
  let lenBytes : Option (Except String Payload) ← wire (.readTimeout 10 4)
  match lenBytes with
  | some (.ok lenBytes) =>
    let payloadSize := (fromLeBytes lenBytes).toNat
    if payloadSize = 0 ∨ maxPayload < payloadSize then return none
    let body : Except String Payload ← wire (.readExact payloadSize)
    match body with
    | .ok body => return some (lenBytes ++ body)
    | .error _ => return none
  | _ => return none

/-- The frames a connection has cached, each with the time it was last published. -/
abbrev PoolCache := Finmap fun _ : UInt32 => Payload × Nat

/-- What is done with a frame before it is published. -/
def cacheFrame (topic : String) (poolCache : PoolCache) (payload : Payload) : Wired PoolCache := do
  if evType payload = evPoolData ∧ 9 ≤ payload.length then
    let instant : Nat ← wire .now
    wire (.cacheInsert (poolIdAt payload 5) payload)
    return poolCache.insert (poolIdAt payload 5) (payload, instant)
  else if evType payload = evSurfaceCommit ∧ 13 ≤ payload.length then
    match poolCache.lookup (poolIdAt payload 9) with
    | some (cached, lastPub) =>
      let instant : Nat ← wire .now
      if poolRefreshSecs * 1000 ≤ instant - lastPub then
        let _ ← wire (.put topic cached)
        let instant : Nat ← wire .now
        return poolCache.insert (poolIdAt payload 9) (cached, instant)
      else return poolCache
    | none => return poolCache
  else return poolCache

/-- The frames of one connection, until it breaks. -/
def forwardFrames (topic : String) (poolCache : PoolCache) : Nat → Wired Bool
  | 0 => return false
  | frames + 1 => do
    match ← readFrame with
    | none => return true
    | some payload =>
      let poolCache ← cacheFrame topic poolCache payload
      let _ ← wire (.put topic payload)
      forwardFrames topic poolCache frames

/-- The reconnect loop; each round is given its tries to connect and its frames. -/
def forwardConnections (topic sock : String) : List (Nat × Nat) → Wired Unit
  | [] => return
  | (tries, frames) :: rounds => do
    if ← connectTo sock tries then
      if ← forwardFrames topic ∅ frames then
        wire .cacheClear
        wire (.sleep 1000)
        forwardConnections topic sock rounds

def waylandForwarderImpl (appId streamSock : String) (keepaliveSecs : Nat) (rounds : List (Nat × Nat)) : Wired Unit := do
  let declared : Except String Unit ← wire (.declarePublisher (streamTopic appId))
  match declared with
  | .error _ => return
  | .ok _ =>
    wire (.spawnKeepalive (streamTopic appId) keepaliveSecs)
    forwardConnections (streamTopic appId) streamSock rounds

def waylandForwarder (rounds : List (Nat × Nat)) : Wired Unit := do
  let arguments : String × String ← wire .enter
  waylandForwarderImpl arguments.1 arguments.2 timerKeepaliveSecs rounds

/-- What the runtime and the tasks share: the arguments of the forwarders and of their
keepalive tasks, which of them have started, which tasks were aborted, and the shared cache
of each forwarder with its lock. -/
structure Yard where
  forwarders : TaskHandle → Option (String × String)
  entered : TaskHandle → Bool
  keepalives : TaskHandle → Option (String × Nat)
  awake : TaskHandle → Bool
  aborted : TaskHandle → Bool
  caches : TaskHandle → List (UInt32 × Payload)
  locked : TaskHandle → Bool

def Yard.empty : Yard :=
  ⟨fun _ => none, fun _ => false, fun _ => none, fun _ => false, fun _ => false, fun _ => [], fun _ => false⟩

/-- A task starts once, with the arguments it was spawned with. A lock of the cache yields
its frames, in whatever order. -/
def Yard.may (y : Yard) : Worker → (op : WireOp) → op.Ret → Bool
  | .forwarder h, .enter, arguments => !y.entered h && truly (y.forwarders h) (some arguments)
  | .keepalive h, .enterKeepalive, arguments => !y.awake h && truly (y.keepalives h) (some arguments)
  | .forwarder h, .cacheInsert _ _, _ | .forwarder h, .cacheClear, _ => !y.locked h
  | .keepalive h, .cacheLock, cached =>
    !y.locked h && List.isPerm (α := Payload) cached ((y.caches h).map Prod.snd)
  | _, .enter, _ | _, .enterKeepalive, _ => false
  | _, .readTimeout _ count, some (.ok bytes) => decide (List.length (α := UInt8) bytes = count)
  | _, .readExact count, .ok bytes => decide (List.length (α := UInt8) bytes = count)
  | _, _, _ => true

def Yard.after (y : Yard) : Worker → (op : WireOp) → op.Ret → Yard
  | .forwarder h, .enter, _ => { y with entered := Function.update y.entered h true }
  | .keepalive h, .enterKeepalive, _ => { y with awake := Function.update y.awake h true }
  | .forwarder h, .spawnKeepalive topic secs, _ =>
    { y with keepalives := Function.update y.keepalives h (some (topic, secs)) }
  | .forwarder h, .cacheInsert pool payload, _ =>
    { y with caches := Function.update y.caches h ((pool, payload) :: (y.caches h).filter fun e => e.1 ≠ pool) }
  | .forwarder h, .cacheClear, _ => { y with caches := Function.update y.caches h [] }
  | .keepalive h, .cacheLock, _ => { y with locked := Function.update y.locked h true }
  | .keepalive h, .cacheUnlock, _ => { y with locked := Function.update y.locked h false }
  | _, _, _ => y

inductive WireRequest
  | forward (rounds : List (Nat × Nat))
  | refresh (rounds : Nat)
  deriving DecidableEq

def wireServe : Worker → WireRequest → Option (Wired Unit)
  | .forwarder _, .forward rounds => some (waylandForwarder rounds)
  | .keepalive _, .refresh rounds => some (timerKeepalive rounds)
  | _, _ => none

/-- Where a forwarder waits, and an abort drops it. -/
def wireDroppable : Worker → WireOp → Bool
  | .forwarder _, .now | .forwarder _, .spawnKeepalive _ _ | .keepalive _, _ => false
  | _, _ => true

def wires : System Wire Worker Yard where
  Request := WireRequest
  Env := Empty
  may := fun a y => y.may a
  effect := fun a y => y.after a
  serve := wireServe
  droppable := wireDroppable
  surroundings := fun _ change => nomatch change

/-- What the manager does to the tasks: it spawns forwarders, and aborts tasks. -/
def yard : Observer manager Yard where
  sees y _ _ op r :=
    match op, r with
    | .spawnTask .forwarder appId path, (handle : TaskHandle) =>
      { y with forwarders := Function.update y.forwarders handle (some (appId, path)) }
    | .abort handle, _ => { y with aborted := Function.update y.aborted handle true }
    | _, _ => y
  feels y _ _ := y

/-- The manager with the forwarders it spawns. -/
def streamed : System (Host.sum Wire) (Actor ⊕ Worker) (World × Yard) := manager.beside yard wires

end Bsdos.Streams
