import Bsdos.Effects.Expand
import Bsdos.Streams.Faithful

namespace Bsdos.Streams
open Effects

/-- The tasks of one instance of the forwarder: its read loop and its timer keepalive. -/
inductive Pump
  | reader
  | timer
  deriving DecidableEq

inductive LatchOp
  | acquire
  | release
  deriving DecidableEq

/-- The lock of the shared cache, taken and given back. -/
abbrev Latch : Signature := ⟨LatchOp, fun _ => Unit⟩

abbrev Latched := Prog (Wire.sum Latch)

def latch (op : LatchOp) : Latched Unit := Prog.perform (E := Wire.sum Latch) (.inr op)

def wired (op : WireOp) : Latched op.Ret := Prog.perform (E := Wire.sum Latch) (.inl op)

/-- What is done under the lock, with the lock taken before and given back after as calls of their own. -/
def underLatch : (op : WireOp) → Latched op.Ret
  | .cacheInsert pool payload => do
    latch .acquire
    wired (.cacheInsert pool payload)
    latch .release
  | .cacheClear => do
    latch .acquire
    wired .cacheClear
    latch .release
  | .cacheLock => do
    latch .acquire
    wired .cacheLock
  | .cacheUnlock => latch .release
  | op => wired op

/-- What an instance shares: whether its read loop has started, its keepalive task as it was
spawned and whether it has started, the shared cache, and who holds its lock. -/
structure Pipe where
  entered : Bool
  keepalive : Option (String × Nat)
  awake : Bool
  cache : List (UInt32 × Payload)
  holder : Option Pump

def Pipe.fresh : Pipe := ⟨false, none, false, [], none⟩

/-- Each task starts once. The lock is given to one task at a time; nothing but the tasks
themselves keeps them from the cache without it. -/
def Pipe.may (appId sock : String) (w : Pipe) : Pump → (op : (Wire.sum Latch).Op) → (Wire.sum Latch).Ret op → Bool
  | .reader, .inl .enter, arguments => !w.entered && truly (appId, sock) arguments
  | .timer, .inl .enterKeepalive, arguments => !w.awake && truly w.keepalive (some arguments)
  | _, .inl .enter, _ | _, .inl .enterKeepalive, _ => false
  | _, .inl .cacheLock, cached => List.isPerm (α := Payload) cached (w.cache.map Prod.snd)
  | _, .inl (.readTimeout _ count), some (.ok bytes) => decide (List.length (α := UInt8) bytes = count)
  | _, .inl (.readExact count), .ok bytes => decide (List.length (α := UInt8) bytes = count)
  | _, .inr .acquire, _ => w.holder.isNone
  | _, _, _ => true

def Pipe.after (w : Pipe) : Pump → (op : (Wire.sum Latch).Op) → (Wire.sum Latch).Ret op → Pipe
  | _, .inl .enter, _ => { w with entered := true }
  | _, .inl .enterKeepalive, _ => { w with awake := true }
  | _, .inl (.spawnKeepalive topic secs), _ => { w with keepalive := some (topic, secs) }
  | _, .inl (.cacheInsert pool payload), _ =>
    { w with cache := (pool, payload) :: w.cache.filter fun e => e.1 ≠ pool }
  | _, .inl .cacheClear, _ => { w with cache := [] }
  | pump, .inr .acquire, _ => { w with holder := some pump }
  | _, .inr .release, _ => { w with holder := none }
  | _, _, _ => w

def forwardOnce (appId sock : String) (keepaliveSecs : Nat) (rounds : List (Nat × Nat)) : Wired Unit := do
  let _ ← wire .enter
  waylandForwarderImpl appId sock keepaliveSecs rounds

def pumpServe (appId sock : String) (keepaliveSecs : Nat) : Pump → WireRequest → Option (Latched Unit)
  | .reader, .forward rounds => some ((forwardOnce appId sock keepaliveSecs rounds).expand underLatch)
  | .timer, .refresh rounds => some ((timerKeepalive rounds).expand underLatch)
  | _, _ => none

/-- Where the read loop waits, and an abort drops it. -/
def pumpDroppable : Pump → (Wire.sum Latch).Op → Bool
  | .reader, .inl .now | .reader, .inl (.spawnKeepalive _ _) => false
  | .reader, .inl (.cacheInsert _ _) | .reader, .inl .cacheClear | .reader, .inr .release => false
  | .reader, _ => true
  | .timer, _ => false

/-- The read loop of an instance beside its timer keepalive, call by call. -/
def latched (appId sock : String) (keepaliveSecs : Nat) : System (Wire.sum Latch) Pump Pipe where
  Request := WireRequest
  Env := Empty
  may := fun a w => w.may appId sock a
  effect := fun a w => w.after a
  serve := pumpServe appId sock keepaliveSecs
  droppable := pumpDroppable
  surroundings := fun _ change => nomatch change

/-- What a read loop has received: the length prefix it has read last, the frames in their
order, which of them it has cached last of each pool since the cache was cleared, and how
many there were then. -/
structure Reading where
  header : Payload
  frames : List Payload
  fresh : UInt32 → Option Nat
  cleared : Nat
  past : cleared ≤ frames.length

namespace Reading

def idle : Reading := ⟨[], [], fun _ => none, 0, Nat.le_refl 0⟩

def receive (γ : Reading) (frame : Payload) : Reading :=
  ⟨γ.header, γ.frames ++ [frame], γ.fresh, γ.cleared, Nat.le_trans γ.past (List.prefix_append γ.frames [frame]).length_le⟩

/-- The frame received last is cached. -/
def cache (γ : Reading) (pool : UInt32) : Reading :=
  { γ with fresh := Function.update γ.fresh pool (some (γ.frames.length - 1)) }

def clear (γ : Reading) : Reading := ⟨γ.header, γ.frames, fun _ => none, γ.frames.length, Nat.le_refl _⟩

end Reading

/-- The frame is of the pool, and the one that has been cached last of it. -/
def Reading.Holds (γ : Reading) (pool : UInt32) (payload : Payload) : Prop :=
  OfPool pool payload ∧ ∃ n, γ.fresh pool = some n ∧ γ.frames[n]? = some payload

/-- A read loop caches a frame as soon as it has it, and publishes no POOL_DATA but the one
that has been cached last of its pool. -/
def reading : Protocol Wire Reading where
  next γ
    | .readTimeout _ _, some (.ok bytes) => { γ with header := bytes }
    | .readExact _, .ok bytes => γ.receive (γ.header ++ bytes)
    | .cacheInsert pool _, _ => γ.cache pool
    | .cacheClear, _ => γ.clear
    | _, _ => γ
  allows γ
    | .put _ payload => ∀ pool, OfPool pool payload → γ.Holds pool payload
    | .cacheInsert pool payload =>
      OfPool pool payload ∧ γ.frames.getLast? = some payload ∧ γ.cleared < γ.frames.length
    | .enterKeepalive | .cacheLock | .cacheUnlock => False
    | _ => True

def WireOp.touches : WireOp → Bool
  | .cacheInsert _ _ | .cacheClear | .cacheLock => true
  | _ => false

/-- A read loop that uses the cache while it holds the lock, and waits for nothing then. -/
def reader : Protocol (Wire.sum Latch) (Reading × Bool) where
  next γ
    | .inl op, r => (reading.next γ.1 op r, γ.2)
    | .inr .acquire, _ => (γ.1, true)
    | .inr .release, _ => (γ.1, false)
  allows γ
    | .inl op => reading.allows γ.1 op ∧ γ.2 = op.touches
    | .inr .acquire => γ.2 = false
    | .inr .release => γ.2 = true

/-- What a timer task has found in the cache, while it holds the lock. -/
def ticking : Protocol Wire (Option (List Payload)) where
  next γ
    | .cacheLock, cached => some cached
    | .cacheUnlock, _ => none
    | _, _ => γ
  allows γ
    | .put _ payload => ∃ found, γ = some found ∧ payload ∈ found
    | .cacheLock => γ = none
    | .cacheUnlock => γ ≠ none
    | .enterKeepalive | .declarePublisher _ | .interval _ | .tick => True
    | _ => False

def timer : Protocol (Wire.sum Latch) (Option (List Payload)) where
  next γ
    | .inl .cacheLock, cached => some cached
    | .inr .acquire, _ => some []
    | .inr .release, _ => none
    | _, _ => γ
  allows γ
    | .inl .cacheLock | .inr .release => γ ≠ none
    | .inl .cacheUnlock => False
    | .inl op => ticking.allows γ op
    | .inr .acquire => γ = none

section programs

/-- With these calls apart a read loop still follows its discipline. -/
theorem underLatch_reader (op : WireOp) (γ : Reading) (δ : Reading × Bool) (allowed : reading.allows γ op)
    (related : δ = (γ, false)) : (underLatch op).Follows reader (fun r δ' => δ' = (reading.next γ op r, false)) δ := by
  subst related
  cases op with
  | cacheInsert pool payload => exact ⟨rfl, fun _ => ⟨⟨allowed, rfl⟩, fun _ => ⟨rfl, fun _ => rfl⟩⟩⟩
  | cacheClear => exact ⟨rfl, fun _ => ⟨⟨allowed, rfl⟩, fun _ => ⟨rfl, fun _ => rfl⟩⟩⟩
  | cacheLock | cacheUnlock => exact allowed.elim
  | _ => exact ⟨⟨allowed, rfl⟩, fun _ => rfl⟩

theorem underLatch_timer (op : WireOp) (γ δ : Option (List Payload)) (allowed : ticking.allows γ op) (related : δ = γ) :
    (underLatch op).Follows timer (fun r δ' => δ' = ticking.next γ op r) δ := by
  subst related
  cases op with
  | cacheLock => exact ⟨allowed, fun _ => ⟨Option.some_ne_none _, fun _ => rfl⟩⟩
  | cacheUnlock => exact ⟨allowed, fun _ => rfl⟩
  | cacheInsert _ _ | cacheClear => exact allowed.elim
  | _ => exact ⟨allowed, fun _ => rfl⟩

theorem Reading.Holds.grow {γ : Reading} {pool : UInt32} {payload : Payload} (holds : γ.Holds pool payload)
    (frame : Payload) : (γ.receive frame).Holds pool payload := by
  obtain ⟨own, n, fresh, there⟩ := holds
  obtain ⟨bound, _⟩ := List.getElem?_eq_some_iff.mp there
  exact ⟨own, n, fresh, (List.getElem?_append_left bound).trans there⟩

/-- The frames a connection has cached are those cached last of their pools. -/
def Mirrors (cache : PoolCache) (γ : Reading) : Prop :=
  ∀ pool entry, cache.lookup pool = some entry → γ.Holds pool entry.1

/-- A frame has just been received on the connection. -/
structure Reading.Just (γ : Reading) (frame : Payload) : Prop where
  last : γ.frames.getLast? = some frame
  new : γ.cleared < γ.frames.length

/-- What is cached of a pool can be published with a later time. -/
theorem Mirrors.insert {cache : PoolCache} {γ : Reading} (mirrors : Mirrors cache γ) {pool : UInt32}
    {entry : Payload × Nat} (holds : γ.Holds pool entry.1) : Mirrors (Finmap.insert pool entry cache) γ := by
  intro pool' entry' found
  by_cases same : pool' = pool
  · subst same
    rw [Finmap.lookup_insert] at found
    exact Option.some.inj found ▸ holds
  · rw [Finmap.lookup_insert_of_ne cache same] at found
    exact mirrors pool' entry' found

theorem mirrors_empty (γ : Reading) : Mirrors ∅ γ := by
  intro pool entry found
  rw [Finmap.lookup_empty] at found
  cases found

/-- Caching a frame makes it the last of its pool. -/
theorem Reading.Just.holds {γ : Reading} {frame : Payload} {pool : UInt32} (just : γ.Just frame)
    (own : OfPool pool frame) : (γ.cache pool).Holds pool frame :=
  ⟨own, _, Function.update_self .., List.getLast?_eq_getElem? ▸ just.last⟩

variable {γ : Reading} {cache : PoolCache} {topic : String}

/-- The next frame has just been received, and leaves what was cached. -/
theorem readFrame_reading (mirrors : Mirrors cache γ) : readFrame.Follows reading
    (fun read γ' => Mirrors cache γ' ∧ ∀ frame, read = some frame → γ'.Just frame) γ := by
  rw [readFrame_eq]
  refine ⟨trivial, fun lenBytes : Option (Except String Payload) => ?_⟩
  rcases lenBytes with _ | e | lenBytes
  · exact ⟨mirrors, fun frame read => nomatch read⟩
  · exact ⟨mirrors, fun frame read => nomatch read⟩
  · rw [withSize]
    by_cases range : InRange lenBytes
    · rw [if_pos range]
      refine ⟨trivial, fun body : Except String Payload => ?_⟩
      rcases body with e | body
      · exact ⟨mirrors, fun frame read => nomatch read⟩
      · refine ⟨fun pool entry found => (mirrors pool entry found).grow _, fun frame read => ?_⟩
        obtain rfl := Option.some.inj read
        refine ⟨List.getLast?_concat .., ?_⟩
        show γ.cleared < (γ.frames ++ [lenBytes ++ body]).length
        rw [List.length_append, List.length_singleton]
        exact Nat.lt_succ_of_le γ.past
    · rw [if_neg range]
      exact ⟨mirrors, fun frame read => nomatch read⟩

/-- What is done with a frame before it is published makes it the last one of its pool. -/
theorem cacheFrame_reading {frame : Payload} (mirrors : Mirrors cache γ) (just : γ.Just frame) :
    (cacheFrame topic cache frame).Follows reading (fun cache' γ' => Mirrors cache' γ' ∧
      ∀ pool, OfPool pool frame → γ'.Holds pool frame) γ := by
  have aside (other : ¬ IsPoolData frame) (pool : UInt32) (own : OfPool pool frame) : γ.Holds pool frame :=
    absurd own.1 other
  by_cases data : IsPoolData frame
  · rw [cacheFrame_pool data]
    refine ⟨trivial, fun t : Nat => ⟨⟨⟨data, rfl⟩, just.last, just.new⟩, fun _ => ⟨?_, ?_⟩⟩⟩
    · intro pool entry found
      by_cases same : pool = poolIdAt frame 5
      · subst same
        rw [Finmap.lookup_insert] at found
        obtain rfl := Option.some.inj found
        exact just.holds ⟨data, rfl⟩
      · rw [Finmap.lookup_insert_of_ne cache same] at found
        obtain ⟨own, n, fresh, there⟩ := mirrors pool entry found
        exact ⟨own, n, (Function.update_of_ne same ..).trans fresh, there⟩
    · rintro pool ⟨_, rfl⟩
      exact just.holds ⟨data, rfl⟩
  · by_cases unknown : IsCommit frame → cache.lookup (poolIdAt frame 9) = none
    · rw [cacheFrame_pass data unknown]
      exact ⟨mirrors, aside data⟩
    · obtain ⟨commit, found⟩ := Classical.not_imp.mp unknown
      obtain ⟨⟨cached, lastPub⟩, known⟩ := Option.ne_none_iff_exists'.mp found
      have holds : γ.Holds (poolIdAt frame 9) cached := mirrors _ _ known
      rw [cacheFrame_known commit known]
      refine ⟨trivial, fun t : Nat => ?_⟩
      rcases refreshPool_cases topic cache (poolIdAt frame 9) cached lastPub t with ⟨_, same⟩ | ⟨_, same⟩
      · rw [same]
        refine ⟨fun pool own => ?_, fun _ => ⟨trivial, fun t' : Nat => ⟨mirrors.insert holds, aside data⟩⟩⟩
        exact (own.2.symm.trans holds.1.2) ▸ holds
      · rw [same]
        exact ⟨mirrors, aside data⟩

theorem forwardFrames_reading (frames : Nat) (mirrors : Mirrors cache γ) :
    (forwardFrames topic cache frames).Follows reading (fun _ _ => True) γ := by
  induction frames generalizing γ cache with
  | zero => trivial
  | succ frames ih =>
    unfold forwardFrames
    refine (readFrame_reading mirrors).bind fun read γ' received => ?_
    obtain ⟨mirrors', just⟩ := received
    cases read with
    | none => trivial
    | some frame =>
      refine (cacheFrame_reading mirrors' (just frame rfl)).bind fun cache' γ'' cached => ?_
      obtain ⟨mirrors'', holds⟩ := cached
      exact ⟨holds, fun _ => ih mirrors''⟩

theorem connectTo_reading (sock : String) (tries : Nat) :
    (connectTo sock tries).Follows reading (fun _ _ => True) γ := by
  induction tries with
  | zero => trivial
  | succ tries ih =>
    refine ⟨trivial, fun connected : Except String Unit => ?_⟩
    cases connected with
    | ok _ => trivial
    | error e => exact ⟨trivial, fun _ => ih⟩

theorem forwardConnections_reading (sock : String) (rounds : List (Nat × Nat)) :
    (forwardConnections topic sock rounds).Follows reading (fun _ _ => True) γ := by
  induction rounds generalizing γ with
  | nil => trivial
  | cons round rounds ih =>
    refine (connectTo_reading sock round.1).bind fun connected γ' _ => ?_
    cases connected with
    | false => trivial
    | true =>
      refine (forwardFrames_reading round.2 (mirrors_empty _)).bind fun broken γ'' _ => ?_
      cases broken with
      | false => trivial
      | true => exact ⟨trivial, fun _ => ⟨trivial, fun _ => ih⟩⟩

theorem forwardOnce_reading (appId sock : String) (secs : Nat) (rounds : List (Nat × Nat)) :
    (forwardOnce appId sock secs rounds).Follows reading (fun _ _ => True) γ := by
  refine ⟨trivial, fun _ => ⟨trivial, fun declared : Except String Unit => ?_⟩⟩
  cases declared with
  | error e => trivial
  | ok _ => exact ⟨trivial, fun _ => forwardConnections_reading sock rounds⟩

/-- Between two ticks nothing is kept of what was found. -/
theorem keepaliveTicks_ticking (rounds : Nat) :
    (keepaliveTicks topic rounds).Follows ticking (fun _ δ => δ = none) none := by
  induction rounds with
  | zero => rfl
  | succ rounds ih =>
    refine ⟨trivial, fun _ => ⟨rfl, fun found : List Payload => ?_⟩⟩
    have publishes : (Prog.each (fun data => do let _ ← wire (.put topic data)) found).Follows ticking
        (fun _ δ => δ = some found ∧ ∀ payload ∈ ([] : List Payload), payload ∈ found) (some found) := by
      refine Prog.Follows.each (I := fun left δ => δ = some found ∧ ∀ payload ∈ left, payload ∈ found)
        ⟨rfl, fun _ member => member⟩ fun data rest δ inside => ?_
      obtain ⟨rfl, among⟩ := inside
      exact ⟨⟨found, rfl, among data (List.mem_cons_self ..)⟩, fun _ => ⟨rfl, fun payload later =>
        among payload (List.mem_cons_of_mem data later)⟩⟩
    refine publishes.bind fun _ δ ended => ?_
    obtain ⟨rfl, _⟩ := ended
    exact ⟨Option.some_ne_none found, fun _ => ih⟩

theorem timerKeepalive_ticking (rounds : Nat) :
    (timerKeepalive rounds).Follows ticking (fun _ δ => δ = none) none := by
  refine ⟨trivial, fun arguments : String × Nat => ⟨trivial, fun declared : Except String Unit => ?_⟩⟩
  cases declared with
  | error e => rfl
  | ok _ => exact ⟨trivial, fun _ => ⟨trivial, fun _ => keepaliveTicks_ticking rounds⟩⟩

end programs

/-- What the tasks of an instance have done, newest call first. -/
abbrev Tape := List (Event (Wire.sum Latch) Pump)

def readerOf (tape : Tape) : Reading × Bool := reader.state (.idle, false) .reader tape

def timerOf (tape : Tape) : Option (List Payload) := timer.state none .timer tape

/-- What the read loop has received. -/
abbrev readingOf (tape : Tape) : Reading := (readerOf tape).1

section runs
variable {appId sock : String} {secs : Nat} {ok : Config (Wire.sum Latch) Pump Pipe → Label (latched appId sock secs) → Prop}
  {w : Pipe} {c : Config (Wire.sum Latch) Pump Pipe}

theorem reader_conforms (reach : Reach (latched appId sock secs) ok (.idle w) c) :
    c.Conforms reader (.idle, false) (fun δ => δ.2 = false) .reader := by
  refine reach.conforms rfl (fun request program served δ idle => ?_) fun c op admitted dropped allowed => ?_
  · cases request with
    | refresh rounds => cases served
    | forward rounds =>
      obtain rfl := Option.some.inj served
      have clean : δ = (δ.1, false) := Prod.ext rfl idle
      refine ((forwardOnce_reading appId sock secs rounds).expand underLatch_reader clean).mono fun _ δ ended => ?_
      obtain ⟨γ, _, same⟩ := ended
      exact congrArg Prod.snd same
  · cases op with
    | inl op =>
      obtain ⟨admits, held⟩ := allowed
      cases op with
      | cacheInsert _ _ | cacheClear => cases dropped
      | cacheLock => exact admits.elim
      | _ => exact held
    | inr op =>
      cases op with
      | acquire => exact allowed
      | release => cases dropped

theorem timer_conforms (reach : Reach (latched appId sock secs) ok (.idle w) c) :
    c.Conforms timer none (fun δ => δ = none) .timer := by
  refine reach.conforms rfl (fun request program served δ idle => ?_) fun c op admitted dropped allowed => nomatch dropped
  cases request with
  | forward rounds => cases served
  | refresh rounds =>
    obtain rfl := Option.some.inj served
    refine ((timerKeepalive_ticking rounds).expand underLatch_timer idle).mono fun _ δ ended => ?_
    obtain ⟨γ, none, same⟩ := ended
    exact same.trans none

end runs

end Bsdos.Streams
