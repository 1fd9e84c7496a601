import Bsdos.Streams.Latch

namespace Bsdos.Streams
open Effects

/-- Which of the frames received the timer task found of a pool as it read the cache last. -/
def taken : Tape → UInt32 → Option Nat
  | [] => fun _ => none
  | ⟨.timer, .inl .cacheLock, _⟩ :: tape => (readingOf tape).fresh
  | _ :: tape => taken tape

/-- Which of the frames received a task has in its hands of a pool. -/
def inHand (tape : Tape) : Pump → UInt32 → Option Nat
  | .reader => (readingOf tape).fresh
  | .timer => taken tape

/-- POOL_DATA that a task has published: which of the frames received it is, and how many of
them had been received when the cache was cleared last. -/
structure Shown where
  pump : Pump
  payload : Payload
  number : Option Nat
  cleared : Nat

def Shown.pool (s : Shown) : UInt32 := poolIdAt s.payload 5

/-- The POOL_DATA published, whatever the put said, the last first. -/
def shown : Tape → List Shown
  | [] => []
  | ⟨pump, .inl (.put _ payload), _⟩ :: tape =>
    if IsPoolData payload then
      ⟨pump, payload, inHand tape pump (poolIdAt payload 5), (readingOf tape).cleared⟩ :: shown tape
    else shown tape
  | _ :: tape => shown tape

/-- What is published is one of the frames received, byte for byte, and by the timer task one
received after the cache was cleared last. Of each pool it is never received before one that has
been published already. -/
structure Forward (tape : Tape) : Prop where
  received : ∀ s ∈ shown tape, ∃ n, s.number = some n ∧ (readingOf tape).frames[n]? = some s.payload ∧
    (s.pump = .timer → s.cleared ≤ n)
  ordered : (shown tape).Pairwise fun later earlier => later.pool = earlier.pool →
    ∀ n m, earlier.number = some n → later.number = some m → n ≤ m

/-- The shared cache is what the read loop has cached last of each pool, and whoever holds its
lock has found it so. -/
structure Aligned (w : Pipe) (tape : Tape) : Prop where
  readerHolds : (readerOf tape).2 = true ↔ w.holder = some .reader
  timerHolds : timerOf tape ≠ none ↔ w.holder = some .timer
  cache : ∀ pool payload, (pool, payload) ∈ w.cache → (readingOf tape).Holds pool payload
  fresh : ∀ pool n, (readingOf tape).fresh pool = some n →
    (readingOf tape).cleared ≤ n ∧ n < (readingOf tape).frames.length
  found : ∀ left payload, timerOf tape = some left → payload ∈ left →
    (∃ pool, (readingOf tape).Holds pool payload) ∧ taken tape = (readingOf tape).fresh
  bounded : ∀ s ∈ shown tape, ∀ n, s.number = some n → n < (readingOf tape).frames.length ∧
    ∀ m, (readingOf tape).fresh s.pool = some m → n ≤ m
  forward : Forward tape

section
variable {w : Pipe} {tape : Tape}

theorem aligned_fresh : Aligned .fresh [] where
  readerHolds := ⟨(nomatch ·), (nomatch ·)⟩
  timerHolds := ⟨(absurd rfl ·), (nomatch ·)⟩
  cache _ _ member := absurd member List.not_mem_nil
  fresh _ _ known := nomatch known
  found _ _ known := nomatch known
  bounded _ member := absurd member List.not_mem_nil
  forward := ⟨fun _ member => absurd member List.not_mem_nil, .nil⟩

/-- While the read loop holds the lock, the timer task has nothing in its hands. -/
theorem Aligned.alone (aligned : Aligned w tape) (held : (readerOf tape).2 = true) : timerOf tape = none := by
  by_contra other
  cases (aligned.readerHolds.mp held).symm.trans (aligned.timerHolds.mp other)

section changes
variable {w' : Pipe} {tape' : Tape}

/-- What neither publishes nor receives nor changes the cache. -/
theorem Aligned.still (aligned : Aligned w tape) (cache : w'.cache = w.cache)
    (reader : (readerOf tape').2 = true ↔ w'.holder = some .reader)
    (timer : timerOf tape' ≠ none ↔ w'.holder = some .timer) {header : Payload}
    (state : readingOf tape' = { readingOf tape with header := header })
    (left : ∀ found payload, timerOf tape' = some found → payload ∈ found → timerOf tape = some found)
    (took : taken tape' = taken tape) (published : shown tape' = shown tape) : Aligned w' tape' := by
  refine ⟨reader, timer, fun pool payload member => ?_, fun pool n known => ?_, fun found payload known member => ?_,
    fun s member n number => ?_, fun s member => ?_, ?_⟩
  · rw [state]
    exact aligned.cache pool payload (cache ▸ member)
  · rw [state] at known ⊢
    exact aligned.fresh pool n known
  · rw [state, took]
    exact aligned.found found payload (left found payload known member) member
  · rw [state]
    exact aligned.bounded s (published ▸ member) n number
  · rw [state]
    exact aligned.forward.received s (published ▸ member)
  · rw [published]
    exact aligned.forward.ordered

/-- The timer task reads the cache, under the lock. -/
theorem Aligned.read (aligned : Aligned w tape) {cached : List Payload} (held : timerOf tape ≠ none)
    (whole : ∀ payload ∈ cached, ∃ pool, (pool, payload) ∈ w.cache) (state : readerOf tape' = readerOf tape)
    (left : timerOf tape' = some cached) (took : taken tape' = (readingOf tape).fresh)
    (published : shown tape' = shown tape) : Aligned w tape' := by
  have same : readingOf tape' = readingOf tape := congrArg Prod.fst state
  refine ⟨?_, ?_, ?_, ?_, fun found payload known member => ?_, ?_, ?_, ?_⟩
  · rw [state]
    exact aligned.readerHolds
  · rw [left, ← aligned.timerHolds]
    exact ⟨fun _ => held, fun _ => Option.some_ne_none cached⟩
  · rw [same]
    exact aligned.cache
  · rw [same]
    exact aligned.fresh
  · obtain rfl := Option.some.inj (left.symm.trans known)
    obtain ⟨pool, there⟩ := whole payload member
    rw [same]
    exact ⟨⟨pool, aligned.cache pool payload there⟩, took⟩
  · rw [published, same]
    exact aligned.bounded
  · rw [published, same]
    exact aligned.forward.received
  · rw [published]
    exact aligned.forward.ordered

/-- A task publishes POOL_DATA that is the last one cached of its pool. -/
theorem Aligned.put (aligned : Aligned w tape) {pump : Pump} {payload : Payload}
    (holds : (readingOf tape).Holds (poolIdAt payload 5) payload) (hand : inHand tape pump = (readingOf tape).fresh)
    (state : readerOf tape' = readerOf tape) (left : timerOf tape' = timerOf tape) (took : taken tape' = taken tape)
    (published : shown tape' =
      ⟨pump, payload, inHand tape pump (poolIdAt payload 5), (readingOf tape).cleared⟩ :: shown tape) :
    Aligned w tape' := by
  have same : readingOf tape' = readingOf tape := congrArg Prod.fst state
  obtain ⟨_, n, fresh, there⟩ := holds
  obtain ⟨since, bound⟩ := aligned.fresh _ n fresh
  rw [hand, fresh] at published
  refine ⟨?_, ?_, ?_, ?_, ?_, fun s member m number => ?_, fun s member => ?_, ?_⟩
  · rw [state]
    exact aligned.readerHolds
  · rw [left]
    exact aligned.timerHolds
  · rw [same]
    exact aligned.cache
  · rw [same]
    exact aligned.fresh
  · rw [same, left, took]
    exact aligned.found
  · rw [published] at member
    rw [same]
    rcases List.mem_cons.mp member with rfl | earlier
    · obtain rfl := Option.some.inj number
      exact ⟨bound, fun m known => Nat.le_of_eq (Option.some.inj (fresh.symm.trans known))⟩
    · exact aligned.bounded s earlier m number
  · rw [published] at member
    rw [same]
    rcases List.mem_cons.mp member with rfl | earlier
    · exact ⟨n, rfl, there, fun _ => since⟩
    · exact aligned.forward.received s earlier
  · rw [published]
    refine .cons (fun s earlier own m n' number known => ?_) aligned.forward.ordered
    obtain rfl := Option.some.inj known
    exact (aligned.bounded s earlier m number).2 n (own ▸ fresh)

/-- The next frame is received. -/
theorem Aligned.receive (aligned : Aligned w tape) {frame : Payload}
    (state : readerOf tape' = ((readingOf tape).receive frame, (readerOf tape).2)) (left : timerOf tape' = timerOf tape)
    (took : taken tape' = taken tape) (published : shown tape' = shown tape) : Aligned w tape' := by
  have next : readingOf tape' = (readingOf tape).receive frame := congrArg Prod.fst state
  have grown : ((readingOf tape).receive frame).frames.length = (readingOf tape).frames.length + 1 := List.length_append
  refine ⟨?_, ?_, fun pool payload member => ?_, fun pool n known => ?_, fun found payload known member => ?_,
    fun s member n number => ?_, fun s member => ?_, ?_⟩
  · rw [state]
    exact aligned.readerHolds
  · rw [left]
    exact aligned.timerHolds
  · rw [next]
    exact (aligned.cache pool payload member).grow frame
  · rw [next] at known ⊢
    obtain ⟨since, bound⟩ := aligned.fresh pool n known
    exact ⟨since, by omega⟩
  · rw [left] at known
    obtain ⟨⟨pool, there⟩, same⟩ := aligned.found found payload known member
    rw [next, took]
    exact ⟨⟨pool, there.grow frame⟩, same⟩
  · rw [published] at member
    obtain ⟨bound, newest⟩ := aligned.bounded s member n number
    rw [next]
    exact ⟨by omega, newest⟩
  · rw [published] at member
    obtain ⟨n, number, there, since⟩ := aligned.forward.received s member
    rw [next]
    exact ⟨n, number, (List.getElem?_append_left (List.getElem?_eq_some_iff.mp there).1).trans there, since⟩
  · rw [published]
    exact aligned.forward.ordered

/-- The frame received last is cached, under the lock. -/
theorem Aligned.insert (aligned : Aligned w tape) {pool : UInt32} {payload : Payload} (held : (readerOf tape).2 = true)
    (own : OfPool pool payload) (just : (readingOf tape).Just payload)
    (state : readerOf tape' = ((readingOf tape).cache pool, (readerOf tape).2)) (left : timerOf tape' = timerOf tape)
    (published : shown tape' = shown tape) :
    Aligned { w with cache := (pool, payload) :: w.cache.filter fun e => e.1 ≠ pool } tape' := by
  have next : readingOf tape' = (readingOf tape).cache pool := congrArg Prod.fst state
  have others {pool' : UInt32} (other : pool' ≠ pool) :
      ((readingOf tape).cache pool).fresh pool' = (readingOf tape).fresh pool' := Function.update_of_ne other ..
  have newest : ((readingOf tape).cache pool).fresh pool = some ((readingOf tape).frames.length - 1) :=
    Function.update_self ..
  have new := just.new
  refine ⟨?_, ?_, fun pool' payload' member => ?_, fun pool' n known => ?_, fun found payload' known _ => ?_,
    fun s member n number => ?_, ?_, ?_⟩
  · rw [state]
    exact aligned.readerHolds
  · rw [left]
    exact aligned.timerHolds
  · rw [next]
    rcases List.mem_cons.mp member with same | kept
    · obtain ⟨rfl, rfl⟩ := Prod.mk.inj same
      exact just.holds own
    · obtain ⟨there, other⟩ := List.mem_filter.mp kept
      obtain ⟨own', n, fresh, at_n⟩ := aligned.cache pool' payload' there
      exact ⟨own', n, (others (of_decide_eq_true other)).trans fresh, at_n⟩
  · rw [next] at known ⊢
    by_cases same : pool' = pool
    · subst same
      obtain rfl := Option.some.inj (newest.symm.trans known)
      show (readingOf tape).cleared ≤ _ ∧ _ < (readingOf tape).frames.length
      omega
    · exact aligned.fresh pool' n ((others same).symm.trans known)
  · cases (left.trans (aligned.alone held)).symm.trans known
  · rw [published] at member
    obtain ⟨bound, last⟩ := aligned.bounded s member n number
    rw [next]
    refine ⟨bound, fun m known => ?_⟩
    by_cases same : s.pool = pool
    · rw [same] at known
      obtain rfl := Option.some.inj (newest.symm.trans known)
      omega
    · exact last m ((others same).symm.trans known)
  · rw [published, next]
    exact aligned.forward.received
  · rw [published]
    exact aligned.forward.ordered

/-- The cache is cleared, under the lock. -/
theorem Aligned.clear (aligned : Aligned w tape) (held : (readerOf tape).2 = true)
    (state : readerOf tape' = ((readingOf tape).clear, (readerOf tape).2)) (left : timerOf tape' = timerOf tape)
    (published : shown tape' = shown tape) : Aligned { w with cache := [] } tape' := by
  have next : readingOf tape' = (readingOf tape).clear := congrArg Prod.fst state
  refine ⟨?_, ?_, fun _ _ member => absurd member List.not_mem_nil, fun pool n known => ?_,
    fun found payload known _ => ?_, fun s member n number => ?_, ?_, ?_⟩
  · rw [state]
    exact aligned.readerHolds
  · rw [left]
    exact aligned.timerHolds
  · rw [next] at known
    cases known
  · cases (left.trans (aligned.alone held)).symm.trans known
  · rw [published] at member
    rw [next]
    exact ⟨(aligned.bounded s member n number).1, fun m known => nomatch known⟩
  · rw [published, next]
    exact aligned.forward.received
  · rw [published]
    exact aligned.forward.ordered

end changes

section steps
variable {appId sock : String} {op : (Wire.sum Latch).Op} {r : (Wire.sum Latch).Ret op}

theorem readerOf_own : readerOf (⟨.reader, op, r⟩ :: tape) = reader.next (readerOf tape) op r := Protocol.state_own ..

theorem readerOf_timer : readerOf (⟨.timer, op, r⟩ :: tape) = readerOf tape := rfl

theorem timerOf_own : timerOf (⟨.timer, op, r⟩ :: tape) = timer.next (timerOf tape) op r := Protocol.state_own ..

theorem timerOf_reader : timerOf (⟨.reader, op, r⟩ :: tape) = timerOf tape := rfl

/-- A read loop that keeps to its discipline keeps the cache aligned. -/
theorem Aligned.reader_step (aligned : Aligned w tape) (allowed : reader.allows (readerOf tape) op)
    (may : w.may appId sock .reader op r = true) : Aligned (w.after .reader op r) (⟨.reader, op, r⟩ :: tape) := by
  have left : timerOf (⟨.reader, op, r⟩ :: tape) = timerOf tape := timerOf_reader
  have keeps (found : List Payload) (payload : Payload) (known : timerOf (⟨.reader, op, r⟩ :: tape) = some found)
      (_ : payload ∈ found) : timerOf tape = some found := known
  have state : readerOf (⟨.reader, op, r⟩ :: tape) = reader.next (readerOf tape) op r := readerOf_own
  have next : readingOf (⟨.reader, op, r⟩ :: tape) = (reader.next (readerOf tape) op r).1 := congrArg Prod.fst state
  cases op with
  | inl op =>
    obtain ⟨admits, held⟩ := allowed
    cases op with
    | put topic payload =>
      by_cases data : IsPoolData payload
      · exact aligned.put (admits _ ⟨data, rfl⟩) rfl state left rfl (if_pos data)
      · exact aligned.still rfl aligned.readerHolds aligned.timerHolds next keeps rfl (if_neg data)
    | readExact count =>
      rcases r with e | bytes
      · exact aligned.still rfl aligned.readerHolds aligned.timerHolds next keeps rfl rfl
      · exact aligned.receive state left rfl rfl
    | readTimeout secs count =>
      rcases r with _ | e | bytes
      · exact aligned.still rfl aligned.readerHolds aligned.timerHolds next keeps rfl rfl
      · exact aligned.still rfl aligned.readerHolds aligned.timerHolds next keeps rfl rfl
      · exact aligned.still rfl aligned.readerHolds aligned.timerHolds next keeps rfl rfl
    | cacheInsert pool payload => exact aligned.insert held admits.1 ⟨admits.2.1, admits.2.2⟩ state left rfl
    | cacheClear => exact aligned.clear held state left rfl
    | enterKeepalive | cacheLock | cacheUnlock => exact admits.elim
    | _ => exact aligned.still rfl aligned.readerHolds aligned.timerHolds next keeps rfl rfl
  | inr op =>
    cases op with
    | acquire =>
      have free : w.holder = none := Option.isNone_iff_eq_none.mp may
      have rests : timerOf tape = none := by
        by_contra other
        cases free.symm.trans (aligned.timerHolds.mp other)
      refine aligned.still rfl ⟨fun _ => rfl, fun _ => rfl⟩ ⟨fun other => absurd rests other, fun held => ?_⟩
        next keeps rfl rfl
      cases Option.some.inj held
    | release =>
      have rests := aligned.alone allowed
      exact aligned.still rfl ⟨(nomatch ·), (nomatch ·)⟩ ⟨(absurd rests ·), (nomatch ·)⟩ next keeps
        rfl rfl

/-- And so does a timer task. -/
theorem Aligned.timer_step (aligned : Aligned w tape) (allowed : timer.allows (timerOf tape) op)
    (may : w.may appId sock .timer op r = true) : Aligned (w.after .timer op r) (⟨.timer, op, r⟩ :: tape) := by
  have state : readerOf (⟨.timer, op, r⟩ :: tape) = readerOf tape := readerOf_timer
  have left : timerOf (⟨.timer, op, r⟩ :: tape) = timer.next (timerOf tape) op r := timerOf_own
  cases op with
  | inl op =>
    cases op with
    | put topic payload =>
      obtain ⟨found, known, member⟩ := allowed
      obtain ⟨⟨pool, holds⟩, took⟩ := aligned.found found payload known member
      have hand : inHand tape .timer = (readingOf tape).fresh := took
      exact aligned.put (holds.1.2 ▸ holds) hand state left rfl (if_pos holds.1.1)
    | cacheLock =>
      have found : timerOf (⟨.timer, .inl .cacheLock, r⟩ :: tape) = some r := left
      refine aligned.read allowed (fun payload member => ?_) state found rfl rfl
      obtain ⟨entry, there, rfl⟩ := List.mem_map.mp ((List.isPerm_iff.mp may).mem_iff.mp member)
      exact ⟨entry.1, there⟩
    | enterKeepalive | declarePublisher _ | interval _ | tick =>
      exact aligned.still rfl aligned.readerHolds aligned.timerHolds (congrArg Prod.fst state)
        (fun _ _ known _ => known) rfl rfl
    | _ => exact allowed.elim
  | inr op =>
    cases op with
    | acquire =>
      have free : w.holder = none := Option.isNone_iff_eq_none.mp may
      refine aligned.still rfl ⟨fun held => ?_, fun held => ?_⟩ ⟨fun _ => rfl, fun _ => ?_⟩ (congrArg Prod.fst state)
        (fun found payload known member => ?_) rfl rfl
      · cases free.symm.trans (aligned.readerHolds.mp held)
      · cases Option.some.inj held
      · exact Option.some_ne_none []
      · obtain rfl := Option.some.inj known
        cases member
    | release =>
      have mine := aligned.timerHolds.mp allowed
      refine aligned.still rfl ⟨fun held => ?_, (nomatch ·)⟩ ⟨(absurd rfl ·), (nomatch ·)⟩ (congrArg Prod.fst state)
        (fun _ _ known _ => nomatch known) rfl rfl
      cases mine.symm.trans (aligned.readerHolds.mp held)

end steps

end

section runs
variable {appId sock : String} {secs : Nat} {c : Config (Wire.sum Latch) Pump Pipe}

theorem aligned_reach (reach : Reach (latched appId sock secs) (anyStep _) (.idle .fresh) c) :
    Aligned c.world c.history := by
  induction reach with
  | start => exact aligned_fresh
  | next before step _ ih =>
    cases step with
    | @act pump op next r at_work may =>
      have made := Step.act (S := latched appId sock secs) at_work may
      cases pump with
      | reader => exact ih.reader_step ((reader_conforms before).allows made) may
      | timer => exact ih.timer_step ((timer_conforms before).allows made) may
    | begin idle serve => exact ih
    | finish at_work => exact ih
    | drop at_work droppable => exact ih
    | env moved => exact nomatch moved

/-- However the calls of the read loop and of the timer task are interleaved, the picture is
never rolled back. -/
theorem never_rolls_back (reach : Reach (latched appId sock secs) (anyStep _) (.idle .fresh) c) : Forward c.history :=
  (aligned_reach reach).forward

/-- The pixels of a pool with one more byte. -/
def laterFrame : Payload := [6, 0, 0, 0, 3, 7, 0, 0, 0, 1]

/-- The calls of a read loop as it starts, while it receives a frame, and as it caches and publishes it. -/
def connecting (topic sock : String) (secs : Nat) : List ((op : (Wire.sum Latch).Op) × (Wire.sum Latch).Ret op) :=
  [⟨.inl .enter, (("app", sock) : String × String)⟩, ⟨.inl (.declarePublisher topic), (.ok () : Except String Unit)⟩,
    ⟨.inl (.spawnKeepalive topic secs), ()⟩, ⟨.inl (.connect sock), (.ok () : Except String Unit)⟩]

def receiving (header body : Payload) : List ((op : (Wire.sum Latch).Op) × (Wire.sum Latch).Ret op) :=
  [⟨.inl (.readTimeout 10 4), (some (.ok header) : Option (Except String Payload))⟩,
    ⟨.inl (.readExact body.length), (.ok body : Except String Payload)⟩, ⟨.inl .now, (0 : Nat)⟩]

def caching (topic : String) (frame : Payload) : List ((op : (Wire.sum Latch).Op) × (Wire.sum Latch).Ret op) :=
  [⟨.inr .acquire, ()⟩, ⟨.inl (.cacheInsert 7 frame), ()⟩, ⟨.inr .release, ()⟩,
    ⟨.inl (.put topic frame), (.ok () : Except String Unit)⟩]

/-- The calls of a timer task up to its second tick, with what it publishes then. -/
def refreshing (topic : String) (secs : Nat) (frame : Payload) :
    List ((op : (Wire.sum Latch).Op) × (Wire.sum Latch).Ret op) :=
  [⟨.inl .enterKeepalive, ((topic, secs) : String × Nat)⟩,
    ⟨.inl (.declarePublisher topic), (.ok () : Except String Unit)⟩, ⟨.inl (.interval secs), ()⟩, ⟨.inl .tick, ()⟩,
    ⟨.inl .tick, ()⟩, ⟨.inr .acquire, ()⟩, ⟨.inl .cacheLock, ([frame] : List Payload)⟩,
    ⟨.inl (.put topic frame), (.ok () : Except String Unit)⟩, ⟨.inr .release, ()⟩]

/-- The timer task publishes the first frame while the read loop has the next one in hand. -/
theorem never_rolls_back_refreshed : ∃ c : Config (Wire.sum Latch) Pump Pipe,
    (shown c.history).map Shown.number = [some 1, some 0, some 0] ∧ Forward c.history := by
  obtain ⟨c, reach, checked⟩ := replay_check (S := latched "app" "sock" 5) (fun _ _ => true) (fun _ _ _ => trivial)
    (.idle .fresh)
    (.begin .reader (WireRequest.forward [(1, 2)]) :: calling (latched "app" "sock" 5) .reader
        (connecting (streamTopic "app") "sock" 5 ++ receiving [5, 0, 0, 0] [3, 7, 0, 0, 0] ++
          caching (streamTopic "app") pixelFrame ++ receiving [6, 0, 0, 0] [3, 7, 0, 0, 0, 1]) ++
      .begin .timer (WireRequest.refresh 1) :: calling (latched "app" "sock" 5) .timer
        (refreshing (streamTopic "app") 5 pixelFrame) ++
      calling (latched "app" "sock" 5) .reader (caching (streamTopic "app") laterFrame))
    (fun c => decide ((shown c.history).map Shown.number = [some 1, some 0, some 0])) (by decide)
  exact ⟨c, of_decide_eq_true checked, never_rolls_back reach⟩

end runs

end Bsdos.Streams
