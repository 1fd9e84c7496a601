import Bsdos.Streams.Events
import Bsdos.Streams.Relay

namespace Bsdos.Streams
open Effects Octets

def StreamEvent.pool? : StreamEvent → Option UInt32
  | .poolData poolId .. => some poolId
  | _ => none

def StreamEvent.commit? : StreamEvent → Option UInt32
  | .surfaceCommit _ poolId .. => some poolId
  | _ => none

/-- What may stand beside the data of a pool when it is sent again. -/
def StreamEvent.Harmless (pool : UInt32) : StreamEvent → Prop
  | .poolData poolId .. => poolId = pool
  | .surfaceCreate _ | .cursorMove _ _ | .error _ _ => True
  | .surfaceDestroy _ | .surfaceCommit .. | .sessionReset _ _ => False

/-- The data of the pool that came last. -/
def lastPool (pool : UInt32) (events : List StreamEvent) : Option StreamEvent :=
  events.reverse.find? fun e => e.pool? = some pool

def Commits (events : List StreamEvent) (pool : UInt32) : Prop := ∃ e ∈ events, e.commit? = some pool

/-- The first event is data of the pool. -/
def LeadsPool (events : List StreamEvent) (pool : UInt32) : Prop := events.head?.bind StreamEvent.pool? = some pool

def LeadsCommit (events : List StreamEvent) (pool : UInt32) : Prop := events.head?.bind StreamEvent.commit? = some pool

/-- What is kept of a pool after these events is a payload that brings its last data, and
nothing that must not be repeated. -/
def Faithful (pool : UInt32) (events : List StreamEvent) (kept : Option Payload) : Prop :=
  match lastPool pool events with
  | none => kept = none
  | some data => ∃ payload : EventPayload, kept = some payload.frame ∧ lastPool pool payload.events = some data ∧
      ∀ e ∈ payload.events, e.Harmless pool

def allEvents (payloads : List EventPayload) : List StreamEvent := payloads.flatMap EventPayload.events

/-- The frames of a connection forwarded so far, what is cached of them, and the tasks; at
any time other tasks may do what leaves the shared cache of this forwarder as it is. -/
inductive Relays (topic : String) (h : TaskHandle) : List EventPayload → PoolCache → Yard → Prop
  | start {y : Yard} : y.caches h = [] → Relays topic h [] ∅ y
  | frame {payloads : List EventPayload} {payload : EventPayload} {cache cache' : PoolCache} {y₁ y₂ y₃ y₄ : Yard}
      {reading handling publishing : List (Moment Wire Yard)} {r : Except String Unit} :
      Relays topic h payloads cache y₁ →
      Exec wires (.forwarder h) readFrame y₁ reading (some payload.frame) y₂ →
      Exec wires (.forwarder h) (cacheFrame topic cache payload.frame) y₂ handling cache' y₃ →
      Exec wires (.forwarder h) (wire (.put topic payload.frame)) y₃ publishing r y₄ →
      Relays topic h (payloads ++ [payload]) cache' y₄
  | others {payloads : List EventPayload} {cache : PoolCache} {y y' : Yard} :
      Relays topic h payloads cache y → y'.caches h = y.caches h → Relays topic h payloads cache y'

/-- What is kept of the pools is right after each payload; what is published again while a
payload is handled is what is kept of a pool that it commits; and for each pool it commits,
if data of it is kept, the clock is read and that data published when it is due. -/
def KeepsPools (payloads : List EventPayload) : Prop :=
  ∀ topic h front next back, payloads = front ++ next :: back →
    ∀ cache y, Relays topic h front cache y →
    ∀ moments cache' y', Exec wires (.forwarder h) (cacheFrame topic cache next.frame) y moments cache' y' →
      (∀ pool, Faithful pool (allEvents (front ++ [next])) ((cache'.lookup pool).map Prod.fst) ∧
        Faithful pool (allEvents (front ++ [next])) ((y'.caches h).lookup pool)) ∧
      (∀ data, .put data ∈ moments.filterMap seen →
        ∃ pool, Commits next.events pool ∧ Faithful pool (allEvents front) (some data)) ∧
      ∀ pool data lastPub, Commits next.events pool → cache.lookup pool = some (data, lastPub) →
        ∃ t, .instant t ∈ moments.filterMap seen ∧
          (poolRefreshSecs * 1000 ≤ t - lastPub → .put data ∈ moments.filterMap seen)

/-- A payload that the forwarder is right about after these events: if it begins with data of
a pool, it has nothing that must not be repeated with it; other data only repeats
the last data of its pool; and a commit of a pool that has data stands first. -/
structure Led (events : List StreamEvent) (payload : EventPayload) : Prop where
  harmless : ∀ pool, LeadsPool payload.events pool → ∀ e ∈ payload.events, e.Harmless pool
  repeated : ∀ pool, ¬ LeadsPool payload.events pool → lastPool pool payload.events ≠ none →
    lastPool pool payload.events = lastPool pool events
  committed : ∀ pool, Commits payload.events pool → lastPool pool events ≠ none → LeadsCommit payload.events pool

def AllLed (payloads : List EventPayload) : Prop :=
  ∀ front next back, payloads = front ++ next :: back → Led (allEvents front) next

instance (events : List StreamEvent) (pool : UInt32) : Decidable (LeadsPool events pool) :=
  inferInstanceAs (Decidable (_ = _))

/-- The payload that the forwarder keeps of a pool. -/
def keptOf (pool : UInt32) (payloads : List EventPayload) : Option EventPayload :=
  payloads.reverse.find? fun payload => LeadsPool payload.events pool

theorem StreamEvent.pool_bytes {e : StreamEvent} {pool : UInt32} (data : e.pool? = some pool) :
    ∃ rest, e.bytes = evPoolData :: (le32 pool ++ rest) := by
  cases e with
  | poolData =>
    obtain rfl := Option.some.inj data
    exact ⟨_, rfl⟩
  | _ => cases data

theorem StreamEvent.commit_bytes {e : StreamEvent} {pool : UInt32} (commit : e.commit? = some pool) :
    ∃ surface rest, e.bytes = evSurfaceCommit :: (le32 surface ++ (le32 pool ++ rest)) := by
  cases e with
  | surfaceCommit =>
    obtain rfl := Option.some.inj commit
    exact ⟨_, _, rfl⟩
  | _ => cases commit

theorem StreamEvent.type_bytes (e : StreamEvent) : ∃ type rest, e.bytes = type :: rest ∧
    (e.pool? = none → type ≠ evPoolData) ∧ (e.commit? = none → type ≠ evSurfaceCommit) := by
  cases e with
  | poolData => exact ⟨_, _, rfl, nofun, fun _ => by decide⟩
  | surfaceCommit => exact ⟨_, _, rfl, fun _ => by decide, nofun⟩
  | _ => exact ⟨_, _, rfl, fun _ => by decide, fun _ => by decide⟩

section Frames
variable {payload : EventPayload} {pool : UInt32}

theorem EventPayload.frame_starts (payload : EventPayload) : ∃ e es, payload.events = e :: es ∧
    payload.frame = toLe 4 payload.body.length ++ (e.bytes ++ es.flatMap StreamEvent.bytes) := by
  obtain ⟨e, es, events⟩ := List.exists_cons_of_ne_nil payload.filled
  have body : payload.body = e.bytes ++ es.flatMap StreamEvent.bytes := by
    rw [EventPayload.body, events, List.flatMap_cons]
  exact ⟨e, es, events, by rw [EventPayload.frame, ← body]⟩

theorem evType_frame (size : Nat) (type : UInt8) (rest : Payload) : evType (toLe 4 size ++ type :: rest) = type := rfl

/-- A frame is taken for data of the pool that its first event is data of. -/
theorem leadsPool_iff : LeadsPool payload.events pool ↔ IsPoolData payload.frame ∧ poolIdAt payload.frame 5 = pool := by
  obtain ⟨e, es, events, frame⟩ := payload.frame_starts
  rw [LeadsPool, events, List.head?_cons, Option.bind_some]
  cases kind : e.pool? with
  | none =>
    obtain ⟨type, rest, bytes, other, _⟩ := e.type_bytes
    refine ⟨nofun, fun both => absurd both.1.1 ?_⟩
    rw [frame, bytes, List.cons_append, evType_frame]
    exact other kind
  | some poolId =>
    obtain ⟨rest, bytes⟩ := StreamEvent.pool_bytes kind
    have id : poolIdAt payload.frame 5 = poolId := by
      rw [frame, bytes, List.cons_append, List.append_assoc]
      exact fromLeBytes_le32 poolId
    have data : IsPoolData payload.frame := by
      rw [frame, bytes]
      refine ⟨rfl, ?_⟩
      simp only [List.length_append, List.length_cons, toLe_length, le32]
      omega
    rw [id]
    exact ⟨fun same => ⟨data, Option.some.inj same⟩, fun both => congrArg some both.2⟩

theorem leadsCommit_iff : LeadsCommit payload.events pool ↔ IsCommit payload.frame ∧ poolIdAt payload.frame 9 = pool := by
  obtain ⟨e, es, events, frame⟩ := payload.frame_starts
  rw [LeadsCommit, events, List.head?_cons, Option.bind_some]
  cases kind : e.commit? with
  | none =>
    obtain ⟨type, rest, bytes, _, other⟩ := e.type_bytes
    refine ⟨nofun, fun both => absurd both.1.1 ?_⟩
    rw [frame, bytes, List.cons_append, evType_frame]
    exact other kind
  | some poolId =>
    obtain ⟨surface, rest, bytes⟩ := StreamEvent.commit_bytes kind
    have id : poolIdAt payload.frame 9 = poolId := by
      rw [frame, bytes, List.cons_append, List.append_assoc, List.append_assoc]
      exact fromLeBytes_le32 poolId
    have commit : IsCommit payload.frame := by
      rw [frame, bytes]
      refine ⟨rfl, ?_⟩
      simp only [List.length_append, List.length_cons, toLe_length, le32]
      omega
    rw [id]
    exact ⟨fun same => ⟨commit, Option.some.inj same⟩, fun both => congrArg some both.2⟩

end Frames

theorem keptOf_snoc (pool : UInt32) (payloads : List EventPayload) (payload : EventPayload) :
    keptOf pool (payloads ++ [payload]) = if LeadsPool payload.events pool then some payload else keptOf pool payloads := by
  rw [keptOf, List.reverse_append, List.reverse_singleton, List.singleton_append, List.find?_cons]
  split
  · rename_i leads
    rw [if_pos (of_decide_eq_true leads)]
  · rename_i other
    rw [if_neg (of_decide_eq_false other)]
    rfl

theorem lastPool_append (pool : UInt32) (front back : List StreamEvent) :
    lastPool pool (front ++ back) = (lastPool pool back).or (lastPool pool front) := by
  rw [lastPool, List.reverse_append, List.find?_append]
  rfl

theorem allEvents_snoc (payloads : List EventPayload) (payload : EventPayload) :
    allEvents (payloads ++ [payload]) = allEvents payloads ++ payload.events := by
  rw [allEvents, List.flatMap_append, List.flatMap_singleton]
  rfl

section Run
variable {topic : String} {h : TaskHandle} {payload : EventPayload} {cache cache' : PoolCache} {pool : UInt32}

/-- What handling a frame leaves of the pools. -/
theorem Handles.kept {trace : List Seen} (handles : Handles cache payload.frame trace cache') :
    (cache'.lookup pool).map Prod.fst =
      if LeadsPool payload.events pool then some payload.frame else (cache.lookup pool).map Prod.fst := by
  cases handles with
  | pool t data =>
    by_cases same : poolIdAt payload.frame 5 = pool
    · rw [if_pos (leadsPool_iff.mpr ⟨data, same⟩), same, Finmap.lookup_insert]
      rfl
    · rw [if_neg fun leads => same (leadsPool_iff.mp leads).2, Finmap.lookup_insert_of_ne _ (Ne.symm same)]
  | again cached lastPub t t' commit known due =>
    rw [if_neg fun leads => commit.not_pool (leadsPool_iff.mp leads).1]
    by_cases same : pool = poolIdAt payload.frame 9
    · rw [same, Finmap.lookup_insert, known]
      rfl
    · rw [Finmap.lookup_insert_of_ne _ same]
  | early cached lastPub t commit =>
    rw [if_neg fun leads => commit.not_pool (leadsPool_iff.mp leads).1]
  | pass other =>
    rw [if_neg fun leads => other (leadsPool_iff.mp leads).1]

theorem lookup_other {key : UInt32} (entries : List (UInt32 × Payload)) (other : pool ≠ key) :
    (entries.filter fun e => e.1 ≠ key).lookup pool = entries.lookup pool := by
  induction entries with
  | nil => rfl
  | cons entry entries ih =>
    by_cases dropped : entry.1 = key
    · have apart : (pool == entry.1) = false := by simpa [dropped] using other
      rw [List.filter_cons_of_neg (by simpa using dropped), List.lookup_cons, apart]
      exact ih
    · rw [List.filter_cons_of_pos (by simpa using dropped), List.lookup_cons, List.lookup_cons, ih]

theorem shared_lookup (entries : List (UInt32 × Payload)) : (shared payload.frame entries).lookup pool =
    if LeadsPool payload.events pool then some payload.frame else entries.lookup pool := by
  by_cases data : IsPoolData payload.frame
  · rw [shared, if_pos data]
    by_cases same : pool = poolIdAt payload.frame 5
    · rw [if_pos (leadsPool_iff.mpr ⟨data, same.symm⟩), same, List.lookup_cons_self]
    · have other : (pool == poolIdAt payload.frame 5) = false := by simpa using same
      rw [if_neg fun leads => same (leadsPool_iff.mp leads).2.symm, List.lookup_cons, other]
      exact lookup_other entries same
  · rw [shared, if_neg data, if_neg fun leads => data (leadsPool_iff.mp leads).1]

def IsRead : WireOp → Prop
  | .readTimeout _ _ | .readExact _ => True
  | _ => False

theorem readFrame_only : Prog.Only (E := Wire) IsRead readFrame := by
  rw [readFrame_eq]
  refine ⟨trivial, fun lenBytes : Option (Except String Payload) => ?_⟩
  rcases lenBytes with _ | e | lenBytes
  · trivial
  · trivial
  · rw [withSize]
    split
    · refine ⟨trivial, fun body : Except String Payload => ?_⟩
      cases body <;> trivial
    · trivial

theorem readFrame_world {y y' : Yard} {moments : List (Moment Wire Yard)} {read : Option Payload}
    (exec : Exec wires (.forwarder h) readFrame y moments read y') : y' = y := by
  refine @Exec.preserve _ _ _ _ _ _ _ _ _ _ _ _ (fun u => u = y) exec readFrame_only ?_ rfl
  rintro u op r reads _ rfl
  cases op with
  | readTimeout => rfl
  | readExact => rfl
  | _ => exact reads.elim

/-- What is kept in a run of the frames: of each pool, the last payload that begins with data of it. -/
theorem Relays.kept {payloads : List EventPayload} {y : Yard} (relays : Relays topic h payloads cache y) (pool : UInt32) :
    (cache.lookup pool).map Prod.fst = (keptOf pool payloads).map EventPayload.frame ∧
      (y.caches h).lookup pool = (keptOf pool payloads).map EventPayload.frame := by
  induction relays with
  | start empty =>
    rw [Finmap.lookup_empty, empty]
    exact ⟨rfl, rfl⟩
  | frame before reading handling publishing ih =>
    obtain ⟨_, _, _, _, _, _, rfl⟩ := publishing
    obtain rfl := readFrame_world reading
    rw [keptOf_snoc]
    constructor
    · rw [(cacheFrame_handles handling).kept, ih.1]
      split <;> rfl
    · have same := cacheFrame_shared handling
      show List.lookup pool (Yard.caches _ h) = _
      rw [same, shared_lookup, ih.2]
      split <;> rfl
  | others before same ih => exact ⟨ih.1, same ▸ ih.2⟩

theorem readFrame_possible (payload : EventPayload) (y : Yard) :
    ∃ moments, Exec wires (.forwarder h) readFrame y moments (some payload.frame) y := by
  have filled : payload.body.length ≠ 0 := by
    obtain ⟨e, es, events, _⟩ := payload.frame_starts
    have first := List.length_pos_iff.mpr e.bytes_filled
    rw [EventPayload.body, events, List.flatMap_cons, List.length_append]
    omega
  have small : payload.body.length ≤ maxPayload := payload.small
  have size : (fromLeBytes (toLe 4 payload.body.length)).toNat = payload.body.length := by
    have word : (UInt32.ofNat payload.body.length).toNat = payload.body.length :=
      UInt32.toNat_ofNat_of_lt' (Nat.lt_of_le_of_lt small (by decide))
    have same := fromLeBytes_le32 (UInt32.ofNat payload.body.length)
    rw [le32, word] at same
    rw [same, word]
  have fits : InRange (toLe 4 payload.body.length) := by
    rw [InRange, size]
    exact ⟨filled, small⟩
  have header : wires.may (.forwarder h) y (.readTimeout 10 4) (some (.ok (toLe 4 payload.body.length))) = true :=
    decide_eq_true (toLe_length 4 payload.body.length)
  have later : Exec wires (.forwarder h) (withSize (some (.ok (toLe 4 payload.body.length)))) y
      [⟨y, .readExact (fromLeBytes (toLe 4 payload.body.length)).toNat, .ok payload.body⟩] (some payload.frame) y := by
    rw [withSize, if_pos fits]
    exact ⟨.ok payload.body, _, decide_eq_true size.symm, rfl, rfl, rfl, rfl⟩
  rw [readFrame_eq]
  exact ⟨_, some (.ok (toLe 4 payload.body.length)), _, header, rfl, later⟩

/-- With the clock standing still nothing is published again, and everything is as old as the clock. -/
theorem Handles.still {frame : Payload} {trace : List Seen} {t : Nat} (handles : Handles cache frame trace cache')
    (clock : ∀ t', .instant t' ∈ trace → t' = t)
    (stamps : ∀ pool data lastPub, cache.lookup pool = some (data, lastPub) → lastPub = t) :
    ∀ pool data lastPub, cache'.lookup pool = some (data, lastPub) → lastPub = t := by
  intro pool data lastPub found
  cases handles with
  | pool t' _ =>
    by_cases same : pool = poolIdAt frame 5
    · rw [same, Finmap.lookup_insert] at found
      obtain ⟨rfl, rfl⟩ := Prod.mk.inj (Option.some.inj found)
      exact clock _ List.mem_cons_self
    · rw [Finmap.lookup_insert_of_ne _ same] at found
      exact stamps pool data lastPub found
  | again cached lastPub' t' t'' _ known due =>
    have first := clock t' List.mem_cons_self
    have last := stamps _ _ _ known
    have refresh : poolRefreshSecs = 3 := rfl
    omega
  | early => exact stamps pool data lastPub found
  | pass => exact stamps pool data lastPub found

theorem relays_possible (topic : String) (h : TaskHandle) (payloads : List EventPayload) :
    ∃ cache y, Relays topic h payloads cache y ∧ y.locked h = false ∧
      ∀ pool data lastPub, cache.lookup pool = some (data, lastPub) → lastPub = 0 := by
  induction payloads using List.reverseRecOn with
  | nil =>
    refine ⟨∅, .empty, .start rfl, rfl, fun pool data lastPub found => ?_⟩
    rw [Finmap.lookup_empty] at found
    cases found
  | append_singleton payloads payload ih =>
    obtain ⟨cache, y, before, free, stamps⟩ := ih
    obtain ⟨reading, reads⟩ := @readFrame_possible h payload y
    obtain ⟨handling, cache', y', handles, free', clock⟩ := cacheFrame_possible topic cache payload.frame 0 free
    have publishes : Exec wires (.forwarder h) (wire (.put topic payload.frame)) y'
        [⟨y', .put topic payload.frame, .ok ()⟩] (.ok ()) y' := ⟨.ok (), _, rfl, rfl, rfl, rfl, rfl⟩
    exact ⟨cache', y', before.frame reads handles publishes, free', (cacheFrame_handles handles).still clock stamps⟩

/-- The body of a frame, where one is read. -/
def bodyRead {W : Type} : Moment Wire W → Option Payload
  | ⟨_, .readExact _, .ok body⟩ => some body
  | _ => none

/-- A frame that is read is its body behind the size of it. -/
theorem readFrame_body {y y' : Yard} {moments : List (Moment Wire Yard)} {read : Option Payload}
    (exec : Exec wires (.forwarder h) readFrame y moments read y') :
    (read = none ∧ moments.filterMap bodyRead = []) ∨
      ∃ body, read = some (toLe 4 body.length ++ body) ∧ moments.filterMap bodyRead = [body] := by
  rw [readFrame_eq] at exec
  obtain ⟨lenBytes, rest, four, rfl, exec⟩ := exec
  rcases lenBytes with _ | e | lenBytes
  · obtain ⟨rfl, rfl, -⟩ := exec
    exact .inl ⟨rfl, rfl⟩
  · obtain ⟨rfl, rfl, -⟩ := exec
    exact .inl ⟨rfl, rfl⟩
  · rw [withSize] at exec
    split at exec
    · obtain ⟨body, rest', whole, rfl, exec⟩ := exec
      rcases body with e | body
      · obtain ⟨rfl, rfl, -⟩ := exec
        exact .inl ⟨rfl, rfl⟩
      · obtain ⟨rfl, rfl, -⟩ := exec
        have header : lenBytes.length = 4 := of_decide_eq_true four
        have size : body.length = (fromLeBytes lenBytes).toNat := of_decide_eq_true whole
        refine .inr ⟨body, ?_, rfl⟩
        rw [size, toLe_fromLeBytes header]
    · obtain ⟨rfl, rfl, -⟩ := exec
      exact .inl ⟨rfl, rfl⟩

def Bodiless : WireOp → Prop
  | .readExact _ => False
  | _ => True

theorem bodyRead_bodiless {W : Type} {m : Moment Wire W} (bodiless : Bodiless m.op) : bodyRead m = none := by
  obtain ⟨w, op, r⟩ := m
  cases op with
  | readExact => exact bodiless.elim
  | _ => rfl

theorem cacheFrame_bodiless (topic : String) (cache : PoolCache) (frame : Payload) :
    Prog.Only (E := Wire) Bodiless (cacheFrame topic cache frame) := by
  by_cases pool : IsPoolData frame
  · rw [cacheFrame_pool pool]
    exact ⟨trivial, fun _ => ⟨trivial, fun _ => trivial⟩⟩
  by_cases known : IsCommit frame ∧ cache.lookup (poolIdAt frame 9) ≠ none
  · obtain ⟨⟨cached, lastPub⟩, found⟩ := Option.ne_none_iff_exists'.mp known.2
    rw [cacheFrame_known known.1 found]
    refine ⟨trivial, fun t => ?_⟩
    rcases refreshPool_cases topic cache (poolIdAt frame 9) cached lastPub t with ⟨_, same⟩ | ⟨_, same⟩
    · rw [same]
      exact ⟨trivial, fun _ => ⟨trivial, fun _ => trivial⟩⟩
    · rw [same]
      trivial
  · rw [cacheFrame_pass pool fun commit => not_not.mp fun there => known ⟨commit, there⟩]
    trivial

/-- The loop forwards the payloads it reads one after another. -/
theorem forwardFrames_forwards {rounds : Nat} {payloads more : List EventPayload} {y y' : Yard}
    {moments : List (Moment Wire Yard)} {broken : Bool} (relays : Relays topic h payloads cache y)
    (exec : Exec wires (.forwarder h) (forwardFrames topic cache rounds) y moments broken y')
    (read : moments.filterMap bodyRead = more.map EventPayload.body) :
    ∃ cache', Relays topic h (payloads ++ more) cache' y' := by
  induction rounds generalizing payloads more cache y moments with
  | zero =>
    obtain ⟨rfl, _, rfl⟩ := exec
    obtain rfl := List.map_eq_nil_iff.mp read.symm
    exact ⟨cache, by rwa [List.append_nil]⟩
  | succ rounds ih =>
    rcases forwardFrames_round exec with ⟨reads, _⟩ | ⟨reading, frame, u, handling, cache', v, publishing, r, x, rest,
      reads, handles, publishes, forwards, rfl⟩
    · obtain rfl := readFrame_world reads
      obtain ⟨_, empty⟩ | ⟨_, framed, _⟩ := readFrame_body reads
      · rw [empty] at read
        obtain rfl := List.map_eq_nil_iff.mp read.symm
        exact ⟨cache, by rwa [List.append_nil]⟩
      · cases framed
    · obtain ⟨missing, _⟩ | ⟨body, framed, one⟩ := readFrame_body reads
      · cases missing
      obtain rfl := Option.some.inj framed
      have handled : handling.filterMap bodyRead = [] := List.filterMap_eq_nil_iff.mpr fun m member =>
        bodyRead_bodiless (handles.only (cacheFrame_bodiless topic cache _) m member)
      have published : publishing.filterMap bodyRead = [] := List.filterMap_eq_nil_iff.mpr fun m member =>
        bodyRead_bodiless (publishes.only ⟨trivial, fun _ => trivial⟩ m member)
      rw [List.filterMap_append, List.filterMap_append, List.filterMap_append, one, handled, published, List.nil_append,
        List.nil_append, List.singleton_append] at read
      cases more with
      | nil => cases read
      | cons payload more =>
        obtain ⟨rfl, later⟩ := List.cons.inj read
        have forwarded : Relays topic h (payloads ++ [payload]) cache' x := relays.frame reads handles publishes
        obtain ⟨cache'', whole⟩ := ih forwarded forwards later
        exact ⟨cache'', by rwa [List.append_assoc, List.singleton_append] at whole⟩

end Run

section Led
variable {payloads front back : List EventPayload} {next : EventPayload} {pool : UInt32}

theorem lastPool_leads (leads : LeadsPool next.events pool) : lastPool pool next.events ≠ none := by
  obtain ⟨e, es, events, _⟩ := next.frame_starts
  rw [LeadsPool, events, List.head?_cons, Option.bind_some] at leads
  intro none
  rw [lastPool, events, List.find?_eq_none] at none
  exact none e (List.mem_reverse.mpr List.mem_cons_self) (decide_eq_true leads)

theorem lastPool_mem {events : List StreamEvent} {data : StreamEvent} (last : lastPool pool events = some data) :
    data ∈ events ∧ data.pool? = some pool :=
  ⟨List.mem_reverse.mp (List.mem_of_find?_eq_some last),
    of_decide_eq_true (@List.find?_some _ (fun e : StreamEvent => decide (e.pool? = some pool)) _ _ last)⟩

theorem leadsCommit_commits (leads : LeadsCommit next.events pool) : Commits next.events pool := by
  obtain ⟨e, es, events, _⟩ := next.frame_starts
  rw [LeadsCommit, events, List.head?_cons, Option.bind_some] at leads
  exact ⟨e, events ▸ List.mem_cons_self, leads⟩

theorem faithful_start (pool : UInt32) : Faithful pool (allEvents []) ((keptOf pool []).map EventPayload.frame) := rfl

theorem faithful_none {events : List StreamEvent} {kept : Option Payload} (faithful : Faithful pool events kept) :
    lastPool pool events = none ↔ kept = none := by
  rw [Faithful] at faithful
  split at faithful
  · rename_i none
    exact ⟨fun _ => faithful, fun _ => none⟩
  · rename_i some
    obtain ⟨payload, rfl, _⟩ := faithful
    rw [some]
    exact ⟨nofun, nofun⟩

theorem faithful_some {events : List StreamEvent} {data : StreamEvent} {kept : Option Payload}
    (faithful : Faithful pool events kept) (last : lastPool pool events = some data) :
    ∃ payload : EventPayload, kept = some payload.frame ∧ lastPool pool payload.events = some data ∧
      ∀ e ∈ payload.events, e.Harmless pool := by
  rw [Faithful, last] at faithful
  exact faithful

/-- One payload more: what is kept stays right if the payload is one the forwarder is right about. -/
theorem Led.faithful (led : Led (allEvents front) next)
    (before : Faithful pool (allEvents front) ((keptOf pool front).map EventPayload.frame)) :
    Faithful pool (allEvents (front ++ [next])) ((keptOf pool (front ++ [next])).map EventPayload.frame) := by
  rw [allEvents_snoc, keptOf_snoc]
  by_cases leads : LeadsPool next.events pool
  · obtain ⟨data, last⟩ := Option.ne_none_iff_exists'.mp (lastPool_leads leads)
    rw [if_pos leads, Faithful, lastPool_append, last, Option.some_or]
    exact ⟨next, rfl, last, led.harmless pool leads⟩
  · have same : lastPool pool (allEvents front ++ next.events) = lastPool pool (allEvents front) := by
      rw [lastPool_append]
      cases last : lastPool pool next.events with
      | none => exact Option.none_or
      | some data =>
        have filled : lastPool pool next.events ≠ none := by
          rw [last]
          exact Option.some_ne_none data
        rw [← led.repeated pool leads filled, last, Option.some_or]
    rw [if_neg leads, Faithful, same]
    exact before

theorem AllLed.faithful (led : AllLed payloads) (split : payloads = front ++ back) (pool : UInt32) :
    Faithful pool (allEvents front) ((keptOf pool front).map EventPayload.frame) := by
  induction front using List.reverseRecOn generalizing back with
  | nil => exact faithful_start pool
  | append_singleton front next ih =>
    have cut : payloads = front ++ next :: back := by rw [split, List.append_assoc, List.singleton_append]
    exact (led front next back cut).faithful (ih cut)

theorem KeepsPools.faithful (keeps : KeepsPools payloads) (split : payloads = front ++ back) (pool : UInt32) :
    Faithful pool (allEvents front) ((keptOf pool front).map EventPayload.frame) := by
  induction front using List.reverseRecOn with
  | nil => exact faithful_start pool
  | append_singleton front next =>
    have cut : payloads = front ++ next :: back := by rw [split, List.append_assoc, List.singleton_append]
    obtain ⟨cache, y, before, free, _⟩ := relays_possible "" 0 front
    obtain ⟨moments, cache', y', handles, _, _⟩ := cacheFrame_possible "" cache next.frame 0 free
    have kept := ((keeps "" 0 front next back cut cache y before moments cache' y' handles).1 pool).1
    rw [(cacheFrame_handles handles).kept, (before.kept pool).1] at kept
    rw [keptOf_snoc]
    split at kept
    · rename_i leads
      rw [if_pos leads]
      exact kept
    · rename_i other
      rw [if_neg other]
      exact kept

/-- Of a payload that is kept of two pools it is known that they are one. -/
theorem faithful_same {events : List StreamEvent} {pool' : UInt32} {data : Payload}
    (here : Faithful pool events (some data)) (there : Faithful pool' events (some data)) : pool' = pool := by
  obtain ⟨last, found⟩ := Option.ne_none_iff_exists'.mp fun none => nomatch (faithful_none here).mp none
  obtain ⟨last', found'⟩ := Option.ne_none_iff_exists'.mp fun none => nomatch (faithful_none there).mp none
  obtain ⟨payload, frame, _, harmless⟩ := faithful_some here found
  obtain ⟨payload', frame', ends, _⟩ := faithful_some there found'
  have same := EventPayload.frame_inj (Option.some.inj (frame.symm.trans frame'))
  obtain ⟨member, kind⟩ := lastPool_mem ends
  have beside := harmless last' (same ▸ member)
  cases last' with
  | poolData poolId => exact (Option.some.inj kind).symm.trans beside
  | _ => cases kind

/-- Where what is kept is right after each payload, a payload that comes next is one the
forwarder is right about, if a commit of it has the clock read for its pool. -/
theorem KeepsPools.led (keeps : KeepsPools payloads) (split : payloads = front ++ next :: back) :
    Led (allEvents front) next := by
  have before (pool : UInt32) := keeps.faithful split pool
  have joined : payloads = (front ++ [next]) ++ back := by rw [split, List.append_assoc, List.singleton_append]
  have after (pool : UInt32) := keeps.faithful joined pool
  refine ⟨fun pool leads => ?_, fun pool other filled => ?_, fun pool commits filled => ?_⟩
  · obtain ⟨data, last⟩ := Option.ne_none_iff_exists'.mp (lastPool_leads leads)
    have here := after pool
    rw [keptOf_snoc, if_pos leads, allEvents_snoc] at here
    have ends : lastPool pool (allEvents front ++ next.events) = some data := by
      rw [lastPool_append, last, Option.some_or]
    obtain ⟨payload, frame, _, harmless⟩ := faithful_some here ends
    rw [EventPayload.frame_inj (Option.some.inj frame)]
    exact harmless
  · obtain ⟨data, last⟩ := Option.ne_none_iff_exists'.mp filled
    have here := after pool
    rw [keptOf_snoc, if_neg other, allEvents_snoc] at here
    have ends : lastPool pool (allEvents front ++ next.events) = some data := by
      rw [lastPool_append, last, Option.some_or]
    obtain ⟨payload, kept, lasts, _⟩ := faithful_some here ends
    have old : lastPool pool (allEvents front) ≠ none := fun none => by
      rw [(faithful_none (before pool)).mp none] at kept
      cases kept
    obtain ⟨data', last'⟩ := Option.ne_none_iff_exists'.mp old
    obtain ⟨payload', kept', lasts', _⟩ := faithful_some (before pool) last'
    have same := EventPayload.frame_inj (Option.some.inj (kept'.symm.trans kept))
    rw [last, last', ← lasts, ← lasts', same]
  · obtain ⟨cache, y, relays, free, stamps⟩ := relays_possible "" 0 front
    obtain ⟨moments, cache', y', exec, _, clock⟩ := cacheFrame_possible "" cache next.frame (poolRefreshSecs * 1000) free
    have known := (relays.kept pool).1
    have kept : (cache.lookup pool).map Prod.fst ≠ none := by
      rw [known]
      exact fun none => filled ((faithful_none (before pool)).mpr none)
    obtain ⟨⟨data, lastPub⟩, found⟩ := Option.ne_none_iff_exists'.mp fun none => kept (congrArg (Option.map Prod.fst) none)
    obtain ⟨t, read, published⟩ :=
      (keeps "" 0 front next back split cache y relays moments cache' y' exec).2.2 pool data lastPub commits found
    have due : poolRefreshSecs * 1000 ≤ t - lastPub := by
      rw [clock t read, stamps pool data lastPub found]
      exact Nat.le_refl _
    have put := published due
    have handles := cacheFrame_handles exec
    generalize moments.filterMap seen = trace at put handles
    cases handles with
    | again cached lastPub' t' t'' commit there =>
      obtain rfl : data = cached := by simpa using put
      have here := before pool
      rw [← known, found] at here
      have other := before (poolIdAt next.frame 9)
      rw [← (relays.kept _).1, there] at other
      rw [← faithful_same here other]
      exact leadsCommit_iff.mpr ⟨commit, rfl⟩
    | pool => simp at put
    | early => simp at put
    | pass => simp at put

/-- The pools are kept right through a sequence of payloads if and only if it has only
payloads that the forwarder is right about. -/
theorem keeps_pools_iff (payloads : List EventPayload) : KeepsPools payloads ↔ AllLed payloads := by
  refine ⟨fun keeps front next back split => keeps.led split, fun led topic h front next back split cache y relays
    moments cache' y' exec => ?_⟩
  have before (pool : UInt32) := led.faithful split pool
  have joined : payloads = (front ++ [next]) ++ back := by rw [split, List.append_assoc, List.singleton_append]
  have after (pool : UInt32) := led.faithful joined pool
  have handles := cacheFrame_handles exec
  refine ⟨fun pool => ⟨?_, ?_⟩, fun data put => ?_, fun pool data lastPub commits found => ?_⟩
  · have here := after pool
    rw [keptOf_snoc] at here
    rw [handles.kept, (relays.kept pool).1]
    split at here
    · rename_i leads
      rwa [if_pos leads]
    · rename_i other
      rwa [if_neg other]
  · have here := after pool
    rw [keptOf_snoc] at here
    rw [cacheFrame_shared exec, shared_lookup, (relays.kept pool).2]
    split at here
    · rename_i leads
      rwa [if_pos leads]
    · rename_i other
      rwa [if_neg other]
  · generalize moments.filterMap seen = trace at put handles
    cases handles with
    | again cached lastPub t t' commit there =>
      obtain rfl : data = cached := by simpa using put
      have leads : LeadsCommit next.events (poolIdAt next.frame 9) := leadsCommit_iff.mpr ⟨commit, rfl⟩
      have here := before (poolIdAt next.frame 9)
      rw [← (relays.kept _).1, there] at here
      exact ⟨_, leadsCommit_commits leads, here⟩
    | pool => simp at put
    | early => simp at put
    | pass => simp at put
  · have here := before pool
    rw [← (relays.kept pool).1, found] at here
    have old : lastPool pool (allEvents front) ≠ none := fun none => nomatch (faithful_none here).mp none
    obtain ⟨commit, id⟩ := leadsCommit_iff.mp ((led front next back split).committed pool commits old)
    generalize moments.filterMap seen = trace at handles
    cases handles with
    | again cached lastPub' t t' _ there due =>
      rw [id, found] at there
      obtain ⟨rfl, rfl⟩ := Prod.mk.inj (Option.some.inj there)
      exact ⟨t, by simp, fun _ => by simp⟩
    | early cached lastPub' t _ there early =>
      rw [id, found] at there
      obtain ⟨rfl, rfl⟩ := Prod.mk.inj (Option.some.inj there)
      exact ⟨t, by simp, fun due => absurd due early⟩
    | pool t data => exact absurd data commit.not_pool
    | pass _ unknown =>
      rw [← id, unknown commit] at found
      cases found

/-- A payload of one event is one the forwarder is right about, whatever came before it. -/
theorem led_single {e : StreamEvent} {events : List StreamEvent} (single : next.events = [e]) : Led events next := by
  refine ⟨fun pool leads => ?_, fun pool other filled => ?_, fun pool commits _ => ?_⟩
  · rw [LeadsPool, single, List.head?_cons, Option.bind_some] at leads
    rw [single]
    refine List.forall_mem_singleton.mpr ?_
    cases e with
    | poolData poolId => exact Option.some.inj leads
    | _ => cases leads
  · obtain ⟨data, last⟩ := Option.ne_none_iff_exists'.mp filled
    obtain ⟨member, kind⟩ := lastPool_mem last
    rw [single] at member
    obtain rfl := List.mem_singleton.mp member
    refine absurd ?_ other
    rw [LeadsPool, single, List.head?_cons, Option.bind_some]
    exact kind
  · obtain ⟨e', member, commit⟩ := commits
    rw [single] at member
    obtain rfl := List.mem_singleton.mp member
    rw [LeadsCommit, single, List.head?_cons, Option.bind_some]
    exact commit

theorem allLed_single (single : ∀ payload ∈ payloads, ∃ e, payload.events = [e]) : AllLed payloads := by
  intro front next back split
  obtain ⟨e, alone⟩ := single next (split ▸ List.mem_append_right _ List.mem_cons_self)
  exact led_single alone

/-- However many frames a connection brings, what the keepalive finds of each pool after them is
right, if they are payloads that the forwarder is right about. -/
theorem forwarded_pools_kept {topic : String} {h : TaskHandle} {rounds : Nat} {y y' : Yard} {moments : List (Moment Wire Yard)}
    {broken : Bool} (fresh : y.caches h = [])
    (exec : Exec wires (.forwarder h) (forwardFrames topic ∅ rounds) y moments broken y')
    (read : moments.filterMap bodyRead = payloads.map EventPayload.body) (led : AllLed payloads) (pool : UInt32) :
    Faithful pool (allEvents payloads) ((y'.caches h).lookup pool) := by
  obtain ⟨cache, relays⟩ := forwardFrames_forwards (.start fresh) exec read
  rw [(relays.kept pool).2]
  exact led.faithful (List.append_nil _).symm pool

end Led

def samplePool : StreamEvent := .poolData 1 0 0 0 0 0 ⟨[], by decide⟩

/-- Data of a pool with a commit of it in the same payload. -/
def sampleSession : EventPayload where
  events := [samplePool, .surfaceCommit 3 1 0 0 0 0 0 0 0 0 0]
  filled := List.cons_ne_nil _ _
  small := by decide

/-- The commit is sent again with the data. -/
theorem packed_commit_repeats : ¬ ∀ payloads, KeepsPools payloads := by
  intro all
  have led := @KeepsPools.led _ [] [] sampleSession (all [sampleSession]) rfl
  exact led.harmless 1 rfl (.surfaceCommit 3 1 0 0 0 0 0 0 0 0 0) (by simp [sampleSession])

/-- The same events in a payload each. -/
def samplePayloads : List EventPayload :=
  [⟨[samplePool], List.cons_ne_nil _ _, by decide⟩, ⟨[.surfaceCommit 3 1 0 0 0 0 0 0 0 0 0], List.cons_ne_nil _ _, by decide⟩]

theorem forwarded_pools_kept_commit : ∃ moments y',
    Exec wires (.forwarder 0) (forwardFrames "app" ∅ 3) .empty moments true y' ∧
      moments.filterMap bodyRead = samplePayloads.map EventPayload.body ∧
      Faithful 1 (allEvents samplePayloads) ((y'.caches 0).lookup 1) := by
  obtain ⟨moments, broken, y', exec, checked⟩ := play_check (S := wires) (a := .forwarder 0)
    (p := forwardFrames "app" ∅ 3) (w := .empty)
    [⟨.readTimeout 10 4, some (Except.ok [25, 0, 0, 0])⟩, ⟨.readExact 25, Except.ok samplePool.bytes⟩,
      ⟨.now, (1000 : Nat)⟩, ⟨.cacheInsert 1 ([25, 0, 0, 0] ++ samplePool.bytes), ()⟩,
      ⟨.put "app" ([25, 0, 0, 0] ++ samplePool.bytes), Except.ok ()⟩,
      ⟨.readTimeout 10 4, some (Except.ok [33, 0, 0, 0])⟩,
      ⟨.readExact 33, Except.ok (StreamEvent.surfaceCommit 3 1 0 0 0 0 0 0 0 0 0).bytes⟩, ⟨.now, (1001 : Nat)⟩,
      ⟨.put "app" ([33, 0, 0, 0] ++ (StreamEvent.surfaceCommit 3 1 0 0 0 0 0 0 0 0 0).bytes), Except.ok ()⟩,
      ⟨.readTimeout 10 4, some (Except.error "closed")⟩]
    (fun out => decide (out.1.filterMap bodyRead = samplePayloads.map EventPayload.body) && out.2.1)
    (by decide +kernel)
  obtain ⟨read, rfl⟩ := Bool.and_eq_true _ _ ▸ checked
  have bodies := of_decide_eq_true read
  have single : ∀ payload ∈ samplePayloads, ∃ e, payload.events = [e] :=
    List.forall_mem_cons.mpr ⟨⟨_, rfl⟩, List.forall_mem_singleton.mpr ⟨_, rfl⟩⟩
  exact ⟨moments, y', exec, bodies, forwarded_pools_kept rfl exec bodies (allLed_single single) 1⟩

end Bsdos.Streams
