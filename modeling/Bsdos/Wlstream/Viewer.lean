import Bsdos.Wlstream.RoundTrip
import Bsdos.Wlstream.Picture
import Bsdos.Streams.Faithful
import Bsdos.Streams.Events

namespace Bsdos.Wlstream
open Effects Framing Compositor
open Streams (Sent Seen OfPool latest Placed InPlace Feed IsPoolData poolIdAt framesOf seen)

def StreamEvent.pool? : StreamEvent → Option UInt32
  | .poolData poolId .. => some poolId
  | _ => none

def StreamEvent.commits : StreamEvent → Bool
  | .surfaceCommit .. => true
  | _ => false

/-- A payload that begins with the data of a pool brings no other and commits nothing; and no other
payload brings any. -/
structure Plain (frame : Bytes) : Prop where
  own : IsPoolData frame → ∀ e ∈ decoded frame, e.commits = false ∧ (e.pool? = none ∨ e.pool? = some (poolIdAt frame 5))
  other : ¬ IsPoolData frame → ∀ e ∈ decoded frame, e.pool? = none

/-- What is published, copies and all. -/
def Sent.payload : Sent → Bytes
  | .frame payload _ => payload
  | .copy payload _ _ => payload

def put? : Seen → Option Bytes
  | .put payload => some payload
  | .instant _ => none

/-- The same picture, and the same data to draw the next one from. -/
structure Same (c c' : Compositor) : Prop where
  pools : ∀ pool, (c.pools.lookup pool).map Pool.data = (c'.pools.lookup pool).map Pool.data
  picture : picture c = picture c'

section Copies
variable {decompress : Bytes → Option Bytes} {c c' : Compositor} {e : StreamEvent} {pool : UInt32} {frame : Bytes}

theorem Same.refl (c : Compositor) : Same c c := ⟨fun _ => rfl, rfl⟩

theorem Same.trans {c'' : Compositor} (same : Same c c') (same' : Same c' c'') : Same c c'' :=
  ⟨fun pool => (same.pools pool).trans (same'.pools pool), same.picture.trans same'.picture⟩

theorem handle_same (same : Same c c') (e : StreamEvent) : Same (handle decompress c e) (handle decompress c' e) := by
  refine ⟨fun pool => by rw [handle_pools, handle_pools, same.pools pool], ?_⟩
  cases e with
  | poolData poolId width height stride format rawLen lz4Data =>
    rw [handle, handle, handlePoolData, handlePoolData]
    split
    · exact same.picture
    · exact same.picture
  | surfaceCommit surfaceId poolId offset bufWidth bufHeight bufStride format damageX damageY damageW damageH =>
    have here := same.pools poolId
    rw [handle, handle, handleSurfaceCommit, handleSurfaceCommit]
    cases found : c.pools.lookup poolId with
    | none =>
      rw [found, Option.map_none] at here
      rw [Option.map_eq_none_iff.mp here.symm]
      exact same.picture
    | some pool =>
      rw [found, Option.map_some] at here
      obtain ⟨pool', found', data⟩ := Option.map_eq_some_iff.mp here.symm
      rw [found']
      dsimp only
      rw [data]
      split
      · exact same.picture
      · rfl
  | _ => exact same.picture

theorem run_same (same : Same c c') (events : List StreamEvent) :
    Same (run decompress c events) (run decompress c' events) := by
  induction events generalizing c c' with
  | nil => exact same
  | cons e events ih => exact ih (handle_same same e)

theorem contents_append (front back : List StreamEvent) : contents decompress (front ++ back) pool =
    (contents decompress back pool).or (contents decompress front pool) := by
  rw [contents, List.reverse_append, List.findSome?_append]
  rfl

/-- The data of a pool after a run: the last that was brought, or what was there before. -/
theorem run_contents (events : List StreamEvent) : ((run decompress c events).pools.lookup pool).map Pool.data =
    (contents decompress events pool).or ((c.pools.lookup pool).map Pool.data) := by
  induction events using List.reverseRecOn with
  | nil => rfl
  | append_singleton events e ih => rw [run_snoc, handle_pools, contents_snoc, ih, Option.or_assoc]

theorem brings_other (other : e.pool? ≠ some pool) : e.brings decompress pool = none := by
  cases e with
  | poolData poolId => exact if_neg fun same => other (congrArg some same)
  | _ => rfl

theorem contents_none {events : List StreamEvent} (absent : ∀ e ∈ events, e.pool? ≠ some pool) :
    contents decompress events pool = none := by
  rw [contents, List.findSome?_eq_none_iff]
  exact fun e member => brings_other (absent e (List.mem_reverse.mp member))

theorem run_picture {events : List StreamEvent} (still : ∀ e ∈ events, e.commits = false) :
    picture (run decompress c events) = picture c := by
  induction events generalizing c with
  | nil => rfl
  | cons e events ih =>
    have first : picture (handle decompress c e) = picture c := by
      have quiet := still e List.mem_cons_self
      cases e with
      | poolData poolId width height stride format rawLen lz4Data =>
        rw [handle, handlePoolData]
        split <;> rfl
      | surfaceCommit => cases quiet
      | _ => rfl
    exact (ih fun e member => still e (List.mem_cons_of_mem _ member)).trans first

theorem Plain.silent (plain : Plain frame) (apart : ¬ OfPool pool frame) : ∀ e ∈ decoded frame, e.pool? ≠ some pool := by
  intro e member same
  by_cases data : IsPoolData frame
  · rcases (plain.own data e member).2 with absent | own
    · rw [absent] at same
      cases same
    · exact apart ⟨data, Option.some.inj (own.symm.trans same)⟩
  · rw [plain.other data e member] at same
    cases same

/-- The data of a pool comes from its most recent payload, or is what it was before that. -/
theorem contents_latest {frames : List Bytes} (plain : ∀ frame ∈ frames, Plain frame) (last : latest pool frames = some frame) :
    ∃ before, contents decompress (frames.flatMap decoded) pool = (contents decompress (decoded frame) pool).or before := by
  induction frames using List.reverseRecOn with
  | nil => cases last
  | append_singleton frames next ih =>
    rw [Streams.latest_concat] at last
    rw [List.flatMap_append, List.flatMap_singleton, contents_append]
    by_cases own : OfPool pool next
    · rw [if_pos own] at last
      obtain rfl := Option.some.inj last
      exact ⟨_, rfl⟩
    · rw [if_neg own] at last
      have silent : contents decompress (decoded next) pool = none := contents_none ((plain next (by simp)).silent own)
      rw [silent, Option.none_or]
      exact ih (fun frame member => plain frame (List.mem_append_left _ member)) last

/-- Nothing changes when the most recent payload of a pool is viewed once more. -/
theorem view_again {frames : List Bytes} (plain : ∀ frame ∈ frames, Plain frame) (last : latest pool frames = some frame) :
    Same (run decompress (view decompress c frames) (decoded frame)) (view decompress c frames) := by
  have own : OfPool pool frame := Streams.latest_ofPool last
  have listed : Plain frame := plain frame (List.mem_filter.mp (List.mem_of_getLast? last)).1
  constructor
  · intro other
    rw [run_contents]
    by_cases same : other = pool
    · subst same
      obtain ⟨before, latest⟩ : ∃ before, contents decompress (frames.flatMap decoded) other =
          (contents decompress (decoded frame) other).or before := contents_latest plain last
      rw [view, run_contents, latest, Option.or_assoc, ← Option.or_assoc, Option.or_self]
    · have apart : ¬ OfPool other frame := fun both => same (both.2.symm.trans own.2)
      rw [contents_none (listed.silent apart), Option.none_or]
  · exact run_picture fun e member => (listed.own own.1 e member).1

theorem view_snoc (frames : List Bytes) (frame : Bytes) :
    view decompress c (frames ++ [frame]) = run decompress (view decompress c frames) (decoded frame) := by
  rw [view, view, List.flatMap_append, List.flatMap_singleton, run, List.foldl_append]
  rfl

/-- What is published up to some point makes the same picture as what was received. -/
theorem Placed.same {past events : List Sent} (placed : Placed past events)
    (plain : ∀ frame ∈ (past ++ events).filterMap Sent.received, Plain frame)
    (before : Same (view decompress c (past.map Sent.payload)) (view decompress c (past.filterMap Sent.received))) :
    Same (view decompress c ((past ++ events).map Sent.payload))
      (view decompress c ((past ++ events).filterMap Sent.received)) := by
  induction events generalizing past with
  | nil => rwa [List.append_nil]
  | cons event events ih =>
    have grown : past ++ event :: events = past ++ [event] ++ events := by rw [List.append_assoc, List.singleton_append]
    have later : Placed (past ++ [event]) events := by
      intro front payload t t' after split
      have here := placed (event :: front) payload t t' after (by rw [split, List.cons_append])
      rwa [← List.append_cons] 
    rw [grown] at plain ⊢
    refine ih later plain ?_
    rw [List.map_append, List.filterMap_append, List.map_singleton, view_snoc]
    cases event with
    | frame payload reading =>
      change Same _ (view decompress c (past.filterMap Sent.received ++ [payload]))
      rw [view_snoc]
      exact run_same before (decoded payload)
    | copy payload t t' =>
      change Same _ (view decompress c (past.filterMap Sent.received ++ []))
      obtain ⟨next, reading, rest, stamp, -, -, last, -⟩ := placed [] payload t t' events rfl
      rw [List.append_nil] at last ⊢
      have known : ∀ frame ∈ past.filterMap Sent.received, Plain frame := fun frame member => by
        apply plain
        rw [List.filterMap_append, List.filterMap_append]
        exact List.mem_append_left _ (List.mem_append_left _ member)
      exact (run_same before (decoded payload)).trans (view_again known last)

end Copies

section Single
variable {frame rest : Bytes} {e : StreamEvent} {es : List StreamEvent}

/-- The first event of a payload stands behind its size. -/
theorem decoded_front (first : decoded frame = e :: es) : ∃ rest, frame.drop 4 = e.bytes ++ rest := by
  by_cases short : frame.length < 4
  · rw [decoded, parseEvents, if_pos short] at first
    cases first
  · obtain ⟨events, tail, reads, parsed⟩ := parseEvents_reads frame (Nat.le_of_not_lt short)
    rw [decoded, parsed, items_read] at first
    subst first
    have split : region frame = (e :: es).flatMap StreamEvent.bytes ++ tail := reads.split.1
    rw [List.flatMap_cons, List.append_assoc] at split
    have whole := List.take_append_drop (min (4 + (u32At frame 0).toNat) frame.length - 4) (frame.drop 4)
    rw [← List.drop_take, ← region, split, List.append_assoc] at whole
    exact ⟨_, whole.symm⟩

theorem evType_front {type : UInt8} (front : frame.drop 4 = type :: rest) : Streams.evType frame = type := by
  rw [Streams.evType, List.getD_eq_getElem?_getD, ← Nat.add_zero 4, ← List.getElem?_drop, front]
  rfl

theorem poolIdAt_front {lead : Bytes} {poolId : UInt32} (front : frame.drop 4 = lead ++ (le32 poolId ++ rest)) :
    poolIdAt frame (4 + lead.length) = poolId := by
  rw [poolIdAt, ← List.drop_drop, front, List.drop_left, List.take_left' (le32_length poolId)]
  exact Streams.fromLeBytes_le32 poolId

theorem poolIdAt_commit {surfaceId poolId offset : UInt32} {bufWidth bufHeight : UInt16} {bufStride format : UInt32}
    {damageX damageY damageW damageH : UInt16} (front : frame.drop 4 = (StreamEvent.surfaceCommit surfaceId poolId offset
      bufWidth bufHeight bufStride format damageX damageY damageW damageH).bytes ++ rest) : poolIdAt frame 9 = poolId := by
  have bytes : (StreamEvent.surfaceCommit surfaceId poolId offset bufWidth bufHeight bufStride format damageX damageY damageW
      damageH).bytes = evSurfaceCommit :: le32 surfaceId ++ (le32 poolId ++ (le32 offset ++ (le16 bufWidth ++
        (le16 bufHeight ++ (le32 bufStride ++ (le32 format ++ (le16 damageX ++ (le16 damageY ++ (le16 damageW ++
          le16 damageH))))))))) := rfl
  rw [bytes, List.append_assoc, List.append_assoc] at front
  exact poolIdAt_front front

theorem poolData_bytes (poolId : UInt32) (width height : UInt16) (stride format rawLen : UInt32) (lz4Data : Bytes) :
    (StreamEvent.poolData poolId width height stride format rawLen lz4Data).bytes = evPoolData :: (le32 poolId ++
      (le16 width ++ (le16 height ++ (le32 stride ++ (le32 format ++ (le32 rawLen ++
        (le32 (UInt32.ofNat lz4Data.length) ++ lz4Data))))))) := rfl

theorem poolIdAt_data {poolId : UInt32} {width height : UInt16} {stride format rawLen : UInt32} {lz4Data : Bytes}
    (front : frame.drop 4 = (StreamEvent.poolData poolId width height stride format rawLen lz4Data).bytes ++ rest) :
    poolIdAt frame 5 = poolId := by
  rw [poolData_bytes, ← List.singleton_append, List.append_assoc, List.append_assoc] at front
  exact poolIdAt_front front

/-- What a commit draws depends on the data of its pool alone. -/
theorem handle_drawn {decompress : Bytes → Option Bytes} {c c' : Compositor} {events events' : List StreamEvent} {data : Bytes}
    (known : ∀ pool, (c.pools.lookup pool).map Pool.data = contents decompress events pool)
    (known' : ∀ pool, (c'.pools.lookup pool).map Pool.data = contents decompress events' pool)
    (drawn : draws decompress events e = some data) (drawn' : draws decompress events' e = some data) :
    picture (handle decompress c e) = picture (handle decompress c' e) := by
  cases e with
  | surfaceCommit surfaceId poolId offset bufWidth bufHeight bufStride format damageX damageY damageW damageH =>
    obtain ⟨here, enough⟩ := Option.filter_eq_some_iff.mp drawn
    have enough := Nat.not_lt.mpr (of_decide_eq_true enough)
    rw [← UInt16.toNat_toUInt32] at enough
    rw [← known poolId, Option.map_eq_some_iff] at here
    obtain ⟨pool, found, rfl⟩ := here
    have there := (Option.filter_eq_some_iff.mp drawn').1
    rw [← known' poolId, Option.map_eq_some_iff] at there
    obtain ⟨pool', found', same⟩ := there
    rw [handle, handle, handleSurfaceCommit, handleSurfaceCommit, found, found']
    dsimp only
    rw [same, if_neg enough, if_neg enough]
    rfl
  | _ => cases drawn

end Single

section Sender
variable {events : List StreamEvent} {sent : List (List StreamEvent)} {e : StreamEvent} {pool : UInt32}

/-- Events that are sent together: if the data of a pool comes first, then no data of another pool
and no commit with it; if not, then no data of any pool. -/
structure Tidy (events : List StreamEvent) : Prop where
  own : ∀ pool, events.head?.bind StreamEvent.pool? = some pool →
    ∀ e ∈ events, e.commits = false ∧ (e.pool? = none ∨ e.pool? = some pool)
  other : events.head?.bind StreamEvent.pool? = none → ∀ e ∈ events, e.pool? = none

theorem Tidy.single (e : StreamEvent) : Tidy [e] where
  own pool leads e' member := by
    rw [List.mem_singleton] at member
    subst member
    have same : e'.pool? = some pool := leads
    refine ⟨?_, .inr same⟩
    cases e' with
    | poolData => rfl
    | _ => cases same
  other absent e' member := by
    rw [List.mem_singleton] at member
    subst member
    exact absent

/-- Events that the forwarder takes in one payload. -/
def Framed (events : List StreamEvent) : Prop :=
  events ≠ [] ∧ (events.flatMap StreamEvent.bytes).length ≤ Streams.maxPayload

theorem Framed.small (framed : Framed events) : (events.flatMap StreamEvent.bytes).length < 2 ^ 32 :=
  Nat.lt_of_le_of_lt framed.2 (by decide)

theorem decoded_encode (framed : Framed events) : decoded (encode events) = events := by
  have parsed := parseEvents_encode framed.small []
  rw [List.append_nil] at parsed
  rw [decoded, parsed]
  exact items_oks events

theorem encode_front (framed : Framed events) : ∃ e es rest, events = e :: es ∧ (encode events).drop 4 = e.bytes ++ rest := by
  cases events with
  | nil => exact absurd rfl framed.1
  | cons e es =>
    obtain ⟨rest, front⟩ := decoded_front (decoded_encode framed)
    exact ⟨e, es, rest, rfl, front⟩

theorem Tidy.plain (tidy : Tidy events) (framed : Framed events) : Plain (encode events) := by
  obtain ⟨e, es, rest, rfl, front⟩ := encode_front framed
  have long := congrArg List.length front
  rw [List.length_drop, List.length_append] at long
  constructor
  · rintro ⟨type, -⟩
    rw [decoded_encode framed]
    apply tidy.own
    cases e with
    | poolData poolId width height stride format rawLen lz4Data =>
      exact congrArg some (poolIdAt_data front).symm
    | _ =>
      rw [evType_front front] at type
      cases type
  · intro other
    rw [decoded_encode framed]
    apply tidy.other
    cases e with
    | poolData poolId width height stride format rawLen lz4Data =>
      refine absurd ⟨evType_front front, ?_⟩ other
      rw [poolData_bytes] at long
      simp only [List.length_cons, List.length_append, le32_length] at long
      omega
    | _ => rfl

theorem framesOf_encode (framed : ∀ events ∈ sent, Framed events) : framesOf (sent.flatMap encode) = sent.map encode := by
  induction sent with
  | nil => 
    rw [List.flatMap_nil, framesOf, if_pos (.inl (by decide))]
    rfl
  | cons events sent ih =>
    have here := framed events List.mem_cons_self
    have size : (UInt32.ofNat (events.flatMap StreamEvent.bytes).length).toNat = (events.flatMap StreamEvent.bytes).length :=
      UInt32.toNat_ofNat_of_lt' here.small
    have filled : (events.flatMap StreamEvent.bytes).length ≠ 0 := by
      obtain ⟨e, es, rest, rfl, front⟩ := encode_front here
      have pos := wireFormat.write_pos e
      rw [List.flatMap_cons, List.length_append]
      exact Nat.ne_of_gt (Nat.lt_add_right _ pos)
    have first : (encode events ++ sent.flatMap encode).take 4 = le32 (UInt32.ofNat (events.flatMap StreamEvent.bytes).length) := by
      rw [encode_eq, List.append_assoc, List.take_left' (le32_length _)]
    have length : (encode events).length = 4 + (events.flatMap StreamEvent.bytes).length := by
      rw [encode_eq, List.length_append, le32_length]
    have read : (Streams.fromLeBytes ((encode events ++ sent.flatMap encode).take 4)).toNat =
        (events.flatMap StreamEvent.bytes).length := by
      rw [first]
      exact (congrArg UInt32.toNat (Streams.fromLeBytes_le32 _)).trans size
    have complete : ¬ ((encode events ++ sent.flatMap encode).length < 4 ∨
        ¬ Streams.InRange ((encode events ++ sent.flatMap encode).take 4) ∨
        (encode events ++ sent.flatMap encode).length <
          4 + (Streams.fromLeBytes ((encode events ++ sent.flatMap encode).take 4)).toNat) := by
      rw [Streams.InRange, read, List.length_append]
      have small := here.2
      omega
    rw [List.flatMap_cons, framesOf, if_neg complete, read, ← length, List.take_left, List.drop_left,
      ih fun events member => framed events (List.mem_cons_of_mem _ member), List.map_cons]

theorem decoded_sent (framed : ∀ events ∈ sent, Framed events) : (sent.map encode).flatMap decoded = sent.flatten := by
  induction sent with
  | nil => rfl
  | cons events sent ih =>
    rw [List.map_cons, List.flatMap_cons, decoded_encode (framed events List.mem_cons_self),
      ih fun events member => framed events (List.mem_cons_of_mem _ member), List.flatten_cons]

end Sender

section Published
variable {topic : String} {rounds : Nat} {w w' : Feed} {moments : List (Moment Streams.Wire Feed)} {broken : Bool}

theorem seen_puts (events : List Sent) : (events.flatMap Sent.seen).filterMap put? = events.map Sent.payload := by
  induction events with
  | nil => rfl
  | cons event events ih =>
    rw [List.flatMap_cons, List.filterMap_append, ih]
    cases event with
    | frame payload reading => cases reading <;> rfl
    | copy payload t t' => rfl

/-- However often the forwarder publishes the data of a pool again: a viewer shows what it would
show of the frames alone, with the same data to draw from, whatever it showed before. -/
theorem copies_unseen (decompress : Bytes → Option Bytes) (c : Compositor)
    (exec : Exec Streams.connection () (Streams.forwardFrames topic ∅ rounds) w moments broken w')
    (plain : ∀ frame ∈ framesOf w.pieces.flatten, Plain frame) :
    Same (view decompress c ((moments.filterMap seen).filterMap put?))
      (view decompress c ((framesOf w.pieces.flatten).take rounds)) := by
  obtain ⟨events, sight, received, -, placed⟩ := Streams.forwardFrames_sent Streams.knows_nil exec
  have bytes : w.bytes = w.pieces.flatten := rfl
  rw [sight, seen_puts, ← bytes, ← received]
  refine Placed.same placed (fun frame member => plain frame ?_) (Same.refl _)
  rw [List.nil_append, received] at member
  exact List.mem_of_mem_take member

end Published

/-- Four bytes of a pool, and a commit of the one pixel they are. -/
def pixelData : StreamEvent := .poolData 7 1 1 4 0 4 [10, 20, 30, 40]

def pixelCommit : StreamEvent := .surfaceCommit 1 7 0 1 1 4 0 0 0 1 1

def pixelFeed : Feed := ⟨[encode [pixelData], encode [pixelCommit]]⟩

theorem pixel_framed : ∀ events ∈ [[pixelData], [pixelCommit]], Framed events :=
  List.forall_mem_cons.mpr ⟨⟨by decide, by decide⟩, List.forall_mem_singleton.mpr ⟨by decide, by decide⟩⟩

/-- Three seconds after the data the commit has it copied before it. -/
theorem pixel_exec : ∃ moments broken w',
    Exec Streams.connection () (Streams.forwardFrames "app" ∅ 2) pixelFeed moments broken w' ∧
    moments.filterMap seen = [.instant 1000, .put (encode [pixelData]), .instant 4000, .put (encode [pixelData]),
      .instant 4001, .put (encode [pixelCommit])] := by
  obtain ⟨moments, broken, w', exec, checked⟩ := play_check (S := Streams.connection) (a := ())
    (p := Streams.forwardFrames "app" ∅ 2) (w := pixelFeed)
    [⟨.readTimeout 10 4, some (Except.ok [29, 0, 0, 0])⟩, ⟨.readExact 29, Except.ok (encode [pixelData] |>.drop 4)⟩,
      ⟨.now, (1000 : Nat)⟩, ⟨.cacheInsert 7 (encode [pixelData]), ()⟩, ⟨.put "app" (encode [pixelData]), Except.ok ()⟩,
      ⟨.readTimeout 10 4, some (Except.ok [33, 0, 0, 0])⟩, ⟨.readExact 33, Except.ok (encode [pixelCommit] |>.drop 4)⟩,
      ⟨.now, (4000 : Nat)⟩, ⟨.put "app" (encode [pixelData]), Except.ok ()⟩, ⟨.now, (4001 : Nat)⟩,
      ⟨.put "app" (encode [pixelCommit]), Except.ok ()⟩]
    (fun out => decide (out.1.filterMap seen = [.instant 1000, .put (encode [pixelData]), .instant 4000,
      .put (encode [pixelData]), .instant 4001, .put (encode [pixelCommit])]))
    (by decide +kernel)
  exact ⟨moments, broken, w', exec, of_decide_eq_true checked⟩

end Bsdos.Wlstream
