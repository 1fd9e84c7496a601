import Bsdos.Streams.Relay

namespace Bsdos.Streams
open Effects

/-- `read_exact` on a socket whose bytes come in these pieces: what is read, and what is left
for the next read. Nothing is read where the connection ends too early. -/
def readExact (count : Nat) : List Payload → Option (Payload × List Payload)
  | [] => if count = 0 then some ([], []) else none
  | piece :: pieces =>
    if piece.length ≤ count then (readExact (count - piece.length) pieces).map fun read => (piece ++ read.1, read.2)
    else some (piece.take count, piece.drop count :: pieces)

/-- However the bytes are cut into pieces. -/
theorem readExact_spec (count : Nat) (pieces : List Payload) :
    (count ≤ pieces.flatten.length → ∃ rest, readExact count pieces = some (pieces.flatten.take count, rest) ∧
      rest.flatten = pieces.flatten.drop count) ∧
    (pieces.flatten.length < count → readExact count pieces = none) := by
  induction pieces generalizing count with
  | nil =>
    refine ⟨fun enough => ⟨[], ?_, by simp⟩, fun short => if_neg (by simpa using Nat.ne_of_gt short)⟩
    have zero : count = 0 := by simpa using enough
    subst zero
    rfl
  | cons piece pieces ih =>
    rw [List.flatten_cons, List.length_append, readExact]
    by_cases fits : piece.length ≤ count
    · obtain ⟨enough, short⟩ := ih (count - piece.length)
      rw [if_pos fits]
      constructor
      · intro bound
        obtain ⟨rest, read, left⟩ := enough (by omega)
        refine ⟨rest, ?_, ?_⟩
        · rw [read, Option.map_some, List.take_append, List.take_of_length_le fits]
        · rw [left, List.drop_append, List.drop_of_length_le fits, List.nil_append]
      · intro bound
        rw [short (by omega)]
        rfl
    · rw [if_neg fits]
      constructor
      · intro _
        have none : count - piece.length = 0 := by omega
        refine ⟨piece.drop count :: pieces, ?_, ?_⟩
        · rw [List.take_append, none, List.take_zero, List.append_nil]
        · rw [List.flatten_cons, List.drop_append, none, List.drop_zero]
      · intro bound
        omega

/-- The frames of a stream of bytes, up to the first size out of range or the first frame that
is not complete. -/
def framesOf (bytes : Payload) : List Payload :=
  if bytes.length < 4 ∨ ¬InRange (bytes.take 4) ∨ bytes.length < 4 + (fromLeBytes (bytes.take 4)).toNat then []
  else bytes.take (4 + (fromLeBytes (bytes.take 4)).toNat) ::
    framesOf (bytes.drop (4 + (fromLeBytes (bytes.take 4)).toNat))
termination_by bytes.length
decreasing_by
  simp only [List.length_drop]
  omega

/-- The pieces in which the bytes of one connection are still to come. -/
structure Feed where
  pieces : List Payload

/-- The bytes still to come, however they are cut. -/
def Feed.bytes (w : Feed) : Payload := w.pieces.flatten

/-- What a read of so many bytes leaves. -/
def Feed.left (w : Feed) (count : Nat) : Feed := ⟨((readExact count w.pieces).map Prod.snd).getD []⟩

/-- A read of so many bytes is answered by the socket. -/
def Feed.reads (w : Feed) (count : Nat) : Except String Payload → Bool
  | .ok bytes => decide ((readExact count w.pieces).map Prod.fst = some bytes)
  | .error _ => (readExact count w.pieces).isNone

/-- No read runs into its timeout, every put goes through, and the clock shows what it shows. -/
def Feed.may (w : Feed) : (op : WireOp) → op.Ret → Bool
  | .readTimeout _ count, r => Option.elim (α := Except String Payload) r false (w.reads count)
  | .readExact count, r => w.reads count r
  | .put _ _, r => Except.isOk (ε := String) (α := Unit) r
  | _, _ => true

def Feed.after (w : Feed) : (op : WireOp) → op.Ret → Feed
  | .readTimeout _ count, _ | .readExact count, _ => w.left count
  | _, _ => w

/-- One connection, as its read loop sees it. -/
def connection : System Wire Unit Feed where
  Request := Unit
  Env := Empty
  may := fun _ w => w.may
  effect := fun _ w => w.after
  serve := fun _ _ => none
  droppable := fun _ _ => false
  surroundings := fun _ change => nomatch change

/-- What the read loop publishes: a frame it received, with the time if the clock was read
for it, or the copy of a cached frame, with the time before and after it. -/
inductive Sent
  | frame (payload : Payload) (reading : Option Nat)
  | copy (payload : Payload) (t t' : Nat)
  deriving DecidableEq

def Sent.seen : Sent → List Seen
  | .frame payload reading => (reading.map Seen.instant).toList ++ [.put payload]
  | .copy payload t t' => [.instant t, .put payload, .instant t']

/-- What is left when the copies are deleted. -/
def Sent.received : Sent → Option Payload
  | .frame payload _ => some payload
  | .copy _ _ _ => none

/-- A POOL_DATA frame of this pool. -/
def OfPool (pool : UInt32) (frame : Payload) : Prop := IsPoolData frame ∧ poolIdAt frame 5 = pool

instance (pool : UInt32) (frame : Payload) : Decidable (OfPool pool frame) := inferInstanceAs (Decidable (_ ∧ _))

/-- The most recent POOL_DATA frame of a pool. -/
def latest (pool : UInt32) (frames : List Payload) : Option Payload := (frames.filter (OfPool pool)).getLast?

/-- When a frame of a pool was cached, or a copy of it published. -/
def Sent.stamp (pool : UInt32) : Sent → Option Nat
  | .frame payload reading => if OfPool pool payload then reading else none
  | .copy payload _ t' => if OfPool pool payload then some t' else none

/-- A copy is in its place: right before a commit, of the most recent frame of the pool this
commit names, no less than three seconds after that frame was cached or last copied. -/
def InPlace (past : List Sent) (payload : Payload) (t : Nat) (after : List Sent) : Prop :=
  ∃ next reading rest stamp, after = .frame next reading :: rest ∧ IsCommit next ∧
    latest (poolIdAt next 9) (past.filterMap Sent.received) = some payload ∧
    (past.filterMap (Sent.stamp (poolIdAt next 9))).getLast? = some stamp ∧ poolRefreshSecs * 1000 ≤ t - stamp

/-- What comes after this past has its copies in place. -/
def Placed (past events : List Sent) : Prop :=
  ∀ front payload t t' after, events = front ++ .copy payload t t' :: after →
    InPlace (past ++ front) payload t after

theorem placed_nil (past : List Sent) : Placed past [] := by
  intro front payload t t' after split
  simp at split

theorem placed_frame {past rest : List Sent} {payload : Payload} {reading : Option Nat}
    (later : Placed (past ++ [.frame payload reading]) rest) : Placed past (.frame payload reading :: rest) := by
  intro front copied t t' after split
  cases front with
  | nil => cases split
  | cons e front =>
    obtain ⟨rfl, split'⟩ := List.cons.inj split
    have placed := later front copied t t' after split'
    rwa [List.append_assoc] at placed

theorem placed_copy {past rest : List Sent} {payload : Payload} {t t' : Nat} (here : InPlace past payload t rest)
    (later : Placed (past ++ [.copy payload t t']) rest) : Placed past (.copy payload t t' :: rest) := by
  intro front copied u u' after split
  cases front with
  | nil =>
    obtain ⟨same, rfl⟩ := List.cons.inj split
    obtain ⟨rfl, rfl, rfl⟩ := Sent.copy.inj same
    rwa [List.append_nil]
  | cons e front =>
    obtain ⟨rfl, split'⟩ := List.cons.inj split
    have placed := later front copied u u' after split'
    rwa [List.append_assoc] at placed

/-- The loop's cache holds the most recent frame of each pool, with the time of its last stamp. -/
def Knows (cache : PoolCache) (past : List Sent) : Prop :=
  ∀ pool, cache.lookup pool = (latest pool (past.filterMap Sent.received)).bind fun cached =>
    (past.filterMap (Sent.stamp pool)).getLast?.map fun stamp => (cached, stamp)

theorem knows_nil : Knows ∅ [] := fun _ => rfl

theorem latest_concat (pool : UInt32) (frames : List Payload) (frame : Payload) :
    latest pool (frames ++ [frame]) = if OfPool pool frame then some frame else latest pool frames := by
  rw [latest, List.filter_append]
  by_cases own : OfPool pool frame
  · rw [if_pos own, List.filter_singleton, decide_eq_true own, cond_true, List.getLast?_concat]
  · rw [if_neg own, List.filter_singleton, decide_eq_false own, cond_false, List.append_nil, latest]

theorem latest_ofPool {pool : UInt32} {frames : List Payload} {frame : Payload}
    (found : latest pool frames = some frame) : OfPool pool frame :=
  of_decide_eq_true (List.mem_filter.mp (List.mem_of_getLast? found)).2

theorem getLast?_filterMap_concat {α β : Type} (f : α → Option β) (past : List α) (e : α) :
    ((past ++ [e]).filterMap f).getLast? = (f e).or (past.filterMap f).getLast? := by
  rw [List.filterMap_append, List.getLast?_append]
  cases found : f e <;> simp [found]

section
variable {cache : PoolCache} {past : List Sent} {frame : Payload}

/-- A frame that is no POOL_DATA changes nothing that is cached. -/
theorem Knows.other (knows : Knows cache past) (other : ¬ IsPoolData frame) (reading : Option Nat) :
    Knows cache (past ++ [.frame frame reading]) := by
  intro pool
  have apart : ¬ OfPool pool frame := fun own => other own.1
  rw [knows pool, List.filterMap_append, getLast?_filterMap_concat]
  rw [show [Sent.frame frame reading].filterMap Sent.received = [frame] from rfl, latest_concat, if_neg apart]
  rw [Sent.stamp, if_neg apart, Option.none_or]

theorem Knows.insert (knows : Knows cache past) (data : IsPoolData frame) (t : Nat) :
    Knows (cache.insert (poolIdAt frame 5) (frame, t)) (past ++ [.frame frame (some t)]) := by
  intro pool
  rw [List.filterMap_append, getLast?_filterMap_concat]
  rw [show [Sent.frame frame (some t)].filterMap Sent.received = [frame] from rfl, latest_concat, Sent.stamp]
  by_cases own : poolIdAt frame 5 = pool
  · subst own
    rw [Finmap.lookup_insert, if_pos ⟨data, rfl⟩, if_pos ⟨data, rfl⟩]
    rfl
  · have apart : ¬ OfPool pool frame := fun both => own both.2
    rw [Finmap.lookup_insert_of_ne _ (Ne.symm own), knows pool, if_neg apart, if_neg apart, Option.none_or]

theorem Knows.copied {pool : UInt32} {cached : Payload} (knows : Knows cache past)
    (found : latest pool (past.filterMap Sent.received) = some cached) (t t' : Nat) :
    Knows (cache.insert pool (cached, t')) (past ++ [.copy cached t t']) := by
  have own : OfPool pool cached := latest_ofPool found
  intro other
  rw [List.filterMap_append, getLast?_filterMap_concat]
  rw [show [Sent.copy cached t t'].filterMap Sent.received = [] from rfl, List.append_nil, Sent.stamp]
  by_cases same : other = pool
  · subst same
    rw [Finmap.lookup_insert, found, if_pos own]
    rfl
  · have apart : ¬ OfPool other cached := fun both => same (both.2.symm.trans own.2)
    rw [Finmap.lookup_insert_of_ne _ same, knows other, if_neg apart, Option.none_or]

/-- What the cache has is the most recent frame with its last stamp. -/
theorem Knows.of_lookup (knows : Knows cache past) {pool : UInt32} {cached : Payload} {lastPub : Nat}
    (known : cache.lookup pool = some (cached, lastPub)) :
    latest pool (past.filterMap Sent.received) = some cached ∧
    (past.filterMap (Sent.stamp pool)).getLast? = some lastPub := by
  rw [knows pool] at known
  obtain ⟨frame, found, known⟩ := Option.bind_eq_some_iff.mp known
  obtain ⟨stamp, stamped, same⟩ := Option.map_eq_some_iff.mp known
  obtain ⟨rfl, rfl⟩ := Prod.mk.inj same
  exact ⟨found, stamped⟩

/-- One round of the loop publishes its frame, and maybe a copy in its place before it. -/
theorem Handles.sent {cache' : PoolCache} {sight : List Seen} (handles : Handles cache frame sight cache')
    (knows : Knows cache past) : ∃ events : List Sent, sight ++ [.put frame] = events.flatMap Sent.seen ∧
      events.filterMap Sent.received = [frame] ∧ Knows cache' (past ++ events) ∧
      ∀ rest, Placed (past ++ events) rest → Placed past (events ++ rest) := by
  cases handles with
  | pool t data => exact ⟨[.frame frame (some t)], rfl, rfl, knows.insert data t, fun _ later => placed_frame later⟩
  | again cached lastPub t t' commit known due =>
    obtain ⟨found, stamped⟩ := knows.of_lookup known
    have both : past ++ [Sent.copy cached t t', .frame frame none] =
        (past ++ [.copy cached t t']) ++ [.frame frame none] := by
      rw [List.append_assoc]
      rfl
    refine ⟨[.copy cached t t', .frame frame none], rfl, rfl, ?_, fun rest later => ?_⟩
    · rw [both]
      exact (knows.copied found t t').other commit.not_pool none
    · rw [both] at later
      exact placed_copy ⟨frame, none, rest, lastPub, rfl, commit, found, stamped, due⟩ (placed_frame later)
  | early cached lastPub t commit known due =>
    exact ⟨[.frame frame (some t)], rfl, rfl, knows.other commit.not_pool _, fun _ later => placed_frame later⟩
  | pass other unknown =>
    exact ⟨[.frame frame none], rfl, rfl, knows.other other none, fun _ later => placed_frame later⟩

end

section
variable {w w' : Feed} {count : Nat}

theorem Feed.reads_cases {r : Except String Payload} (may : w.reads count r = true) :
    (count ≤ w.bytes.length ∧ r = .ok (w.bytes.take count) ∧ (w.left count).bytes = w.bytes.drop count) ∨
    (w.bytes.length < count ∧ ∃ e, r = .error e) := by
  obtain ⟨enough, short⟩ := readExact_spec count w.pieces
  by_cases fits : count ≤ w.bytes.length
  · obtain ⟨rest, read, left⟩ := enough fits
    have after : w.left count = ⟨rest⟩ := by rw [Feed.left, read, Option.map_some, Option.getD_some]
    refine .inl ⟨fits, ?_, by rw [after]; exact left⟩
    cases r with
    | ok bytes =>
      have same := of_decide_eq_true may
      rw [read, Option.map_some] at same
      exact congrArg Except.ok (Option.some.inj same).symm
    | error e =>
      rw [Feed.reads, read] at may
      cases may
  · have less : w.bytes.length < count := Nat.lt_of_not_le fits
    refine .inr ⟨less, ?_⟩
    cases r with
    | ok bytes =>
      have same := of_decide_eq_true may
      rw [short less] at same
      cases same
    | error e => exact ⟨e, rfl⟩

/-- The next frame of the stream is read, unless there is none. -/
theorem readFrame_connection {reading : List (Moment Wire Feed)} {read : Option Payload}
    (exec : Exec connection () readFrame w reading read w') : reading.filterMap seen = [] ∧
      ((read = none ∧ framesOf w.bytes = []) ∨
        ∃ frame, read = some frame ∧ framesOf w.bytes = frame :: framesOf w'.bytes) := by
  rw [readFrame_eq] at exec
  obtain ⟨r, rest, may, rfl, exec⟩ := exec
  rw [framesOf]
  rcases (r : Option (Except String Payload)) with _ | r
  · cases may
  rcases Feed.reads_cases may with ⟨enough, rfl, left⟩ | ⟨short, e, rfl⟩
  · replace exec : Exec connection () (withSize (some (.ok (w.bytes.take 4)))) (w.left 4) rest read w' := exec
    rw [withSize] at exec
    by_cases range : InRange (w.bytes.take 4)
    · rw [if_pos range] at exec
      obtain ⟨r, rest, may, rfl, exec⟩ := exec
      have remain : (w.left 4).bytes.length = w.bytes.length - 4 := by rw [left, List.length_drop]
      rcases Feed.reads_cases (w := w.left 4) may with ⟨whole, rfl, left'⟩ | ⟨cut, e, rfl⟩
      · obtain ⟨rfl, rfl, rfl⟩ := exec
        have complete : ¬ (w.bytes.length < 4 ∨ ¬ InRange (w.bytes.take 4) ∨
            w.bytes.length < 4 + (fromLeBytes (w.bytes.take 4)).toNat) := by
          rintro (none | out | cut)
          · omega
          · exact out range
          · omega
        refine ⟨rfl, .inr ⟨_, rfl, ?_⟩⟩
        rw [if_neg complete, List.take_add, ← left]
        refine congrArg _ (congrArg framesOf ?_)
        rw [← List.drop_drop, ← left]
        exact left'.symm
      · obtain ⟨rfl, rfl, rfl⟩ := exec
        exact ⟨rfl, .inl ⟨rfl, if_pos (.inr (.inr (by omega)))⟩⟩
    · rw [if_neg range] at exec
      obtain ⟨rfl, rfl, rfl⟩ := exec
      exact ⟨rfl, .inl ⟨rfl, if_pos (.inr (.inl range))⟩⟩
  · obtain ⟨rfl, rfl, rfl⟩ := exec
    exact ⟨rfl, .inl ⟨rfl, if_pos (.inl short)⟩⟩

/-- Nothing but reading takes from the bytes that are to come. -/
theorem cacheFrame_feed {topic : String} {cache cache' : PoolCache} {frame : Payload}
    {moments : List (Moment Wire Feed)} (exec : Exec connection () (cacheFrame topic cache frame) w moments cache' w') :
    w' = w := by
  by_cases pool : IsPoolData frame
  · rw [cacheFrame_pool pool] at exec
    obtain ⟨t, _, _, rfl, _, _, _, rfl, rfl, rfl, rfl⟩ := exec
    rfl
  · by_cases unknown : IsCommit frame → cache.lookup (poolIdAt frame 9) = none
    · rw [cacheFrame_pass pool unknown] at exec
      exact exec.2.2
    · obtain ⟨commit, found⟩ := Classical.not_imp.mp unknown
      obtain ⟨⟨cached, lastPub⟩, known⟩ := Option.ne_none_iff_exists'.mp found
      rw [cacheFrame_known commit known] at exec
      obtain ⟨t, rest, _, rfl, exec⟩ := exec
      rcases refreshPool_cases topic cache (poolIdAt frame 9) cached lastPub t with ⟨due, same⟩ | ⟨due, same⟩
      · rw [same] at exec
        obtain ⟨_, _, _, rfl, t', _, _, rfl, rfl, rfl, rfl⟩ := exec
        rfl
      · rw [same] at exec
        exact exec.2.2

/-- From any past on, the loop publishes the frames that are to come, with copies in place. -/
theorem forwardFrames_sent {topic : String} {rounds : Nat} {cache : PoolCache} {past : List Sent}
    {moments : List (Moment Wire Feed)} {broken : Bool} (knows : Knows cache past)
    (exec : Exec connection () (forwardFrames topic cache rounds) w moments broken w') : ∃ events : List Sent,
      moments.filterMap seen = events.flatMap Sent.seen ∧
      events.filterMap Sent.received = (framesOf w.bytes).take rounds ∧
      (broken = true ↔ (framesOf w.bytes).length < rounds) ∧ Placed past events := by
  induction rounds generalizing cache past w moments with
  | zero =>
    obtain ⟨rfl, rfl, rfl⟩ := exec
    exact ⟨[], rfl, rfl, by simp, placed_nil past⟩
  | succ rounds ih =>
    rcases forwardFrames_round exec with ⟨reads, rfl⟩ |
      ⟨reading, frame, u, handling, cache', v, publishing, r, x, rest, reads, handles, publishes, forwards, rfl⟩
    · obtain ⟨silent, ⟨_, none⟩ | ⟨frame, wrong, _⟩⟩ := readFrame_connection reads
      · rw [none]
        exact ⟨[], silent, rfl, by simp, placed_nil past⟩
      · cases wrong
    · obtain ⟨silent, ⟨wrong, _⟩ | ⟨_, same, split⟩⟩ := readFrame_connection reads
      · cases wrong
      obtain rfl := Option.some.inj same
      obtain rfl := cacheFrame_feed handles
      obtain ⟨_, _, _, rfl, rfl, rfl, rfl⟩ := publishes
      obtain ⟨front, sight, received, knows, placed⟩ := (cacheFrame_handles handles).sent knows
      obtain ⟨events, later, frames, ends, places⟩ := ih knows forwards
      refine ⟨front ++ events, ?_, ?_, ?_, placed events places⟩
      · rw [List.filterMap_append, silent, List.nil_append, List.filterMap_append, List.filterMap_append, later,
          List.flatMap_append, ← sight, List.append_assoc]
        rfl
      · rw [List.filterMap_append, received, frames, split, List.take_succ_cons]
        rfl
      · rw [ends, split, List.length_cons]
        exact Nat.add_lt_add_iff_right.symm

end

/-- On one connection the read loop publishes the frames of the stream, byte for byte and in
their order, however the bytes are cut and whatever the clock shows; anything else it
publishes is a copy in its place. -/
theorem forwarder_relays {topic : String} {rounds : Nat} {w w' : Feed} {moments : List (Moment Wire Feed)}
    {broken : Bool} (exec : Exec connection () (forwardFrames topic ∅ rounds) w moments broken w') :
    ∃ events : List Sent, moments.filterMap seen = events.flatMap Sent.seen ∧
      events.filterMap Sent.received = (framesOf w.pieces.flatten).take rounds ∧
      (broken = true ↔ (framesOf w.pieces.flatten).length < rounds) ∧
      ∀ past payload t t' after, events = past ++ .copy payload t t' :: after → InPlace past payload t after :=
  forwardFrames_sent knows_nil exec

/-- The pixels of a pool, and a surface that is committed with them. -/
def pixelFrame : Payload := [5, 0, 0, 0, 3, 7, 0, 0, 0]

def drawnFrame : Payload := [9, 0, 0, 0, 4, 1, 0, 0, 0, 7, 0, 0, 0]

/-- Both as the socket may cut them. -/
def splitFrames : List Payload := [[5, 0], [0, 0, 3, 7, 0, 0, 0, 9, 0], [0, 0, 4, 1, 0, 0, 0, 7, 0, 0, 0]]

/-- Three seconds after the pixels the commit has them copied before it. -/
theorem forwarder_relays_commit : ∃ events : List Sent,
    [Seen.instant 1000, .put pixelFrame, .instant 4000, .put pixelFrame, .instant 4001, .put drawnFrame] =
      events.flatMap Sent.seen ∧
    events.filterMap Sent.received = (framesOf splitFrames.flatten).take 3 ∧
    (true = true ↔ (framesOf splitFrames.flatten).length < 3) ∧
    ∀ past payload t t' after, events = past ++ .copy payload t t' :: after → InPlace past payload t after := by
  obtain ⟨moments, broken, w', exec, checked⟩ := play_check (S := connection) (a := ())
    (p := forwardFrames "app" ∅ 3) (w := ⟨splitFrames⟩)
    [⟨.readTimeout 10 4, some (Except.ok [5, 0, 0, 0])⟩, ⟨.readExact 5, Except.ok [3, 7, 0, 0, 0]⟩,
      ⟨.now, (1000 : Nat)⟩, ⟨.cacheInsert 7 pixelFrame, ()⟩, ⟨.put "app" pixelFrame, Except.ok ()⟩,
      ⟨.readTimeout 10 4, some (Except.ok [9, 0, 0, 0])⟩, ⟨.readExact 9, Except.ok [4, 1, 0, 0, 0, 7, 0, 0, 0]⟩,
      ⟨.now, (4000 : Nat)⟩, ⟨.put "app" pixelFrame, Except.ok ()⟩, ⟨.now, (4001 : Nat)⟩,
      ⟨.put "app" drawnFrame, Except.ok ()⟩, ⟨.readTimeout 10 4, some (Except.error "closed")⟩]
    (fun out => decide (out.1.filterMap seen =
      [.instant 1000, .put pixelFrame, .instant 4000, .put pixelFrame, .instant 4001, .put drawnFrame]) && out.2.1)
    (by decide +kernel)
  obtain ⟨sight, rfl⟩ := Bool.and_eq_true _ _ ▸ checked
  rw [← of_decide_eq_true sight]
  exact forwarder_relays exec

end Bsdos.Streams
