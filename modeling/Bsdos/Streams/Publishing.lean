import Bsdos.Streams.Forwarder
import Bsdos.Streams.Served

namespace Bsdos.Streams
open Effects

/-- What the manager's tasks and the tasks of the instances have done, newest call first. -/
abbrev Log := List (Event (Host.sum Wire) (Actor ⊕ Worker))

abbrev Streaming := Config (Host.sum Wire) (Actor ⊕ Worker) (World × Yard)

/-- What a task of the manager has in hand of one stream: a forwarder it has spawned and not
yet put into the map, or one it has taken out of it, aborted or not. -/
inductive Hand
  | empty
  | forked (handle : TaskHandle)
  | taken (handle : TaskHandle) (aborted : Bool)
  deriving DecidableEq

def tending (x : String) : Protocol Host Hand where
  next γ
    | .spawnTask .forwarder appId _, handle => if appId = x then .forked handle else γ
    | .streamsInsert appId _, _ => if appId = x then .empty else γ
    | .streamsRemove appId, some inst => if appId = x then .taken inst.forwarderHandle false else γ
    | .abort handle, _ =>
      match γ with
      | .taken held aborted => .taken held (aborted || handle = held)
      | γ => γ
    | .note (.returned (.stop appId) true), _ => if appId = x then .empty else γ
    | _, _ => γ
  allows γ
    | .spawnTask .forwarder appId _ => appId = x → γ = .empty
    | .streamsInsert appId inst => appId = x → γ = .forked inst.forwarderHandle
    | .streamsRemove appId => appId = x → γ = .empty
    | .note (.returned (.stop appId) true) => appId = x → ∃ handle, γ = .taken handle true
    | _ => True

/-- The stream that a forwarder is for, the length prefix it has read last and the frames it
has read on its connections. -/
structure Relay where
  appId : Option String
  header : Payload
  frames : List Payload

def Relay.idle : Relay := ⟨none, [], []⟩

/-- A forwarder publishes and caches what it has read, on the topic of its stream. -/
def relay : Protocol Wire Relay where
  next γ
    | .enter, arguments => { γ with appId := some arguments.1 }
    | .readTimeout _ _, some (.ok bytes) => { γ with header := bytes }
    | .readExact _, .ok bytes => { γ with frames := (γ.header ++ bytes) :: γ.frames }
    | _, _ => γ
  allows γ
    | .put topic payload => (∃ appId, γ.appId = some appId ∧ topic = streamTopic appId) ∧ payload ∈ γ.frames
    | .spawnKeepalive topic _ => ∃ appId, γ.appId = some appId ∧ topic = streamTopic appId
    | .cacheInsert _ payload => (∃ appId, γ.appId = some appId) ∧ payload ∈ γ.frames
    | _ => True

/-- The topic of a keepalive task, the frames it has found in the cache and still holds the
lock for, and whether it has given up for want of a publisher. -/
structure Refresh where
  topic : Option String
  left : List Payload
  quit : Bool

def Refresh.idle : Refresh := ⟨none, [], false⟩

def refresh : Protocol Wire Refresh where
  next γ
    | .enterKeepalive, arguments => ⟨some arguments.1, [], false⟩
    | .declarePublisher _, .error _ => { γ with quit := true }
    | .cacheLock, cached => { γ with left := cached }
    | .cacheUnlock, _ => { γ with left := [] }
    | _, _ => γ
  allows γ
    | .put topic payload => γ.topic = some topic ∧ payload ∈ γ.left ∧ γ.quit = false
    | .declarePublisher _ => γ.topic ≠ none
    | _ => True

def handOf (x : String) (log : Log) (a : Actor) : Hand := (tending x).inl.state .empty (.inl a) log

def relayOf (log : Log) (handle : TaskHandle) : Relay := relay.inr.state .idle (.inr (.forwarder handle)) log

def refreshOf (log : Log) (handle : TaskHandle) : Refresh := refresh.inr.state .idle (.inr (.keepalive handle)) log

/-- The frames that a forwarder has read on its connections. -/
def framesRead (log : Log) (handle : TaskHandle) : List Payload := (relayOf log handle).frames

section tending
variable {x : String}

/-- The calls that move no forwarder of a stream. -/
def Op.Untended : Op → Prop
  | .spawnTask .forwarder _ _ | .streamsInsert _ _ | .streamsRemove _ | .abort _ => False
  | .note (.returned (.stop _) true) => False
  | _ => True

theorem Op.Untended.tending {op : Op} (untended : op.Untended) (γ : Hand) :
    (tending x).allows γ op ∧ ∀ r, (tending x).next γ op r = γ := by
  cases op with
  | spawnTask kind _ _ =>
    cases kind with
    | forwarder => exact untended.elim
    | input | resize => exact ⟨trivial, fun _ => rfl⟩
  | note n =>
    cases n with
    | returned c ok =>
      cases c with
      | start _ => exact ⟨trivial, fun _ => rfl⟩
      | stop _ =>
        cases ok with
        | true => exact untended.elim
        | false => exact ⟨trivial, fun _ => rfl⟩
    | invoked _ | died _ | restarting _ => exact ⟨trivial, fun _ => rfl⟩
  | streamsInsert _ _ | streamsRemove _ | abort _ => exact untended.elim
  | _ => exact ⟨trivial, fun _ => rfl⟩

theorem untended_keeps {α : Type} {γ : Hand} {p : Task α} (only : p.Only Op.Untended) :
    p.Follows (tending x) (fun _ γ' => γ' = γ) γ := by
  refine only.keeps (fun γ' op untended same => ?_) rfl
  subst same
  exact untended.tending γ'

theorem aside_untended (op : Op) (aside : op.Aside) : op.Untended := by
  cases op with
  | note n =>
    cases n with
    | died _ | restarting _ => trivial
    | _ => exact aside.elim
  | lock | unlock | streamsEntries | tryWait _ | status _ _ | interval _ | sleep _ | registryLoad => trivial
  | _ => exact aside.elim

theorem records_untended (op : Op) (records : op.Records) : op.Untended := by
  cases op with
  | registryLoad | registryMkdir | registryWriteTmp _ | registryRename => trivial
  | _ => exact records.elim

theorem spawns_untended {appId : String} (op : Op) (spawns : op.Spawns appId) : op.Untended := by
  cases op with
  | spawn _ _ _ | createDirAll _ | setPermissions _ _ | pathExists _ | sleep _ | kill _ | wait _ => trivial
  | _ => exact spawns.elim

/-- A start puts the forwarder it has spawned into the map. -/
theorem register_tends (cfg : StreamConfig) (rundir : String) (procs : SpawnedProcesses) :
    (register cfg rundir procs).Follows (tending x) (fun _ γ => γ = .empty) .empty := by
  refine ⟨fun _ => rfl, fun handle => ⟨trivial, fun _ => ⟨trivial, fun _ => ⟨trivial, fun _ => ⟨fun own => ?_, fun _ => ?_⟩⟩⟩⟩⟩
  · show (if cfg.appId = x then Hand.forked handle else .empty) = _
    rw [if_pos own]
  · have back : (if cfg.appId = x then Hand.empty else if cfg.appId = x then .forked handle else .empty) = .empty := by
      by_cases own : cfg.appId = x
      · rw [if_pos own]
      · rw [if_neg own, if_neg own]
    have recorded := untended_keeps (x := x) (γ := .empty) ((add_records cfg).mono records_untended)
    have closed : (do let _ ← (addToRegistry cfg).run; unlock : Task Unit).Follows (tending x) (fun _ γ => γ = .empty) .empty :=
      recorded.bind fun _ γ same => ⟨trivial, fun _ => same⟩
    show Prog.Follows _ _ _ (if cfg.appId = x then Hand.empty else if cfg.appId = x then .forked handle else .empty)
    rw [back]
    exact closed

theorem startStream_tends (cfg : StreamConfig) :
    (startStream cfg).run.Follows (tending x) (fun _ γ => γ = .empty) .empty := by
  unfold startStream
  rw [recorded_run, startBody_run, checkMembership_run]
  refine ⟨trivial, fun _ => ?_⟩
  refine Prog.Follows.bind (M := fun _ γ => γ = Hand.empty) ?_ fun _ γ same => ⟨trivial, fun _ => same⟩
  refine ⟨trivial, fun _ => ⟨trivial, fun known => ⟨trivial, fun _ => ?_⟩⟩⟩
  cases known with
  | true => exact rfl
  | false =>
    refine (untended_keeps ((spawnProcesses_only cfg _).mono spawns_untended)).bind fun r γ same => ?_
    subst same
    cases r with
    | error e => exact rfl
    | ok procs => exact (register_tends cfg _ procs).bind fun _ _ same => same

/-- A teardown and what follows it leave an empty hand empty. -/
theorem cleared_tends (appId : String) (inst : StreamInstance) :
    (tearDown inst >>= fun _ => (removeFromRegistry appId).run >>= fun _ =>
      (.ret (.ok ()) : Task (Except StreamError Unit))).Follows (tending x) (fun _ γ => γ = .empty) .empty := by
  refine (cleared_only appId inst).keeps (fun γ op clears same => ?_) rfl
  subst same
  cases op with
  | kill _ | wait _ | status _ _ | abort _ | removeDirAll _ | registryLoad | registryMkdir | registryWriteTmp _
  | registryRename => exact ⟨trivial, fun _ => rfl⟩
  | _ => exact False.elim (clears.elim id id)

/-- A teardown aborts the forwarder. -/
theorem tearDown_tends (inst : StreamInstance) :
    (tearDown inst).Follows (tending x) (fun _ γ => γ = .taken inst.forwarderHandle true)
      (.taken inst.forwarderHandle false) := by
  have aborts : (do
      call (.abort inst.forwarderHandle)
      call (.abort inst.inputHandle)
      call (.abort inst.resizeHandle)
      let _ ← call (.removeDirAll inst.rundir) : Task Unit).Follows (tending x)
      (fun _ γ => γ = .taken inst.forwarderHandle true) (.taken inst.forwarderHandle false) := by
    refine ⟨trivial, fun _ => ⟨trivial, fun _ => ⟨trivial, fun _ => ⟨trivial, fun _ => ?_⟩⟩⟩⟩
    show Hand.taken inst.forwarderHandle (((false || decide _) || _) || _) = _
    simp
  have reaps : (do
      waitChild inst.cage
      waitChild inst.tunnel
      waitChild inst.app : Task Unit).Only Op.Untended :=
    ⟨trivial, fun _ => ⟨trivial, fun _ => ⟨trivial, fun _ => trivial⟩⟩⟩
  have ends := (untended_keeps (x := x) (γ := .taken inst.forwarderHandle false) reaps).bind fun _ γ same => same ▸ aborts
  refine ⟨trivial, fun _ => ⟨trivial, fun _ => ⟨trivial, fun _ => ?_⟩⟩⟩
  split
  · exact ⟨trivial, fun _ => ends⟩
  · exact ends

theorem stopStream_tends (appId : String) :
    (stopStream appId).run.Follows (tending x) (fun _ γ => γ = .empty) .empty := by
  unfold stopStream
  rw [recorded_run, stopBody_run]
  refine ⟨trivial, fun _ => ?_⟩
  refine Prog.Follows.bind (M := fun r γ => γ = Hand.empty ∧ (r.isOk = true → appId ≠ x) ∨
    r.isOk = true ∧ appId = x ∧ ∃ handle, γ = Hand.taken handle true) ?_ fun r γ left => ?_
  · refine ⟨trivial, fun _ => ⟨fun _ => rfl, fun found => ⟨trivial, fun _ => ?_⟩⟩⟩
    cases found with
    | none => exact Or.inl ⟨rfl, fun failed => nomatch failed⟩
    | some inst =>
      show Prog.Follows _ _ _ (if appId = x then Hand.taken inst.forwarderHandle false else .empty)
      by_cases own : appId = x
      · rw [if_pos own]
        refine (tearDown_tends inst).bind fun _ γ aborted => ?_
        refine (untended_keeps ((remove_records appId).mono records_untended)).bind fun _ γ' same => ?_
        exact Or.inr ⟨rfl, own, inst.forwarderHandle, same.trans aborted⟩
      · rw [if_neg own]
        exact (cleared_tends appId inst).mono fun r γ empty => Or.inl ⟨empty, fun _ => own⟩
  · rcases left with ⟨rfl, other⟩ | ⟨ok, own, handle, rfl⟩
    · cases passed : r.isOk with
      | false => exact ⟨trivial, fun _ => rfl⟩
      | true =>
        refine ⟨fun own => absurd own (other passed), fun _ => ?_⟩
        exact if_neg (other passed)
    · rw [ok]
      exact ⟨fun _ => ⟨handle, rfl⟩, fun _ => if_pos own⟩

theorem serve_tends {a : Actor} {request : Request} {program : Task Unit} (served : serve a request = some program)
    {γ : Hand} (rest : γ = .empty) : program.Follows (tending x) (fun _ γ' => γ' = .empty) γ := by
  refine serve_follows (I := fun γ => γ = Hand.empty) (fun γ op aside same => ?_) (fun cfg γ same => ?_)
    (fun appId γ same => ?_) served rest
  · subst same
    exact (aside_untended op aside).tending .empty
  · subst same
    exact startStream_tends cfg
  · subst same
    exact stopStream_tends appId

end tending

section relay

/-- The frames cached on a connection are among those read. -/
def PoolCache.Within (cache : PoolCache) (frames : List Payload) : Prop :=
  ∀ pool entry, cache.lookup pool = some entry → entry.1 ∈ frames

theorem PoolCache.Within.insert {cache : PoolCache} {frames : List Payload} (within : cache.Within frames) {pool : UInt32}
    {entry : Payload × Nat} (read : entry.1 ∈ frames) : PoolCache.Within (Finmap.insert pool entry cache) frames := by
  intro pool' entry' found
  by_cases same : pool' = pool
  · subst same
    rw [Finmap.lookup_insert] at found
    exact Option.some.inj found ▸ read
  · rw [Finmap.lookup_insert_of_ne cache same] at found
    exact within pool' entry' found

theorem PoolCache.within_empty (frames : List Payload) : PoolCache.Within ∅ frames := by
  intro pool entry found
  rw [Finmap.lookup_empty] at found
  cases found

variable {γ : Relay} {appId : String}

/-- A forwarder of the stream, past these frames. -/
structure Relay.Past (appId : String) (frames : List Payload) (γ : Relay) : Prop where
  appId : γ.appId = some appId
  frames : ∀ payload ∈ frames, payload ∈ γ.frames

theorem readFrame_relays (begun : γ.appId = some appId) :
    readFrame.Follows relay (fun read γ' => γ'.Past appId (read.toList ++ γ.frames)) γ := by
  have none_read (γ' : Relay) (app : γ'.appId = γ.appId) (frames : γ'.frames = γ.frames) :
      γ'.Past appId ((none : Option Payload).toList ++ γ.frames) :=
    ⟨app.trans begun, fun payload member => frames ▸ member⟩
  refine ⟨trivial, fun lenBytes : Option (Except String Payload) => ?_⟩
  rcases lenBytes with _ | e | lenBytes
  · exact none_read γ rfl rfl
  · exact none_read γ rfl rfl
  · show Prog.Follows relay _ (if (fromLeBytes lenBytes).toNat = 0 ∨ maxPayload < (fromLeBytes lenBytes).toNat then _ else _) _
    by_cases wrong : (fromLeBytes lenBytes).toNat = 0 ∨ maxPayload < (fromLeBytes lenBytes).toNat
    · rw [if_pos wrong]
      exact none_read _ rfl rfl
    · rw [if_neg wrong]
      refine ⟨trivial, fun body : Except String Payload => ?_⟩
      rcases body with e | body
      · exact none_read _ rfl rfl
      · exact ⟨begun, fun payload member => member⟩

/-- What a frame gives rise to before it is published: it is cached, or a frame cached
before it is published again. -/
theorem cacheFrame_relays {payload : Payload} {cache : PoolCache} (begun : γ.appId = some appId)
    (read : payload ∈ γ.frames) (within : cache.Within γ.frames) :
    (cacheFrame (streamTopic appId) cache payload).Follows relay (fun cache' γ' => γ' = γ ∧ cache'.Within γ.frames) γ := by
  unfold cacheFrame
  split
  · refine ⟨trivial, fun instant => ⟨⟨⟨appId, begun⟩, read⟩, fun _ => ⟨rfl, ?_⟩⟩⟩
    exact within.insert read
  · split
    · split
      · rename_i cached lastPub found
        refine ⟨trivial, fun instant : Nat => ?_⟩
        show Prog.Follows relay _ (if poolRefreshSecs * 1000 ≤ instant - lastPub then _ else _) _
        have known : cached ∈ γ.frames := within _ _ found
        by_cases old : poolRefreshSecs * 1000 ≤ instant - lastPub
        · rw [if_pos old]
          refine ⟨⟨⟨appId, begun, rfl⟩, known⟩, fun _ => ⟨trivial, fun later : Nat => ⟨rfl, ?_⟩⟩⟩
          exact within.insert known
        · rw [if_neg old]
          exact ⟨rfl, within⟩
      · exact ⟨rfl, within⟩
    · exact ⟨rfl, within⟩

theorem forwardFrames_relays (frames : Nat) {cache : PoolCache} (begun : γ.appId = some appId) (within : cache.Within γ.frames) :
    (forwardFrames (streamTopic appId) cache frames).Follows relay (fun _ γ' => γ'.appId = some appId) γ := by
  induction frames generalizing γ cache with
  | zero => exact begun
  | succ frames ih =>
    unfold forwardFrames
    refine (readFrame_relays begun).bind fun read γ' past => ?_
    cases read with
    | none => exact past.appId
    | some payload =>
      have read : payload ∈ γ'.frames := past.frames payload (List.mem_cons_self ..)
      have still : cache.Within γ'.frames := fun pool entry found =>
        past.frames entry.1 (List.mem_cons_of_mem payload (within pool entry found))
      refine (cacheFrame_relays past.appId read still).bind fun cache' γ'' kept => ?_
      obtain ⟨rfl, within'⟩ := kept
      exact ⟨⟨⟨appId, past.appId, rfl⟩, read⟩, fun _ => ih past.appId within'⟩

theorem connectTo_relays (sock : String) (tries : Nat) (begun : γ.appId = some appId) :
    (connectTo sock tries).Follows relay (fun _ γ' => γ'.appId = some appId) γ := by
  induction tries with
  | zero => exact begun
  | succ tries ih =>
    refine ⟨trivial, fun connected : Except String Unit => ?_⟩
    cases connected with
    | ok _ => exact begun
    | error e => exact ⟨trivial, fun _ => ih⟩

theorem forwardConnections_relays (sock : String) (rounds : List (Nat × Nat)) (begun : γ.appId = some appId) :
    (forwardConnections (streamTopic appId) sock rounds).Follows relay (fun _ _ => True) γ := by
  induction rounds generalizing γ with
  | nil => trivial
  | cons round rounds ih =>
    refine (connectTo_relays sock round.1 begun).bind fun connected γ' begun' => ?_
    cases connected with
    | false => trivial
    | true =>
      refine (forwardFrames_relays round.2 begun' (PoolCache.within_empty _)).bind fun broken γ'' begun'' => ?_
      cases broken with
      | false => trivial
      | true => exact ⟨trivial, fun _ => ⟨trivial, fun _ => ih begun''⟩⟩

theorem waylandForwarder_relays (rounds : List (Nat × Nat)) :
    (waylandForwarder rounds).Follows relay (fun _ _ => True) γ := by
  refine ⟨trivial, fun arguments : String × String => ⟨trivial, fun declared : Except String Unit => ?_⟩⟩
  cases declared with
  | error e => trivial
  | ok _ => exact ⟨⟨arguments.1, rfl, rfl⟩, fun _ => forwardConnections_relays arguments.2 rounds rfl⟩

end relay

section refresh
variable {topic : String}

theorem keepaliveTicks_refreshes (rounds : Nat) :
    (keepaliveTicks topic rounds).Follows refresh (fun _ _ => True) ⟨some topic, [], false⟩ := by
  induction rounds with
  | zero => trivial
  | succ rounds ih =>
    refine ⟨trivial, fun _ => ⟨trivial, fun cached : List Payload => ?_⟩⟩
    have publishes : (Prog.each (fun data => do let _ ← wire (.put topic data)) cached).Follows refresh
        (fun _ γ => γ = ⟨some topic, cached, false⟩ ∧ ∀ data ∈ ([] : List Payload), data ∈ cached)
        ⟨some topic, cached, false⟩ := by
      refine Prog.Follows.each (I := fun data γ => γ = Refresh.mk (some topic) cached false ∧
        ∀ payload ∈ data, payload ∈ cached)
        ⟨rfl, fun _ member => member⟩ fun data rest γ inside => ?_
      obtain ⟨rfl, among⟩ := inside
      exact ⟨⟨rfl, among data (List.mem_cons_self ..), rfl⟩, fun _ => ⟨rfl, fun payload later =>
        among payload (List.mem_cons_of_mem data later)⟩⟩
    refine publishes.bind fun _ γ ended => ?_
    obtain ⟨rfl, _⟩ := ended
    exact ⟨trivial, fun _ => ih⟩

theorem timerKeepalive_refreshes (rounds : Nat) (γ : Refresh) :
    (timerKeepalive rounds).Follows refresh (fun _ _ => True) γ := by
  refine ⟨trivial, fun arguments : String × Nat => ⟨?_, fun declared : Except String Unit => ?_⟩⟩
  · exact Option.some_ne_none arguments.1
  · cases declared with
    | error e => trivial
    | ok _ => exact ⟨trivial, fun _ => ⟨trivial, fun _ => keepaliveTicks_refreshes rounds⟩⟩

end refresh

end Bsdos.Streams
