import Bsdos.Streams.Publishing
import Bsdos.Streams.Stopped

namespace Bsdos.Streams
open Effects

/-- The forwarder that the last start of the stream has spawned, unless the stream has been
stopped since. -/
def current (x : String) : Log → Option TaskHandle
  | [] => none
  | ⟨_, .inl (.spawnTask .forwarder appId _), handle⟩ :: log => if appId = x then some handle else current x log
  | ⟨_, .inl (.note (.returned (.stop appId) true)), _⟩ :: log => if appId = x then none else current x log
  | _ :: log => current x log

/-- Whatever has been published for the stream was published while it was not stopped, by
the tasks of its current instance, out of the frames that this instance has read. -/
def Silent (x : String) : Log → Prop
  | [] => True
  | e :: log =>
    (∀ worker payload, e.actor = .inr worker → e.op = .inr (.put (streamTopic x) payload) →
      current x log = some worker.handle ∧ payload ∈ framesRead log worker.handle) ∧ Silent x log

theorem silent_cons {x : String} {e : Event (Host.sum Wire) (Actor ⊕ Worker)} {log : Log} :
    Silent x (e :: log) ↔ (∀ worker payload, e.actor = .inr worker → e.op = .inr (.put (streamTopic x) payload) →
      current x log = some worker.handle ∧ payload ∈ framesRead log worker.handle) ∧ Silent x log := Iff.rfl

/-- The task is a forwarder of the stream. -/
def Yard.Forwards (y : Yard) (x : String) (handle : TaskHandle) : Prop := (y.forwarders handle).map Prod.fst = some x

/-- No two instances of the stream at a time: its forwarder is spawned when none of the
stream is in the map or in another task's hand, and no start is dropped with one in hand. A
forwarder is aborted when its cache is empty, or its keepalive task has given up, and an
aborted forwarder is not resumed. -/
def quiet (x : String) (c : Streaming) : Label streamed → Prop
  | .act ⟨.inl a, .inl (.spawnTask .forwarder appId _), _⟩ =>
    appId = x → x ∉ c.world.1.streams ∧ ∀ b, b ≠ a → handOf x c.history b = .empty
  | .act ⟨.inl _, .inl (.abort handle), _⟩ =>
    c.world.2.Forwards x handle → c.world.2.caches handle = [] ∨ (refreshOf c.history handle).quit = true
  | .act ⟨.inr (.forwarder handle), _, _⟩ => c.world.2.Forwards x handle → c.world.2.aborted handle = false
  | .drop (.inl a) => handOf x c.history a = .empty
  | _ => True

theorem streamTopic_inj {appId other : String} (same : streamTopic appId = streamTopic other) : appId = other := by
  have chars := congrArg String.toList same
  simp only [streamTopic, String.toList_append] at chars
  exact String.toList_inj.mp (List.append_cancel_left (List.append_cancel_right chars))

section states
variable {log : Log} {a b : Actor} {h h' : TaskHandle} {op : (Host.sum Wire).Op} {r : (Host.sum Wire).Ret op}
  {wop : WireOp} {wr : wop.Ret}

theorem relayOf_own : relayOf (⟨.inr (.forwarder h), .inr wop, wr⟩ :: log) h = relay.next (relayOf log h) wop wr :=
  Protocol.state_own ..

theorem relayOf_other {actor : Actor ⊕ Worker} (other : actor ≠ .inr (.forwarder h)) :
    relayOf (⟨actor, op, r⟩ :: log) h = relayOf log h := Protocol.state_other _ _ _ other log

theorem refreshOf_own : refreshOf (⟨.inr (.keepalive h), .inr wop, wr⟩ :: log) h = refresh.next (refreshOf log h) wop wr :=
  Protocol.state_own ..

theorem refreshOf_other {actor : Actor ⊕ Worker} (other : actor ≠ .inr (.keepalive h)) :
    refreshOf (⟨actor, op, r⟩ :: log) h = refreshOf log h := Protocol.state_other _ _ _ other log

/-- What a forwarder has read it has read for good. -/
theorem framesRead_grows (e : Event (Host.sum Wire) (Actor ⊕ Worker)) {payload : Payload}
    (read : payload ∈ framesRead log h) : payload ∈ framesRead (e :: log) h := by
  obtain ⟨actor, op, r⟩ := e
  by_cases own : actor = .inr (.forwarder h)
  · subst own
    cases op with
    | inl op => exact (show framesRead (⟨.inr (.forwarder h), .inl op, r⟩ :: log) h = _ from
        congrArg Relay.frames (Protocol.state_own ..)) ▸ read
    | inr op =>
      unfold framesRead
      rw [relayOf_own]
      cases op with
      | readTimeout _ _ =>
        rcases r with _ | e | bytes
        · exact read
        · exact read
        · exact read
      | readExact _ =>
        rcases r with e | bytes
        · exact read
        · exact List.mem_cons_of_mem _ read
      | _ => exact read
  · unfold framesRead
    rw [relayOf_other own]
    exact read

end states

/-- What the log says of the tasks is true of them: a forwarder that has started has the
arguments it was spawned with, and its keepalive task its topic; what is cached is what the
forwarder has read, and a keepalive task publishes what is cached. -/
structure Plumbed (w : World) (y : Yard) (log : Log) : Prop where
  spawned : ∀ h, y.forwarders h ≠ none → h < w.tasks
  relayed : ∀ h appId, (relayOf log h).appId = some appId → y.entered h = true ∧ y.Forwards appId h
  topics : ∀ h topic secs, y.keepalives h = some (topic, secs) → ∃ appId, y.Forwards appId h ∧ topic = streamTopic appId
  refreshed : ∀ h topic, (refreshOf log h).topic = some topic →
    y.awake h = true ∧ ∃ appId, y.Forwards appId h ∧ topic = streamTopic appId
  quits : ∀ h, (refreshOf log h).quit = true → (refreshOf log h).topic ≠ none
  cached : ∀ h entry, entry ∈ y.caches h → y.forwarders h ≠ none ∧ entry.2 ∈ framesRead log h
  left : ∀ h payload, payload ∈ (refreshOf log h).left → y.locked h = true ∧ ∃ pool, (pool, payload) ∈ y.caches h

section plumbed
variable {w : World} {y : Yard} {log : Log} {a : Actor} {h : TaskHandle}

theorem Plumbed.empty (registry : File) : Plumbed (.fresh registry) .empty [] where
  spawned _ known := absurd rfl known
  relayed _ _ named := nomatch named
  topics _ _ _ known := nomatch known
  refreshed _ _ named := nomatch named
  quits _ gone := nomatch gone
  cached _ _ member := absurd member List.not_mem_nil
  left _ _ member := absurd member List.not_mem_nil

/-- A task of the manager spawns forwarders under fresh handles. -/
theorem Plumbed.manager {op : Op} {r : op.Ret} (plumbed : Plumbed w y log) (may : w.may a op r = true) :
    Plumbed (w.after a op r) (yard.sees y a w op r) (⟨.inl a, .inl op, r⟩ :: log) := by
  have relays (h : TaskHandle) : relayOf (⟨.inl a, .inl op, r⟩ :: log) h = relayOf log h := relayOf_other (by simp)
  have refreshes (h : TaskHandle) : refreshOf (⟨.inl a, .inl op, r⟩ :: log) h = refreshOf log h := refreshOf_other (by simp)
  have kept {w' : World} {y' : Yard} (spawned : ∀ h, y'.forwarders h ≠ none → h < w'.tasks)
      (more : ∀ h arguments, y.forwarders h = some arguments → y'.forwarders h = some arguments)
      (rest : y' = { y with forwarders := y'.forwarders, aborted := y'.aborted }) :
      Plumbed w' y' (⟨.inl a, .inl op, r⟩ :: log) := by
    have forwards (h : TaskHandle) (appId : String) (known : y.Forwards appId h) : y'.Forwards appId h := by
      obtain ⟨arguments, there, named⟩ := Option.map_eq_some_iff.mp known
      exact Option.map_eq_some_iff.mpr ⟨arguments, more h arguments there, named⟩
    refine ⟨spawned, fun h appId named => ?_, fun h topic secs known => ?_, fun h topic named => ?_, fun h gone => ?_,
      fun h entry member => ?_, fun h payload member => ?_⟩
    · rw [relays] at named
      obtain ⟨entered, known⟩ := plumbed.relayed h appId named
      rw [rest]
      exact ⟨entered, forwards h appId known⟩
    · rw [rest] at known
      obtain ⟨appId, there, same⟩ := plumbed.topics h topic secs known
      exact ⟨appId, forwards h appId there, same⟩
    · rw [refreshes] at named
      obtain ⟨awake, appId, there, same⟩ := plumbed.refreshed h topic named
      rw [rest]
      exact ⟨awake, appId, forwards h appId there, same⟩
    · rw [refreshes] at gone ⊢
      exact plumbed.quits h gone
    · rw [rest] at member
      obtain ⟨known, read⟩ := plumbed.cached h entry member
      obtain ⟨arguments, there⟩ := Option.ne_none_iff_exists'.mp known
      exact ⟨more h arguments there ▸ Option.some_ne_none _, framesRead_grows _ read⟩
    · rw [refreshes] at member
      rw [rest]
      exact plumbed.left h payload member
  have still (fresh : (w.after a op r).tasks = w.tasks) (y' : Yard) (same : y'.forwarders = y.forwarders)
      (rest : y' = { y with forwarders := y'.forwarders, aborted := y'.aborted }) :
      Plumbed (w.after a op r) y' (⟨.inl a, .inl op, r⟩ :: log) :=
    kept (fun h known => fresh ▸ plumbed.spawned h (same ▸ known)) (fun _ _ known => same ▸ known) rest
  cases op with
  | spawnTask kind appId path =>
    have grown (h : TaskHandle) (known : y.forwarders h ≠ none) : h < w.tasks + 1 :=
      Nat.lt_succ_of_lt (plumbed.spawned h known)
    cases kind with
    | forwarder =>
      have fresh := World.may_spawnTask may
      refine kept (fun h known => ?_) (fun h arguments known => ?_) rfl
      · by_cases new : h = r
        · exact (new.trans fresh) ▸ Nat.lt_succ_self w.tasks
        · exact grown h (by simpa only [yard, Function.update_of_ne new] using known)
      · have old : h ≠ r := by
          intro new
          have bound := plumbed.spawned h (known ▸ Option.some_ne_none _)
          exact Nat.lt_irrefl w.tasks ((new.trans fresh) ▸ bound)
        simpa only [yard, Function.update_of_ne old] using known
    | input | resize => exact kept grown (fun _ _ known => known) rfl
  | spawn _ _ _ | registryWriteTmp _ | registryRename => cases r <;> exact still rfl y rfl rfl
  | abort handle => exact still rfl _ rfl rfl
  | _ => exact still rfl y rfl rfl

/-- A forwarder starts with its own arguments, and caches what it has read. -/
theorem Plumbed.forwarder {op : WireOp} {r : op.Ret} (plumbed : Plumbed w y log)
    (allowed : relay.allows (relayOf log h) op) (may : y.may (.forwarder h) op r = true) :
    Plumbed w (y.after (.forwarder h) op r) (⟨.inr (.forwarder h), .inr op, r⟩ :: log) := by
  have refreshes (h' : TaskHandle) : refreshOf (⟨.inr (.forwarder h), .inr op, r⟩ :: log) h' = refreshOf log h' :=
    refreshOf_other (by simp)
  have known : (y.after (.forwarder h) op r).forwarders = y.forwarders := by
    cases op <;> rfl
  have awake : (y.after (.forwarder h) op r).awake = y.awake := by
    cases op <;> rfl
  refine ⟨fun h' there => plumbed.spawned h' (known ▸ there), fun h' appId named => ?_, fun h' topic secs there => ?_,
    fun h' topic named => ?_, fun h' gone => ?_, fun h' entry member => ?_, fun h' payload member => ?_⟩
  · unfold Yard.Forwards
    rw [known]
    by_cases own : h' = h
    · subst own
      rw [relayOf_own] at named
      cases op with
      | enter =>
        obtain ⟨_, there⟩ := Bool.and_eq_true_iff.mp may
        exact ⟨Function.update_self .., Option.map_eq_some_iff.mpr ⟨r, (of_decide_eq_true there).symm, Option.some.inj named⟩⟩
      | readTimeout _ _ => rcases r with _ | e | bytes <;> exact plumbed.relayed h' appId named
      | readExact _ => rcases r with e | bytes <;> exact plumbed.relayed h' appId named
      | _ => exact plumbed.relayed h' appId named
    · rw [relayOf_other (by simpa using Ne.symm own)] at named
      obtain ⟨entered, there⟩ := plumbed.relayed h' appId named
      refine ⟨?_, there⟩
      cases op with
      | enter => exact (Function.update_of_ne own ..).trans entered
      | _ => exact entered
  · unfold Yard.Forwards
    rw [known]
    cases op with
    | spawnKeepalive topic' secs' =>
      by_cases own : h' = h
      · subst own
        obtain ⟨appId, named, same⟩ := allowed
        have told : some (topic', secs') = some (topic, secs) := by
          simpa only [Yard.after, Function.update_self] using there
        cases told
        exact ⟨appId, (plumbed.relayed h' appId named).2, same⟩
      · exact plumbed.topics h' topic secs ((Function.update_of_ne own ..).symm.trans there)
    | _ => exact plumbed.topics h' topic secs there
  · rw [refreshes] at named
    unfold Yard.Forwards
    rw [known, awake]
    exact plumbed.refreshed h' topic named
  · rw [refreshes] at gone ⊢
    exact plumbed.quits h' gone
  · have old (member : entry ∈ y.caches h') : y.forwarders h' ≠ none ∧
        entry.2 ∈ framesRead (⟨.inr (.forwarder h), .inr op, r⟩ :: log) h' := by
      obtain ⟨there, read⟩ := plumbed.cached h' entry member
      exact ⟨there, framesRead_grows _ read⟩
    rw [known]
    cases op with
    | cacheInsert pool payload =>
      by_cases own : h' = h
      · subst own
        obtain ⟨⟨appId, named⟩, read⟩ := allowed
        have member : entry ∈ (pool, payload) :: (y.caches h').filter fun e => e.1 ≠ pool := by
          simpa only [Yard.after, Function.update_self] using member
        rcases List.mem_cons.mp member with rfl | earlier
        · obtain ⟨arguments, there, _⟩ := Option.map_eq_some_iff.mp (plumbed.relayed h' appId named).2
          exact ⟨there ▸ Option.some_ne_none _, framesRead_grows _ read⟩
        · exact old (List.mem_filter.mp earlier).1
      · exact old (by simpa only [Yard.after, Function.update_of_ne own] using member)
    | cacheClear =>
      by_cases own : h' = h
      · subst own
        simp [Yard.after] at member
      · exact old (by simpa only [Yard.after, Function.update_of_ne own] using member)
    | _ => exact old member
  · rw [refreshes] at member
    obtain ⟨locked, pool, there⟩ := plumbed.left h' payload member
    have other (unlocked : (!y.locked h) = true) : h' ≠ h := by
      rintro rfl
      rw [locked] at unlocked
      cases unlocked
    cases op with
    | cacheInsert _ _ =>
      refine ⟨locked, pool, ?_⟩
      show _ ∈ Function.update y.caches h _ h'
      rw [Function.update_of_ne (other may)]
      exact there
    | cacheClear =>
      refine ⟨locked, pool, ?_⟩
      show _ ∈ Function.update y.caches h _ h'
      rw [Function.update_of_ne (other may)]
      exact there
    | _ => exact ⟨locked, pool, there⟩

/-- A keepalive task starts with its own topic, and takes frames out of the cache only. -/
theorem Plumbed.keepalive {op : WireOp} {r : op.Ret} (plumbed : Plumbed w y log)
    (allowed : refresh.allows (refreshOf log h) op) (may : y.may (.keepalive h) op r = true) :
    Plumbed w (y.after (.keepalive h) op r) (⟨.inr (.keepalive h), .inr op, r⟩ :: log) := by
  have relays (h' : TaskHandle) : relayOf (⟨.inr (.keepalive h), .inr op, r⟩ :: log) h' = relayOf log h' :=
    relayOf_other (by simp)
  have same : (y.after (.keepalive h) op r).forwarders = y.forwarders ∧ (y.after (.keepalive h) op r).entered = y.entered ∧
      (y.after (.keepalive h) op r).keepalives = y.keepalives ∧ (y.after (.keepalive h) op r).caches = y.caches := by
    cases op <;> exact ⟨rfl, rfl, rfl, rfl⟩
  obtain ⟨forwarders, entered, keepalives, caches⟩ := same
  have others (h' : TaskHandle) (other : h' ≠ h) :
      refreshOf (⟨.inr (.keepalive h), .inr op, r⟩ :: log) h' = refreshOf log h' :=
    refreshOf_other (by simpa using Ne.symm other)
  have more (h' : TaskHandle) (awake : y.awake h' = true) : (y.after (.keepalive h) op r).awake h' = true := by
    cases op with
    | enterKeepalive =>
      by_cases own : h' = h
      · subst own
        exact Function.update_self ..
      · exact (Function.update_of_ne own ..).trans awake
    | _ => exact awake
  refine ⟨fun h' there => plumbed.spawned h' (forwarders ▸ there), fun h' appId named => ?_, fun h' topic secs there => ?_,
    fun h' topic named => ?_, fun h' gone => ?_, fun h' entry member => ?_, fun h' payload member => ?_⟩
  · rw [relays] at named
    unfold Yard.Forwards
    rw [forwarders, entered]
    exact plumbed.relayed h' appId named
  · unfold Yard.Forwards
    rw [forwarders]
    exact plumbed.topics h' topic secs (keepalives ▸ there)
  · unfold Yard.Forwards
    rw [forwarders]
    have old (named : (refreshOf log h').topic = some topic) : (y.after (.keepalive h) op r).awake h' = true ∧
        ∃ appId, (y.forwarders h').map Prod.fst = some appId ∧ topic = streamTopic appId := by
      obtain ⟨awake, there⟩ := plumbed.refreshed h' topic named
      exact ⟨more h' awake, there⟩
    by_cases own : h' = h
    · subst own
      rw [refreshOf_own] at named
      cases op with
      | enterKeepalive =>
        obtain ⟨_, there⟩ := Bool.and_eq_true_iff.mp may
        have told := of_decide_eq_true there
        obtain ⟨appId, forwards, topic'⟩ := plumbed.topics h' r.1 r.2 told.symm
        exact ⟨Function.update_self .., appId, forwards, Option.some.inj named ▸ topic'⟩
      | declarePublisher _ => cases r <;> exact old named
      | _ => exact old named
    · rw [others h' own] at named
      exact old named
  · by_cases own : h' = h
    · subst own
      rw [refreshOf_own] at gone ⊢
      cases op with
      | enterKeepalive => cases gone
      | declarePublisher _ =>
        cases r with
        | error e => exact allowed
        | ok _ => exact plumbed.quits h' gone
      | _ => exact plumbed.quits h' gone
    · rw [others h' own] at gone ⊢
      exact plumbed.quits h' gone
  · rw [forwarders]
    obtain ⟨there, read⟩ := plumbed.cached h' entry (caches ▸ member)
    exact ⟨there, framesRead_grows _ read⟩
  · rw [caches]
    by_cases own : h' = h
    · subst own
      rw [refreshOf_own] at member
      cases op with
      | enterKeepalive => exact absurd member List.not_mem_nil
      | declarePublisher _ => cases r <;> exact plumbed.left h' payload member
      | cacheLock =>
        obtain ⟨_, there⟩ := Bool.and_eq_true_iff.mp may
        obtain ⟨entry, cached, rfl⟩ := List.mem_map.mp ((List.isPerm_iff.mp there).mem_iff.mp member)
        exact ⟨Function.update_self .., entry.1, cached⟩
      | cacheUnlock => exact absurd member List.not_mem_nil
      | _ => exact plumbed.left h' payload member
    · rw [others h' own] at member
      obtain ⟨locked, there⟩ := plumbed.left h' payload member
      refine ⟨?_, there⟩
      cases op with
      | cacheLock | cacheUnlock => exact (Function.update_of_ne own ..).trans locked
      | _ => exact locked

end plumbed

/-- What is known of the stream in a quiet run: an aborted forwarder has left nothing to
publish, and any other one is of the current instance, which is in the map or in the one
task's hand that is not empty. -/
structure Tended (x : String) (w : World) (y : Yard) (log : Log) : Prop where
  silenced : ∀ h, y.Forwards x h → y.aborted h = true → y.caches h = [] ∨ (refreshOf log h).quit = true
  held : ∀ h, y.Forwards x h → y.aborted h = false → current x log = some h ∧
    ((∃ inst, w.streams.lookup x = some inst ∧ inst.forwarderHandle = h) ∨
      ∃ a, handOf x log a = .forked h ∨ ∃ aborted, handOf x log a = .taken h aborted)
  dropped : ∀ a h, handOf x log a = .taken h true → y.aborted h = true
  alone : ∀ a, handOf x log a ≠ .empty → w.streams.lookup x = none ∧ ∀ b, b ≠ a → handOf x log b = .empty

section tended
variable {x : String} {w : World} {y : Yard} {log : Log} {a : Actor} {h : TaskHandle}

theorem handOf_own {op : Op} {r : op.Ret} :
    handOf x (⟨.inl a, .inl op, r⟩ :: log) a = (tending x).next (handOf x log a) op r := Protocol.state_own ..

theorem handOf_other {op : (Host.sum Wire).Op} {r : (Host.sum Wire).Ret op} {actor : Actor ⊕ Worker}
    (other : actor ≠ .inl a) : handOf x (⟨actor, op, r⟩ :: log) a = handOf x log a := Protocol.state_other _ _ _ other log

theorem Tended.empty (registry : File) : Tended x (.fresh registry) .empty [] where
  silenced _ known := nomatch known
  held _ known := nomatch known
  dropped _ _ taken := nomatch taken
  alone _ full := absurd rfl full

/-- What leaves the forwarders of the stream, their holders and the map alone. -/
theorem Tended.frame {w' : World} {y' : Yard} {e : Event (Host.sum Wire) (Actor ⊕ Worker)} (tended : Tended x w y log)
    (hands : ∀ a, handOf x (e :: log) a = handOf x log a) (now : current x (e :: log) = current x log)
    (map : w'.streams.lookup x = w.streams.lookup x) (known : ∀ h, y'.Forwards x h → y.Forwards x h)
    (aborted : y'.aborted = y.aborted) (silenced : ∀ h, y.Forwards x h → y.aborted h = true →
      y'.caches h = [] ∨ (refreshOf (e :: log) h).quit = true) : Tended x w' y' (e :: log) := by
  refine ⟨fun h there gone => silenced h (known h there) (aborted ▸ gone), fun h there going => ?_,
    fun a h taken => ?_, fun a full => ?_⟩
  · obtain ⟨latest, holder⟩ := tended.held h (known h there) (aborted ▸ going)
    refine ⟨now.trans latest, ?_⟩
    simp only [map, hands]
    exact holder
  · rw [aborted]
    exact tended.dropped a h (hands a ▸ taken)
  · simp only [map, hands] at full ⊢
    exact tended.alone a full

section manager
variable {op : Op} {r : op.Ret}

/-- What the manager does gives no keepalive task anything to publish. -/
theorem Tended.still (tended : Tended x w y log) (there : y.Forwards x h) (aborted : y.aborted h = true) :
    y.caches h = [] ∨ (refreshOf (⟨.inl a, .inl op, r⟩ :: log) h).quit = true := by
  rw [refreshOf_other (by simp)]
  exact tended.silenced h there aborted

/-- A call that the stream's forwarders are not concerned by. -/
theorem Tended.aside (tended : Tended x w y log) (hand : (tending x).next (handOf x log a) op r = handOf x log a)
    (now : current x (⟨.inl a, .inl op, r⟩ :: log) = current x log)
    (map : (w.after a op r).streams.lookup x = w.streams.lookup x) :
    Tended x (w.after a op r) y (⟨.inl a, .inl op, r⟩ :: log) := by
  refine tended.frame (fun b => ?_) now map (fun _ there => there) rfl fun h there gone => tended.still there gone
  by_cases own : b = a
  · subst own
    exact handOf_own.trans hand
  · exact handOf_other (by simpa using Ne.symm own)

/-- With a full hand a task is the only one that can come by the stream's forwarder. -/
theorem Tended.only (tended : Tended x w y log) (full : handOf x log a ≠ .empty) (there : y.Forwards x h)
    (going : y.aborted h = false) : current x log = some h ∧ (handOf x log a = .forked h ∨
      ∃ aborted, handOf x log a = .taken h aborted) := by
  obtain ⟨latest, ⟨inst, known, _⟩ | ⟨b, holder⟩⟩ := tended.held h there going
  · exact nomatch ((tended.alone a full).1.symm.trans known)
  · by_cases own : b = a
    · subst own
      exact ⟨latest, holder⟩
    · rw [(tended.alone a full).2 b own] at holder
      rcases holder with forked | ⟨_, taken⟩
      · cases forked
      · cases taken

theorem Tended.fork {path : String} {handle : TaskHandle} (tended : Tended x w y log) (plumbed : Plumbed w y log)
    (empty : handOf x log a = .empty) (fresh : handle = w.tasks) (gone : x ∉ w.streams)
    (others : ∀ b, b ≠ a → handOf x log b = .empty) :
    Tended x (w.after a (.spawnTask .forwarder x path) handle)
      (yard.sees y a w (.spawnTask .forwarder x path) handle) (⟨.inl a, .inl (.spawnTask .forwarder x path), handle⟩ :: log) := by
  have absent : w.streams.lookup x = none := Finmap.lookup_eq_none.mpr gone
  have hands (b : Actor) : handOf x log b = .empty := by
    by_cases own : b = a
    · exact own ▸ empty
    · exact others b own
  have full : handOf x (⟨.inl a, .inl (.spawnTask .forwarder x path), handle⟩ :: log) a = .forked handle :=
    handOf_own.trans (if_pos rfl)
  have rest (b : Actor) (other : b ≠ a) :
      handOf x (⟨.inl a, .inl (.spawnTask .forwarder x path), handle⟩ :: log) b = .empty :=
    (handOf_other (by simpa using Ne.symm other)).trans (hands b)
  have unknown : y.forwarders handle = none := by
    by_contra known
    exact Nat.lt_irrefl w.tasks (fresh ▸ plumbed.spawned handle known)
  have old (h : TaskHandle) (new : h ≠ handle)
      (there : (yard.sees y a w (.spawnTask .forwarder x path) handle).Forwards x h) : y.Forwards x h := by
    simpa only [Yard.Forwards, yard, Function.update_of_ne new] using there
  have only (b : Actor)
      (some : handOf x (⟨.inl a, .inl (.spawnTask .forwarder x path), handle⟩ :: log) b ≠ .empty) : b = a := by
    by_contra other
    exact some (rest b other)
  refine ⟨fun h there aborted => ?_, fun h there going => ?_, fun b h taken => ?_,
    fun b some => ⟨absent, fun b' other => rest b' (only b some ▸ other)⟩⟩
  · by_cases new : h = handle
    · refine Or.inl (List.eq_nil_iff_forall_not_mem.mpr fun entry member => ?_)
      exact (plumbed.cached handle entry (new ▸ member)).1 unknown
    · exact tended.still (old h new there) aborted
  · by_cases new : h = handle
    · subst new
      exact ⟨if_pos rfl, Or.inr ⟨a, Or.inl full⟩⟩
    · obtain ⟨_, ⟨inst, known, _⟩ | ⟨b, holder⟩⟩ := tended.held h (old h new there) going
      · exact nomatch absent.symm.trans known
      · rw [hands b] at holder
        rcases holder with forked | ⟨_, taken⟩
        · cases forked
        · cases taken
  · by_cases own : b = a
    · rw [own, full] at taken
      cases taken
    · rw [rest b own] at taken
      cases taken

theorem Tended.forkOther {appId path : String} {handle : TaskHandle} (tended : Tended x w y log)
    (other : appId ≠ x) :
    Tended x (w.after a (.spawnTask .forwarder appId path) handle)
      (yard.sees y a w (.spawnTask .forwarder appId path) handle)
      (⟨.inl a, .inl (.spawnTask .forwarder appId path), handle⟩ :: log) := by
  have aside : Tended x (w.after a (.spawnTask .forwarder appId path) handle) y
      (⟨.inl a, .inl (.spawnTask .forwarder appId path), handle⟩ :: log) := tended.aside (if_neg other) (if_neg other) rfl
  have forwards (h : TaskHandle) (there : (yard.sees y a w (.spawnTask .forwarder appId path) handle).Forwards x h) :
      y.Forwards x h := by
    have there : (Function.update y.forwarders handle (some (appId, path)) h).map Prod.fst = some x := there
    by_cases new : h = handle
    · rw [new, Function.update_self] at there
      exact absurd (Option.some.inj there) other
    · rwa [Function.update_of_ne new] at there
  exact ⟨fun h there => aside.silenced h (forwards h there), fun h there => aside.held h (forwards h there),
    aside.dropped, aside.alone⟩

theorem Tended.insert {inst : StreamInstance} (tended : Tended x w y log)
    (forked : handOf x log a = .forked inst.forwarderHandle) :
    Tended x (w.after a (.streamsInsert x inst) ()) y (⟨.inl a, .inl (.streamsInsert x inst), ()⟩ :: log) := by
  have full : handOf x log a ≠ .empty := by
    rw [forked]
    exact fun wrong => nomatch wrong
  have hands (b : Actor) : handOf x (⟨.inl a, .inl (.streamsInsert x inst), ()⟩ :: log) b = .empty := by
    by_cases own : b = a
    · subst own
      exact handOf_own.trans (if_pos rfl)
    · exact (handOf_other (by simpa using Ne.symm own)).trans ((tended.alone a full).2 b own)
  refine ⟨fun h there aborted => ?_, fun h there going => ?_, fun b h taken => ?_, fun b some => absurd (hands b) some⟩
  · exact tended.still there aborted
  · obtain ⟨latest, holder⟩ := tended.only full there going
    rw [forked] at holder
    refine ⟨latest, Or.inl ⟨inst, Finmap.lookup_insert .., ?_⟩⟩
    rcases holder with same | ⟨_, taken⟩
    · exact Hand.forked.inj same
    · cases taken
  · rw [hands b] at taken
    cases taken

theorem Tended.remove {inst : StreamInstance} (tended : Tended x w y log) (known : w.streams.lookup x = some inst) :
    Tended x (w.after a (.streamsRemove x) (some inst)) y (⟨.inl a, .inl (.streamsRemove x), some inst⟩ :: log) := by
  have hands (b : Actor) : handOf x log b = .empty := by
    by_contra full
    exact nomatch (tended.alone b full).1.symm.trans known
  have full : handOf x (⟨.inl a, .inl (.streamsRemove x), some inst⟩ :: log) a = .taken inst.forwarderHandle false :=
    handOf_own.trans (if_pos rfl)
  have rest (b : Actor) (other : b ≠ a) : handOf x (⟨.inl a, .inl (.streamsRemove x), some inst⟩ :: log) b = .empty :=
    (handOf_other (by simpa using Ne.symm other)).trans (hands b)
  refine ⟨fun h there aborted => ?_, fun h there going => ?_, fun b h taken => ?_, fun b some => ?_⟩
  · exact tended.still there aborted
  · obtain ⟨latest, ⟨inst', there, same⟩ | ⟨b, holder⟩⟩ := tended.held h there going
    · cases Option.some.inj (there.symm.trans known)
      exact ⟨latest, Or.inr ⟨a, Or.inr ⟨false, same ▸ full⟩⟩⟩
    · rw [hands b] at holder
      rcases holder with forked | ⟨_, taken⟩
      · cases forked
      · cases taken
  · by_cases own : b = a
    · rw [own, full] at taken
      cases taken
    · rw [rest b own] at taken
      cases taken
  · have own : b = a := by
      by_contra other
      exact some (rest b other)
    exact ⟨Finmap.lookup_erase .., fun b' other => rest b' (own ▸ other)⟩

theorem Tended.abort {handle : TaskHandle} (tended : Tended x w y log)
    (silent : y.Forwards x handle → y.caches handle = [] ∨ (refreshOf log handle).quit = true) :
    Tended x w (yard.sees y a w (.abort handle) ()) (⟨.inl a, .inl (.abort handle), ()⟩ :: log) := by
  have refreshes (h : TaskHandle) : refreshOf (⟨.inl a, .inl (.abort handle), ()⟩ :: log) h = refreshOf log h :=
    refreshOf_other (by simp)
  have own : handOf x (⟨.inl a, .inl (.abort handle), ()⟩ :: log) a =
      (tending x).next (handOf x log a) (.abort handle) () := handOf_own
  have hands (b : Actor) : handOf x (⟨.inl a, .inl (.abort handle), ()⟩ :: log) b = handOf x log b ∨
      ∃ held aborted, handOf x log b = .taken held aborted ∧
        handOf x (⟨.inl a, .inl (.abort handle), ()⟩ :: log) b = .taken held (aborted || decide (handle = held)) := by
    by_cases same : b = a
    · subst same
      cases hand : handOf x log b with
      | empty => exact Or.inl (by rw [own, hand]; rfl)
      | forked _ => exact Or.inl (by rw [own, hand]; rfl)
      | taken held aborted => exact Or.inr ⟨held, aborted, rfl, by rw [own, hand]; rfl⟩
    · exact Or.inl (handOf_other (by simpa using Ne.symm same))
  have more (h : TaskHandle) (gone : y.aborted h = true) : (yard.sees y a w (.abort handle) ()).aborted h = true := by
    by_cases same : h = handle
    · subst same
      exact Function.update_self ..
    · exact (Function.update_of_ne same ..).trans gone
  have emptied (b : Actor) :
      handOf x (⟨.inl a, .inl (.abort handle), ()⟩ :: log) b = .empty ↔ handOf x log b = .empty := by
    rcases hands b with same | ⟨held, aborted, before, after⟩
    · rw [same]
    · rw [before, after]
      exact ⟨fun wrong => (nomatch wrong), fun wrong => (nomatch wrong)⟩
  refine ⟨fun h there gone => ?_, fun h there going => ?_, fun b h taken => ?_, fun b full => ?_⟩
  · rw [refreshes]
    by_cases same : h = handle
    · subst same
      exact silent there
    · exact tended.silenced h there ((Function.update_of_ne same ..).symm.trans gone)
  · have before : y.aborted h = false := by
      by_contra gone
      exact nomatch going.symm.trans (more h (by simpa using gone))
    obtain ⟨latest, holder⟩ := tended.held h there before
    refine ⟨latest, holder.imp_right fun ⟨b, holder⟩ => ⟨b, ?_⟩⟩
    rcases hands b with same | ⟨held, aborted, before, after⟩
    · rw [same]
      exact holder
    · rw [before] at holder
      rcases holder with forked | ⟨_, taken⟩
      · cases forked
      · cases taken
        exact Or.inr ⟨_, after⟩
  · rcases hands b with same | ⟨held, aborted, before, after⟩
    · exact more h (tended.dropped b h (same ▸ taken))
    · rw [after] at taken
      obtain ⟨rfl, dropped⟩ := Hand.taken.inj taken
      rcases Bool.or_eq_true_iff.mp dropped with earlier | now
      · exact more held (tended.dropped b held (earlier ▸ before))
      · rw [of_decide_eq_true now]
        exact Function.update_self ..
  · obtain ⟨absent, others⟩ := tended.alone b ((emptied b).not.mp full)
    exact ⟨absent, fun b' other => (emptied b').mpr (others b' other)⟩

/-- When a stop returns with success, no forwarder of the stream is left. -/
theorem Tended.stopped {handle : TaskHandle} (tended : Tended x w y log) (taken : handOf x log a = .taken handle true) :
    Tended x w y (⟨.inl a, .inl (.note (.returned (.stop x) true)), ()⟩ :: log) := by
  have full : handOf x log a ≠ .empty := by
    rw [taken]
    exact fun wrong => nomatch wrong
  have hands (b : Actor) : handOf x (⟨.inl a, .inl (.note (.returned (.stop x) true)), ()⟩ :: log) b = .empty := by
    by_cases own : b = a
    · subst own
      exact handOf_own.trans (if_pos rfl)
    · exact (handOf_other (by simpa using Ne.symm own)).trans ((tended.alone a full).2 b own)
  refine ⟨fun h there aborted => ?_, fun h there going => ?_, fun b h taken => ?_, fun b some => absurd (hands b) some⟩
  · exact tended.still there aborted
  · obtain ⟨_, holder⟩ := tended.only full there going
    rcases holder with forked | ⟨aborted, same⟩
    · cases taken.symm.trans forked
    · cases taken.symm.trans same
      exact nomatch (tended.dropped a _ taken).symm.trans going
  · rw [hands b] at taken
    cases taken

/-- A task of the manager, in a quiet run. -/
theorem Tended.manager (tended : Tended x w y log) (plumbed : Plumbed w y log)
    (allowed : (tending x).allows (handOf x log a) op) (may : w.may a op r = true)
    (forks : ∀ path, op = .spawnTask .forwarder x path → x ∉ w.streams ∧ ∀ b, b ≠ a → handOf x log b = .empty)
    (aborts : ∀ handle, op = .abort handle → y.Forwards x handle →
      y.caches handle = [] ∨ (refreshOf log handle).quit = true) :
    Tended x (w.after a op r) (yard.sees y a w op r) (⟨.inl a, .inl op, r⟩ :: log) := by
  cases op with
  | spawnTask kind appId path =>
    cases kind with
    | forwarder =>
      by_cases own : appId = x
      · subst own
        obtain ⟨gone, others⟩ := forks path rfl
        exact tended.fork plumbed (allowed rfl) (World.may_spawnTask may) gone others
      · exact tended.forkOther own
    | input | resize => exact tended.aside rfl rfl rfl
  | streamsInsert appId inst =>
    by_cases own : appId = x
    · subst own
      exact tended.insert (allowed rfl)
    · exact tended.aside (if_neg own) rfl (Finmap.lookup_insert_of_ne _ (Ne.symm own))
  | streamsRemove appId =>
    have known := (World.may_streamsRemove may).2
    by_cases own : appId = x
    · subst own
      cases r with
      | none =>
        refine tended.aside rfl rfl ?_
        exact (Finmap.lookup_erase ..).trans known
      | some inst => exact tended.remove known.symm
    · have map : (w.after a (.streamsRemove appId) r).streams.lookup x = w.streams.lookup x :=
        Finmap.lookup_erase_ne (Ne.symm own)
      cases r with
      | none => exact tended.aside rfl rfl map
      | some inst => exact tended.aside (if_neg own) rfl map
  | abort handle => exact tended.abort (aborts handle rfl)
  | note n =>
    cases n with
    | returned c ok =>
      cases c with
      | start _ => exact tended.aside rfl rfl rfl
      | stop appId =>
        cases ok with
        | false => exact tended.aside rfl rfl rfl
        | true =>
          by_cases own : appId = x
          · subst own
            obtain ⟨handle, taken⟩ := allowed rfl
            exact tended.stopped taken
          · exact tended.aside (if_neg own) (if_neg own) rfl
    | invoked _ | died _ | restarting _ => exact tended.aside rfl rfl rfl
  | spawn _ _ _ | registryWriteTmp _ | registryRename => cases r <;> exact tended.aside rfl rfl rfl
  | _ => exact tended.aside rfl rfl rfl

end manager

section worker
variable {op : WireOp} {r : op.Ret}

/-- A forwarder that is not aborted. -/
theorem Tended.forwarder (tended : Tended x w y log) (resumed : y.Forwards x h → y.aborted h = false) :
    Tended x w (y.after (.forwarder h) op r) (⟨.inr (.forwarder h), .inr op, r⟩ :: log) := by
  have known : (y.after (.forwarder h) op r).forwarders = y.forwarders := by
    cases op <;> rfl
  have aborted : (y.after (.forwarder h) op r).aborted = y.aborted := by
    cases op <;> rfl
  refine tended.frame (fun b => handOf_other (by simp)) rfl rfl (fun h' there => ?_) aborted fun h' there gone => ?_
  · simpa only [Yard.Forwards, known] using there
  · have other : h' ≠ h := by
      rintro rfl
      exact nomatch gone.symm.trans (resumed there)
    have caches : (y.after (.forwarder h) op r).caches h' = y.caches h' := by
      cases op with
      | cacheInsert _ _ | cacheClear => exact Function.update_of_ne other ..
      | _ => rfl
    rw [caches, refreshOf_other (by simp)]
    exact tended.silenced h' there gone

theorem Tended.keepalive (tended : Tended x w y log) (plumbed : Plumbed w y log) (may : y.may (.keepalive h) op r = true) :
    Tended x w (y.after (.keepalive h) op r) (⟨.inr (.keepalive h), .inr op, r⟩ :: log) := by
  have known : (y.after (.keepalive h) op r).forwarders = y.forwarders := by
    cases op <;> rfl
  have aborted : (y.after (.keepalive h) op r).aborted = y.aborted := by
    cases op <;> rfl
  have caches : (y.after (.keepalive h) op r).caches = y.caches := by
    cases op <;> rfl
  refine tended.frame (fun b => handOf_other (by simp)) rfl rfl (fun h' there => ?_) aborted fun h' there gone => ?_
  · simpa only [Yard.Forwards, known] using there
  · rw [caches]
    refine (tended.silenced h' there gone).imp_right fun quit => ?_
    by_cases own : h' = h
    · subst own
      rw [refreshOf_own]
      cases op with
      | enterKeepalive =>
        -- a task that has given up has started, and starts no second time
        obtain ⟨topic, named⟩ := Option.ne_none_iff_exists'.mp (plumbed.quits h' quit)
        obtain ⟨asleep, _⟩ := Bool.and_eq_true_iff.mp may
        simp [(plumbed.refreshed h' topic named).1] at asleep
      | declarePublisher _ =>
        cases r with
        | ok _ => exact quit
        | error _ => rfl
      | _ => exact quit
    · rw [refreshOf_other (by simpa using Ne.symm own)]
      exact quit

/-- What a task of an instance publishes for the stream in a quiet run. -/
theorem Tended.published {payload : Payload} (tended : Tended x w y log) (plumbed : Plumbed w y log) :
    (relay.allows (relayOf log h) (.put (streamTopic x) payload) → (y.Forwards x h → y.aborted h = false) →
      current x log = some h ∧ payload ∈ framesRead log h) ∧
    (refresh.allows (refreshOf log h) (.put (streamTopic x) payload) →
      current x log = some h ∧ payload ∈ framesRead log h) := by
  constructor
  · rintro ⟨⟨appId, named, topic⟩, read⟩ resumed
    have there := (plumbed.relayed h appId named).2
    rw [← streamTopic_inj topic] at there
    exact ⟨(tended.held h there (resumed there)).1, read⟩
  · rintro ⟨named, left, going⟩
    obtain ⟨_, appId, there, topic⟩ := plumbed.refreshed h _ named
    rw [← streamTopic_inj topic] at there
    obtain ⟨_, pool, cached⟩ := plumbed.left h payload left
    refine ⟨?_, (plumbed.cached h _ cached).2⟩
    cases aborted : y.aborted h with
    | false => exact (tended.held h there aborted).1
    | true =>
      rcases tended.silenced h there aborted with empty | quit
      · exact absurd (empty ▸ cached) List.not_mem_nil
      · exact nomatch going.symm.trans quit

end worker

end tended

section runs
variable {x : String} {registry : File} {c : Streaming}
  {ok : Streaming → Label streamed → Prop}

theorem reach_tends (reach : Reach streamed ok (.idle (.fresh registry, .empty)) c)
    (drops : ∀ c a, ok c (.drop (.inl a)) → handOf x c.history a = .empty) (a : Actor) :
    c.Conforms (tending x).inl .empty (fun γ => γ = .empty) (.inl a) :=
  Reach.conforms_inl (o := yard) (T := wires) reach rfl (fun _ _ served _ rest => serve_tends served rest)
    fun c _ admitted _ _ => drops c a admitted

theorem wireServe_relays {h : TaskHandle} {request : WireRequest} {program : Wired Unit}
    (served : wireServe (.forwarder h) request = some program) (γ : Relay) :
    program.Follows relay (fun _ _ => True) γ := by
  cases request with
  | forward rounds => exact Option.some.inj served ▸ waylandForwarder_relays rounds
  | refresh _ => cases served

theorem wireServe_refreshes {h : TaskHandle} {request : WireRequest} {program : Wired Unit}
    (served : wireServe (.keepalive h) request = some program) (γ : Refresh) :
    program.Follows refresh (fun _ _ => True) γ := by
  cases request with
  | forward _ => cases served
  | refresh rounds => exact Option.some.inj served ▸ timerKeepalive_refreshes rounds γ

theorem reach_relays (reach : Reach streamed ok (.idle (.fresh registry, .empty)) c) (h : TaskHandle) :
    c.Conforms relay.inr .idle (fun _ => True) (.inr (.forwarder h)) :=
  Reach.conforms_inr (S := manager) (o := yard) reach trivial (fun _ _ served γ _ => wireServe_relays served γ)
    fun _ _ _ _ _ => trivial

theorem reach_refreshes (reach : Reach streamed ok (.idle (.fresh registry, .empty)) c) (h : TaskHandle) :
    c.Conforms refresh.inr .idle (fun _ => True) (.inr (.keepalive h)) :=
  Reach.conforms_inr (S := manager) (o := yard) reach trivial (fun _ _ served γ _ => wireServe_refreshes served γ)
    fun _ _ _ _ _ => trivial

theorem reach_tended (reach : Reach streamed (quiet x) (.idle (.fresh registry, .empty)) c) :
    Plumbed c.world.1 c.world.2 c.history ∧ Tended x c.world.1 c.world.2 c.history ∧ Silent x c.history := by
  induction reach with
  | start => exact ⟨Plumbed.empty registry, Tended.empty registry, trivial⟩
  | @next c l c' reach step admitted ih =>
    obtain ⟨plumbed, tended, silent⟩ := ih
    cases step with
    | @act actor op next r at_work may =>
      rcases beside_cases may with ⟨a, rfl, op, rfl⟩ | ⟨worker, rfl, op, rfl⟩
      · have allowed := (reach_tends reach (fun _ _ empty => empty) a).allows (Step.act at_work may)
        refine ⟨plumbed.manager may, tended.manager plumbed allowed may (fun path fork => ?_) (fun handle aborts => ?_),
          silent_cons.mpr ⟨fun worker payload wrong => (nomatch wrong), silent⟩⟩
        · subst fork
          exact admitted rfl
        · subst aborts
          exact admitted
      · cases worker with
        | forwarder h =>
          have allowed := (reach_relays reach h).allows (Step.act at_work may)
          refine ⟨plumbed.forwarder allowed may, tended.forwarder admitted,
            silent_cons.mpr ⟨fun worker payload own puts => ?_, silent⟩⟩
          cases own
          cases puts
          exact (tended.published plumbed).1 allowed admitted
        | keepalive h =>
          have allowed := (reach_refreshes reach h).allows (Step.act at_work may)
          refine ⟨plumbed.keepalive allowed may, tended.keepalive plumbed may,
            silent_cons.mpr ⟨fun worker payload own puts => ?_, silent⟩⟩
          cases own
          cases puts
          exact (tended.published plumbed).2 allowed
    | @env change _ moved =>
      cases change with
      | inl change =>
        obtain ⟨w, there, rfl⟩ := Option.map_eq_some_iff.mp moved
        obtain ⟨exited, rfl⟩ := World.change_eq there
        exact ⟨⟨plumbed.spawned, plumbed.relayed, plumbed.topics, plumbed.refreshed, plumbed.quits, plumbed.cached,
          plumbed.left⟩, ⟨tended.silenced, tended.held, tended.dropped, tended.alone⟩, silent⟩
      | inr change => exact nomatch change
    | _ => exact ⟨plumbed, tended, silent⟩

/-- In a quiet run a stopped stream is silent, and a stream that was started again publishes
nothing of an earlier instance. -/
theorem stream_silent (reach : Reach streamed (quiet x) (.idle (.fresh registry, .empty)) c) : Silent x c.history :=
  (reach_tended reach).2.2

/-- Starts by one task alone, cleared caches and live forwarders make a quiet run. -/
def hushed (c : Streaming) : Label streamed → Bool
  | .act ⟨.inl a, .inl (.spawnTask .forwarder appId _), _⟩ =>
    decide (appId ∉ c.world.1.streams) && c.history.all fun e => e.actor = .inl a || e.actor.isRight
  | .act ⟨.inl _, .inl (.abort handle), _⟩ => (c.world.2.caches handle).isEmpty
  | .act ⟨.inr (.forwarder handle), _, _⟩ => !c.world.2.aborted handle
  | .drop (.inl _) => false
  | _ => true

theorem quiet_of_hushed (l : Label streamed) (hush : hushed c l = true) : quiet x c l := by
  cases l with
  | act e =>
    obtain ⟨actor, op, r⟩ := e
    rcases actor with a | worker
    · rcases op with op | op
      · cases op with
        | spawnTask kind appId path =>
          cases kind with
          | forwarder =>
            rintro rfl
            obtain ⟨gone, alone⟩ := Bool.and_eq_true_iff.mp hush
            refine ⟨of_decide_eq_true gone, fun b other => Protocol.state_absent _ _ _ fun e member own => ?_⟩
            have party := List.all_eq_true.mp alone e member
            simp [own, other] at party
          | input | resize => trivial
        | abort handle => exact fun _ => Or.inl (List.isEmpty_iff.mp hush)
        | _ => trivial
      · trivial
    · cases worker with
      | forwarder h => exact fun _ => by simpa [hushed] using hush
      | keepalive h => trivial
  | drop actor =>
    cases actor with
    | inl a => cases hush
    | inr worker => trivial
  | _ => trivial

/-- A frame with the data of pool 1. -/
def poolFrame : Payload := [5, 0, 0, 0, 3, 1, 0, 0, 0]

def footSock : String := rundirFor foot.appId ++ "/wayland-stream.sock"

/-- The calls of a forwarder that connects and publishes one frame of pool data. -/
def forwarding : List ((op : WireOp) × op.Ret) :=
  let topic := streamTopic foot.appId
  [⟨.enter, ((foot.appId, footSock) : String × String)⟩, ⟨.declarePublisher topic, (.ok () : Except String Unit)⟩,
    ⟨.spawnKeepalive topic timerKeepaliveSecs, ()⟩, ⟨.connect footSock, (.ok () : Except String Unit)⟩,
    ⟨.readTimeout 10 4, (some (.ok [5, 0, 0, 0]) : Option (Except String Payload))⟩,
    ⟨.readExact 5, (.ok [3, 1, 0, 0, 0] : Except String Payload)⟩, ⟨.now, (0 : Nat)⟩,
    ⟨.cacheInsert 1 poolFrame, ()⟩, ⟨.put topic poolFrame, (.ok () : Except String Unit)⟩]

/-- The calls with which its connection times out. -/
def disconnecting : List ((op : WireOp) × op.Ret) :=
  [⟨.readTimeout 10 4, (none : Option (Except String Payload))⟩, ⟨.cacheClear, ()⟩, ⟨.sleep 1000, ()⟩]

/-- The calls of a keepalive task, up to its second tick. -/
def waking : List ((op : WireOp) × op.Ret) :=
  let topic := streamTopic foot.appId
  [⟨.enterKeepalive, ((topic, timerKeepaliveSecs) : String × Nat)⟩,
    ⟨.declarePublisher topic, (.ok () : Except String Unit)⟩, ⟨.interval timerKeepaliveSecs, ()⟩, ⟨.tick, ()⟩]

def managing (schedule : List (Label manager)) : List (Label streamed) := schedule.map (Label.inl yard wires)

def wiring (schedule : List (Label wires)) : List (Label streamed) := schedule.map (Label.inr manager yard)

/-- A start of the stream, with the next three processes and tasks. -/
def startFoot (first : Nat) : List (Label streamed) :=
  managing (serving manager .ctl (.start foot) (checking foot false ++ spawning foot first ++ registering foot first first []))

def stopFoot : List (Label streamed) :=
  managing (serving manager .ctl (.stop foot.appId) (stopping foot (footInstance foot 0 0)))

/-- The connection breaks before the stream is stopped and started again. -/
theorem stream_silent_restarted : ∃ c : Streaming, current foot.appId c.history = some 3 ∧ poolFrame ∈ framesRead c.history 3 ∧
    Silent foot.appId c.history := by
  obtain ⟨c, reach, checked⟩ := replay_check (S := streamed) hushed (fun c l => quiet_of_hushed (x := foot.appId) l)
    (.idle (.fresh .missing, .empty))
    (startFoot 0 ++ wiring (.begin (.forwarder 0) (.forward [(1, 2)]) :: calling wires (.forwarder 0) (forwarding ++ disconnecting)) ++
      stopFoot ++ startFoot 3 ++ wiring (.begin (.forwarder 3) (.forward [(1, 2)]) :: calling wires (.forwarder 3) forwarding))
    (fun c => current foot.appId c.history = some 3 && poolFrame ∈ framesRead c.history 3) (by decide +kernel)
  obtain ⟨now, read⟩ := Bool.and_eq_true_iff.mp checked
  exact ⟨c, of_decide_eq_true now, of_decide_eq_true read, stream_silent reach⟩

/-- A run that ends with something published that should not have been, and with this instance of the stream. -/
theorem replay_loud (schedule : List (Label streamed)) (worker : Worker) (payload : Payload) (x : String)
    (now : Option TaskHandle)
    (run : (replay (fun _ _ => true) (.idle (.fresh .missing, .empty)) schedule).any (fun c =>
      decide (current x c.history = now ∧ (now = some worker.handle → payload ∉ framesRead c.history worker.handle)) &&
        (c.fire (S := streamed) (.act ⟨.inr worker, .inr (.put (streamTopic x) payload), (.ok () : Except String Unit)⟩)).isSome) = true) :
    ∃ c, Reach streamed (anyStep _) (.idle (.fresh .missing, .empty)) c ∧ current x c.history = now ∧ ¬ Silent x c.history := by
  obtain ⟨c, replayed, checked⟩ := (Option.any_eq_true _ _).mp run
  obtain ⟨foreign, fires⟩ := Bool.and_eq_true_iff.mp checked
  obtain ⟨instance_now, foreign⟩ := of_decide_eq_true foreign
  obtain ⟨c', fired⟩ := Option.isSome_iff_exists.mp fires
  have reach : Reach streamed (anyStep _) (.idle (.fresh .missing, .empty)) c :=
    replay_reach (fun _ _ _ => trivial) replayed
  have step := Config.fire_step fired
  refine ⟨c', reach.next step trivial, ?_⟩
  cases step with
  | act at_work may =>
    refine ⟨instance_now, fun silent => ?_⟩
    obtain ⟨own, read⟩ := (silent_cons.mp silent).1 worker payload rfl rfl
    exact foreign (instance_now.symm.trans own) read

/-- The forwarder is aborted while it waits for the next frame; the keepalive task it has
spawned goes on and publishes what it has left in the cache. So it does when the stream has been started again. -/
theorem stopped_stream_speaks :
    (∃ c, Reach streamed (anyStep _) (.idle (.fresh .missing, .empty)) c ∧ current foot.appId c.history = none ∧
      ¬ Silent foot.appId c.history) ∧
    ∃ c, Reach streamed (anyStep _) (.idle (.fresh .missing, .empty)) c ∧ current foot.appId c.history = some 3 ∧
      ¬ Silent foot.appId c.history := by
  constructor
  · exact replay_loud
      (startFoot 0 ++ wiring (.begin (.forwarder 0) (.forward [(1, 2)]) :: calling wires (.forwarder 0) forwarding ++
        .begin (.keepalive 0) (.refresh 1) :: calling wires (.keepalive 0) waking) ++ stopFoot ++
        wiring (.drop (.forwarder 0) :: calling wires (.keepalive 0) [⟨.tick, ()⟩, ⟨.cacheLock, ([poolFrame] : List Payload)⟩]))
      (.keepalive 0) poolFrame foot.appId none (by decide)
  · exact replay_loud
      (startFoot 0 ++ wiring (.begin (.forwarder 0) (.forward [(1, 2)]) :: calling wires (.forwarder 0) forwarding ++
        .begin (.keepalive 0) (.refresh 1) :: calling wires (.keepalive 0) waking) ++ stopFoot ++ startFoot 3 ++
        wiring (.drop (.forwarder 0) :: calling wires (.keepalive 0) [⟨.tick, ()⟩, ⟨.cacheLock, ([poolFrame] : List Payload)⟩]))
      (.keepalive 0) poolFrame foot.appId (some 3) (by decide)

end runs

end Bsdos.Streams
