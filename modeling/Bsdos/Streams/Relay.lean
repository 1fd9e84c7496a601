import Bsdos.Streams.Forwarder

namespace Bsdos.Streams
open Effects

/-- What the forwarder takes a frame for. -/
def IsPoolData (frame : Payload) : Prop := evType frame = evPoolData ∧ 9 ≤ frame.length

def IsCommit (frame : Payload) : Prop := evType frame = evSurfaceCommit ∧ 13 ≤ frame.length

instance (frame : Payload) : Decidable (IsPoolData frame) := inferInstanceAs (Decidable (_ ∧ _))

instance (frame : Payload) : Decidable (IsCommit frame) := inferInstanceAs (Decidable (_ ∧ _))

/-- What an execution shows of the clock and of the topic. -/
inductive Seen
  | instant (t : Nat)
  | put (payload : Payload)
  deriving DecidableEq

def seen {W : Type} : Moment Wire W → Option Seen
  | ⟨_, .now, t⟩ => some (.instant t)
  | ⟨_, .put _ payload, _⟩ => some (.put payload)
  | _ => none

/-- What is done with the body of a frame. -/
def withBody (lenBytes : Payload) : Except String Payload → Wired (Option Payload)
  | .ok body => .ret (some (lenBytes ++ body))
  | .error _ => .ret none

def InRange (lenBytes : Payload) : Prop := (fromLeBytes lenBytes).toNat ≠ 0 ∧ (fromLeBytes lenBytes).toNat ≤ maxPayload

instance (lenBytes : Payload) : Decidable (InRange lenBytes) := inferInstanceAs (Decidable (_ ∧ _))

/-- What is done with the size of a frame. -/
def withSize : Option (Except String Payload) → Wired (Option Payload)
  | some (.ok lenBytes) =>
    if InRange lenBytes then .call (.readExact (fromLeBytes lenBytes).toNat) (withBody lenBytes) else .ret none
  | _ => .ret none

theorem readFrame_eq : readFrame = .call (.readTimeout 10 4) withSize := by
  refine congrArg (Prog.call (E := Wire) (.readTimeout 10 4)) (funext fun lenBytes : Option (Except String Payload) => ?_)
  rcases lenBytes with _ | e | lenBytes
  · rfl
  · rfl
  · show (if (fromLeBytes lenBytes).toNat = 0 ∨ maxPayload < (fromLeBytes lenBytes).toNat then _ else _) = _
    rw [withSize]
    by_cases fits : InRange lenBytes
    · obtain ⟨filled, small⟩ := fits
      rw [if_neg (by omega), if_pos ⟨filled, small⟩]
      refine congrArg (Prog.call (E := Wire) (.readExact _)) (funext fun body : Except String Payload => ?_)
      cases body <;> rfl
    · have wrong : (fromLeBytes lenBytes).toNat = 0 ∨ maxPayload < (fromLeBytes lenBytes).toNat := by
        unfold InRange at fits
        omega
      rw [if_pos wrong, if_neg fits]
      rfl

/-- What is done for a commit after the clock has been read. -/
def refreshPool (topic : String) (cache : PoolCache) (pool : UInt32) (cached : Payload) (lastPub t : Nat) : Wired PoolCache :=
  if poolRefreshSecs * 1000 ≤ t - lastPub then
    .call (.put topic cached) fun _ => .call .now fun t' : Nat => .ret (cache.insert pool (cached, t'))
  else .ret cache

section cases
variable {topic : String} {cache : PoolCache} {frame : Payload} {cached : Payload} {lastPub : Nat}

theorem cacheFrame_pool (pool : IsPoolData frame) : cacheFrame topic cache frame =
    .call .now fun t : Nat => .call (.cacheInsert (poolIdAt frame 5) frame) fun _ =>
      .ret (cache.insert (poolIdAt frame 5) (frame, t)) := if_pos pool

theorem IsCommit.not_pool (commit : IsCommit frame) : ¬ IsPoolData frame := fun pool =>
  absurd (pool.1.symm.trans commit.1) (by decide)

theorem cacheFrame_known (commit : IsCommit frame) (known : cache.lookup (poolIdAt frame 9) = some (cached, lastPub)) :
    cacheFrame topic cache frame = .call .now (refreshPool topic cache (poolIdAt frame 9) cached lastPub) := by
  have whole : cacheFrame topic cache frame = _ := (if_neg commit.not_pool).trans (if_pos commit)
  rw [known] at whole
  exact whole

theorem cacheFrame_pass (other : ¬ IsPoolData frame) (unknown : IsCommit frame → cache.lookup (poolIdAt frame 9) = none) :
    cacheFrame topic cache frame = .ret cache := by
  by_cases commit : IsCommit frame
  · have whole : cacheFrame topic cache frame = _ := (if_neg other).trans (if_pos commit)
    rw [unknown commit] at whole
    exact whole
  · exact (if_neg other).trans (if_neg commit)

theorem refreshPool_cases (topic : String) (cache : PoolCache) (pool : UInt32) (cached : Payload) (lastPub t : Nat) :
    (poolRefreshSecs * 1000 ≤ t - lastPub ∧ refreshPool topic cache pool cached lastPub t =
      .call (.put topic cached) fun _ => .call .now fun t' : Nat => .ret (cache.insert pool (cached, t'))) ∨
    ¬ poolRefreshSecs * 1000 ≤ t - lastPub ∧ refreshPool topic cache pool cached lastPub t = .ret cache := by
  by_cases due : poolRefreshSecs * 1000 ≤ t - lastPub
  · exact .inl ⟨due, if_pos due⟩
  · exact .inr ⟨due, if_neg due⟩

end cases

/-- What is seen while a frame is handled, before it is published itself, and the frames
cached then. -/
inductive Handles (cache : PoolCache) (frame : Payload) : List Seen → PoolCache → Prop
  | pool (t : Nat) : IsPoolData frame →
      Handles cache frame [.instant t] (cache.insert (poolIdAt frame 5) (frame, t))
  | again (cached : Payload) (lastPub t t' : Nat) : IsCommit frame →
      cache.lookup (poolIdAt frame 9) = some (cached, lastPub) → poolRefreshSecs * 1000 ≤ t - lastPub →
      Handles cache frame [.instant t, .put cached, .instant t'] (cache.insert (poolIdAt frame 9) (cached, t'))
  | early (cached : Payload) (lastPub t : Nat) : IsCommit frame →
      cache.lookup (poolIdAt frame 9) = some (cached, lastPub) → ¬ poolRefreshSecs * 1000 ≤ t - lastPub →
      Handles cache frame [.instant t] cache
  | pass : ¬ IsPoolData frame → (IsCommit frame → cache.lookup (poolIdAt frame 9) = none) → Handles cache frame [] cache

/-- The shared cache after a frame has been handled. -/
def shared (frame : Payload) (entries : List (UInt32 × Payload)) : List (UInt32 × Payload) :=
  if IsPoolData frame then (poolIdAt frame 5, frame) :: entries.filter fun e => e.1 ≠ poolIdAt frame 5 else entries

section
variable {topic : String} {cache cache' : PoolCache} {frame : Payload}

theorem cacheFrame_handles {A W : Type} {S : System Wire A W} {a : A} {w w' : W} {moments : List (Moment Wire W)}
    (exec : Exec S a (cacheFrame topic cache frame) w moments cache' w') :
    Handles cache frame (moments.filterMap seen) cache' := by
  by_cases pool : IsPoolData frame
  · rw [cacheFrame_pool pool] at exec
    obtain ⟨t, _, _, rfl, _, _, _, rfl, rfl, rfl, _⟩ := exec
    exact .pool t pool
  · by_cases unknown : IsCommit frame → cache.lookup (poolIdAt frame 9) = none
    · rw [cacheFrame_pass pool unknown] at exec
      obtain ⟨rfl, rfl, _⟩ := exec
      exact .pass pool unknown
    · obtain ⟨commit, found⟩ := Classical.not_imp.mp unknown
      obtain ⟨⟨cached, lastPub⟩, known⟩ := Option.ne_none_iff_exists'.mp found
      rw [cacheFrame_known commit known] at exec
      obtain ⟨t, rest, _, rfl, exec⟩ := exec
      rcases refreshPool_cases topic cache (poolIdAt frame 9) cached lastPub t with ⟨due, same⟩ | ⟨due, same⟩
      · rw [same] at exec
        obtain ⟨_, _, _, rfl, t', _, _, rfl, rfl, rfl, _⟩ := exec
        exact .again cached lastPub t t' commit known due
      · rw [same] at exec
        obtain ⟨rfl, rfl, _⟩ := exec
        exact .early cached lastPub t commit known due

variable {h : TaskHandle} {y y' : Yard} {moments : List (Moment Wire Yard)}

theorem cacheFrame_shared (exec : Exec wires (.forwarder h) (cacheFrame topic cache frame) y moments cache' y') :
    y'.caches h = shared frame (y.caches h) := by
  by_cases pool : IsPoolData frame
  · rw [cacheFrame_pool pool] at exec
    obtain ⟨t, _, _, rfl, _, _, _, rfl, rfl, rfl, rfl⟩ := exec
    rw [shared, if_pos pool]
    exact Function.update_self ..
  · rw [shared, if_neg pool]
    by_cases unknown : IsCommit frame → cache.lookup (poolIdAt frame 9) = none
    · rw [cacheFrame_pass pool unknown] at exec
      obtain ⟨rfl, rfl, rfl⟩ := exec
      rfl
    · obtain ⟨commit, found⟩ := Classical.not_imp.mp unknown
      obtain ⟨⟨cached, lastPub⟩, known⟩ := Option.ne_none_iff_exists'.mp found
      rw [cacheFrame_known commit known] at exec
      obtain ⟨t, rest, _, rfl, exec⟩ := exec
      rcases refreshPool_cases topic cache (poolIdAt frame 9) cached lastPub t with ⟨due, same⟩ | ⟨due, same⟩
      · rw [same] at exec
        obtain ⟨_, _, _, rfl, t', _, _, rfl, rfl, rfl, rfl⟩ := exec
        rfl
      · rw [same] at exec
        obtain ⟨rfl, rfl, rfl⟩ := exec
        rfl

/-- A frame can be handled with the clock at any time, while the shared cache is free. -/
theorem cacheFrame_possible (topic : String) (cache : PoolCache) (frame : Payload) (t : Nat) (free : y.locked h = false) :
    ∃ moments cache' y', Exec wires (.forwarder h) (cacheFrame topic cache frame) y moments cache' y' ∧
      y'.locked h = false ∧ ∀ t', Seen.instant t' ∈ moments.filterMap seen → t' = t := by
  by_cases pool : IsPoolData frame
  · have may : wires.may (.forwarder h) y (.cacheInsert (poolIdAt frame 5) frame) () = true := by
      rw [show wires.may (.forwarder h) y (.cacheInsert (poolIdAt frame 5) frame) () = !y.locked h from rfl, free]
      rfl
    rw [cacheFrame_pool pool]
    exact ⟨_, _, _, ⟨t, _, rfl, rfl, (), _, may, rfl, rfl, rfl, rfl⟩, free, by simp [seen]⟩
  · by_cases unknown : IsCommit frame → cache.lookup (poolIdAt frame 9) = none
    · rw [cacheFrame_pass pool unknown]
      exact ⟨_, _, _, ⟨rfl, rfl, rfl⟩, free, by simp⟩
    · obtain ⟨commit, found⟩ := Classical.not_imp.mp unknown
      obtain ⟨⟨cached, lastPub⟩, known⟩ := Option.ne_none_iff_exists'.mp found
      rw [cacheFrame_known commit known]
      rcases refreshPool_cases topic cache (poolIdAt frame 9) cached lastPub t with ⟨_, same⟩ | ⟨_, same⟩
      · have later : Exec wires (.forwarder h) (refreshPool topic cache (poolIdAt frame 9) cached lastPub t) y
            [⟨y, .put topic cached, .ok ()⟩, ⟨y, .now, t⟩] (cache.insert (poolIdAt frame 9) (cached, t)) y := by
          rw [same]
          exact ⟨.ok (), _, rfl, rfl, t, _, rfl, rfl, rfl, rfl, rfl⟩
        exact ⟨_, _, _, ⟨t, _, rfl, rfl, later⟩, free, by simp [seen]⟩
      · have later : Exec wires (.forwarder h) (refreshPool topic cache (poolIdAt frame 9) cached lastPub t) y [] cache y := by
          rw [same]
          exact ⟨rfl, rfl, rfl⟩
        exact ⟨_, _, _, ⟨t, _, rfl, rfl, later⟩, free, by simp [seen]⟩

/-- One round of the loop: the next frame is read, handled and published, or the connection breaks. -/
theorem forwardFrames_round {A W : Type} {S : System Wire A W} {a : A} {w w' : W} {moments : List (Moment Wire W)}
    {broken : Bool} {rounds : Nat} (exec : Exec S a (forwardFrames topic cache (rounds + 1)) w moments broken w') :
    (Exec S a readFrame w moments none w' ∧ broken = true) ∨
    ∃ reading frame u handling cache' v publishing r x rest, Exec S a readFrame w reading (some frame) u ∧
      Exec S a (cacheFrame topic cache frame) u handling cache' v ∧
      Exec S a (wire (.put topic frame)) v publishing r x ∧
      Exec S a (forwardFrames topic cache' rounds) x rest broken w' ∧
      moments = reading ++ (handling ++ (publishing ++ rest)) := by
  obtain ⟨reading, read, u, after, reads, handled, rfl⟩ := exec_bind.mp exec
  cases read with
  | none =>
    obtain ⟨rfl, rfl, rfl⟩ := handled
    exact .inl ⟨by rwa [List.append_nil], rfl⟩
  | some frame =>
    obtain ⟨handling, cache', v, later, handles, published, rfl⟩ := exec_bind.mp handled
    obtain ⟨publishing, r, x, rest, publishes, forwards, rfl⟩ := exec_bind.mp published
    exact .inr ⟨reading, frame, u, handling, cache', v, publishing, r, x, rest, reads, handles, publishes, forwards, rfl⟩

end

end Bsdos.Streams
