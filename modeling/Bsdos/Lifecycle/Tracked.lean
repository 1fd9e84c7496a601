import Bsdos.Lifecycle.Signals
import Bsdos.Lifecycle.Restore

namespace Bsdos.Lifecycle
open Effects

/-- The signal with which a task whose operation is on the jail has just reached it. A
jail found without processes has taken the signal at once. -/
def reached (jail : String) (γ : Sweep) (e : Event Daemon Actor) : Option Sig :=
  match γ.call with
  | some call =>
    if call.jail = jail then
      match e with
      | ⟨_, .kill _ sig, .ok ()⟩ => some sig
      | ⟨_, .jailPids _, .ok []⟩ => some call.signal
      | _ => none
    else none
  | none => none

/-- The last signal the jail was sent, and by whom. -/
def lastSignal (jail : String) : List (Event Daemon Actor) → Option (Actor × Sig)
  | [] => none
  | e :: history =>
    match reached jail (sweepOf e.actor history) e with
    | some sig => some (e.actor, sig)
    | none => lastSignal jail history

/-- A task is at an operation on the jail. -/
def Sweep.On (γ : Sweep) (jail : String) : Prop := ∃ call, γ.call = some call ∧ call.jail = jail

/-- The operation of the task has reached the jail, and still has to track the outcome. -/
structure Sweep.Pending (γ : Sweep) (jail : String) : Prop where
  on : γ.On jail
  listed : γ.listed = true
  untracked : γ.tracked = false

/-- On the jail there are freezes and thaws only, and every signal to a process of it gets through. -/
def delivering (jail : String) {policy : LifecyclePolicy} (c : Config Daemon Actor World) : Label (lifecycled policy) → Prop
  | .act ⟨_, .note (.invoked call), _⟩ => call.jail = jail → call.prompt = true
  | .act ⟨a, .kill _ _, .error _⟩ => ¬ (sweepOf a c.history).On jail
  | _ => True

/-- An operation tracks its outcome only if the last signal to the jail was its own kind, or
comes from an operation that still has to track its own. -/
def current (jail : String) {policy : LifecyclePolicy} (c : Config Daemon Actor World) : Label (lifecycled policy) → Prop
  | .act ⟨b, .statesInsert id _, _⟩ => id = jail → ∀ a sig, lastSignal jail c.history = some (a, sig) →
      ∀ call, (sweepOf b c.history).call = some call →
        sig = call.signal ∨ a ≠ b ∧ (sweepOf a c.history).Pending jail
  | _ => True

/-- The tracked state is the one the last signal left the jail in, or its sender still has to track it. -/
structure Matched (jail : String) (c : Config Daemon Actor World) : Prop where
  prompt : ∀ a call, (sweepOf a c.history).call = some call → call.jail = jail → call.prompt = true
  entry : ∀ a sig, lastSignal jail c.history = some (a, sig) → (sweepOf a c.history).Pending jail ∨
    ∃ call : Call, call.prompt = true ∧ sig = call.signal ∧ c.world.states.lookup jail = some call.target

section steps
variable {jail : String} {γ : Sweep} {a : Actor} {op : Op} {r : op.Ret} {sig : Sig}

/-- Where processes are left to signal they have been listed, and nothing tracked since. -/
theorem sweepOf_left (a : Actor) (history : List (Event Daemon Actor)) : (sweepOf a history).left ≠ none →
    (sweepOf a history).listed = true ∧ (sweepOf a history).tracked = false := by
  induction history with
  | nil => exact fun left => absurd rfl left
  | cons e history ih =>
    by_cases own : e.actor = a
    · obtain ⟨b, op, r⟩ := e
      cases own
      have moved : sweepOf b (⟨b, op, r⟩ :: history) = sweep.next (sweepOf b history) op r := Protocol.state_own ..
      rw [moved]
      cases op with
      | note n => cases n <;> exact fun left => absurd rfl left
      | jidByName name => cases r <;> exact fun left => absurd rfl left
      | jailPids jid =>
        cases r with
        | ok pids => exact fun _ => ⟨rfl, rfl⟩
        | error e => exact fun left => absurd rfl left
      | kill pid sig =>
        intro left
        refine ih fun none => left ?_
        show (sweepOf b history).left.map List.tail = Option.none
        rw [none, Option.map_none]
      | _ => exact fun left => absurd rfl left
    · have same : sweepOf a (e :: history) = sweepOf a history := Protocol.state_other _ _ _ own _
      rw [same]
      exact ih

/-- A task that has just reached the jail has its outcome to track. -/
theorem pending_of_reached (allowed : sweep.allows γ op)
    (listed : γ.left ≠ none → γ.listed = true ∧ γ.tracked = false)
    (hit : reached jail γ ⟨a, op, r⟩ = some sig) : (sweep.next γ op r).Pending jail := by
  unfold reached at hit
  split at hit
  · rename_i call inside
    split at hit
    · rename_i on
      cases op with
      | kill pid sig' =>
        obtain ⟨_, _, pids, _, _, left, _⟩ := allowed
        obtain ⟨listed, untracked⟩ := listed (by simp [left])
        exact ⟨⟨call, inside, on⟩, listed, untracked⟩
      | jailPids jid =>
        cases r with
        | error e => cases hit
        | ok pids => exact ⟨⟨call, inside, on⟩, rfl, rfl⟩
      | _ => cases hit
    · cases hit
  · cases hit

/-- An operation that has reached the jail goes on to track its outcome. -/
theorem Sweep.Pending.next (h : γ.Pending jail) (allowed : sweep.allows γ op)
    (prompt : ∀ call, γ.call = some call → call.jail = jail → call.prompt = true)
    (open' : ∀ id state, op ≠ .statesInsert id state) : (sweep.next γ op r).Pending jail := by
  obtain ⟨⟨call, inside, on⟩, listed, untracked⟩ := h
  cases op with
  | note n =>
    cases n with
    | invoked c =>
      have idle : γ.call = none := allowed
      simp [idle] at inside
    | returned c ok =>
      obtain ⟨here, tracks⟩ := allowed
      cases Option.some.inj (inside.symm.trans here)
      have tracked := tracks (prompt call inside on) listed
      simp [untracked] at tracked
    | _ => exact ⟨⟨call, inside, on⟩, listed, untracked⟩
  | jidByName name => cases r <;> exact ⟨⟨call, inside, on⟩, listed, untracked⟩
  | jailPids jid =>
    cases r with
    | ok pids => exact ⟨⟨call, inside, on⟩, rfl, rfl⟩
    | error e => exact ⟨⟨call, inside, on⟩, listed, untracked⟩
  | statesInsert id state => exact absurd rfl (open' id state)
  | _ => exact ⟨⟨call, inside, on⟩, listed, untracked⟩

theorem lastSignal_reached {history : List (Event Daemon Actor)} {e : Event Daemon Actor}
    (hit : reached jail (sweepOf e.actor history) e = some sig) : lastSignal jail (e :: history) = some (e.actor, sig) := by
  simp only [lastSignal, hit]

theorem lastSignal_other {history : List (Event Daemon Actor)} {e : Event Daemon Actor}
    (missed : reached jail (sweepOf e.actor history) e = none) : lastSignal jail (e :: history) = lastSignal jail history := by
  simp only [lastSignal, missed]

end steps

section runs
variable {policy : LifecyclePolicy} {jail : String} {w : World} {c : Config Daemon Actor World}

/-- Runs in which every signal to the jail gets through and no outcome is tracked late. -/
def inOrder (jail : String) (policy : LifecyclePolicy) (c : Config Daemon Actor World) (l : Label (lifecycled policy)) : Prop :=
  delivering jail c l ∧ current jail c l

theorem matched_prompt {a : Actor} {op : Op} {r : op.Ret} (h : Matched jail c)
    (delivers : delivering jail c (.act ⟨a, op, r⟩ : Label (lifecycled policy))) :
    ∀ b call, (sweepOf b (⟨a, op, r⟩ :: c.history)).call = some call → call.jail = jail → call.prompt = true := by
  intro b call inside on
  by_cases own : a = b
  · subst own
    have moved : sweepOf a (⟨a, op, r⟩ :: c.history) = sweep.next (sweepOf a c.history) op r := Protocol.state_own ..
    rw [moved] at inside
    have kept : (sweepOf a c.history).call = some call → call.prompt = true := fun inside => h.prompt a call inside on
    cases op with
    | note n =>
      cases n with
      | invoked c => cases inside; exact delivers on
      | returned c ok => cases inside
      | _ => exact kept inside
    | jidByName name => cases r <;> exact kept inside
    | jailPids jid => cases r <;> exact kept inside
    | _ => exact kept inside
  · have same : sweepOf b (⟨a, op, r⟩ :: c.history) = sweepOf b c.history := Protocol.state_other _ _ _ own _
    exact h.prompt b call (same ▸ inside) on

theorem matched_act {a : Actor} {op : Op} {r : op.Ret} (h : Matched jail c) (allowed : sweep.allows (sweepOf a c.history) op)
    (ordered : inOrder jail policy c (.act ⟨a, op, r⟩)) {running : Actor → Option (Task Unit)} :
    Matched jail ⟨c.world.after op r, ⟨a, op, r⟩ :: c.history, running⟩ := by
  refine ⟨matched_prompt h ordered.1, fun b sig last => ?_⟩
  have own : sweepOf a (⟨a, op, r⟩ :: c.history) = sweep.next (sweepOf a c.history) op r := Protocol.state_own ..
  cases hit : reached jail (sweepOf a c.history) ⟨a, op, r⟩ with
  | some sig' =>
    cases (lastSignal_reached hit).symm.trans last
    exact .inl (own ▸ pending_of_reached allowed (sweepOf_left a c.history) hit)
  | none =>
    rw [lastSignal_other hit] at last
    have other (b : Actor) (pending : (sweepOf b c.history).Pending jail) (different : b ≠ a) :
        (sweepOf b (⟨a, op, r⟩ :: c.history)).Pending jail := by
      have same : sweepOf b (⟨a, op, r⟩ :: c.history) = sweepOf b c.history :=
        Protocol.state_other _ _ _ different.symm _
      exact same ▸ pending
    by_cases write : ∃ state, op = .statesInsert jail state
    · obtain ⟨state, rfl⟩ := write
      obtain ⟨call, inside, here, rfl⟩ := allowed
      rcases ordered.2 rfl b sig last call inside with same | ⟨different, pending⟩
      · refine .inr ⟨call, h.prompt a call inside here.symm, same, ?_⟩
        exact Finmap.lookup_insert ..
      · exact .inl (other b pending different)
    · have entry : (c.world.after op r).states.lookup jail = c.world.states.lookup jail := by
        rcases World.after_states c.world op r with same | ⟨id, state, rfl, inserted⟩
        · rw [same]
        · rw [inserted]
          exact Finmap.lookup_insert_of_ne _ fun same => write ⟨state, same ▸ rfl⟩
      rcases h.entry b sig last with pending | ⟨call, prompt, kind, tracked⟩
      · by_cases same : b = a
        · subst same
          refine .inl (own ▸ pending.next allowed (h.prompt b) fun id state insert => ?_)
          subst insert
          obtain ⟨call, inside, here, _⟩ := allowed
          obtain ⟨call', inside', on⟩ := pending.on
          cases Option.some.inj (inside.symm.trans inside')
          exact write ⟨state, by rw [here, on]⟩
        · exact .inl (other b pending same)
      · exact .inr ⟨call, prompt, kind, entry.trans tracked⟩

theorem reach_matched (reach : Reach (lifecycled policy) (inOrder jail policy) (Config.idle w) c) : Matched jail c := by
  induction reach with
  | start => exact ⟨fun _ _ inside => (nomatch inside), fun _ _ last => nomatch last⟩
  | @next c l c' previous step ordered h =>
    cases step with
    | @act a op next r at_work may =>
      exact matched_act h ((reach_sweeps previous (a := a)).allows (Step.act (S := lifecycled policy) at_work may)) ordered
    | env moved =>
      refine ⟨h.prompt, fun a sig last => ?_⟩
      rw [(World.change_maps moved).1]
      exact h.entry a sig last
    | _ => exact ⟨h.prompt, h.entry⟩

/-- Where no freeze or thaw tracks its outcome late, the jail is tracked as frozen between
the commands exactly if the last signal it was sent is a stop. -/
theorem tracked_matches_signals {sender : Actor} {sig : Sig}
    (reach : Reach (lifecycled policy) (inOrder jail policy) (Config.idle w) c)
    (quiescent : ∀ a, ¬ (sweepOf a c.history).On jail) (last : lastSignal jail c.history = some (sender, sig)) :
    c.world.states.lookup jail = some .frozen ↔ sig = .stop := by
  rcases (reach_matched reach).entry sender sig last with pending | ⟨call, prompt, rfl, tracked⟩
  · exact absurd pending.on (quiescent sender)
  · rw [tracked]
    cases call with
    | freeze jail => exact ⟨fun _ => rfl, fun _ => rfl⟩
    | thaw jail => exact ⟨fun wrong => (nomatch wrong), fun wrong => nomatch wrong⟩
    | _ => cases prompt

/-- The calls of a freeze or a thaw of a jail of one process, up to its signal. -/
def signalled (c : Call) : List ((op : Op) × op.Ret) :=
  [⟨.note (.invoked c), ()⟩, ⟨.jidByName "app", .ok 1⟩, ⟨.jailPids 1, .ok [10]⟩, ⟨.kill 10 c.signal, .ok ()⟩]

/-- Its calls after that. -/
def answered (c : Call) (reply : String) : List ((op : Op) × op.Ret) :=
  [⟨.statesInsert "app" c.target, ()⟩, ⟨.note (.returned c true), ()⟩, ⟨.reply reply, ()⟩]

/-- A freeze, served at once. -/
def freezeServed (policy : LifecyclePolicy) : List (Label (lifecycled policy)) :=
  serving (lifecycled policy) (.conn 0) (.line "FREEZE app")
    (signalled (.freeze "app") ++ answered (.freeze "app") "+OK frozen jail=app procs=1\n")

/-- A thaw whose signal goes out before a freeze is served, and which answers after it. -/
def lateThaw (policy : LifecyclePolicy) : List (Label (lifecycled policy)) :=
  .begin (.conn 1) (.line "THAW app") :: calling (lifecycled policy) (.conn 1) (signalled (.thaw "app")) ++
    freezeServed policy ++ calling (lifecycled policy) (.conn 1) (answered (.thaw "app") "+OK thawed jail=app procs=1\n") ++
    [.finish (.conn 1)]

/-- Only freezes and thaws are called, and every signal gets through. -/
def through (_ : Config Daemon Actor World) : Label (lifecycled policy) → Bool
  | .act ⟨_, .note (.invoked call), _⟩ => call.prompt
  | .act ⟨_, .kill _ _, .error _⟩ => false
  | _ => true

theorem delivering_of_through {l : Label (lifecycled policy)} (sent : through c l = true) : delivering jail c l := by
  cases l with
  | act e =>
    obtain ⟨b, op, r⟩ := e
    cases op with
    | note n =>
      cases n with
      | invoked call => exact fun _ => sent
      | _ => trivial
    | kill pid sig =>
      cases r with
      | error e => cases sent
      | ok u => trivial
    | _ => trivial
  | _ => trivial

/-- Every outcome is tracked after a signal of its own kind. -/
def sameKind (jail : String) (c : Config Daemon Actor World) : Label (lifecycled policy) → Bool
  | .act ⟨b, .statesInsert _ _, _⟩ => (lastSignal jail c.history).all fun last =>
      (sweepOf b c.history).call.all fun call => last.2 = call.signal
  | _ => true

theorem current_of_sameKind {l : Label (lifecycled policy)} (same : sameKind jail c l = true) : current jail c l := by
  unfold current
  split
  · intro _ a sig last call inside
    simp only [sameKind, last, inside, Option.all_some, decide_eq_true_eq] at same
    exact .inl same
  · trivial

/-- An actor that no event of a run is by is at no operation. -/
theorem idle_absent {a : Actor} {history : List (Event Daemon Actor)} (absent : ∀ e ∈ history, e.actor ≠ a) :
    (sweepOf a history).call = none := by
  have fresh : sweepOf a history = .idle := Protocol.state_absent sweep Sweep.idle a absent
  rw [fresh]
  rfl

/-- Nobody is at an operation when the tasks that have made calls are at none. -/
theorem quiescent_of_actors {history : List (Event Daemon Actor)} (actors : List Actor)
    (by_these : ∀ e ∈ history, e.actor ∈ actors) (idle : ∀ a ∈ actors, (sweepOf a history).call = none) (a : Actor) :
    ¬ (sweepOf a history).On jail := by
  rintro ⟨call, inside, _⟩
  by_cases one : a ∈ actors
  · simp [idle a one] at inside
  · have absent : (sweepOf a history).call = none := idle_absent fun e member same => one (same ▸ by_these e member)
    simp [absent] at inside

/-- A thaw and a freeze served together: the thaw tracks its outcome before the freeze sends its signal. -/
def promptThaw (policy : LifecyclePolicy) : List (Label (lifecycled policy)) :=
  let thawed := answered (.thaw "app") "+OK thawed jail=app procs=1\n"
  [.begin (.conn 1) (.line "THAW app"), .begin (.conn 0) (.line "FREEZE app")] ++
    calling (lifecycled policy) (.conn 1) ((signalled (.thaw "app")).take 3) ++
    calling (lifecycled policy) (.conn 0) ((signalled (.freeze "app")).take 3) ++
    calling (lifecycled policy) (.conn 1) ((signalled (.thaw "app")).drop 3 ++ thawed.take 1) ++
    calling (lifecycled policy) (.conn 0) ((signalled (.freeze "app")).drop 3) ++
    calling (lifecycled policy) (.conn 1) (thawed.drop 1) ++
    calling (lifecycled policy) (.conn 0) (answered (.freeze "app") "+OK frozen jail=app procs=1\n") ++
    [.finish (.conn 1), .finish (.conn 0)]

theorem tracked_matches_signals_both : ∃ c : Config Daemon Actor World,
    lastSignal "app" c.history = some (.conn 0, .stop) ∧
    (c.world.states.lookup "app" = some .frozen ↔ Sig.stop = .stop) := by
  obtain ⟨c, reach, checked⟩ := replay_check (fun c l => through c l && sameKind "app" c l)
    (fun _ _ good => (Bool.and_eq_true_iff.mp good).imp delivering_of_through current_of_sameKind)
    (Config.idle oneJail) (promptThaw (.forPlatform false))
    (fun c => (lastSignal "app" c.history = some (.conn 0, .stop) ∧ ∀ e ∈ c.history, e.actor ∈ [Actor.conn 0, .conn 1]) ∧
      ∀ a ∈ [Actor.conn 0, .conn 1], (sweepOf a c.history).call = none) (by decide +kernel)
  obtain ⟨⟨last, actors⟩, idle⟩ := of_decide_eq_true checked
  exact ⟨c, last, tracked_matches_signals reach (quiescent_of_actors _ actors idle) last⟩

/-- A thaw that tracks its outcome late leaves a stopped jail tracked as running. -/
theorem stopped_tracked_running : ∃ c : Config Daemon Actor World,
    Reach (lifecycled (.forPlatform false)) (delivering "app") (Config.idle oneJail) c ∧
    (∀ a, ¬ (sweepOf a c.history).On "app") ∧ lastSignal "app" c.history = some (.conn 0, .stop) ∧
    c.world.procs = [⟨10, 1, true⟩] ∧ c.world.states.lookup "app" = some .running := by
  obtain ⟨c, reach, checked⟩ := replay_check through
    (fun c l sent => (delivering_of_through sent : delivering "app" c l))
    (Config.idle oneJail) (lateThaw (.forPlatform false))
    (fun c => ((lastSignal "app" c.history = some (.conn 0, .stop) ∧ ∀ e ∈ c.history, e.actor ∈ [Actor.conn 0, .conn 1]) ∧
      ∀ a ∈ [Actor.conn 0, .conn 1], (sweepOf a c.history).call = none) ∧
      c.world.procs = [⟨10, 1, true⟩] ∧ c.world.states.lookup "app" = some .running) (by decide +kernel)
  obtain ⟨⟨⟨last, actors⟩, idle⟩, stopped, running⟩ := of_decide_eq_true checked
  exact ⟨c, reach, quiescent_of_actors _ actors idle, last, stopped, running⟩

end runs

end Bsdos.Lifecycle
