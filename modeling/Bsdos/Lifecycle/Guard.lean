import Bsdos.Lifecycle.Eviction
import Bsdos.Effects.Observe
import Mathlib.Data.List.TakeWhile

namespace Bsdos.Lifecycle
open Effects

/-- The MEM_GUARD commands given so far, newest first: when, and whether it was an `off`. -/
abbrev GuardLog := List (Nat × Bool)

def guardLog (policy : LifecyclePolicy) : Observer (lifecycled policy) GuardLog where
  sees given _ w op _ :=
    match op with
    | .guardStore disabled => (w.clock, disabled) :: given
    | _ => given
  feels given _ _ := given

/-- At time `t` an `off` holds: one of those given since the last `on`, less than
300 s ago. -/
def OffHolds (given : GuardLog) (t : Nat) : Prop := ∃ s, (s, true) ∈ given.takeWhile Prod.snd ∧ t < s + 300

instance (given : GuardLog) (t : Nat) : Decidable (OffHolds given t) :=
  decidable_of_iff (∃ e ∈ given.takeWhile Prod.snd, t < e.1 + 300) ⟨by
    rintro ⟨⟨s, disabled⟩, member, recent⟩
    have set : disabled = true := List.mem_takeWhile_imp member
    exact ⟨s, set ▸ member, recent⟩, fun ⟨s, member, recent⟩ => ⟨(s, true), member, recent⟩⟩

/-- Between an `off` and the spawning of its timer. -/
def arming : Protocol Daemon Bool where
  next γ
    | .guardStore true, _ => true
    | .spawnGuardTimer, _ => false
    | _, _ => γ
  allows _ _ := True

/-- Every task that has given an `off` has spawned the timer of it. -/
def Armed (history : List (Event Daemon Actor)) : Prop :=
  ∀ e ∈ history, arming.state false e.actor history = false

instance (history : List (Event Daemon Actor)) : Decidable (Armed history) :=
  inferInstanceAs (Decidable (∀ e ∈ history, _))

theorem Armed.all {history : List (Event Daemon Actor)} (armed : Armed history) (a : Actor) :
    arming.state false a history = false := by
  by_cases seen : ∃ e ∈ history, e.actor = a
  · obtain ⟨e, member, rfl⟩ := seen
    exact armed e member
  · refine Protocol.state_absent arming false a fun e member same => seen ⟨e, member, same⟩

/-- The flag, the timers and the clock are changed by MEM_GUARD commands only. -/
theorem World.after_guard (w : World) (op : Op) (r : op.Ret) :
    (∃ disabled, op = .guardStore disabled) ∨ op = .spawnGuardTimer ∨
      ((w.after op r).memGuardDisabled = w.memGuardDisabled ∧ (w.after op r).timers = w.timers ∧
        (w.after op r).clock = w.clock ∧ (∀ γ, arming.next γ op r = γ) ∧
        ∀ policy given a, (guardLog policy).sees given a w op r = given) := by
  cases op with
  | guardStore disabled => exact Or.inl ⟨disabled, rfl⟩
  | spawnGuardTimer => exact Or.inr (Or.inl rfl)
  | kill pid sig => cases r <;> exact Or.inr (Or.inr ⟨rfl, rfl, rfl, fun _ => rfl, fun _ _ _ => rfl⟩)
  | _ => exact Or.inr (Or.inr ⟨rfl, rfl, rfl, fun _ => rfl, fun _ _ _ => rfl⟩)

section runs
variable {policy : LifecyclePolicy} {w : World} {c c' : Config Daemon Actor (World × GuardLog)}

/-- Timers fire at their deadlines: time passes only as far as the next deadline, and
not between an `off` and the spawning of its timer. -/
def punctual (c : Config Daemon Actor (World × GuardLog)) : Label ((lifecycled policy).observed (guardLog policy)) → Bool
  | .env (.pass seconds) => decide (Armed c.history ∧ ∀ d ∈ c.world.1.timers, c.world.1.clock + seconds ≤ d)
  | _ => true

/-- When a timer fires, the newest command is no `off` but the one the timer is for. -/
def ownTimer (c : Config Daemon Actor (World × GuardLog)) : Label ((lifecycled policy).observed (guardLog policy)) → Bool
  | .env (.guardTimer deadline) => c.world.2.head?.all fun newest => !newest.2 || deadline = newest.1 + 300
  | _ => true

/-- The flag is set by the newest command only, and while it is set the timer of that
command is running or about to be. -/
structure Guarded (c : Config Daemon Actor (World × GuardLog)) : Prop where
  past : ∀ e ∈ c.world.2, e.1 ≤ c.world.1.clock
  ordered : c.world.2.Pairwise fun newer older => older.1 ≤ newer.1
  disabled : c.world.1.memGuardDisabled = true → ∃ s, c.world.2.head? = some (s, true)
  kept : ∀ s, c.world.2.head? = some (s, true) → c.world.1.memGuardDisabled = true ∨ s + 300 ≤ c.world.1.clock
  backed : ∀ s, c.world.2.head? = some (s, true) → c.world.1.memGuardDisabled = true →
    s + 300 ∈ c.world.1.timers ∨ (c.world.1.clock = s ∧ ∃ a, arming.state false a c.history = true)

theorem guarded_idle (started : w.Started) : Guarded (Config.idle (w, [])) where
  past := by simp [Config.idle]
  ordered := .nil
  disabled set := by simp [Config.idle, started.guard] at set
  kept _ none := nomatch none
  backed _ none := nomatch none

/-- What leaves the flag, the timers, the clock, the log and the arming alone keeps the guard. -/
theorem Guarded.of_eq (h : Guarded c) (flag : c'.world.1.memGuardDisabled = c.world.1.memGuardDisabled)
    (timers : c'.world.1.timers = c.world.1.timers) (clock : c'.world.1.clock = c.world.1.clock)
    (given : c'.world.2 = c.world.2)
    (arm : ∀ a, arming.state false a c'.history = arming.state false a c.history) : Guarded c' where
  past := by rw [given, clock]; exact h.past
  ordered := by rw [given]; exact h.ordered
  disabled := by rw [given, flag]; exact h.disabled
  kept := by rw [given, flag, clock]; exact h.kept
  backed := by
    simp only [given, flag, clock, timers, arm]
    exact h.backed

/-- A command sets the flag to what it says. -/
theorem Guarded.command (h : Guarded c) (disabled : Bool)
    (flag : c'.world.1.memGuardDisabled = disabled) (clock : c'.world.1.clock = c.world.1.clock)
    (given : c'.world.2 = (c.world.1.clock, disabled) :: c.world.2)
    (arm : disabled = true → ∃ a, arming.state false a c'.history = true) : Guarded c' where
  past := by
    rw [given, clock]
    intro e member
    rcases List.mem_cons.mp member with rfl | old
    · exact Nat.le_refl _
    · exact h.past e old
  ordered := by
    rw [given]
    exact .cons h.past h.ordered
  disabled set := ⟨c.world.1.clock, by rw [given, ← flag, set]; rfl⟩
  kept s newest := by
    simp only [given, List.head?_cons, Option.some.injEq, Prod.mk.injEq] at newest
    exact Or.inl (flag.trans newest.2)
  backed s newest _ := by
    simp only [given, List.head?_cons, Option.some.injEq, Prod.mk.injEq] at newest
    exact Or.inr ⟨clock.trans newest.1, arm newest.2⟩

theorem Guarded.spawned (h : Guarded c) (flag : c'.world.1.memGuardDisabled = c.world.1.memGuardDisabled)
    (timers : c'.world.1.timers = (c.world.1.clock + 300) :: c.world.1.timers)
    (clock : c'.world.1.clock = c.world.1.clock) (given : c'.world.2 = c.world.2) : Guarded c' where
  past := by rw [given, clock]; exact h.past
  ordered := by rw [given]; exact h.ordered
  disabled := by rw [given, flag]; exact h.disabled
  kept := by rw [given, flag, clock]; exact h.kept
  backed s newest set := by
    rw [timers]
    rcases h.backed s (given ▸ newest) (flag ▸ set) with running | ⟨now, _⟩
    · exact Or.inl (List.mem_cons_of_mem _ running)
    · rw [now]
      exact Or.inl (List.mem_cons_self ..)

/-- Time passes up to the next deadline. -/
theorem Guarded.passed (h : Guarded c) (seconds : Nat) (armed : Armed c.history) :
    Guarded { c with world := ({ c.world.1 with clock := c.world.1.clock + seconds }, c.world.2) } where
  past e member := Nat.le_trans (h.past e member) (Nat.le_add_right ..)
  ordered := h.ordered
  disabled := h.disabled
  kept s newest := (h.kept s newest).imp_right fun past => Nat.le_trans past (Nat.le_add_right ..)
  backed s newest set := by
    rcases h.backed s newest set with running | ⟨_, a, waiting⟩
    · exact Or.inl running
    · exact absurd ((armed.all a).symm.trans waiting) (by simp)

/-- A timer that fires for the newest command leaves nothing that should hold. -/
theorem Guarded.fired (h : Guarded c) {deadline : Nat} (due : deadline ≤ c.world.1.clock)
    (own : ∀ s, c.world.2.head? = some (s, true) → deadline = s + 300) :
    Guarded { c with world := ({ c.world.1 with
      timers := c.world.1.timers.erase deadline, memGuardDisabled := false }, c.world.2) } where
  past := h.past
  ordered := h.ordered
  disabled set := nomatch set
  kept s newest := Or.inr (own s newest ▸ due)
  backed _ _ set := nomatch set

theorem guarded_act (h : Guarded c) (a : Actor) (op : Op) (r : op.Ret) (left : Option (Task Unit)) :
    Guarded ⟨(c.world.1.after op r, (guardLog policy).sees c.world.2 a c.world.1 op r), ⟨a, op, r⟩ :: c.history,
      Function.update c.running a left⟩ := by
  rcases World.after_guard c.world.1 op r with ⟨disabled, rfl⟩ | rfl | ⟨flag, timers, clock, still, unlogged⟩
  · refine h.command disabled rfl rfl rfl ?_
    rintro rfl
    exact ⟨a, (Protocol.state_own arming false a (.guardStore true) r c.history).trans rfl⟩
  · exact h.spawned rfl rfl rfl rfl
  · refine h.of_eq flag timers clock (unlogged policy c.world.2 a) fun b => ?_
    by_cases same : a = b
    · subst same
      rw [Protocol.state_own, still]
    · exact Protocol.state_other arming false b same _

theorem guarded_change (h : Guarded c) {change : Change} {u : World} (moved : c.world.1.change change = some u)
    (onTime : punctual c (.env change : Label ((lifecycled policy).observed (guardLog policy)))) (own : ownTimer c (.env change : Label ((lifecycled policy).observed (guardLog policy)))) :
    Guarded { c with world := (u, c.world.2) } := by
  cases change with
  | pass seconds =>
    cases moved
    exact h.passed seconds (of_decide_eq_true onTime).1
  | guardTimer deadline =>
    simp only [World.change] at moved
    split at moved
    · rename_i due
      cases moved
      refine h.fired due.2 fun s newest => ?_
      simpa [ownTimer, newest] using own
    · cases moved
  | _ =>
    cases moved
    exact h.of_eq rfl rfl rfl rfl fun _ => rfl

theorem reach_guarded (started : w.Started)
    (reach : Reach ((lifecycled policy).observed (guardLog policy)) (fun c l => punctual c l ∧ ownTimer c l)
      (Config.idle (w, [])) c) : Guarded c := by
  refine reach.invariant (guarded_idle started) fun c l c' h step ⟨onTime, own⟩ => ?_
  cases step with
  | act at_work may => exact guarded_act h _ _ _ _
  | env moved =>
    obtain ⟨u, there, rfl⟩ := Option.map_eq_some_iff.mp moved
    exact guarded_change h there onTime own
  | _ => exact h.of_eq rfl rfl rfl rfl fun _ => rfl

/-- The `off` that holds is not older than the newest command. -/
theorem Guarded.newest (h : Guarded c) {s : Nat} (holds : (s, true) ∈ c.world.2.takeWhile Prod.snd) :
    ∃ s', c.world.2.head? = some (s', true) ∧ s ≤ s' := by
  have ordered := h.ordered
  cases given : c.world.2 with
  | nil => simp [given] at holds
  | cons newest older =>
    obtain ⟨s', disabled⟩ := newest
    rw [given] at holds ordered
    cases disabled with
    | false => simp at holds
    | true =>
      refine ⟨s', rfl, ?_⟩
      rcases List.mem_cons.mp (List.takeWhile_subset _ holds) with same | old
      · cases same; exact Nat.le_refl _
      · exact (List.pairwise_cons.mp ordered).1 _ old

/-- Where every timer that fires finds no later `off` than its own, the flag is set as
long as an `off` holds, and once the timers due are through, no longer than that. -/
theorem guard_off_lasts (started : w.Started)
    (reach : Reach ((lifecycled policy).observed (guardLog policy)) (fun c l => punctual c l ∧ ownTimer c l)
      (Config.idle (w, [])) c) :
    (OffHolds c.world.2 c.world.1.clock → c.world.1.memGuardDisabled = true) ∧
      ((∀ deadline ∈ c.world.1.timers, c.world.1.clock < deadline) →
        c.world.1.memGuardDisabled = true → OffHolds c.world.2 c.world.1.clock) := by
  have h := reach_guarded started reach
  constructor
  · rintro ⟨s, holds, recent⟩
    obtain ⟨s', newest, later⟩ := h.newest holds
    rcases h.kept s' newest with set | past
    · exact set
    · omega
  · intro settled set
    obtain ⟨s, newest⟩ := h.disabled set
    have recent : c.world.1.clock < s + 300 := by
      rcases h.backed s newest set with running | ⟨now, _⟩
      · exact settled _ running
      · omega
    cases given : c.world.2 with
    | nil => simp [given] at newest
    | cons e older =>
      rw [given, List.head?_cons, Option.some.injEq] at newest
      subst newest
      exact ⟨s, by simp, recent⟩

/-- A `MEM_GUARD off` on a connection, served at once. -/
def guardOff (policy : LifecyclePolicy) (n : Nat) : List (Label (lifecycled policy)) :=
  serving (lifecycled policy) (.conn n) (.line "MEM_GUARD off")
    [⟨.guardStore true, ()⟩, ⟨.spawnGuardTimer, ()⟩, ⟨.reply "+OK MEM_GUARD disabled for 5 minutes\n", ()⟩]

/-- An `off` whose timer fires. -/
def onlyOff (policy : LifecyclePolicy) : List (Label (lifecycled policy)) :=
  guardOff policy 0 ++ [.env (Change.pass 300), .env (Change.guardTimer 300)]

/-- An `off`, another one 100 s later, and the timer of the first. -/
def twoOffs (policy : LifecyclePolicy) : List (Label (lifecycled policy)) :=
  guardOff policy 0 ++ .env (Change.pass 100) :: guardOff policy 1 ++
    [.env (Change.pass 200), .env (Change.guardTimer 300)]

theorem guard_off_lasts_once : ∃ c : Config Daemon Actor (World × GuardLog),
    c.world.2 = [(0, true)] ∧ c.world.1.clock = 300 ∧
      (OffHolds c.world.2 c.world.1.clock → c.world.1.memGuardDisabled = true) ∧
      ((∀ deadline ∈ c.world.1.timers, c.world.1.clock < deadline) →
        c.world.1.memGuardDisabled = true → OffHolds c.world.2 c.world.1.clock) := by
  obtain ⟨c, reach, checked⟩ := replay_check
    (fun c (l : Label ((lifecycled (.forPlatform false)).observed (guardLog (.forPlatform false)))) => punctual c l && ownTimer c l)
    (fun _ _ admitted => Bool.and_eq_true_iff.mp admitted) (Config.idle (oneJail, []))
    ((onlyOff (.forPlatform false)).map (Label.observed _))
    (fun c => c.world.2 = [(0, true)] && c.world.1.clock = 300) (by decide +kernel)
  obtain ⟨given, clock⟩ := Bool.and_eq_true_iff.mp checked
  exact ⟨c, of_decide_eq_true given, of_decide_eq_true clock, guard_off_lasts oneJail_started reach⟩

/-- The timer of an earlier `off` ends a later one after 200 s. -/
theorem stale_timer_ends_off : oneJail.Started ∧ ∃ c : Config Daemon Actor (World × GuardLog),
    Reach ((lifecycled (.forPlatform false)).observed (guardLog (.forPlatform false)))
      (fun c l => punctual c l) (Config.idle (oneJail, [])) c ∧
    (∀ deadline ∈ c.world.1.timers, c.world.1.clock < deadline) ∧
    OffHolds c.world.2 c.world.1.clock ∧ c.world.1.memGuardDisabled = false := by
  obtain ⟨c, reach, checked⟩ := replay_check (@punctual (.forPlatform false)) (fun _ _ admitted => admitted)
    (Config.idle (oneJail, []))
    ((twoOffs (.forPlatform false)).map (Label.observed _))
    (fun c => (∀ deadline ∈ c.world.1.timers, c.world.1.clock < deadline) ∧
      OffHolds c.world.2 c.world.1.clock ∧ c.world.1.memGuardDisabled = false) (by decide +kernel)
  exact ⟨oneJail_started, c, reach, of_decide_eq_true checked⟩

end runs

end Bsdos.Lifecycle
