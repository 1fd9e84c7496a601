import Bsdos.Lifecycle.Guard

namespace Bsdos.Lifecycle
open Effects

/-- The tasks whose `MEM_GUARD off` has set the flag as it stands, and whether one of
them has answered. -/
structure Acks where
  given : List Actor
  acknowledged : Bool
  deriving DecidableEq, Repr

def Acks.none : Acks := ⟨[], false⟩

def acks (policy : LifecyclePolicy) : Observer (lifecycled policy) Acks where
  sees γ a _ op _ :=
    match op with
    | .guardStore true => { γ with given := a :: γ.given }
    | .guardStore false => .none
    | .reply _ => if a ∈ γ.given then { γ with acknowledged := true } else γ
    | _ => γ
  feels γ _ change :=
    match change with
    | .guardTimer _ => .none
    | _ => γ

/-- Any call but the entry of a kill. -/
def Op.NoKill (op : Op) : Prop := ∀ jail, op ≠ .note (.invoked (.kill jail))

theorem Op.ActsOn.noKill {jail : String} {op : Op} (acts : op.ActsOn jail) : op.NoKill := by
  rintro _ rfl
  exact acts

def Op.LooksAtGuard (op : Op) : Prop := op = .guardLoad

theorem Op.ActsOn.looksAway {jail : String} {op : Op} (acts : op.ActsOn jail) : ¬ op.LooksAtGuard := by
  rintro rfl
  exact acts

/-- What the monitor keeps to: it starts no kill when its last look at the guard found it disabled. -/
def heeding : Protocol Daemon Bool where
  next disabled
    | .guardLoad, r => r
    | _, _ => disabled
  allows disabled op := disabled = true → op.NoKill

section follows
variable {policy : LifecyclePolicy}

theorem heeding_mild {α : Type} {p : Task α} {disabled : Bool} (only : p.Only Op.NoKill) :
    p.Follows heeding (fun _ _ => True) disabled :=
  only.keeps (fun _ _ mild _ => ⟨fun _ => mild, fun _ => trivial⟩) trivial

theorem heeding_clear {α : Type} {p : Task α} (only : p.Only fun op => ¬ Op.LooksAtGuard op) :
    p.Follows heeding (fun _ _ => True) false := by
  refine (only.keeps (I := (· = false)) (fun disabled op away clear => ?_) rfl).mono fun _ _ _ => trivial
  subst clear
  refine ⟨fun set => (nomatch set), fun r => ?_⟩
  cases op with
  | guardLoad => exact absurd rfl away
  | _ => rfl

theorem monitorRound_heeds (stats : MemStats) (disabled : Bool) :
    (monitorRound policy stats).Follows heeding (fun _ _ => True) disabled := by
  have freeze (jail) : (freezeApplication jail).run.Only Op.NoKill :=
    freezeApplication_only (fun _ => Op.ActsOn.noKill) (by simp [Op.NoKill]) (by simp [Op.NoKill])
  have hibernate (jail) : (hibernateApplication jail).run.Only fun op => ¬ Op.LooksAtGuard op :=
    hibernateApplication_only (fun _ => Op.ActsOn.looksAway) (by simp [Op.LooksAtGuard]) (by simp [Op.LooksAtGuard])
  have kill (jail) : (killApplication jail).run.Only fun op => ¬ Op.LooksAtGuard op :=
    killApplication_only (fun _ => Op.ActsOn.looksAway) (by simp [Op.LooksAtGuard]) (by simp [Op.LooksAtGuard])
  have critical (jail) : (criticalJail jail).Only fun op => ¬ Op.LooksAtGuard op := by
    have evict : (evictJail jail).Only fun op => ¬ Op.LooksAtGuard op :=
      ⟨by simp [Op.LooksAtGuard], fun _ => (hibernate jail).bind fun _ => (kill jail).bind fun _ => trivial⟩
    refine Prog.Only.bind ⟨by simp [Op.LooksAtGuard], fun _ => trivial⟩ fun state => ?_
    split
    · exact evict
    · exact evict
    · trivial
  refine ⟨fun _ => by simp [Op.NoKill], fun candidates => ⟨fun _ => by simp [Op.NoKill], fun skip => ?_⟩⟩
  cases MemPressure.fromStats stats with
  | normal => trivial
  | warn =>
    dsimp only
    split
    · refine ⟨fun _ => by simp [Op.NoKill], fun now => heeding_mild (Prog.Only.each fun jail _ => ?_)⟩
      exact warnJail_only (by simp [Op.NoKill]) (by simp [Op.NoKill]) (by simp [Op.NoKill]) (freeze jail) policy now
    · trivial
  | critical =>
    cases skip with
    | true => trivial
    | false => exact heeding_clear (Prog.Only.each fun jail _ => critical jail)
  | oom =>
    cases skip with
    | true => trivial
    | false => exact heeding_clear (Prog.Only.each fun jail _ => oomJail_only (by simp [Op.LooksAtGuard]) (kill jail))

theorem runMonitor_heeds (disabled : Bool) :
    (runMonitor policy).Follows heeding (fun _ _ => True) disabled := by
  refine ⟨fun _ => by simp [Op.NoKill], fun _ => ?_⟩
  refine (heeding_mild (readMemStats_only fun _ => by simp [Op.NoKill])).bind fun r disabled' _ => ?_
  cases r with
  | error e => trivial
  | ok stats => exact monitorRound_heeds stats disabled'

/-- The program starts no kill before it looks at the guard again. -/
def LooksFirst (program : Task Unit) : Prop := program.Until Op.NoKill Op.LooksAtGuard

theorem looksFirst_of_heeding {program : Task Unit} (follows : program.Follows heeding (fun _ _ => True) true) :
    LooksFirst program := by
  refine follows.until (I := (· = true)) (fun _ _ set allowed => allowed set) (fun disabled op r set other => ?_) rfl
  cases op with
  | guardLoad => exact absurd rfl other
  | _ => exact set

end follows

section runs
variable {policy : LifecyclePolicy} {w : World} {c c' : Config Daemon Actor (World × Acks)}

/-- An `off` is answered only while the monitor starts no kill before it looks at the guard again. -/
def answeredBetween (c : Config Daemon Actor (World × Acks)) : Label ((lifecycled policy).observed (acks policy)) → Prop
  | .act ⟨a, .reply _, _⟩ => a ∈ c.world.2.given → ∀ program, c.running .monitor = some program → LooksFirst program
  | _ => True

/-- While an answered `off` stands the flag is set, and the monitor looks at it before
it starts a kill. -/
structure Obeyed (c : Config Daemon Actor (World × Acks)) : Prop where
  given : ∀ a ∈ c.world.2.given, c.world.1.memGuardDisabled = true
  answered : c.world.2.acknowledged = true → ∃ a, a ∈ c.world.2.given
  looks : c.world.2.acknowledged = true → ∀ program, c.running .monitor = some program → LooksFirst program

theorem reach_heeds {ok : Config Daemon Actor (World × Acks) → Label ((lifecycled policy).observed (acks policy)) → Prop}
    {γ : Acks} (reach : Reach ((lifecycled policy).observed (acks policy)) ok (Config.idle (w, γ)) c) :
    c.Conforms heeding false (fun _ => True) .monitor := by
  refine reach.conforms trivial (fun request program served disabled _ => ?_) fun _ _ _ dropped => nomatch dropped
  cases request with
  | tick => cases served; exact runMonitor_heeds disabled
  | _ => cases served

/-- Nothing is asked where no `off` stands. -/
theorem obeyed_none (cleared : c.world.2 = .none) : Obeyed c := by
  refine ⟨?_, ?_, ?_⟩
  · simp [cleared, Acks.none]
  · simp [cleared, Acks.none]
  · simp [cleared, Acks.none]

/-- A program that looks first goes on doing so, when a look at the guard finds it disabled. -/
theorem LooksFirst.next {op : Op} {next : op.Ret → Task Unit} {disabled : Bool} {r : op.Ret}
    (looks : LooksFirst (.call op next)) (follows : (Prog.call op next : Task Unit).Follows heeding (fun _ _ => True) disabled)
    (may : w.may op r) (set : w.memGuardDisabled = true) : LooksFirst (next r) := by
  rcases looks.2 with rfl | later
  · have read : r = true := (World.may_guardLoad may).trans set
    have after : (next r).Follows heeding (fun _ _ => True) r := follows.2 r
    exact looksFirst_of_heeding (read ▸ after)
  · exact later r

theorem obeyed_act {a : Actor} {op : Op} {r : op.Ret} {next : op.Ret → Task Unit} (h : Obeyed c)
    (heeds : c.Conforms heeding false (fun _ => True) .monitor)
    (at_work : c.running a = some (.call op next)) (may : c.world.1.may op r)
    (between : answeredBetween c (.act ⟨a, op, r⟩ : Label ((lifecycled policy).observed (acks policy)))) :
    Obeyed ⟨(c.world.1.after op r, (acks policy).sees c.world.2 a c.world.1 op r), ⟨a, op, r⟩ :: c.history,
      Function.update c.running a (some (next r))⟩ := by
  -- what the monitor does next, where an `off` counts as answered after the call
  have after (set : c.world.1.memGuardDisabled = true)
      (looks : ∀ program, c.running .monitor = some program → LooksFirst program) :
      ∀ program, Function.update c.running a (some (next r)) .monitor = some program → LooksFirst program := by
    intro program working
    rcases left_cases working with ⟨rfl, left⟩ | ⟨_, working⟩
    · cases left
      exact (looks _ at_work).next (heeds.running at_work) may set
    · exact looks program working
  have same (flag : (c.world.1.after op r).memGuardDisabled = c.world.1.memGuardDisabled)
      (kept : (acks policy).sees c.world.2 a c.world.1 op r = c.world.2) :
      Obeyed ⟨(c.world.1.after op r, (acks policy).sees c.world.2 a c.world.1 op r), ⟨a, op, r⟩ :: c.history,
        Function.update c.running a (some (next r))⟩ := by
    rw [kept]
    refine ⟨fun b member => flag.trans (h.given b member), h.answered, fun answered => ?_⟩
    obtain ⟨b, member⟩ := h.answered answered
    exact after (h.given b member) (h.looks answered)
  cases op with
  | guardStore disabled =>
    cases disabled with
    | true =>
      refine ⟨fun _ _ => rfl, fun answered => ?_, fun answered => ?_⟩
      · exact ⟨a, List.mem_cons_self ..⟩
      · obtain ⟨b, member⟩ := h.answered answered
        exact after (h.given b member) (h.looks answered)
    | false => exact obeyed_none rfl
  | reply text =>
    by_cases giver : a ∈ c.world.2.given
    · have recorded : (acks policy).sees c.world.2 a c.world.1 (.reply text) r =
          { c.world.2 with acknowledged := true } := if_pos giver
      rw [recorded]
      exact ⟨h.given, fun _ => ⟨a, giver⟩, fun _ => after (h.given a giver) (between giver)⟩
    · exact same rfl (if_neg giver)
  | kill pid sig => cases r <;> exact same rfl rfl
  | _ => exact same rfl rfl

theorem obeyed_change (h : Obeyed c) {change : Change} {u : World} (moved : c.world.1.change change = some u) :
    Obeyed { c with world := (u, (acks policy).feels c.world.2 c.world.1 change) } := by
  cases change with
  | guardTimer deadline => exact obeyed_none rfl
  | _ =>
    cases moved
    exact ⟨h.given, h.answered, h.looks⟩

/-- What the monitor has left to do, or a tick it begins, looks first. -/
theorem reach_obeyed (reach : Reach ((lifecycled policy).observed (acks policy)) answeredBetween (Config.idle (w, .none)) c) :
    Obeyed c := by
  induction reach with
  | start => exact obeyed_none rfl
  | @next c l c' previous step between h =>
    have other (a : Actor) (left : Option (Task Unit))
        (looks : a = .monitor → ∀ program, left = some program → LooksFirst program) :
        Obeyed { c with running := Function.update c.running a left } := by
      refine ⟨h.given, h.answered, fun answered program working => ?_⟩
      rcases left_cases working with ⟨same, own⟩ | ⟨_, working⟩
      · exact looks same.symm program own
      · exact h.looks answered program working
    cases step with
    | @begin a request program idle serve =>
      refine other a (some program) ?_
      rintro rfl program' same
      cases same
      cases request with
      | tick => cases serve; exact looksFirst_of_heeding (runMonitor_heeds true)
      | _ => cases serve
    | act at_work may => exact obeyed_act h (reach_heeds previous) at_work may between
    | @finish a at_work => exact other a none fun _ _ none => nomatch none
    | drop at_work droppable => cases droppable
    | env moved =>
      obtain ⟨u, there, rfl⟩ := Option.map_eq_some_iff.mp moved
      exact obeyed_change h there

/-- Where no `off` is answered between the monitor's look at the guard and a kill it goes on
to start, the monitor starts none while an answered `off` stands. -/
theorem monitor_obeys_guard {jail : String}
    (reach : Reach ((lifecycled policy).observed (acks policy)) answeredBetween (Config.idle (w, .none)) c)
    (starts : Step ((lifecycled policy).observed (acks policy)) c (.act ⟨.monitor, .note (.invoked (.kill jail)), ()⟩) c') :
    c.world.2.acknowledged = false := by
  by_contra answered
  cases starts with
  | act at_work may =>
    exact ((reach_obeyed reach).looks (by simpa using answered) _ at_work).1 jail rfl

/-- A `MEM_GUARD on` on a connection, served at once. -/
def guardOn (policy : LifecyclePolicy) (n : Nat) : List (Label (lifecycled policy)) :=
  serving (lifecycled policy) (.conn n) (.line "MEM_GUARD on")
    [⟨.guardStore false, ()⟩, ⟨.reply "+OK MEM_GUARD enabled\n", ()⟩]

/-- The tick goes on: the hibernation is through. -/
def saved (policy : LifecyclePolicy) : List (Label (lifecycled policy)) :=
  calling (lifecycled policy) .monitor
    [⟨.statesInsert "app" .hibernated, ()⟩, ⟨.note (.returned (.hibernate "app") true), ()⟩]

/-- Every answer is given while the monitor is at rest. -/
def answeredAtRest (c : Config Daemon Actor (World × Acks)) : Label ((lifecycled policy).observed (acks policy)) → Bool
  | .act ⟨_, .reply _, _⟩ => (c.running .monitor).isNone
  | _ => true

theorem answeredBetween_of_rest {l : Label ((lifecycled policy).observed (acks policy))}
    (rest : answeredAtRest c l = true) : answeredBetween c l := by
  unfold answeredBetween
  split
  · intro _ program working
    simp [answeredAtRest, working] at rest
  · trivial

/-- An answered `off` and an `on`, then a tick that comes to its kill. -/
theorem monitor_obeys_guard_enabled : ∃ c c', c.world.2.acknowledged = false ∧
    Step ((lifecycled (.forPlatform false)).observed (acks (.forPlatform false))) c
      (.act ⟨.monitor, .note (.invoked (.kill "app")), ()⟩) c' := by
  obtain ⟨c, reach, checked⟩ := replay_check answeredAtRest (fun _ _ rest => answeredBetween_of_rest rest)
    (Config.idle (oneCandidate 200, .none))
    ((guardOff (.forPlatform false) 1 ++ guardOn (.forPlatform false) 2 ++
      thawThenCritical (.forPlatform false) 200 ⟨true, "exit status: 0", "", ""⟩ ++ saved (.forPlatform false)).map
        (Label.observed (acks (.forPlatform false))))
    (fun c => (c.fire (S := (lifecycled (.forPlatform false)).observed (acks (.forPlatform false)))
      (.act ⟨.monitor, .note (.invoked (.kill "app")), ()⟩)).isSome) (by decide +kernel)
  obtain ⟨c', fired⟩ := Option.isSome_iff_exists.mp checked
  exact ⟨c, c', monitor_obeys_guard reach (Config.fire_step fired), Config.fire_step fired⟩

/-- An `off` that is answered while the tick hibernates the jail does not keep it from the kill. -/
theorem kill_after_answered_off : (oneCandidate 200).Started ∧ ∃ c c',
    Reach ((lifecycled (.forPlatform false)).observed (acks (.forPlatform false))) (anyStep _)
      (Config.idle (oneCandidate 200, .none)) c ∧
    Step ((lifecycled (.forPlatform false)).observed (acks (.forPlatform false))) c
      (.act ⟨.monitor, .note (.invoked (.kill "app")), ()⟩) c' ∧
    c.world.2.acknowledged = true ∧ c.world.1.memGuardDisabled = true := by
  obtain ⟨c, reach, checked⟩ := replay_check (fun _ _ => true) (fun _ _ _ => trivial)
    (Config.idle (oneCandidate 200, .none))
    ((thawThenCritical (.forPlatform false) 200 ⟨true, "exit status: 0", "", ""⟩ ++ guardOff (.forPlatform false) 1 ++
      saved (.forPlatform false)).map (Label.observed (acks (.forPlatform false))))
    (fun c => (c.world.2.acknowledged = true && c.world.1.memGuardDisabled = true) &&
      (c.fire (S := (lifecycled (.forPlatform false)).observed (acks (.forPlatform false)))
        (.act ⟨.monitor, .note (.invoked (.kill "app")), ()⟩)).isSome) (by decide +kernel)
  obtain ⟨stands, fired⟩ := Bool.and_eq_true_iff.mp checked
  obtain ⟨answered, set⟩ := Bool.and_eq_true_iff.mp stands
  obtain ⟨c', fired⟩ := Option.isSome_iff_exists.mp fired
  exact ⟨oneCandidate_started 200, c, c', reach, Config.fire_step fired, of_decide_eq_true answered, of_decide_eq_true set⟩

end runs

end Bsdos.Lifecycle
