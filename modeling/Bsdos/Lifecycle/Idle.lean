import Bsdos.Lifecycle.Sampled
import Bsdos.Lifecycle.Readers

namespace Bsdos.Lifecycle
open Effects

/-- A command that made a jail active again: a THAW or RESTORE that went through, or a
SET_PRIORITY with the time stamp it wrote. -/
structure Activity where
  jail : String
  completed : Nat
  stamp : Option Nat
  deriving DecidableEq, Repr

def activity (w : World) : Op → Option Activity
  | .note (.returned (.thaw jail) true) => some ⟨jail, w.clock, none⟩
  | .note (.returned (.restore jail) true) => some ⟨jail, w.clock, none⟩
  | .prioritiesInsert jail entry => some ⟨jail, w.clock, some entry.lastActive⟩
  | _ => none

def activities (policy : LifecyclePolicy) : Observer (lifecycled policy) (List Activity) where
  sees past _ w op _ := (activity w op).toList ++ past
  feels past _ _ := past

/-- The jail was made active less than the idle window before `t`. -/
def ActiveAt (policy : LifecyclePolicy) (past : List Activity) (jail : String) (t : Nat) : Prop :=
  ∃ e ∈ past, e.jail = jail ∧ t < e.completed + policy.idleFreezeSecs

instance (policy : LifecyclePolicy) (past : List Activity) (jail : String) (t : Nat) :
    Decidable (ActiveAt policy past jail t) := inferInstanceAs (Decidable (∃ e ∈ past, _ ∧ _))

/-- The time stamp of the last SET_PRIORITY of a jail. -/
def lastStamp (past : List Activity) (jail : String) : Option Nat :=
  past.findSome? fun e => if e.jail = jail then e.stamp else none

/-- What `is_idle_past` makes of the entry it reads. -/
def judgedIdle (policy : LifecyclePolicy) (entry : Option JailPriority) (now : Nat) : Bool :=
  match entry.map JailPriority.lastActive with
  | some 0 | none => true
  | some ts => policy.idleFreezeSecs ≤ now - ts

theorem isIdlePast_eq (policy : LifecyclePolicy) (jail : String) (now : Nat) :
    isIdlePast jail policy.idleFreezeSecs now = do return judgedIdle policy (← prioritiesGet jail) now := by
  refine congrArg (Prog.call (E := Daemon) (.prioritiesGet jail)) (funext fun entry => ?_)
  cases entry with
  | none => rfl
  | some p =>
    obtain ⟨id, priority, active⟩ := p
    cases active with
    | zero => rfl
    | succ n => rfl

/-- The clock reading of the monitor's Warn branch, and the jail it has found idle. -/
structure Judging where
  now : Option Nat
  idle : Option String
  deriving DecidableEq, Repr

def judging (policy : LifecyclePolicy) : Protocol Daemon Judging where
  next γ
    | .sleep _, _ => ⟨none, none⟩
    | .unixTime, now => ⟨some now, none⟩
    | .prioritiesGet jail, entry => { γ with idle := if γ.now.any (judgedIdle policy entry) then some jail else none }
    | _, _ => γ
  allows γ op := ∀ jail, op = .note (.invoked (.freeze jail)) → γ.idle = some jail

/-- Any call but the entry of a freeze of the jail. -/
def Op.NoFreeze (jail : String) (op : Op) : Prop := op ≠ .note (.invoked (.freeze jail))

def Op.LooksAtActive (op : Op) : Prop := ∃ jail, op = .prioritiesGet jail

/-- The program starts no freeze of the jail before it looks at a last activity again. -/
def LooksAgain (jail : String) (program : Task Unit) : Prop := program.Until (Op.NoFreeze jail) Op.LooksAtActive

def Op.FreezesNone (op : Op) : Prop := ∀ jail, op.NoFreeze jail

/-- A call that enters no freeze and leaves the clock reading of the round as it is. -/
def Op.KeepsTime (policy : LifecyclePolicy) (op : Op) : Prop :=
  op.FreezesNone ∧ ∀ γ r, ((judging policy).next γ op r).now = γ.now

section follows
variable {policy : LifecyclePolicy} {jail : String} {γ : Judging}

theorem judging_mild {α : Type} {p : Task α} (only : p.Only Op.FreezesNone) :
    p.Follows (judging policy) (fun _ _ => True) γ :=
  only.keeps (fun _ _ mild _ => ⟨fun jail entry => absurd entry (mild jail), fun _ => trivial⟩) trivial

theorem Op.ActsOn.freezesNone {op : Op} (acts : op.ActsOn jail) : op.FreezesNone := by
  rintro other rfl
  exact acts

/-- A freeze tells no time, so the reading of its round stays. -/
theorem freezeBody_judges {now : Nat} (entered : γ.now = some now) :
    (freezeBody jail).run.Follows (judging policy) (fun _ γ' => γ'.now = some now) γ := by
  have only : (freezeBody jail).run.Only (Op.KeepsTime policy) := by
    refine Prog.Only.tryBind (signalJailPids_only ?_ ?_ ?_) fun n => ⟨?_, fun _ => trivial⟩
    · exact ⟨fun _ => by simp [Op.NoFreeze], fun _ _ => rfl⟩
    · exact fun _ => ⟨fun _ => by simp [Op.NoFreeze], fun _ _ => rfl⟩
    · exact fun _ => ⟨fun _ => by simp [Op.NoFreeze], fun _ _ => rfl⟩
    · exact ⟨fun _ => by simp [Op.NoFreeze], fun _ _ => rfl⟩
  refine only.keeps (fun γ' op ⟨mild, same⟩ read => ⟨fun jail entry => absurd entry (mild jail), fun r => ?_⟩) entered
  exact (same γ' r).trans read

theorem isIdlePast_judges {now : Nat} (entered : γ.now = some now) :
    (isIdlePast jail policy.idleFreezeSecs now).Follows (judging policy)
      (fun idle γ' => γ'.now = some now ∧ (idle = true → γ'.idle = some jail)) γ := by
  have found (entry : Option JailPriority) : (judging policy).next γ (.prioritiesGet jail) entry =
      ⟨some now, if judgedIdle policy entry now then some jail else none⟩ := by
    simp only [judging, entered, Option.any_some]
  rw [isIdlePast_eq]
  have read : (prioritiesGet jail).Follows (judging policy) (fun entry γ' =>
      γ' = ⟨some now, if judgedIdle policy entry now then some jail else none⟩) γ :=
    ⟨fun _ entry => (nomatch entry), found⟩
  refine read.bind fun entry γ' same => ?_
  subst same
  exact ⟨rfl, fun idle => if_pos idle⟩

theorem warnJail_judges {now : Nat} (entered : γ.now = some now) :
    (warnJail policy now jail).Follows (judging policy) (fun _ γ' => γ'.now = some now) γ := by
  refine (isIdlePast_judges entered).bind fun idle γ' ⟨read, found⟩ => ?_
  cases idle with
  | false => exact read
  | true =>
    have state : (statesGet jail).Follows (judging policy) (fun _ γ'' => γ'' = γ') γ' :=
      ⟨fun _ entry => (nomatch entry), fun _ => rfl⟩
    refine state.bind fun tracked γ'' same => ?_
    subst same
    split
    · refine ⟨fun _ entry => (nomatch entry), fun _ => ?_⟩
      have froze : (freezeApplication jail).run.Follows (judging policy) (fun _ γ' => γ'.now = some now) γ'' := by
        refine operation_follows (M := fun _ γ' => γ'.now = some now) ?_ (fun _ => freezeBody_judges read)
          (fun _ _ => read) fun r γ' read => ⟨fun _ entry => (nomatch entry), read⟩
        rintro _ ⟨⟩
        exact found rfl
      exact froze.bind fun _ _ read => read
    · exact read

theorem monitorRound_judges (stats : MemStats) :
    (monitorRound policy stats).Follows (judging policy) (fun _ _ => True) γ := by
  have hibernate (jail) : (hibernateApplication jail).run.Only Op.FreezesNone :=
    hibernateApplication_only (fun _ => Op.ActsOn.freezesNone) (fun _ => by simp [Op.NoFreeze])
      fun _ _ => by simp [Op.NoFreeze]
  have kill (jail) : (killApplication jail).run.Only Op.FreezesNone :=
    killApplication_only (fun _ => Op.ActsOn.freezesNone) (fun _ => by simp [Op.NoFreeze])
      fun _ _ => by simp [Op.NoFreeze]
  refine ⟨fun _ entry => (nomatch entry), fun candidates => ⟨fun _ entry => (nomatch entry), fun skip => ?_⟩⟩
  cases MemPressure.fromStats stats with
  | normal => trivial
  | warn =>
    dsimp only
    split
    · refine ⟨fun _ entry => (nomatch entry), fun now => ?_⟩
      have rounds (jails : List String) (γ : Judging) (read : γ.now = some now) :
          (Prog.each (warnJail policy now) jails).Follows (judging policy) (fun _ γ' => γ'.now = some now) γ :=
        Prog.Follows.each (I := fun _ (γ' : Judging) => γ'.now = some now) read fun jail _ γ' read => warnJail_judges read
      exact (rounds _ ⟨some now, none⟩ rfl).mono fun _ _ _ => trivial
    · trivial
  | critical =>
    cases skip with
    | true => trivial
    | false =>
      refine judging_mild (Prog.Only.each fun jail _ => ?_)
      have evict : (evictJail jail).Only Op.FreezesNone :=
        ⟨fun _ => by simp [Op.NoFreeze], fun _ => (hibernate jail).bind fun _ => (kill jail).bind fun _ => trivial⟩
      refine Prog.Only.bind ⟨fun _ => by simp [Op.NoFreeze], fun _ => trivial⟩ fun state => ?_
      split
      · exact evict
      · exact evict
      · trivial
  | oom =>
    cases skip with
    | true => trivial
    | false =>
      exact judging_mild (Prog.Only.each fun jail _ => oomJail_only (fun _ => by simp [Op.NoFreeze]) (kill jail))

theorem runMonitor_judges : (runMonitor policy).Follows (judging policy) (fun _ _ => True) γ := by
  refine ⟨fun _ entry => (nomatch entry), fun _ => ?_⟩
  refine (judging_mild (readMemStats_only fun _ _ => by simp [Op.NoFreeze])).bind fun r γ' _ => ?_
  cases r with
  | error e => trivial
  | ok stats => exact monitorRound_judges stats

/-- A jail the monitor has not found idle it does not freeze before it looks again. -/
theorem looksAgain_of_judging {program : Task Unit} {jail : String} {γ : Judging} (other : γ.idle ≠ some jail)
    (follows : program.Follows (judging policy) (fun _ _ => True) γ) : LooksAgain jail program := by
  refine follows.until (I := fun γ => γ.idle ≠ some jail) (fun γ op other allowed entry => other (allowed jail entry))
    (fun γ op r other unseen => ?_) other
  cases op with
  | prioritiesGet id => exact absurd ⟨id, rfl⟩ unseen
  | sleep seconds => exact fun none => nomatch none
  | unixTime => exact fun none => nomatch none
  | _ => exact other

end follows

section runs
variable {policy : LifecyclePolicy} {w : World} {c c' : Config Daemon Actor (World × List Activity)} {jail : String}

/-- What the monitor's Warn branch has found, along a run. -/
def judgingOn (policy : LifecyclePolicy) (c : Config Daemon Actor (World × List Activity)) : Judging :=
  (judging policy).state ⟨none, none⟩ .monitor c.history

/-- When the Warn branch looks at the last activity of a jail that was made active less
than the idle window ago, the last SET_PRIORITY of the jail stamped it inside the window. -/
def stampedInTime (c : Config Daemon Actor (World × List Activity)) :
    Label ((lifecycled policy).observed (activities policy)) → Bool
  | .act ⟨.monitor, .prioritiesGet jail, _⟩ =>
    (judgingOn policy c).now.all fun now => !decide (ActiveAt policy c.world.2 jail c.world.1.clock) ||
      (lastStamp c.world.2 jail).any fun ts => ts ≠ 0 && now - ts < policy.idleFreezeSecs
  | _ => true

/-- When a jail is made active, the monitor looks again before it starts a freeze of it. -/
def activeBetween (c : Config Daemon Actor (World × List Activity)) :
    Label ((lifecycled policy).observed (activities policy)) → Prop
  | .act ⟨_, op, _⟩ => ∀ e, activity c.world.1 op = some e →
      ∀ program, c.running .monitor = some program → LooksAgain e.jail program
  | _ => True

/-- The map holds the last stamp of every jail, and a jail the monitor has found idle
has been inactive for the window or is looked at again. -/
structure Watched (policy : LifecyclePolicy) (c : Config Daemon Actor (World × List Activity)) : Prop where
  stamps : ∀ jail ts, lastStamp c.world.2 jail = some ts →
    ∃ p, c.world.1.priorities.lookup jail = some p ∧ p.lastActive = ts
  idle : ∀ jail, (judgingOn policy c).idle = some jail → ¬ ActiveAt policy c.world.2 jail c.world.1.clock ∨
    ∀ program, c.running .monitor = some program → LooksAgain jail program

theorem reach_judges {ok : Config Daemon Actor (World × List Activity) → Label ((lifecycled policy).observed (activities policy)) → Prop}
    {past : List Activity} (reach : Reach ((lifecycled policy).observed (activities policy)) ok (Config.idle (w, past)) c) :
    c.Conforms (judging policy) ⟨none, none⟩ (fun _ => True) .monitor := by
  refine reach.conforms trivial (fun request program served γ _ => ?_) fun _ _ _ dropped => nomatch dropped
  cases request with
  | tick => cases served; exact runMonitor_judges
  | _ => cases served

theorem World.after_clock (w : World) (op : Op) (r : op.Ret) : (w.after op r).clock = w.clock := by
  cases op with
  | kill pid sig => cases r <;> rfl
  | _ => rfl

theorem World.change_clock {w w' : World} {change : Change} (moved : w.change change = some w') :
    w.clock ≤ w'.clock := by
  cases change with
  | pass seconds => cases moved; exact Nat.le_add_right ..
  | guardTimer deadline =>
    simp only [World.change] at moved
    split at moved
    · cases moved; exact Nat.le_refl _
    · cases moved
  | _ => cases moved; exact Nat.le_refl _

theorem ActiveAt.earlier {past : List Activity} {t t' : Nat} (active : ActiveAt policy past jail t') (le : t ≤ t') :
    ActiveAt policy past jail t := by
  obtain ⟨e, member, same, recent⟩ := active
  exact ⟨e, member, same, by omega⟩

/-- A new activity is of its own jail. -/
theorem ActiveAt.older {op : Op} {past : List Activity} {t : Nat}
    (active : ActiveAt policy ((activity w op).toList ++ past) jail t)
    (other : ∀ e, activity w op = some e → e.jail ≠ jail) : ActiveAt policy past jail t := by
  obtain ⟨e, member, same, recent⟩ := active
  rcases List.mem_append.mp member with new | old
  · exact absurd same (other e (Option.mem_toList.mp new))
  · exact ⟨e, old, same, recent⟩

/-- Only a SET_PRIORITY changes the priorities or carries a stamp. -/
theorem activity_stamp (w : World) (op : Op) (r : op.Ret) : (∃ id entry, op = .prioritiesInsert id entry) ∨
    ((w.after op r).priorities = w.priorities ∧ ∀ e, activity w op = some e → e.stamp = none) := by
  cases op with
  | prioritiesInsert id entry => exact Or.inl ⟨id, entry, rfl⟩
  | kill pid sig => cases r <;> exact Or.inr ⟨rfl, fun _ none => nomatch none⟩
  | note n =>
    refine Or.inr ⟨rfl, fun e noted => ?_⟩
    unfold activity at noted
    split at noted <;> cases noted <;> first | rfl | contradiction
  | _ => exact Or.inr ⟨rfl, fun _ none => nomatch none⟩

theorem lastStamp_unstamped {past new : List Activity} (unstamped : ∀ e ∈ new, e.stamp = none) :
    lastStamp (new ++ past) jail = lastStamp past jail := by
  unfold lastStamp
  rw [List.findSome?_append, List.findSome?_eq_none_iff.mpr, Option.none_or]
  intro e member
  rw [unstamped e member, ite_self]

theorem stamps_act {past : List Activity} (stamps : ∀ jail ts, lastStamp past jail = some ts →
      ∃ p, w.priorities.lookup jail = some p ∧ p.lastActive = ts) (op : Op) (r : op.Ret) :
    ∀ jail ts, lastStamp ((activity w op).toList ++ past) jail = some ts →
      ∃ p, (w.after op r).priorities.lookup jail = some p ∧ p.lastActive = ts := by
  intro jail ts stamped
  rcases activity_stamp w op r with ⟨id, entry, rfl⟩ | ⟨same, unstamped⟩
  · simp only [activity, Option.toList_some, List.singleton_append, lastStamp, List.findSome?_cons] at stamped
    by_cases here : jail = id
    · subst here
      simp only [if_true, Option.some.injEq] at stamped
      exact ⟨entry, Finmap.lookup_insert _, stamped⟩
    · rw [if_neg (Ne.symm here)] at stamped
      obtain ⟨p, filed, written⟩ := stamps jail ts stamped
      exact ⟨p, (Finmap.lookup_insert_of_ne _ here).trans filed, written⟩
  · rw [lastStamp_unstamped fun e member => unstamped e (Option.mem_toList.mp member)] at stamped
    rw [same]
    exact stamps jail ts stamped

/-- A jail stamped inside the window is not found idle. -/
theorem not_judgedIdle {entry : Option JailPriority} {now ts : Nat} {p : JailPriority} (read : entry = some p)
    (written : p.lastActive = ts) (nonzero : ts ≠ 0) (recent : now - ts < policy.idleFreezeSecs) :
    judgedIdle policy entry now = false := by
  subst read
  obtain ⟨id, priority, active⟩ := p
  subst written
  cases active with
  | zero => exact absurd rfl nonzero
  | succ n =>
    exact decide_eq_false (Nat.not_le.mpr recent)

/-- The monitor's own call: the jail it finds idle by it has been inactive, and what it
had to look at again before the call it has to after it. -/
theorem idle_own {op : Op} {r : op.Ret} {next : op.Ret → Task Unit} (h : Watched policy c)
    (at_work : c.running .monitor = some (.call op next)) (may : c.world.1.may op r)
    (stamped : stampedInTime c (.act ⟨.monitor, op, r⟩ : Label ((lifecycled policy).observed (activities policy))))
    (found : ((judging policy).next (judgingOn policy c) op r).idle = some jail) :
    ¬ ActiveAt policy c.world.2 jail c.world.1.clock ∨ LooksAgain jail (next r) := by
  by_cases look : op.LooksAtActive
  · obtain ⟨id, rfl⟩ := look
    left
    intro active
    simp only [judging, ite_eq_iff, Option.some.injEq, reduceCtorEq, and_false, or_false] at found
    obtain ⟨idle, rfl⟩ := found
    obtain ⟨now, read, judged⟩ := (Option.any_eq_true _ _).mp idle
    have inWindow : (lastStamp c.world.2 id).any fun ts => ts ≠ 0 && now - ts < policy.idleFreezeSecs := by
      simpa [stampedInTime, read, active] using stamped
    obtain ⟨ts, last, recent⟩ := (Option.any_eq_true _ _).mp inWindow
    obtain ⟨p, filed, written⟩ := h.stamps id ts last
    simp only [Bool.and_eq_true, decide_eq_true_eq] at recent
    have entry := (World.may_prioritiesGet may).trans filed
    rw [not_judgedIdle entry written recent.1 recent.2] at judged
    cases judged
  · have kept : (judgingOn policy c).idle = some jail := by
      cases op with
      | prioritiesGet id => exact absurd ⟨id, rfl⟩ look
      | sleep seconds => cases found
      | unixTime => cases found
      | _ => exact found
    refine (h.idle jail kept).imp_right fun looks => ?_
    exact (looks _ at_work).2.resolve_left look r

theorem watched_act {a : Actor} {op : Op} {r : op.Ret} {next : op.Ret → Task Unit} (h : Watched policy c)
    (at_work : c.running a = some (.call op next)) (may : c.world.1.may op r)
    (stamped : stampedInTime c (.act ⟨a, op, r⟩ : Label ((lifecycled policy).observed (activities policy))))
    (between : activeBetween c (.act ⟨a, op, r⟩ : Label ((lifecycled policy).observed (activities policy)))) :
    Watched policy ⟨(c.world.1.after op r, (activities policy).sees c.world.2 a c.world.1 op r), ⟨a, op, r⟩ :: c.history,
      Function.update c.running a (some (next r))⟩ := by
  refine ⟨stamps_act h.stamps op r, fun jail found => ?_⟩
  by_cases fresh : ∃ e, activity c.world.1 op = some e ∧ e.jail = jail
  · -- a jail made active just now is looked at again
    obtain ⟨e, new, rfl⟩ := fresh
    have unseen : ¬ op.LooksAtActive := by
      rintro ⟨id, rfl⟩
      cases new
    refine Or.inr fun program working => ?_
    rcases left_cases working with ⟨rfl, left⟩ | ⟨_, working⟩
    · cases left
      exact (between e new _ at_work).2.resolve_left unseen r
    · exact between e new program working
  · have before : ¬ ActiveAt policy c.world.2 jail c.world.1.clock →
        ¬ ActiveAt policy ((activity c.world.1 op).toList ++ c.world.2) jail (c.world.1.after op r).clock := by
      intro inactive active
      rw [World.after_clock] at active
      exact inactive (active.older fun e new same => fresh ⟨e, new, same⟩)
    by_cases monitor : a = .monitor
    · subst monitor
      simp only [judgingOn, Protocol.state_own] at found
      rcases idle_own h at_work may stamped found with inactive | looks
      · exact Or.inl (before inactive)
      · refine Or.inr fun program working => ?_
        have left : some (next r) = some program := by simpa only [Function.update_self] using working
        exact Option.some.inj left ▸ looks
    · simp only [judgingOn, Protocol.state_other (judging policy) _ _ (e := ⟨a, op, r⟩) monitor] at found
      rcases h.idle jail found with inactive | looks
      · exact Or.inl (before inactive)
      · refine Or.inr fun program working => ?_
        rcases left_cases working with ⟨same, _⟩ | ⟨_, working⟩
        · exact absurd same.symm monitor
        · exact looks program working

theorem reach_watched (reach : Reach ((lifecycled policy).observed (activities policy))
    (fun c l => stampedInTime c l ∧ activeBetween c l) (Config.idle (w, [])) c) : Watched policy c := by
  refine reach.invariant (I := Watched policy) ⟨fun _ _ none => (nomatch none), fun _ none => (nomatch none)⟩
    fun c l c' h step admitted => ?_
  cases step with
  | @begin a request program idle serve =>
    refine ⟨h.stamps, fun jail found => ?_⟩
    refine (h.idle jail found).imp_right fun looks program working => ?_
    rcases left_cases working with ⟨rfl, left⟩ | ⟨_, working⟩
    · cases left
      cases request with
      | tick => cases serve; exact looksAgain_of_judging (γ := ⟨none, none⟩) (fun none => nomatch none) runMonitor_judges
      | _ => cases serve
    · exact looks program working
  | act at_work may => exact watched_act h at_work may admitted.1 admitted.2
  | @finish a at_work =>
    refine ⟨h.stamps, fun jail found => ?_⟩
    refine (h.idle jail found).imp_right fun looks program working => ?_
    rcases left_cases working with ⟨_, left⟩ | ⟨_, working⟩
    · cases left
    · exact looks program working
  | drop at_work droppable => cases droppable
  | env moved =>
    obtain ⟨u, there, rfl⟩ := Option.map_eq_some_iff.mp moved
    refine ⟨?_, fun jail found => ?_⟩
    · rw [(World.change_maps there).2]
      exact h.stamps
    · exact (h.idle jail found).imp_left fun inactive active => inactive (active.earlier (World.change_clock there))

/-- Where the last SET_PRIORITY of a jail that was made active inside the window has stamped
it so, and no jail is made active between the monitor's look at it and its freeze, the
monitor freezes no jail that was made active inside the window. -/
theorem frozen_jail_was_idle
    (reach : Reach ((lifecycled policy).observed (activities policy)) (fun c l => stampedInTime c l ∧ activeBetween c l)
      (Config.idle (w, [])) c)
    (freezes : Step ((lifecycled policy).observed (activities policy)) c
      (.act ⟨.monitor, .note (.invoked (.freeze jail)), ()⟩) c') :
    ¬ ActiveAt policy c.world.2 jail c.world.1.clock := by
  have found : (judgingOn policy c).idle = some jail :=
    (reach_judges (reach.mono fun _ _ _ => trivial)).allows freezes jail rfl
  rcases (reach_watched reach).idle jail found with inactive | looks
  · exact inactive
  · cases freezes with
    | act at_work may => exact absurd rfl (looks _ at_work).1

/-- Every jail that is made active is so while the monitor is at rest. -/
def activeAtRest (c : Config Daemon Actor (World × List Activity)) :
    Label ((lifecycled policy).observed (activities policy)) → Bool
  | .act ⟨_, op, _⟩ => (activity c.world.1 op).isNone || (c.running .monitor).isNone
  | _ => true

theorem activeBetween_of_rest {l : Label ((lifecycled policy).observed (activities policy))}
    (rest : activeAtRest c l = true) : activeBetween c l := by
  unfold activeBetween
  split
  · intro e new program working
    simp [activeAtRest, new, working] at rest
  · trivial

/-- The jail is thawed; some time later a tick at 40 percent finds it idle. -/
def thawThenWarn (policy : LifecyclePolicy) (later : Nat) : List (Label (lifecycled policy)) :=
  thaw policy ++ .env (Change.pass later) :: .begin .monitor .tick :: calling (lifecycled policy) .monitor
    [⟨.sleep 5, ()⟩, ⟨.sysctl "vm.stats.vm.v_page_count", .ok 100⟩, ⟨.sysctl "vm.stats.vm.v_free_count", .ok 40⟩,
      ⟨.sysctl "vm.stats.vm.v_inactive_count", .ok 0⟩, ⟨.prioritiesValues, ([⟨"app", 200, 0⟩] : List JailPriority)⟩,
      ⟨.guardLoad, false⟩, ⟨.unixTime, later⟩, ⟨.prioritiesGet "app", some (⟨"app", 200, 0⟩ : JailPriority)⟩,
      ⟨.statesGet "app", some .running⟩, ⟨.note (.warnFreezing "app"), ()⟩]

/-- A jail that was thawed 40 s ago. -/
theorem frozen_jail_was_idle_40 : ∃ c c', c.world.1.clock = 40 ∧ c.world.2 = [⟨"app", 0, none⟩] ∧
    Step ((lifecycled (.forPlatform true)).observed (activities (.forPlatform true))) c
      (.act ⟨.monitor, .note (.invoked (.freeze "app")), ()⟩) c' ∧
    ¬ ActiveAt (.forPlatform true) c.world.2 "app" c.world.1.clock := by
  obtain ⟨c, reach, checked⟩ := replay_check
    (fun c (l : Label ((lifecycled (.forPlatform true)).observed (activities (.forPlatform true)))) => stampedInTime c l && activeAtRest c l)
    (fun _ _ admitted => (Bool.and_eq_true_iff.mp admitted).imp_right activeBetween_of_rest)
    (Config.idle (oneCandidate 200, []))
    ((thawThenWarn (.forPlatform true) 40).map (Label.observed (activities (.forPlatform true))))
    (fun c => (c.world.1.clock = 40 ∧ c.world.2 = [⟨"app", 0, none⟩]) &&
      (c.fire (S := (lifecycled (.forPlatform true)).observed (activities (.forPlatform true)))
        (.act ⟨.monitor, .note (.invoked (.freeze "app")), ()⟩)).isSome) (by decide +kernel)
  obtain ⟨past, fired⟩ := Bool.and_eq_true_iff.mp checked
  obtain ⟨clock, once⟩ := of_decide_eq_true past
  obtain ⟨c', fired⟩ := Option.isSome_iff_exists.mp fired
  have freezes := Config.fire_step fired
  exact ⟨c, c', clock, once, freezes, frozen_jail_was_idle reach freezes⟩

/-- A jail the user has thawed is frozen on the next tick, 5 s later. -/
theorem thawed_jail_frozen : (oneCandidate 200).Started ∧ ∃ c c',
    Reach ((lifecycled (.forPlatform true)).observed (activities (.forPlatform true))) (anyStep _)
      (Config.idle (oneCandidate 200, [])) c ∧
    Step ((lifecycled (.forPlatform true)).observed (activities (.forPlatform true))) c
      (.act ⟨.monitor, .note (.invoked (.freeze "app")), ()⟩) c' ∧
    c.world.1.clock = 5 ∧ ActiveAt (.forPlatform true) c.world.2 "app" c.world.1.clock := by
  obtain ⟨c, reach, checked⟩ := replay_check (fun _ _ => true) (fun _ _ _ => trivial)
    (Config.idle (oneCandidate 200, []))
    ((thawThenWarn (.forPlatform true) 5).map (Label.observed (activities (.forPlatform true))))
    (fun c => (c.world.1.clock = 5 ∧ ActiveAt (.forPlatform true) c.world.2 "app" c.world.1.clock) &&
      (c.fire (S := (lifecycled (.forPlatform true)).observed (activities (.forPlatform true)))
        (.act ⟨.monitor, .note (.invoked (.freeze "app")), ()⟩)).isSome) (by decide +kernel)
  obtain ⟨active, fired⟩ := Bool.and_eq_true_iff.mp checked
  obtain ⟨c', fired⟩ := Option.isSome_iff_exists.mp fired
  exact ⟨oneCandidate_started 200, c, c', reach, Config.fire_step fired, of_decide_eq_true active⟩

end runs

end Bsdos.Lifecycle
