import Bsdos.Lifecycle.Progress

namespace Bsdos.Lifecycle
open Effects

variable {policy : LifecyclePolicy} {a : Actor} {w w' : World} {moments : List (Moment Daemon World)} {jail : String}

/-- STATUS answers, and the state it prints, the one `jail_snapshot` returns, is Running. -/
def ReportsRunning (policy : LifecyclePolicy) (a : Actor) (w : World) (jail : String) : Prop :=
  ValidId jail ∧ ∃ moments jid pids w',
    Exec (lifecycled policy) a (jailSnapshot jail) w moments (jid, .running, pids) w'

/-- The jail has been idle for long enough at `now`. -/
def World.IdleAt (policy : LifecyclePolicy) (w : World) (jail : String) (now : Nat) : Prop :=
  ∀ p, w.priorities.lookup jail = some p → p.lastActive = 0 ∨ policy.idleFreezeSecs ≤ now - p.lastActive

/-- The other three readers of the map treat the jail as running: when its turn comes the
Warn branch freezes it once it is idle and the Critical branch evicts it, and a restore
does not call it dead. -/
structure TreatedAsRunning (policy : LifecyclePolicy) (a : Actor) (w : World) (jail : String) : Prop where
  warn : ∀ now moments w', w.IdleAt policy jail now →
    Exec (lifecycled policy) a (warnJail policy now jail) w moments () w' → .freeze jail ∈ invocations moments
  critical : ∀ moments w', Exec (lifecycled policy) a (criticalJail jail) w moments () w' →
    invocations moments = [.hibernate jail, .kill jail]
  restore : ∀ moments r w', Exec (lifecycled policy) a (restoreApplication jail).run w moments r w' →
    r ≠ .error "cannot restore from state: Dead"

def ReadersAgree (policy : LifecyclePolicy) (a : Actor) (w : World) (jail : String) : Prop :=
  ReportsRunning policy a w jail → TreatedAsRunning policy a w jail

theorem exec_jailSnapshot {jid : Int} {state : AppState} {pids : List Int}
    (exec : Exec (lifecycled policy) a (jailSnapshot jail) w moments (jid, state, pids) w') :
    state = (w.states.lookup jail).getD .running := by
  obtain ⟨tracked, rest, may, rfl, tail⟩ := exec
  have read := World.may_statesGet may
  subst read
  obtain ⟨r, rest, _, rfl, tail⟩ := tail
  cases r with
  | ok jid =>
    obtain ⟨r, rest, _, rfl, tail⟩ := tail
    cases tail.2.1
    rfl
  | error e =>
    cases tail.2.1
    rfl

/-- A jail nobody tracks is reported as running. -/
theorem reports_untracked (valid : ValidId jail) (untracked : w.states.lookup jail = none) :
    ReportsRunning policy a w jail := by
  refine ⟨valid, [⟨w, .statesGet jail, none⟩, ⟨w, .jidByName jail, .error "jail_get"⟩], -1, [], w, ?_⟩
  refine ⟨none, _, decide_eq_true untracked.symm, rfl, .error "jail_get", _, rfl, rfl, ?_⟩
  exact ⟨rfl, rfl, rfl⟩

theorem exec_isIdlePast {now : Nat} {idle : Bool}
    (exec : Exec (lifecycled policy) a (isIdlePast jail policy.idleFreezeSecs now) w moments idle w') :
    w' = w ∧ invocations moments = [] ∧ (w.IdleAt policy jail now → idle = true) := by
  obtain ⟨entry, rest, may, rfl, tail⟩ := exec
  have read : entry = w.priorities.lookup jail := World.may_prioritiesGet may
  cases entry with
  | none =>
    obtain ⟨rfl, rfl, rfl⟩ := tail
    exact ⟨rfl, rfl, fun _ => rfl⟩
  | some p =>
    obtain ⟨id, priority, active⟩ := p
    cases active with
    | zero =>
      obtain ⟨rfl, rfl, rfl⟩ := tail
      exact ⟨rfl, rfl, fun _ => rfl⟩
    | succ n =>
      obtain ⟨rfl, rfl, rfl⟩ := tail
      refine ⟨rfl, rfl, fun idle => decide_eq_true ?_⟩
      exact (idle _ read.symm).resolve_left (Nat.succ_ne_zero n)

/-- The Warn branch freezes an idle jail that is tracked as running. -/
theorem exec_warnJail_freezes {now : Nat} (running : w.states.lookup jail = some .running)
    (idle : w.IdleAt policy jail now) (exec : Exec (lifecycled policy) a (warnJail policy now jail) w moments () w') :
    .freeze jail ∈ invocations moments := by
  obtain ⟨first, found, u, rest, look, back, rfl⟩ := exec_bind.mp exec
  obtain ⟨rfl, _, judged⟩ := exec_isIdlePast look
  rw [judged idle] at back
  obtain ⟨state, rest, may, rfl, tail⟩ := back
  have read : state = some .running := (World.may_statesGet may).trans running
  subst read
  obtain ⟨_, rest, _, rfl, tail⟩ := tail
  have freezing : Exec (lifecycled policy) a ((freezeApplication jail).run >>= fun _ => Prog.ret ()) u rest () w' := tail
  obtain ⟨froze, _, _, _, frozen, _, rfl⟩ := exec_bind.mp freezing
  obtain ⟨inner, rfl, _⟩ := exec_operation.mp frozen
  rw [invocations_append]
  refine List.mem_append_right _ ?_
  simp [invocations]

theorem exec_restore_running {r : Except String String} (running : w.states.lookup jail = some .running)
    (valid : ValidId jail)
    (exec : Exec (lifecycled policy) a (restoreApplication jail).run w moments r w') :
    r = .error "cannot restore from state: Running" := by
  obtain ⟨inner, rfl, ⟨_, body⟩ | ⟨e, refused, _⟩⟩ := exec_operation.mp exec
  · obtain ⟨state, rest, may, rfl, tail⟩ := body
    cases (World.may_statesGet may).trans running
    obtain ⟨rfl, rfl, rfl⟩ := tail
    rfl
  · exact absurd (valid.symm.trans refused) (by simp)

/-- A jail tracked as running is treated as running by everyone. -/
theorem treated_tracked (valid : ValidId jail) (running : w.states.lookup jail = some .running) :
    TreatedAsRunning policy a w jail where
  warn _ _ _ idle exec := exec_warnJail_freezes running idle exec
  critical _ _ exec := (exec_criticalJail_evicts valid (.inl running) exec).1
  restore _ r _ exec := by
    rw [exec_restore_running running valid exec]
    decide

/-- The Critical branch does nothing to a jail nobody tracks. -/
theorem untreated_untracked (untracked : w.states.lookup jail = none) : ¬ TreatedAsRunning policy a w jail := by
  intro treated
  have spared : Exec (lifecycled policy) a (criticalJail jail) w [⟨w, .statesGet jail, none⟩] () w :=
    ⟨none, [], decide_eq_true untracked.symm, rfl, rfl, rfl, rfl⟩
  cases treated.critical _ _ spared

/-- The readers of the state map agree on a jail exactly where it is tracked, or where
its name is one that STATUS refuses. -/
theorem readers_agree_iff : ReadersAgree policy a w jail ↔ (ValidId jail → w.states.lookup jail ≠ none) := by
  constructor
  · intro agree valid untracked
    exact untreated_untracked untracked (agree (reports_untracked valid untracked))
  · rintro tracked ⟨valid, _, _, _, _, exec⟩
    have reported := exec_jailSnapshot exec
    obtain ⟨state, at_jail⟩ := Option.ne_none_iff_exists'.mp (tracked valid)
    rw [at_jail, Option.getD_some] at reported
    exact treated_tracked valid (reported ▸ at_jail)

def refusedWith (text : String) : Except String String → Bool
  | .ok _ => false
  | .error e => e = text

/-- Right after startup STATUS calls a live jail running, and a restore of it calls it dead. -/
theorem readers_disagree_at_start : (oneCandidate 200).Started ∧
    (∃ p, (oneCandidate 200).priorities.lookup "app" = some p) ∧ ((oneCandidate 200).liveProcs "app").length = 1 ∧
    ¬ ReadersAgree (.forPlatform true) (.conn 0) (oneCandidate 200) "app" := by
  refine ⟨oneCandidate_started 200, ⟨⟨"app", 200, 0⟩, by decide +kernel⟩, by decide +kernel, fun agree => ?_⟩
  obtain ⟨_, answer, _, status, checked⟩ := play_check (S := lifecycled (.forPlatform true)) (a := .conn 0)
    (p := jailSnapshot "app") (w := oneCandidate 200)
    [⟨.statesGet "app", none⟩, ⟨.jidByName "app", .ok 1⟩, ⟨.jailPids 1, .ok [10]⟩]
    (fun out => out.2.1 = (1, AppState.running, [10])) (by decide +kernel)
  obtain rfl : answer = (1, AppState.running, [10]) := of_decide_eq_true checked
  have treated := agree ⟨by rfl, _, _, _, _, status⟩
  obtain ⟨_, r, _, restore, refused⟩ := play_check (S := lifecycled (.forPlatform true)) (a := .conn 0)
    (p := (restoreApplication "app").run) (w := oneCandidate 200)
    [⟨.note (.invoked (.restore "app")), ()⟩, ⟨.statesGet "app", none⟩, ⟨.note (.returned (.restore "app") false), ()⟩]
    (fun out => refusedWith "cannot restore from state: Dead" out.2.1) (by decide +kernel)
  cases r with
  | ok answer => cases refused
  | error e => exact treated.restore _ _ _ restore (congrArg Except.error (of_decide_eq_true refused))

end Bsdos.Lifecycle
