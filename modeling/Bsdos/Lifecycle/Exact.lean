import Bsdos.Lifecycle.Signals
import Bsdos.Lifecycle.Eviction

namespace Bsdos.Lifecycle
open Effects

/-- A kernel has one process to a PID and one jail to a name. -/
structure World.Kernel (w : World) : Prop where
  pids : (w.procs.map Proc.pid).Nodup
  names : ∀ i ∈ w.jails, ∀ j ∈ w.jails, i.name = j.name → i = j

/-- The kernel hands out neither a PID nor a jail name that is in use. -/
def kernel {policy : LifecyclePolicy} (c : Config Daemon Actor World) : Label (lifecycled policy) → Bool
  | .env (.start p) => !(c.world.procs.map Proc.pid).contains p.pid
  | .env (.jailUp j) => !(c.world.jails.map JailInfo.name).contains j.name
  | _ => true

/-- A task has resolved the jail of its operation and still has to list its processes, or
to signal those listed. -/
structure Sweep.Busy (γ : Sweep) (c : Call) (jid : Int) : Prop where
  call : γ.call = some c
  jid : γ.jid = some jid
  left : γ.left ≠ some []

/-- What must not happen while task `a` sweeps a jail: the jail is not removed; no process
starts in it but under a PID still to be signalled, and none outside it under such a PID;
nobody wakes a process of it that a stop is past; and the task's own signals to live
processes get through. -/
def Harmless (w : World) (γ : Sweep) (call : Call) (jid : Int) (a : Actor) {policy : LifecyclePolicy} :
    Label (lifecycled policy) → Prop
  | .env (.start p) => ∀ pids, γ.left = some pids → (p.jid = jid ↔ p.pid ∈ pids)
  | .env (.jailDown j) => j ≠ jid
  | .act ⟨b, .kill pid _, .error _⟩ => b = a → ∀ p ∈ w.procs, p.pid ≠ pid
  | .act ⟨_, .kill pid sig, .ok ()⟩ => sig = .cont → call.signal = .stop → ∀ pids, γ.left = some pids →
      ∀ p ∈ w.procs, p.jid = jid → p.pid = pid → pid ∈ pids
  | _ => True

def undisturbed {policy : LifecyclePolicy} (c : Config Daemon Actor World) (l : Label (lifecycled policy)) : Prop :=
  ∀ a call jid, (sweepOf a c.history).Busy call jid → Harmless c.world (sweepOf a c.history) call jid a l

/-- The PID a signal was delivered to. -/
def struck : Event Daemon Actor → Option Int
  | ⟨_, .kill pid _, .ok ()⟩ => some pid
  | _ => none

/-- Between the listing and the last signal: the PIDs left are of the jail, and whoever
else is in it has been dealt with. -/
structure Sweeping (w : World) (call : Call) (jid : Int) (pids : List Int) : Prop where
  up : ⟨jid, call.jail⟩ ∈ w.jails
  own : ∀ p ∈ w.procs, p.pid ∈ pids → p.jid = jid
  stopped : call.signal = .stop → ∀ p ∈ w.procs, p.jid = jid → p.stopped ∨ p.pid ∈ pids
  killed : call.signal = .kill → ∀ p ∈ w.procs, p.jid = jid → p.pid ∈ pids

/-- What a task knows of the jail of its operation is so. -/
structure Sweep.Sound (w : World) (γ : Sweep) (call : Call) : Prop where
  resolved : γ.left = none → ∀ jid, γ.jid = some jid → ⟨jid, call.jail⟩ ∈ w.jails
  listed : ∀ pids, γ.left = some pids → ∃ jid, γ.jid = some jid ∧ Sweeping w call jid pids

/-- Until its last signal, every task knows what is so. -/
def Holding (c : Config Daemon Actor World) : Prop :=
  ∀ a call, (sweepOf a c.history).call = some call → (sweepOf a c.history).left ≠ some [] →
    (sweepOf a c.history).Sound c.world call

section steps
variable {policy : LifecyclePolicy} {w w' : World} {call : Call} {jid : Int} {pids : List Int} {a : Actor} {γ : Sweep}

/-- Every process a delivered signal leaves is one there was, with its PID and its jail. -/
theorem mem_deliver {sig : Sig} {pid : Int} {procs : List Proc} {p : Proc} (member : p ∈ sig.deliver pid procs) :
    ∃ q ∈ procs, q.pid = p.pid ∧ q.jid = p.jid ∧
      (q = p ∨ q.pid = pid ∧ (sig = .stop ∧ p.stopped = true ∨ sig = .cont)) := by
  cases sig with
  | stop =>
    obtain ⟨q, there, rfl⟩ := List.mem_map.mp member
    refine ⟨q, there, ?_⟩
    by_cases here : q.pid = pid
    · rw [if_pos here]
      exact ⟨rfl, rfl, .inr ⟨here, .inl ⟨rfl, rfl⟩⟩⟩
    · rw [if_neg here]
      exact ⟨rfl, rfl, .inl rfl⟩
  | cont =>
    obtain ⟨q, there, rfl⟩ := List.mem_map.mp member
    refine ⟨q, there, ?_⟩
    by_cases here : q.pid = pid
    · rw [if_pos here]
      exact ⟨rfl, rfl, .inr ⟨here, .inr rfl⟩⟩
    · rw [if_neg here]
      exact ⟨rfl, rfl, .inl rfl⟩
  | kill =>
    obtain ⟨there, other⟩ := List.mem_filter.mp member
    exact ⟨p, there, rfl, rfl, .inl rfl⟩
  | probe => exact ⟨p, member, rfl, rfl, .inl rfl⟩

/-- Who is still there under the PID a stop or a kill went to has been stopped. -/
theorem deliver_hits {sig : Sig} {pid : Int} {procs : List Proc} {p : Proc} (member : p ∈ sig.deliver pid procs)
    (here : p.pid = pid) : (sig = .stop → p.stopped = true) ∧ sig ≠ .kill := by
  cases sig with
  | stop =>
    obtain ⟨q, there, rfl⟩ := List.mem_map.mp member
    have same : q.pid = pid := by
      by_cases hit : q.pid = pid
      · exact hit
      · rwa [if_neg hit] at here
    rw [if_pos same]
    exact ⟨fun _ => rfl, by simp⟩
  | kill =>
    obtain ⟨_, other⟩ := List.mem_filter.mp member
    exact absurd here (of_decide_eq_true other)
  | _ => simp

theorem deliver_pids (sig : Sig) (pid : Int) (procs : List Proc) :
    ((sig.deliver pid procs).map Proc.pid).Sublist (procs.map Proc.pid) := by
  have kept (stopped : Bool) :
      (procs.map fun p => if p.pid = pid then { p with stopped := stopped } else p).map Proc.pid = procs.map Proc.pid := by
    rw [List.map_map]
    refine List.map_congr_left fun p _ => ?_
    show (if p.pid = pid then { p with stopped := stopped } else p).pid = p.pid
    split <;> rfl
  cases sig with
  | stop => exact kept true ▸ .refl _
  | cont => exact kept false ▸ .refl _
  | kill => exact List.filter_sublist.map _
  | probe => exact .refl _

/-- What a call of a task does to the processes, and that it leaves the jails alone. -/
theorem World.after_procs (w : World) (op : Op) (r : op.Ret) :
    (w.after op r).jails = w.jails ∧ ((w.after op r).procs = w.procs ∨
      ∃ pid sig, op = .kill pid sig ∧ HEq r (Except.ok () : Except Int Unit) ∧
        (w.after op r).procs = sig.deliver pid w.procs) := by
  cases op with
  | kill pid sig =>
    cases r with
    | ok u => exact ⟨rfl, .inr ⟨pid, sig, rfl, HEq.rfl, rfl⟩⟩
    | error e => exact ⟨rfl, .inl rfl⟩
  | _ => exact ⟨rfl, .inl rfl⟩

theorem World.Kernel.after (h : w.Kernel) (op : Op) (r : op.Ret) : (w.after op r).Kernel := by
  obtain ⟨jails, procs⟩ := World.after_procs w op r
  constructor
  · rcases procs with same | ⟨pid, sig, _, _, delivered⟩
    · rw [same]
      exact h.pids
    · rw [delivered]
      exact (deliver_pids sig pid w.procs).nodup h.pids
  · rw [jails]
    exact h.names

theorem World.Kernel.change (h : w.Kernel) {c : Config Daemon Actor World} {change : Change}
    (fresh : kernel c (.env change : Label (lifecycled policy))) (there : c.world = w) (moved : w.change change = some w') :
    w'.Kernel := by
  subst there
  cases change with
  | start p =>
    cases moved
    refine ⟨List.nodup_cons.mpr ⟨?_, h.pids⟩, h.names⟩
    simpa [kernel] using fresh
  | exit pid =>
    cases moved
    exact ⟨(List.filter_sublist.map Proc.pid).nodup h.pids, h.names⟩
  | jailUp new =>
    cases moved
    have unused (j : JailInfo) (there : j ∈ c.world.jails) : j.name ≠ new.name := by
      intro same
      simp only [kernel, Bool.not_eq_true', List.contains_eq_mem, decide_eq_false_iff_not] at fresh
      exact fresh (List.mem_map.mpr ⟨j, there, same⟩)
    refine ⟨h.pids, fun i hi j hj same => ?_⟩
    rcases List.mem_cons.mp hi with rfl | there
    · rcases List.mem_cons.mp hj with rfl | there
      · rfl
      · exact absurd same.symm (unused j there)
    · rcases List.mem_cons.mp hj with rfl | there'
      · exact absurd same (unused i there)
      · exact h.names i there j there' same
  | jailDown jid =>
    cases moved
    exact ⟨h.pids, fun i hi j hj => h.names i (List.mem_filter.mp hi).1 j (List.mem_filter.mp hj).1⟩
  | pass n => cases moved; exact ⟨h.pids, h.names⟩
  | guardTimer deadline =>
    simp only [World.change] at moved
    split at moved
    · cases moved; exact ⟨h.pids, h.names⟩
    · cases moved

/-- Of a jail by that name are the processes with its jid. -/
theorem mem_liveProcs (h : w.Kernel) {jail : String} (up : ⟨jid, jail⟩ ∈ w.jails) {p : Proc} :
    p ∈ w.liveProcs jail ↔ p ∈ w.procs ∧ p.jid = jid := by
  simp only [World.liveProcs, List.mem_filter, List.contains_iff_mem]
  refine and_congr_right fun _ => ⟨fun there => ?_, fun same => same ▸ up⟩
  exact congrArg JailInfo.jid (h.names _ there _ up rfl)

/-- A listing of a jail finds who is in it. -/
theorem sweeping_listed (h : w.Kernel) (up : ⟨jid, call.jail⟩ ∈ w.jails) : Sweeping w call jid (w.pidsOf jid) := by
  have listed (p : Proc) (there : p ∈ w.procs) (own : p.jid = jid) : p.pid ∈ w.pidsOf jid :=
    List.mem_map.mpr ⟨p, List.mem_filter.mpr ⟨there, by simpa using own⟩, rfl⟩
  refine ⟨up, fun p there member => ?_, fun _ p there own => .inr (listed p there own), fun _ => listed⟩
  obtain ⟨q, found, same⟩ := List.mem_map.mp member
  obtain ⟨here, own⟩ := List.mem_filter.mp found
  have one : q = p := List.inj_on_of_nodup_map h.pids here there same
  simpa [one] using own

/-- The task's own next signal. -/
theorem Sweeping.signal {pid : Int} (h : Sweeping w call jid (pid :: pids)) (r : Except Int Unit)
    (through : ∀ e, r = .error e → ∀ p ∈ w.procs, p.pid ≠ pid) :
    Sweeping (w.after (.kill pid call.signal) r) call jid pids := by
  cases r with
  | error e =>
    have missed := through e rfl
    have later (p : Proc) (there : p ∈ w.procs) (member : p.pid ∈ pid :: pids) : p.pid ∈ pids :=
      (List.mem_cons.mp member).resolve_left (missed p there)
    refine ⟨h.up, fun p there member => h.own p there (List.mem_cons_of_mem _ member), ?_, ?_⟩
    · intro stop p there own
      exact (h.stopped stop p there own).imp_right (later p there)
    · intro kill p there own
      exact later p there (h.killed kill p there own)
  | ok u =>
    refine ⟨h.up, fun p there member => ?_, fun stop p there own => ?_, fun kill p there own => ?_⟩
    · obtain ⟨q, found, samePid, sameJid, _⟩ := mem_deliver there
      rw [← sameJid]
      exact h.own q found (samePid ▸ List.mem_cons_of_mem _ member)
    · obtain ⟨q, found, samePid, sameJid, kept⟩ := mem_deliver there
      by_cases here : p.pid = pid
      · exact .inl ((deliver_hits there here).1 stop)
      · rcases kept with rfl | ⟨hit, _⟩
        · exact (h.stopped stop q found own).imp_right fun member => (List.mem_cons.mp member).resolve_left here
        · exact absurd (samePid.symm.trans hit) here
    · obtain ⟨q, found, samePid, sameJid, _⟩ := mem_deliver there
      have other : p.pid ≠ pid := fun here => (deliver_hits there here).2 kill
      have member := h.killed kill q found (sameJid.trans own)
      rw [samePid] at member
      exact (List.mem_cons.mp member).resolve_left other

/-- A signal of another task. -/
theorem Sweeping.deliver {pid : Int} {sig : Sig} (h : Sweeping w call jid pids)
    (mild : sig = .cont → call.signal = .stop → ∀ p ∈ w.procs, p.jid = jid → p.pid = pid → pid ∈ pids) :
    Sweeping { w with procs := sig.deliver pid w.procs } call jid pids := by
  refine ⟨h.up, fun p there member => ?_, fun stop p there own => ?_, fun kill p there own => ?_⟩
  · obtain ⟨q, found, samePid, sameJid, _⟩ := mem_deliver there
    rw [← sameJid]
    exact h.own q found (samePid ▸ member)
  · obtain ⟨q, found, samePid, sameJid, kept⟩ := mem_deliver there
    rcases kept with rfl | ⟨hit, ⟨_, stopped⟩ | woken⟩
    · exact h.stopped stop q found own
    · exact .inl stopped
    · have member := mild woken stop q found (sameJid.trans own) hit
      exact .inr (samePid ▸ hit ▸ member)
  · obtain ⟨q, found, samePid, sameJid, _⟩ := mem_deliver there
    exact samePid ▸ h.killed kill q found (sameJid.trans own)

/-- Fewer processes, or one more that is still to be signalled. -/
theorem Sweeping.change (h : Sweeping w call jid pids) {change : Change}
    (mild : Harmless w γ call jid a (.env change : Label (lifecycled policy))) (left : γ.left = some pids)
    (moved : w.change change = some w') : Sweeping w' call jid pids := by
  cases change with
  | start new =>
    cases moved
    have same := mild pids left
    refine ⟨h.up, fun p there member => ?_, fun stop p there own => ?_, fun kill p there own => ?_⟩
    · rcases List.mem_cons.mp there with rfl | there
      · exact same.mpr member
      · exact h.own p there member
    · rcases List.mem_cons.mp there with rfl | there
      · exact .inr (same.mp own)
      · exact h.stopped stop p there own
    · rcases List.mem_cons.mp there with rfl | there
      · exact same.mp own
      · exact h.killed kill p there own
  | exit pid =>
    cases moved
    exact ⟨h.up, fun p there => h.own p (List.mem_filter.mp there).1,
      fun stop p there => h.stopped stop p (List.mem_filter.mp there).1,
      fun kill p there => h.killed kill p (List.mem_filter.mp there).1⟩
  | jailUp new =>
    cases moved
    exact ⟨List.mem_cons_of_mem _ h.up, h.own, h.stopped, h.killed⟩
  | jailDown other =>
    cases moved
    refine ⟨List.mem_filter.mpr ⟨h.up, ?_⟩, h.own, h.stopped, h.killed⟩
    simpa using fun same : jid = other => mild same.symm
  | pass n => cases moved; exact ⟨h.up, h.own, h.stopped, h.killed⟩
  | guardTimer deadline =>
    simp only [World.change] at moved
    split at moved
    · cases moved; exact ⟨h.up, h.own, h.stopped, h.killed⟩
    · cases moved

/-- The task's own next call. -/
theorem Sweep.Sound.own {op : Op} {r : op.Ret} (kept : w.Kernel)
    (h : ∀ call, γ.call = some call → γ.left ≠ some [] → γ.Sound w call)
    (allowed : sweep.allows γ op) (may : w.may op r)
    (through : ∀ call jid, γ.Busy call jid → Harmless w γ call jid a (.act ⟨a, op, r⟩ : Label (lifecycled policy))) :
    ∀ call, (sweep.next γ op r).call = some call → (sweep.next γ op r).Sound (w.after op r) call := by
  intro call inside
  have fresh {γ' : Sweep} {w' : World} (jid : γ'.jid = none) (left : γ'.left = none) : γ'.Sound w' call :=
    ⟨fun _ _ resolved => by simp [jid] at resolved, fun _ listed => by simp [left] at listed⟩
  cases op with
  | note n =>
    cases n with
    | returned c ok => simp [sweep, Sweep.idle] at inside
    | _ => exact fresh rfl rfl
  | jidByName name =>
    cases r with
    | error e => exact fresh rfl rfl
    | ok jid =>
      have same : name = call.jail := allowed call inside
      refine ⟨fun _ jid' resolved => ?_, fun _ listed => nomatch listed⟩
      cases resolved
      have up : w.jails.contains ⟨jid, name⟩ = true := may
      exact same ▸ List.contains_iff_mem.mp up
  | jailPids jid =>
    cases r with
    | error e => exact fresh rfl rfl
    | ok pids =>
      obtain ⟨resolved, unlisted⟩ := allowed call inside
      have up := (h call inside (by simp [unlisted])).resolved unlisted jid resolved
      refine ⟨fun none => (nomatch none), fun pids' listed => ⟨jid, resolved, ?_⟩⟩
      cases listed
      have all : pids = w.pidsOf jid := of_decide_eq_true may
      exact all ▸ sweeping_listed kept up
  | kill pid sig =>
    obtain ⟨call', jid, pids, here, resolved, left, rfl⟩ := allowed
    cases Option.some.inj (here.symm.trans inside)
    have open' : γ.left ≠ some [] := by simp [left]
    obtain ⟨jid', resolved', sweeping⟩ := (h call here open').listed _ left
    cases Option.some.inj (resolved.symm.trans resolved')
    have mild := through call jid ⟨here, resolved, open'⟩
    have after : (sweep.next γ (.kill pid call.signal) r).left = some pids := congrArg (Option.map List.tail) left
    refine ⟨fun none => ?_, fun pids' listed => ⟨jid, resolved, ?_⟩⟩
    · rw [after] at none
      cases none
    · cases Option.some.inj (after.symm.trans listed)
      refine sweeping.signal r fun e failed => ?_
      subst failed
      exact mild rfl
  | _ => exact fresh rfl rfl

/-- A call of another task. -/
theorem Sweep.Sound.other {b : Actor} {op : Op} {r : op.Ret} (h : γ.Sound w call) (inside : γ.call = some call)
    (left : γ.left ≠ some [])
    (mild : ∀ call jid, γ.Busy call jid → Harmless w γ call jid a (.act ⟨b, op, r⟩ : Label (lifecycled policy))) :
    γ.Sound (w.after op r) call := by
  obtain ⟨jails, procs⟩ := World.after_procs w op r
  refine ⟨fun unlisted jid resolved => jails ▸ h.resolved unlisted jid resolved, fun pids listed => ?_⟩
  obtain ⟨jid, resolved, sweeping⟩ := h.listed pids listed
  refine ⟨jid, resolved, ?_⟩
  have harmless := mild call jid ⟨inside, resolved, left⟩
  cases op with
  | kill pid sig =>
    cases r with
    | error e => exact sweeping
    | ok u =>
      exact sweeping.deliver fun woken stop p there own hit => harmless woken stop pids listed p there own hit
  | _ => exact ⟨sweeping.up, sweeping.own, sweeping.stopped, sweeping.killed⟩

theorem Sweep.Sound.change (h : γ.Sound w call) (inside : γ.call = some call) (left : γ.left ≠ some []) {change : Change}
    (mild : ∀ call jid, γ.Busy call jid → Harmless w γ call jid a (.env change : Label (lifecycled policy)))
    (moved : w.change change = some w') : γ.Sound w' call := by
  refine ⟨fun unlisted jid resolved => ?_, fun pids listed => ?_⟩
  · have up := h.resolved unlisted jid resolved
    have harmless := mild call jid ⟨inside, resolved, left⟩
    cases change with
    | jailUp new => cases moved; exact List.mem_cons_of_mem _ up
    | jailDown other =>
      cases moved
      refine List.mem_filter.mpr ⟨up, ?_⟩
      simpa using fun same : jid = other => harmless same.symm
    | guardTimer deadline =>
      simp only [World.change] at moved
      split at moved
      · cases moved; exact up
      · cases moved
    | _ => cases moved; exact up
  · obtain ⟨jid, resolved, sweeping⟩ := h.listed pids listed
    exact ⟨jid, resolved, sweeping.change (mild call jid ⟨inside, resolved, left⟩) listed moved⟩

end steps

section runs
variable {policy : LifecyclePolicy} {w : World} {c c' : Config Daemon Actor World}

/-- Runs in which nothing disturbs a sweep. -/
def quiet (policy : LifecyclePolicy) (c : Config Daemon Actor World) (l : Label (lifecycled policy)) : Prop :=
  kernel c l = true ∧ undisturbed c l

theorem reach_holding (boot : w.Kernel) (reach : Reach (lifecycled policy) (quiet policy) (Config.idle w) c) :
    c.world.Kernel ∧ Holding c := by
  induction reach with
  | start => exact ⟨boot, fun a call inside => nomatch inside⟩
  | @next c l c' previous step quiet h =>
    obtain ⟨kept, holding⟩ := h
    cases step with
    | @act b op next r at_work may =>
      refine ⟨kept.after op r, fun a call inside left => ?_⟩
      by_cases own : b = a
      · subst own
        have moved : sweepOf b (⟨b, op, r⟩ :: c.history) = sweep.next (sweepOf b c.history) op r :=
          Protocol.state_own ..
        have allowed := (reach_sweeps previous (a := b)).allows (Step.act (S := lifecycled policy) at_work may)
        simp only [moved] at inside ⊢
        exact Sweep.Sound.own kept (holding b) allowed may (quiet.2 b) call inside
      · have same : sweepOf a (⟨b, op, r⟩ :: c.history) = sweepOf a c.history := Protocol.state_other _ _ _ own _
        simp only [same] at inside left ⊢
        exact (holding a call inside left).other inside left (quiet.2 a)
    | @env change u moved =>
      refine ⟨kept.change quiet.1 rfl moved, fun a call inside left => ?_⟩
      exact (holding a call inside left).change inside left (quiet.2 a) moved
    | _ => exact ⟨kept, holding⟩

/-- While nothing disturbs a sweep, every signal hits a process of the jail it is meant for,
and when an operation has sent its last one the jail is all stopped, or empty. -/
theorem signals_exact {e : Event Daemon Actor} (boot : w.Kernel)
    (reach : Reach (lifecycled policy) (quiet policy) (Config.idle w) c)
    (step : Step (lifecycled policy) c (.act e) c') (undisturbed : quiet policy c (.act e)) :
    (∀ pid, struck e = some pid → ∃ call, (sweepOf e.actor c.history).call = some call ∧
      (∃ p ∈ c.world.procs, p.pid = pid) ∧ ∀ p ∈ c.world.procs, p.pid = pid → p ∈ c.world.liveProcs call.jail) ∧
    ∀ call, (sweepOf e.actor c'.history).call = some call → (sweepOf e.actor c'.history).left = some [] →
      (call.signal = .stop → ∀ p ∈ c'.world.liveProcs call.jail, p.stopped = true) ∧
      (call.signal = .kill → c'.world.liveProcs call.jail = []) := by
  obtain ⟨kept, holding⟩ := reach_holding boot reach
  have sweeps := (reach_sweeps reach (a := e.actor)).allows step
  cases step with
  | @act a op next r at_work may =>
    refine ⟨fun pid hit => ?_, fun call inside done => ?_⟩
    · cases op with
      | kill pid' sig =>
        cases r with
        | error e => cases hit
        | ok u =>
          cases hit
          obtain ⟨call, jid, pids, inside, resolved, left, _⟩ := sweeps
          have unfinished : (sweepOf a c.history).left ≠ some [] := fun none => nomatch left.symm.trans none
          obtain ⟨jid, _, sweeping⟩ := (holding a call inside unfinished).listed _ left
          refine ⟨call, inside, ?_, fun p there here => ?_⟩
          · have living : (c.world.procs.map Proc.pid).contains pid = true := may
            exact List.mem_map.mp (List.contains_iff_mem.mp living)
          · exact (mem_liveProcs kept sweeping.up).mpr ⟨there, sweeping.own p there (here ▸ List.mem_cons_self ..)⟩
      | _ => cases hit
    · have moved : sweepOf a (⟨a, op, r⟩ :: c.history) = sweep.next (sweepOf a c.history) op r :=
        Protocol.state_own ..
      have sound := Sweep.Sound.own kept (holding a) sweeps may (undisturbed.2 a) call (moved ▸ inside)
      obtain ⟨jid, _, sweeping⟩ := sound.listed [] (moved ▸ done)
      have live (p : Proc) (there : p ∈ (c.world.after op r).liveProcs call.jail) :
          p ∈ (c.world.after op r).procs ∧ p.jid = jid :=
        (mem_liveProcs (kept.after op r) sweeping.up).mp there
      refine ⟨fun stop p there => ?_, fun kill => List.eq_nil_iff_forall_not_mem.mpr fun p there => ?_⟩
      · exact (sweeping.stopped stop p (live p there).1 (live p there).2).resolve_right (by simp)
      · exact absurd (sweeping.killed kill p (live p there).1 (live p there).2) (by simp)

/-- A freeze that has listed the jail's one process, what happens then, and its signal to it. -/
def freezeAmid (policy : LifecyclePolicy) (changes : List Change) : List (Label (lifecycled policy)) :=
  .begin (.conn 0) (.line "FREEZE app") :: calling (lifecycled policy) (.conn 0)
    [⟨.note (.invoked (.freeze "app")), ()⟩, ⟨.jidByName "app", .ok 1⟩, ⟨.jailPids 1, .ok [10]⟩] ++
    changes.map (Label.env (S := lifecycled policy))

/-- Neither does a process start or a jail go, nor is anybody woken or missed. -/
def calm (_ : Config Daemon Actor World) : Label (lifecycled policy) → Bool
  | .env (.start _) | .env (.jailUp _) | .env (.jailDown _) => false
  | .act ⟨_, .kill _ sig, .ok ()⟩ => sig ≠ .cont
  | .act ⟨_, .kill _ _, .error _⟩ => false
  | _ => true

theorem quiet_of_calm {l : Label (lifecycled policy)} (still : calm c l = true) : quiet policy c l := by
  cases l with
  | env change =>
    cases change with
    | start p => cases still
    | jailUp j => cases still
    | jailDown j => cases still
    | _ => exact ⟨rfl, fun _ _ _ _ => trivial⟩
  | act e =>
    obtain ⟨b, op, r⟩ := e
    cases op with
    | kill pid sig =>
      cases r with
      | error e => cases still
      | ok u => exact ⟨rfl, fun _ _ _ _ woken => absurd woken (of_decide_eq_true still)⟩
    | _ => exact ⟨rfl, fun _ _ _ _ => trivial⟩
  | _ => exact ⟨rfl, fun _ _ _ _ => trivial⟩

theorem oneJail_kernel : oneJail.Kernel := ⟨by decide, by decide⟩

/-- A freeze of a jail of one process. -/
theorem signals_exact_freeze : ∃ c c', (sweepOf (.conn 0) c'.history).left = some [] ∧
    Step (lifecycled (.forPlatform false)) c (.act ⟨.conn 0, .kill 10 .stop, .ok ()⟩) c' ∧
    (∀ p ∈ c.world.procs, p.pid = 10 → p ∈ c.world.liveProcs "app") ∧
    ∀ p ∈ c'.world.liveProcs "app", p.stopped = true := by
  obtain ⟨c, reach, checked⟩ := replay_check calm (fun _ _ => quiet_of_calm) (Config.idle oneJail)
    (freezeAmid (.forPlatform false) [])
    (fun c => (sweepOf (.conn 0) c.history).call = some (.freeze "app") &&
      (c.fire (S := lifecycled (.forPlatform false)) (.act ⟨.conn 0, .kill 10 .stop, .ok ()⟩)).any fun c' =>
        (sweepOf (.conn 0) c'.history).call = some (.freeze "app") ∧ (sweepOf (.conn 0) c'.history).left = some [])
    (by decide +kernel)
  obtain ⟨freezing, fired⟩ := Bool.and_eq_true_iff.mp checked
  obtain ⟨c', fired, done⟩ := (Option.any_eq_true _ _).mp fired
  obtain ⟨inside, done⟩ := of_decide_eq_true done
  have step := Config.fire_step fired
  obtain ⟨exact', complete⟩ := signals_exact oneJail_kernel reach step (quiet_of_calm rfl)
  obtain ⟨call, same, _, own⟩ := exact' 10 rfl
  cases Option.some.inj (same.symm.trans (of_decide_eq_true freezing))
  exact ⟨c, c', done, step, own, (complete _ inside done).1 rfl⟩

/-- A freeze whose listed process has gone stops the host process that has got its PID; one
whose listed process has forked returns with the child running. -/
theorem signals_stray : oneJail.Kernel ∧
    (∃ c c', Reach (lifecycled (.forPlatform false)) (fun c l => kernel c l = true) (Config.idle oneJail) c ∧
      Step (lifecycled (.forPlatform false)) c (.act ⟨.conn 0, .kill 10 .stop, .ok ()⟩) c' ∧
      (sweepOf (.conn 0) c.history).call = some (.freeze "app") ∧
      c.world.procs = [⟨10, 0, false⟩] ∧ c.world.jails = [⟨1, "app"⟩] ∧ c'.world.procs = [⟨10, 0, true⟩]) ∧
    ∃ c, Reach (lifecycled (.forPlatform false)) (fun c l => kernel c l = true) (Config.idle oneJail) c ∧
      (sweepOf (.conn 0) c.history).call = some (.freeze "app") ∧ (sweepOf (.conn 0) c.history).left = some [] ∧
      c.world.liveProcs "app" = [⟨11, 1, false⟩, ⟨10, 1, true⟩] := by
  refine ⟨oneJail_kernel, ?_, ?_⟩
  · obtain ⟨c, reach, checked⟩ := replay_check kernel (fun _ _ fresh => fresh) (Config.idle oneJail)
      (freezeAmid (.forPlatform false) [.exit 10, .start ⟨10, 0, false⟩])
      (fun c => ((sweepOf (.conn 0) c.history).call = some (.freeze "app") ∧ c.world.procs = [⟨10, 0, false⟩] ∧
          c.world.jails = [⟨1, "app"⟩]) &&
        (c.fire (S := lifecycled (.forPlatform false)) (.act ⟨.conn 0, .kill 10 .stop, .ok ()⟩)).any fun c' =>
          c'.world.procs = [⟨10, 0, true⟩])
      (by decide +kernel)
    obtain ⟨before, fired⟩ := Bool.and_eq_true_iff.mp checked
    obtain ⟨c', fired, stopped⟩ := (Option.any_eq_true _ _).mp fired
    obtain ⟨freezing, procs, jails⟩ := of_decide_eq_true before
    exact ⟨c, c', reach, Config.fire_step fired, freezing, procs, jails, of_decide_eq_true stopped⟩
  · obtain ⟨c, reach, checked⟩ := replay_check kernel (fun _ _ fresh => fresh) (Config.idle oneJail)
      (freezeAmid (.forPlatform false) [.start ⟨11, 1, false⟩] ++
        calling (lifecycled (.forPlatform false)) (.conn 0) [⟨.kill 10 .stop, .ok ()⟩])
      (fun c => (sweepOf (.conn 0) c.history).call = some (.freeze "app") ∧
        (sweepOf (.conn 0) c.history).left = some [] ∧ c.world.liveProcs "app" = [⟨11, 1, false⟩, ⟨10, 1, true⟩])
      (by decide +kernel)
    obtain ⟨freezing, done, alive⟩ := of_decide_eq_true checked
    exact ⟨c, reach, freezing, done, alive⟩

end runs

end Bsdos.Lifecycle
