import Bsdos.Lifecycle.Served

namespace Bsdos.Lifecycle
open Effects

/-- The signal an operation sends to the processes of its jail. -/
def Call.signal : Call → Sig
  | .freeze _ | .hibernate _ => .stop
  | .thaw _ | .restore _ => .cont
  | .kill _ => .kill

/-- The state an operation leaves its jail in. -/
def Call.target : Call → AppState
  | .freeze _ => .frozen
  | .thaw _ | .restore _ => .running
  | .hibernate _ => .hibernated
  | .kill _ => .dead

/-- Nothing but the signals can keep a freeze or a thaw from tracking its jail. -/
def Call.prompt : Call → Bool
  | .freeze _ | .thaw _ => true
  | _ => false

/-- How far an operation has come with the processes of its jail: the jail it has
resolved, the processes it still has to signal, whether it has listed them at all, and
whether it has tracked the outcome since. -/
structure Sweep where
  call : Option Call
  jid : Option Int
  left : Option (List Int)
  listed : Bool
  tracked : Bool
  deriving DecidableEq, Repr

def Sweep.idle : Sweep := ⟨none, none, none, false, false⟩

/-- What every task keeps to in its operations: it signals the processes it has listed of
the jail it has resolved, in order, and tracks the state the operation is for. -/
def sweep : Protocol Daemon Sweep where
  next γ
    | .note (.invoked c), _ => { Sweep.idle with call := some c }
    | .note (.returned _ _), _ => .idle
    | .jidByName _, .ok jid => { γ with jid := some jid, left := none }
    | .jailPids _, .ok pids => { γ with left := some pids, listed := true, tracked := false }
    | .kill _ _, _ => { γ with left := γ.left.map List.tail }
    | .statesInsert _ _, _ => { γ with jid := none, left := none, tracked := true }
    | _, _ => { γ with jid := none, left := none }
  allows γ
    | .note (.invoked _) => γ.call = none
    | .note (.returned c _) => γ.call = some c ∧ (c.prompt → γ.listed → γ.tracked)
    | .jidByName name => ∀ c, γ.call = some c → name = c.jail
    | .jailPids jid => ∀ c, γ.call = some c → γ.jid = some jid ∧ γ.left = none
    | .kill pid sig => ∃ c jid left, γ.call = some c ∧ γ.jid = some jid ∧ γ.left = some (pid :: left) ∧ sig = c.signal
    | .statesInsert jail state => ∃ c, γ.call = some c ∧ jail = c.jail ∧ state = c.target
    | _ => True

/-- The calls inside an operation that neither signal nor track. -/
def Op.Plain : Op → Prop
  | .unixTime | .output _ _ | .pathExists _ | .removeFile _ | .statesGet _ => True
  | _ => False

section follows
variable {c : Call} {γ : Sweep}

theorem sweep_aside {γ : Sweep} {op : Op} (aside : op.Aside) (rest : γ.call = none) :
    sweep.allows γ op ∧ ∀ r, (sweep.next γ op r).call = none := by
  have idle (c : Call) : γ.call ≠ some c := by simp [rest]
  cases op with
  | kill pid sig => exact aside.elim
  | statesInsert id state => exact aside.elim
  | note n =>
    cases n with
    | invoked c => exact aside.elim
    | returned c ok => exact aside.elim
    | _ => exact ⟨trivial, fun _ => rest⟩
  | jidByName name => exact ⟨fun c busy => absurd busy (idle c), fun r => by cases r <;> exact rest⟩
  | jailPids jid => exact ⟨fun c busy => absurd busy (idle c), fun r => by cases r <;> exact rest⟩
  | _ => exact ⟨trivial, fun _ => rest⟩

theorem sweep_plain {α : Type} {p : Task α} (only : p.Only Op.Plain) (inside : γ.call = some c) :
    p.Follows sweep (fun _ γ' => γ'.call = some c) γ := by
  refine only.keeps (fun γ' op plain inside => ?_) inside
  cases op with
  | unixTime | output _ _ | pathExists _ | removeFile _ | statesGet _ => exact ⟨trivial, fun _ => inside⟩
  | _ => exact plain.elim

theorem signalPids_sweeps {jid : Int} {pids : List Int} (n : Nat) (inside : γ.call = some c) (resolved : γ.jid = some jid)
    (left : γ.left = some pids) :
    (signalPids c.signal pids n).Follows sweep (fun _ γ' => γ'.call = some c) γ := by
  induction pids generalizing γ n with
  | nil => exact inside
  | cons pid pids ih =>
    refine ⟨⟨c, jid, pids, inside, resolved, left, rfl⟩, fun r => ?_⟩
    have tail : (sweep.next γ (.kill pid c.signal) r).left = some pids := congrArg (Option.map List.tail) left
    cases r with
    | ok _ => exact ih (n + 1) inside resolved tail
    | error _ => exact ih n inside resolved tail

/-- A sweep that fails has listed nothing. -/
theorem signalJailPids_sweeps (inside : γ.call = some c) (fresh : γ.listed = false) :
    (signalJailPids c.jail c.signal).run.Follows sweep
      (fun r γ' => γ'.call = some c ∧ (r.isOk = false → γ'.listed = false)) γ := by
  have resolve (r : Except String Int) : (sweep.next γ (.jidByName c.jail) r).call = some c ∧
      (sweep.next γ (.jidByName c.jail) r).listed = false ∧ (sweep.next γ (.jidByName c.jail) r).left = none ∧
      ∀ jid, r = .ok jid → (sweep.next γ (.jidByName c.jail) r).jid = some jid := by
    cases r with
    | ok jid => exact ⟨inside, fresh, rfl, fun _ same => by cases same; rfl⟩
    | error e => exact ⟨inside, fresh, rfl, fun _ wrong => nomatch wrong⟩
  refine Prog.Follows.tryBind (M := fun r (γ' : Sweep) => γ'.call = some c ∧ γ'.listed = false ∧ γ'.left = none ∧
      ∀ jid, r = .ok jid → γ'.jid = some jid) ⟨?_, fun r => resolve r⟩
    (fun jid γ' ⟨inside, fresh, unlisted, resolved⟩ => ?_) fun e γ' ⟨inside, fresh, _⟩ => ⟨inside, fun _ => fresh⟩
  · intro c' same
    rw [Option.some.inj (inside.symm.trans same)]
  have resolved := resolved jid rfl
  have list (r : Except String (List Int)) : (sweep.next γ' (.jailPids jid) r).call = some c ∧
      (r.isOk = false → (sweep.next γ' (.jailPids jid) r).listed = false) ∧
      ∀ pids, r = .ok pids → (sweep.next γ' (.jailPids jid) r).jid = some jid ∧
        (sweep.next γ' (.jailPids jid) r).left = some pids := by
    cases r with
    | ok pids => exact ⟨inside, fun wrong => (nomatch wrong), fun _ same => by cases same; exact ⟨resolved, rfl⟩⟩
    | error e => exact ⟨inside, fun _ => fresh, fun _ wrong => nomatch wrong⟩
  refine Prog.Follows.tryBind (M := fun r (γ' : Sweep) => γ'.call = some c ∧ (r.isOk = false → γ'.listed = false) ∧
      ∀ pids, r = .ok pids → γ'.jid = some jid ∧ γ'.left = some pids)
    ⟨fun _ _ => ⟨resolved, unlisted⟩, fun r => list r⟩ (fun pids γ' ⟨inside, _, left⟩ => ?_)
    fun e γ' ⟨inside, fresh, _⟩ => ⟨inside, fun _ => fresh rfl⟩
  rw [run_liftProg]
  obtain ⟨resolved, left⟩ := left pids rfl
  exact (signalPids_sweeps 0 inside resolved left).bind fun n γ' inside => ⟨inside, fun wrong => nomatch wrong⟩

/-- Inside of an operation: what holds when its body is done. -/
def Sweep.Done (c : Call) (γ : Sweep) : Prop := γ.call = some c ∧ (c.prompt → γ.listed → γ.tracked)

theorem freezeBody_sweeps {jail : String} (inside : γ.call = some (.freeze jail)) (fresh : γ.listed = false) :
    (freezeBody jail).run.Follows sweep (fun _ γ' => γ'.Done (.freeze jail)) γ := by
  refine Prog.Follows.tryBind (signalJailPids_sweeps (c := .freeze jail) inside fresh) (fun n γ' ⟨inside, _⟩ => ?_)
    fun e γ' ⟨inside, unlisted⟩ => ⟨inside, fun _ listed => ?_⟩
  · exact ⟨⟨_, inside, rfl, rfl⟩, fun _ => ⟨inside, fun _ _ => rfl⟩⟩
  · exact absurd listed (by simp [unlisted rfl])

theorem thawBody_sweeps {jail : String} (inside : γ.call = some (.thaw jail)) (fresh : γ.listed = false) :
    (thawBody jail).run.Follows sweep (fun _ γ' => γ'.Done (.thaw jail)) γ := by
  refine Prog.Follows.tryBind (signalJailPids_sweeps (c := .thaw jail) inside fresh) (fun n γ' ⟨inside, _⟩ => ?_)
    fun e γ' ⟨inside, unlisted⟩ => ⟨inside, fun _ listed => ?_⟩
  · exact ⟨⟨_, inside, rfl, rfl⟩, fun _ => ⟨inside, fun _ _ => rfl⟩⟩
  · exact absurd listed (by simp [unlisted rfl])

theorem signal_sweeps (inside : γ.call = some c) (fresh : γ.listed = false) :
    (signalJailPids c.jail c.signal).run.Follows sweep (fun _ γ' => γ'.call = some c) γ :=
  (signalJailPids_sweeps inside fresh).mono fun _ _ reached => reached.1

theorem run_sweeps {program : String} {args : List String} (inside : γ.call = some c) :
    (run program args).run.Follows sweep (fun _ γ' => γ'.call = some c) γ :=
  sweep_plain (run_only trivial) inside

/-- The last step of an operation: the state it is for is tracked. -/
theorem track_sweeps {jail : String} {state : AppState} (inside : γ.call = some c) (own : jail = c.jail)
    (target : state = c.target) : (statesInsert jail state).Follows sweep (fun _ γ' => γ'.call = some c) γ :=
  ⟨⟨c, inside, own, target⟩, fun _ => inside⟩

theorem hibernateBody_sweeps {jail : String} (inside : γ.call = some (.hibernate jail)) (fresh : γ.listed = false) :
    (hibernateBody jail).run.Follows sweep (fun _ γ' => γ'.call = some (.hibernate jail)) γ := by
  refine follows_attempt (signal_sweeps (c := .hibernate jail) inside fresh) fun _ γ' inside => ⟨trivial, fun now => ?_⟩
  refine follows_attempt (run_sweeps (γ := sweep.next γ' .unixTime now) inside) fun r γ' inside => ?_
  cases r with
  | error e => exact inside
  | ok out => exact (track_sweeps inside rfl rfl).bind fun _ _ inside => inside

theorem rollbackAndRestart_sweeps {jail : String} (inside : γ.call = some (.restore jail)) :
    (rollbackAndRestart jail).run.Follows sweep (fun _ γ' => γ'.call = some (.restore jail)) γ := by
  refine (run_sweeps inside).tryBind (fun snaps γ' inside => ?_) fun _ _ inside => inside
  cases latestSnapshot snaps with
  | none => exact inside
  | some latest =>
    refine (run_sweeps inside).tryBind (fun _ γ' inside => ?_) fun _ _ inside => inside
    exact (track_sweeps inside rfl rfl).bind fun _ _ inside => inside

theorem wakeOrRollback_sweeps {jail : String} (inside : γ.call = some (.restore jail)) (fresh : γ.listed = false) :
    (wakeOrRollback jail).run.Follows sweep (fun _ γ' => γ'.call = some (.restore jail)) γ := by
  refine follows_attempt (signal_sweeps (c := .restore jail) inside fresh) fun r γ' inside => ?_
  split
  · exact (track_sweeps inside rfl rfl).bind fun _ _ inside => inside
  · exact rollbackAndRestart_sweeps inside

theorem restoreBody_sweeps {jail : String} (inside : γ.call = some (.restore jail)) (fresh : γ.listed = false) :
    (restoreBody jail).run.Follows sweep (fun _ γ' => γ'.call = some (.restore jail)) γ := by
  refine Prog.Follows.tryBind (M := fun _ γ' => γ'.call = some (.restore jail) ∧ γ'.listed = false)
    ⟨trivial, fun _ => ⟨inside, fresh⟩⟩ (fun found γ' ⟨inside, fresh⟩ => ?_) fun _ _ reached => reached.1
  have woken := wakeOrRollback_sweeps inside fresh
  cases found.getD .dead with
  | running => exact inside
  | frozen => exact woken
  | hibernated => exact woken
  | dead => exact inside

theorem killBody_sweeps {jail : String} (inside : γ.call = some (.kill jail)) (fresh : γ.listed = false) :
    (killBody jail).run.Follows sweep (fun _ γ' => γ'.call = some (.kill jail)) γ := by
  refine follows_attempt (signal_sweeps (c := .kill jail) inside fresh) fun _ γ' inside => ?_
  have socket : (removeWaylandSock jail).run.Only Op.Plain := by
    refine Prog.Only.tryBind ⟨trivial, fun _ => trivial⟩ fun found => ?_
    cases found with
    | false => trivial
    | true => exact Prog.Only.tryBind (attempt_only ⟨trivial, fun _ => trivial⟩) fun _ => trivial
  have recycle : (recycleTmp jail).run.Only Op.Plain := by
    refine Prog.Only.tryBind (attempt_only (run_only trivial)) fun r => ?_
    cases r with
    | error e => trivial
    | ok out =>
      refine Prog.Only.tryBind (attempt_only (run_only trivial)) fun _ => ?_
      exact Prog.Only.tryBind (attempt_only (run_only trivial)) fun _ => trivial
  refine (sweep_plain socket inside).tryBind (fun _ γ' inside => ?_) fun _ _ inside => inside
  refine (sweep_plain recycle inside).tryBind (fun _ γ' inside => ?_) fun _ _ inside => inside
  exact (track_sweeps inside rfl rfl).bind fun _ _ inside => inside

theorem application_sweeps (rest : γ.call = none) :
    (application c).run.Follows sweep (fun _ γ' => γ'.call = none) γ := by
  have whole {body : String → Fallible String}
      (follows : ∀ γ' : Sweep, γ'.call = some c → γ'.listed = false →
        (body c.jail).run.Follows sweep (fun _ γ'' => γ''.Done c) γ') :
      (operation c body).run.Follows sweep (fun _ γ' => γ'.call = none) γ :=
    operation_follows (M := fun _ γ' => γ'.Done c) rest (fun _ => follows _ rfl rfl)
      (fun _ _ => ⟨rfl, fun _ listed => nomatch listed⟩) fun _ _ done => ⟨done, rfl⟩
  have slow {body : String → Fallible String} (slow : c.prompt = false)
      (follows : ∀ γ' : Sweep, γ'.call = some c → γ'.listed = false →
        (body c.jail).run.Follows sweep (fun _ γ'' => γ''.call = some c) γ') :
      (operation c body).run.Follows sweep (fun _ γ' => γ'.call = none) γ :=
    whole fun γ' inside fresh => (follows γ' inside fresh).mono fun _ _ inside =>
      ⟨inside, fun prompt => absurd prompt (by simp [slow])⟩
  cases c with
  | freeze jail => exact whole fun _ => freezeBody_sweeps
  | thaw jail => exact whole fun _ => thawBody_sweeps
  | hibernate jail => exact slow rfl fun _ => hibernateBody_sweeps
  | restore jail => exact slow rfl fun _ => restoreBody_sweeps
  | kill jail => exact slow rfl fun _ => killBody_sweeps

end follows

section runs
variable {policy : LifecyclePolicy} {ok : Config Daemon Actor World → Label (lifecycled policy) → Prop}
  {w : World} {c c' : Config Daemon Actor World} {a : Actor}

/-- What a task is doing to the processes of a jail, along a run. -/
def sweepOf (a : Actor) (history : List (Event Daemon Actor)) : Sweep := sweep.state .idle a history

theorem reach_sweeps (reach : Reach (lifecycled policy) ok (Config.idle w) c) :
    c.Conforms sweep .idle (fun γ => γ.call = none) a := by
  refine reach.conforms rfl (fun request program served γ rest => ?_) fun _ _ _ dropped => nomatch dropped
  exact served_follows (fun _ _ aside rest => sweep_aside aside rest) (fun c _ rest => application_sweeps rest) served rest

end runs

end Bsdos.Lifecycle
