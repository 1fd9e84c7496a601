import Bsdos.Lifecycle.Dispatch

namespace Bsdos.Lifecycle
open Effects

/-- A process the kernel has. -/
structure Proc where
  pid : Int
  jid : Int
  stopped : Bool
  deriving DecidableEq, Repr

/-- What the daemon's tasks share, and what they see of the kernel. The deadlines
of the guard timers that were spawned and have not fired are in `timers`. -/
structure World where
  states : StateMap
  priorities : PriorityMap
  memGuardDisabled : Bool
  timers : List Nat
  clock : Nat
  jails : List JailInfo
  procs : List Proc

def World.pidsOf (w : World) (jid : Int) : List Int :=
  (w.procs.filter fun p => p.jid = jid).map Proc.pid

/-- The processes alive in a jail of that name. -/
def World.liveProcs (w : World) (jail : String) : List Proc :=
  w.procs.filter fun p => w.jails.contains ⟨p.jid, jail⟩

/-- The tracked state of a jail is one of a jail whose processes hold memory. -/
def World.evictable (w : World) (jail : String) : Prop :=
  w.states.lookup jail = some .running ∨ w.states.lookup jail = some .frozen

instance (w : World) (jail : String) : Decidable (w.evictable jail) :=
  inferInstanceAs (Decidable (_ ∨ _))

/-- Priority 0 marks the foreground. -/
def World.foreground (w : World) (jail : String) : Prop :=
  ∃ p ∈ w.priorities.lookup jail, p.priority = 0

instance (w : World) (jail : String) : Decidable (w.foreground jail) :=
  match h : w.priorities.lookup jail with
  | none => isFalse fun ⟨_, member, _⟩ => by simp [h] at member
  | some p => decidable_of_iff (p.priority = 0)
      ⟨fun zero => ⟨p, h, zero⟩, fun ⟨q, member, zero⟩ => by
        cases Option.some.inj (h.symm.trans member); exact zero⟩

/-- The answers the surroundings can give. What is read from shared state is what
is there; a syscall that succeeds tells the truth, and any syscall, program or file
operation can fail at any time. -/
def World.may (w : World) : (op : Op) → op.Ret → Bool
  | .unixTime, r => truly w.clock r
  | .jidByName name, .ok jid => w.jails.contains ⟨jid, name⟩
  | .jailPids jid, .ok pids => pids = w.pidsOf jid
  | .listJails, .ok jails => jails = w.jails
  | .kill pid _, .ok () => (w.procs.map Proc.pid).contains pid
  | .statesGet jail, r => truly (w.states.lookup jail) r
  | .statesEntries, r => w.states.entries = (List.map (fun e : String × AppState => ⟨e.1, e.2⟩) r : List (Sigma fun _ => AppState))
  | .prioritiesGet jail, r => truly (w.priorities.lookup jail) r
  | .prioritiesValues, r => w.priorities.entries.map Sigma.snd = Multiset.ofList r
  | .guardLoad, r => truly w.memGuardDisabled r
  | _, _ => true

theorem World.may_statesGet {w : World} {jail : String} {r : Option AppState}
    (may : w.may (.statesGet jail) r = true) : r = w.states.lookup jail := of_decide_eq_true may

theorem World.may_prioritiesGet {w : World} {jail : String} {r : Option JailPriority}
    (may : w.may (.prioritiesGet jail) r = true) : r = w.priorities.lookup jail := of_decide_eq_true may

theorem World.may_guardLoad {w : World} {r : Bool} (may : w.may .guardLoad r = true) :
    r = w.memGuardDisabled := of_decide_eq_true may

/-- A delivered signal. -/
def Sig.deliver (pid : Int) (procs : List Proc) : Sig → List Proc
  | .stop => procs.map fun p => if p.pid = pid then { p with stopped := true } else p
  | .cont => procs.map fun p => if p.pid = pid then { p with stopped := false } else p
  | .kill => procs.filter fun p => p.pid ≠ pid
  | .probe => procs

def World.after (w : World) : (op : Op) → op.Ret → World
  | .kill pid sig, .ok () => { w with procs := sig.deliver pid w.procs }
  | .statesInsert jail state, _ => { w with states := w.states.insert jail state }
  | .prioritiesInsert jail entry, _ => { w with priorities := w.priorities.insert jail entry }
  | .guardStore disabled, _ => { w with memGuardDisabled := disabled }
  | .spawnGuardTimer, _ => { w with timers := (w.clock + 300) :: w.timers }
  | _, _ => w

/-- What happens around the daemon's tasks: time passes, processes and jails come
and go, and a guard timer whose deadline has come runs its `compare_exchange`. -/
inductive Change
  | pass (seconds : Nat)
  | start (proc : Proc)
  | exit (pid : Int)
  | jailUp (jail : JailInfo)
  | jailDown (jid : Int)
  | guardTimer (deadline : Nat)
  deriving DecidableEq

def World.change (w : World) : Change → Option World
  | .pass seconds => some { w with clock := w.clock + seconds }
  | .start proc => some { w with procs := proc :: w.procs }
  | .exit pid => some { w with procs := w.procs.filter fun p => p.pid ≠ pid }
  | .jailUp jail => some { w with jails := jail :: w.jails }
  | .jailDown jid => some { w with jails := w.jails.filter fun j => j.jid ≠ jid }
  | .guardTimer deadline =>
    if deadline ∈ w.timers ∧ deadline ≤ w.clock then
      some { w with timers := w.timers.erase deadline, memGuardDisabled := false }
    else none

/-- The tasks of the daemon: one for each socket connection, the Zenoh bridge, and
the memory monitor. -/
inductive Actor
  | conn (n : Nat)
  | zenoh
  | monitor
  deriving DecidableEq, Repr

inductive Request
  | line (text : String)
  | payload (text : String)
  | tick
  deriving DecidableEq

def serve (policy : LifecyclePolicy) : Actor → Request → Option (Task Unit)
  | .conn _, .line text => some (handleConn text)
  | .zenoh, .payload text => some (zenohSample text)
  | .monitor, .tick => some (runMonitor policy)
  | _, _ => none

def lifecycled (policy : LifecyclePolicy) : System Daemon Actor World where
  Request := Request
  Env := Change
  may := fun _ => World.may
  effect := fun _ => World.after
  serve := serve policy
  droppable := fun _ _ => false
  surroundings := World.change

/-- Lifecycle settings of one app, as its descriptor declares them. -/
structure AppLifecycleConfig where
  appId : String
  jailName : String
  maxMemoryMb : Nat
  maxCpuPercent : UInt8
  priority : UInt8
  needsGpu : Bool
  deriving DecidableEq, Repr

/-- The priorities `main` starts from. -/
def loadPriorities (configs : List (String × AppLifecycleConfig)) : PriorityMap :=
  configs.foldl (fun map cfg => map.insert cfg.1 ⟨cfg.1, cfg.2.priority, 0⟩) ∅

/-- The world as `main` leaves it before it accepts commands, whatever the kernel has. -/
structure World.Started (w : World) : Prop where
  states : w.states = ∅
  priorities : ∃ configs, w.priorities = loadPriorities configs
  guard : w.memGuardDisabled = false
  timers : w.timers = []

end Bsdos.Lifecycle
