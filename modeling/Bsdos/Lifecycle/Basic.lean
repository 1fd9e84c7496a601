import Bsdos.Effects.Replay
import Bsdos.Text
import Mathlib.Data.Finmap
import Mathlib.Data.Rat.Floor

namespace Bsdos.Lifecycle
open Effects

inductive AppState
  | running
  | frozen
  | hibernated
  | dead
  deriving DecidableEq, Repr

/-- The `{:?}` rendering of a state. -/
def AppState.debug : AppState → String
  | .running => "Running"
  | .frozen => "Frozen"
  | .hibernated => "Hibernated"
  | .dead => "Dead"

/-- Priority of a jail: the higher, the earlier it is unloaded. -/
structure JailPriority where
  jailId : String
  priority : UInt8
  lastActive : Nat
  deriving DecidableEq, Repr

abbrev StateMap := Finmap fun _ : String => AppState

abbrev PriorityMap := Finmap fun _ : String => JailPriority

/-- One active jail: its kernel JID and its name. -/
structure JailInfo where
  jid : Int
  name : String
  deriving DecidableEq, Repr

inductive Sig
  | stop
  | cont
  | kill
  | probe
  deriving DecidableEq, Repr

/-- What a finished child process leaves behind. -/
structure Output where
  success : Bool
  status : String
  stdout : String
  stderr : String
  deriving DecidableEq, Repr

structure LifecyclePolicy where
  aggressiveFreeze : Bool
  memoryCompression : Bool
  idleFreezeSecs : Nat
  deriving DecidableEq, Repr

/-- The two policies a build can be compiled with: battery-powered platforms
freeze fast and compress, the others freeze on demand only. -/
def LifecyclePolicy.forPlatform (bsdosHasBattery : Bool) : LifecyclePolicy :=
  if bsdosHasBattery then ⟨true, true, 30⟩ else ⟨false, false, 300⟩

/-- The lifecycle operations, as they are called from a front end or the monitor. -/
inductive Call
  | freeze (jail : String)
  | thaw (jail : String)
  | hibernate (jail : String)
  | restore (jail : String)
  | kill (jail : String)
  deriving DecidableEq, Repr

def Call.jail : Call → String
  | .freeze jail | .thaw jail | .hibernate jail | .restore jail | .kill jail => jail

/-- Points of a run that change nothing: an operation entered or left, and the
two lines the monitor logs when it has chosen a jail. -/
inductive Note
  | invoked (call : Call)
  | returned (call : Call) (ok : Bool)
  | warnFreezing (jail : String)
  | criticalEvicting (jail : String)
  deriving DecidableEq, Repr

/-- What the daemon asks of the kernel, of other programs and of the state its
tasks share. A read of shared state is one lock, read and unlock. -/
inductive Op
  | note (note : Note)
  | sleep (seconds : Nat)
  | unixTime
  | sysctl (key : String)
  | jidByName (name : String)
  | jailPids (jid : Int)
  | listJails
  | kill (pid : Int) (sig : Sig)
  | output (program : String) (args : List String)
  | pathExists (path : String)
  | removeFile (path : String)
  | reply (text : String)
  | statesGet (jail : String)
  | statesInsert (jail : String) (state : AppState)
  | statesEntries
  | prioritiesGet (jail : String)
  | prioritiesInsert (jail : String) (entry : JailPriority)
  | prioritiesValues
  | guardLoad
  | guardStore (disabled : Bool)
  | spawnGuardTimer
  deriving DecidableEq, Repr

def Op.Ret : Op → Type
  | .unixTime => Nat
  | .sysctl _ => Except String Nat
  | .jidByName _ => Except String Int
  | .jailPids _ => Except String (List Int)
  | .listJails => Except String (List JailInfo)
  | .kill _ _ => Except Int Unit
  | .output _ _ => Except String Output
  | .pathExists _ => Bool
  | .removeFile _ => Except String Unit
  | .statesGet _ => Option AppState
  | .statesEntries => List (String × AppState)
  | .prioritiesGet _ => Option JailPriority
  | .prioritiesValues => List JailPriority
  | .guardLoad => Bool
  | _ => Unit

abbrev Daemon : Signature := ⟨Op, Op.Ret⟩

end Bsdos.Lifecycle
