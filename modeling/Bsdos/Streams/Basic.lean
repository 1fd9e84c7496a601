import Bsdos.Effects.Replay
import Mathlib.Data.Finmap

namespace Bsdos.Streams
open Effects

inductive StreamError
  | alreadyRunning (appId : String)
  | notFound (appId : String)
  | spawnFailed (msg : String)
  | socketTimeout (msg : String)
  | registry (msg : String)
  | io (msg : String)
  deriving DecidableEq, Repr

/-- Configuration for a single stream instance. -/
structure StreamConfig where
  appId : String
  app : String
  url : String
  user : String
  width : UInt32
  height : UInt32
  deriving DecidableEq, Repr

/-- The defaults a control command starts from. -/
def StreamConfig.default : StreamConfig := ⟨"appBrowser", "firefox", "about:blank", "freebsd", 400, 683⟩

/-- A spawned process, numbered in the order of the spawns: a handle is never reused. -/
abbrev Child := Nat

/-- A spawned task. -/
abbrev TaskHandle := Nat

/-- Runtime state of one active stream. -/
structure StreamInstance where
  appId : String
  cfg : StreamConfig
  cage : Child
  tunnel : Child
  app : Child
  rundir : String
  forwarderHandle : TaskHandle
  inputHandle : TaskHandle
  resizeHandle : TaskHandle
  deriving DecidableEq, Repr

/-- The three processes of an instance. -/
def StreamInstance.children (inst : StreamInstance) : List Child := [inst.cage, inst.tunnel, inst.app]

abbrev StreamMap := Finmap fun _ : String => StreamInstance

inductive Role
  | cage
  | tunnel
  | app
  deriving DecidableEq, Repr

inductive TaskKind
  | forwarder
  | input
  | resize
  deriving DecidableEq, Repr

structure Command where
  program : String
  env : List (String × String)
  args : List String
  deriving DecidableEq, Repr

/-- The calls that change what streams there are. -/
inductive Call
  | start (cfg : StreamConfig)
  | stop (appId : String)
  deriving DecidableEq, Repr

def Call.appId : Call → String
  | .start cfg => cfg.appId
  | .stop appId => appId

/-- Points of a run that change nothing: a call entered or left, and the two lines
the monitor logs about a stream. -/
inductive Note
  | invoked (call : Call)
  | returned (call : Call) (ok : Bool)
  | died (appId : String)
  | restarting (appId : String)
  deriving DecidableEq, Repr

/-- What the daemon asks of the operating system and of the state its tasks share. The
streams map is behind a lock; writing the temporary registry file is one step, from
its creation to its fsync. -/
inductive Op
  | note (note : Note)
  | lock
  | unlock
  | streamsContains (appId : String)
  | streamsInsert (appId : String) (inst : StreamInstance)
  | streamsRemove (appId : String)
  | streamsEntries
  | createDirAll (path : String)
  | setPermissions (path : String) (mode : Nat)
  | removeDirAll (path : String)
  | pathExists (path : String)
  | spawn (appId : String) (role : Role) (command : Command)
  | kill (child : Child)
  | wait (child : Child)
  | tryWait (child : Child)
  | status (program : String) (args : List String)
  | spawnTask (kind : TaskKind) (appId : String) (path : String)
  | abort (handle : TaskHandle)
  | sleep (millis : Nat)
  | interval (seconds : Nat)
  | registryLoad
  | registryMkdir
  | registryWriteTmp (configs : List StreamConfig)
  | registryRename
  deriving DecidableEq, Repr

def Op.Ret : Op → Type
  | .streamsContains _ => Bool
  | .streamsRemove _ => Option StreamInstance
  | .streamsEntries => List (String × StreamInstance)
  | .createDirAll _ | .setPermissions _ _ | .removeDirAll _ => Except String Unit
  | .pathExists _ => Bool
  | .spawn _ _ _ => Except String Child
  | .kill _ | .wait _ => Except String Unit
  | .tryWait _ => Except String Bool
  | .status _ _ => Except String (Option Int)
  | .spawnTask _ _ _ => TaskHandle
  | .registryLoad => Except String (List StreamConfig)
  | .registryMkdir | .registryWriteTmp _ | .registryRename => Except String Unit
  | _ => Unit

abbrev Host : Signature := ⟨Op, Op.Ret⟩

end Bsdos.Streams
