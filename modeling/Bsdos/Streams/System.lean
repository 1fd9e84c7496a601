import Bsdos.Streams.Manager

namespace Bsdos.Streams
open Effects

/-- The tasks that call the manager: the control subscriber, the autostart loop or the
restore of `main`, the monitor loop, and any further callers. -/
inductive Actor
  | ctl
  | autostart
  | restore
  | monitor
  | caller (n : Nat)
  deriving DecidableEq, Repr

/-- A registry file; what a failed write leaves behind cannot be parsed. -/
inductive File
  | missing
  | torn
  | holds (configs : List StreamConfig)
  deriving DecidableEq

/-- What loading a registry file gives where it can be loaded. -/
def File.configs : File → Option (List StreamConfig)
  | .missing => some []
  | .torn => none
  | .holds configs => some configs

/-- What the tasks share: the map and the holder of its lock, the processes spawned so
far and those that were sent a kill or have exited, the registry file and its
temporary sibling. -/
structure World where
  holder : Option Actor
  streams : StreamMap
  spawned : Nat
  killed : List Child
  exited : List Child
  tasks : Nat
  registry : File
  tmp : File

/-- The world of a daemon that has just been started on a machine with that registry. -/
def World.fresh (registry : File) : World := ⟨none, ∅, 0, [], [], 0, registry, .missing⟩

/-- The answers the surroundings can give. The map is there for the holder of its lock
only; any system call, spawn or file operation can fail at any time. -/
def World.may (w : World) (a : Actor) : (op : Op) → op.Ret → Bool
  | .lock, _ => w.holder = none
  | .unlock, _ => w.holder = some a
  | .streamsContains appId, r => w.holder = some a && truly (decide (appId ∈ w.streams)) r
  | .streamsInsert _ _, _ => w.holder = some a
  | .streamsRemove appId, r => w.holder = some a && truly (w.streams.lookup appId) r
  | .streamsEntries, r =>
    w.holder = some a &&
      w.streams.entries = (List.map (fun e : String × StreamInstance => ⟨e.1, e.2⟩) r : List (Sigma fun _ => StreamInstance))
  | .spawn _ _ _, .ok child => child = w.spawned
  | .spawnTask _ _ _, handle => truly w.tasks handle
  | .tryWait child, .ok dead => dead = decide (child ∈ w.exited)
  | .registryLoad, .ok configs => w.registry.configs = some configs
  | .registryRename, .ok () => w.tmp ≠ .missing
  | _, _ => true

def World.after (w : World) (a : Actor) : (op : Op) → op.Ret → World
  | .lock, _ => { w with holder := some a }
  | .unlock, _ => { w with holder := none }
  | .streamsInsert appId inst, _ => { w with streams := w.streams.insert appId inst }
  | .streamsRemove appId, _ => { w with streams := w.streams.erase appId }
  | .spawn _ _ _, .ok _ => { w with spawned := w.spawned + 1 }
  | .kill child, _ => { w with killed := child :: w.killed }
  | .spawnTask _ _ _, _ => { w with tasks := w.tasks + 1 }
  | .registryWriteTmp configs, .ok () => { w with tmp := .holds configs }
  | .registryWriteTmp _, .error _ => { w with tmp := .torn }
  | .registryRename, .ok () => { w with registry := w.tmp, tmp := .missing }
  | _, _ => w

/-- Around the tasks, processes exit. -/
inductive Change
  | exit (child : Child)
  deriving DecidableEq

def World.change (w : World) : Change → Option World
  | .exit child => if child < w.spawned then some { w with exited := child :: w.exited } else none

inductive Request
  | start (cfg : StreamConfig)
  | stop (appId : String)
  | list
  | restore
  | tick
  deriving DecidableEq

/-- The control subscriber and further callers start, stop and list; the autostart loop
starts one stream after the other. -/
def serve : Actor → Request → Option (Task Unit)
  | .ctl, .start cfg | .autostart, .start cfg | .caller _, .start cfg =>
    some (do let _ ← (startStream cfg).run)
  | .ctl, .stop appId | .caller _, .stop appId => some (do let _ ← (stopStream appId).run)
  | .ctl, .list | .caller _, .list => some (do let _ ← listStreams)
  | .restore, .restore => some restoreStreams
  | .monitor, .tick => some monitorTick
  | _, _ => none

/-- The timeout around an autostart drops its future where it waits: for the lock, or
for the next look at a socket. -/
def droppable : Actor → Op → Bool
  | .autostart, .lock => true
  | .autostart, .sleep _ => true
  | _, _ => false

def manager : System Host Actor World where
  Request := Request
  Env := Change
  may := fun a w => w.may a
  effect := fun a w => w.after a
  serve := serve
  droppable := droppable
  surroundings := World.change

section may
variable {w : World} {a : Actor} {appId : String}

theorem World.change_eq {w' : World} {change : Change} (moved : w.change change = some w') :
    ∃ exited, w' = { w with exited := exited } := by
  obtain ⟨child⟩ := change
  obtain ⟨_, moved⟩ := Option.ite_none_right_eq_some.mp moved
  exact ⟨child :: w.exited, (Option.some.inj moved).symm⟩

theorem World.may_streamsRemove {found : Option StreamInstance} (may : w.may a (.streamsRemove appId) found = true) :
    w.holder = some a ∧ found = w.streams.lookup appId := by
  obtain ⟨holder, found⟩ := Bool.and_eq_true_iff.mp may
  exact ⟨of_decide_eq_true holder, of_decide_eq_true found⟩

theorem World.may_streamsInsert {inst : StreamInstance} {r : Unit} (may : w.may a (.streamsInsert appId inst) r = true) :
    w.holder = some a := of_decide_eq_true may

theorem World.may_spawnTask {kind : TaskKind} {path : String} {handle : TaskHandle}
    (may : w.may a (.spawnTask kind appId path) handle = true) : handle = w.tasks := of_decide_eq_true may

/-- The entries read are those of the map. -/
theorem World.mem_streamsEntries {inst : StreamInstance} {entries : List (String × StreamInstance)}
    (may : w.may a .streamsEntries entries = true) : (appId, inst) ∈ entries ↔ w.streams.lookup appId = some inst := by
  obtain ⟨_, read⟩ := Bool.and_eq_true_iff.mp may
  rw [← Option.mem_def, Finmap.mem_lookup_iff, of_decide_eq_true read]
  simp only [Multiset.mem_coe, List.mem_map, Sigma.mk.injEq, heq_eq_eq]
  constructor
  · exact fun member => ⟨_, member, rfl, rfl⟩
  · rintro ⟨⟨id, i⟩, member, rfl, rfl⟩
    exact member

end may

end Bsdos.Streams
