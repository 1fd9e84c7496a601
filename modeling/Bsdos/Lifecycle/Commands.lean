import Bsdos.Lifecycle.Basic

namespace Bsdos.Lifecycle
open Effects

abbrev Task := Prog Daemon

/-- A task that can end early with an error text. -/
abbrev Fallible := ExceptT String Task

def call (op : Op) : Task op.Ret := Prog.perform (E := Daemon) op

/-- A call whose failure is an error text. -/
def tryCall (op : Op) {α : Type} (answers : op.Ret = Except String α) : Fallible α :=
  ExceptT.mk (answers ▸ call op)

def log (note : Note) : Task Unit := call (.note note)

def unixTimestamp : Task Nat := call .unixTime

def pathExists (path : String) : Task Bool := call (.pathExists path)

def statesGet (jail : String) : Task (Option AppState) := call (.statesGet jail)

def statesInsert (jail : String) (state : AppState) : Task Unit := call (.statesInsert jail state)

def run (program : String) (args : List String) : Fallible String := do
  match ← attempt (tryCall (.output program args) rfl) with
  | .error e => throw ("exec " ++ program ++ ": " ++ e)
  | .ok out =>
    if out.success then return out.stdout
    else throw ("exit " ++ out.status ++ ": " ++ Text.trim out.stderr)

def validChar (ch : Char) : Bool :=
  ('a' ≤ ch ∧ ch ≤ 'z') ∨ ('A' ≤ ch ∧ ch ≤ 'Z') ∨ ('0' ≤ ch ∧ ch ≤ '9') ∨ ch = '-' ∨ ch = '_'

def validateJailId (id : String) : Except String String :=
  if id.isEmpty ∨ id.utf8ByteSize > 64 then .error "invalid jail_id length"
  else
    match id.toList.find? fun ch => !validChar ch with
    | some ch => .error ("invalid char in jail_id: " ++ String.singleton ch)
    | none => .ok id

/-- The loop over the PIDs of a jail: one `kill` each, counting the deliveries. -/
def signalPids (sig : Sig) : List Int → Nat → Task Nat
  | [], delivered => return delivered
  | pid :: pids, delivered => do
    let r : Except Int Unit ← call (.kill pid sig)
    match r with
    | .ok () => signalPids sig pids (delivered + 1)
    | .error _ => signalPids sig pids delivered

def signalJailPids (name : String) (sig : Sig) : Fallible Nat := do
  let jid ← tryCall (.jidByName name) rfl
  let pids ← tryCall (.jailPids jid) rfl
  signalPids sig pids 0

def signalJail (jailId signal : String) : Fallible Nat := do
  let sig ← match signal with
    | "-STOP" | "SIGSTOP" => pure Sig.stop
    | "-CONT" | "SIGCONT" => pure Sig.cont
    | "-KILL" | "SIGKILL" => pure Sig.kill
    | "-0" => pure Sig.probe
    | other => throw ("unknown signal: " ++ other)
  signalJailPids jailId sig

/-- A lifecycle operation: every one checks its jail name before anything else. -/
def operation (c : Call) (body : String → Fallible String) : Fallible String := ExceptT.mk do
  log (.invoked c)
  let r ← (do body (← validateJailId c.jail) : Fallible String).run
  log (.returned c r.isOk)
  return r

def freezeBody (jailId : String) : Fallible String := do
  let n ← signalJail jailId "-STOP"
  statesInsert jailId .frozen
  return "frozen jail=" ++ jailId ++ " procs=" ++ toString n

def freezeApplication (jailId : String) : Fallible String := operation (.freeze jailId) freezeBody

def thawBody (jailId : String) : Fallible String := do
  let n ← signalJail jailId "-CONT"
  statesInsert jailId .running
  return "thawed jail=" ++ jailId ++ " procs=" ++ toString n

def thawApplication (jailId : String) : Fallible String := operation (.thaw jailId) thawBody

def dataset (jailId : String) : String := "bsdos/apps/" ++ jailId

def hibernateSnapshot (jailId : String) (timestamp : Nat) : String :=
  dataset jailId ++ "@hibernate-" ++ toString timestamp

def hibernateBody (jailId : String) : Fallible String := do
  let _ ← attempt (signalJail jailId "-STOP")
  let snapshot := hibernateSnapshot jailId (← unixTimestamp)
  match ← attempt (run "zfs" ["snapshot", snapshot]) with
  | .error e => throw ("zfs snapshot failed: " ++ e)
  | .ok _ =>
    statesInsert jailId .hibernated
    return "hibernated jail=" ++ jailId ++ " snapshot=" ++ snapshot

def hibernateApplication (jailId : String) : Fallible String :=
  operation (.hibernate jailId) hibernateBody

/-- The last line of a `zfs list` that names a hibernate snapshot. -/
def latestSnapshot (snaps : String) : Option String :=
  (((Text.lines snaps).filter fun l => Text.contains l "@hibernate-").getLast?).map Text.trim

def rollbackAndRestart (jailId : String) : Fallible String := do
  let snaps ← run "zfs" ["list", "-t", "snapshot", "-o", "name", "-H", dataset jailId]
  match latestSnapshot snaps with
  | none => throw "no hibernate snapshot found"
  | some latest =>
    let _ ← run "zfs" ["rollback", latest]
    statesInsert jailId .running
    return "restored jail=" ++ jailId ++ " snapshot=" ++ latest ++ " method=rollback"

/-- The arm of a restore for a jail put away: live processes only need waking. -/
def wakeOrRollback (jailId : String) : Fallible String := do
  match ← attempt (signalJail jailId "-CONT") with
  | .ok (n + 1) =>
    statesInsert jailId .running
    return "restored jail=" ++ jailId ++ " procs=" ++ toString (n + 1) ++ " method=thaw"
  | _ => rollbackAndRestart jailId

def restoreBody (jailId : String) : Fallible String := do
  let state := (← statesGet jailId).getD .dead
  match state with
  | .frozen | .hibernated => wakeOrRollback jailId
  | other => throw ("cannot restore from state: " ++ other.debug)

def restoreApplication (jailId : String) : Fallible String := operation (.restore jailId) restoreBody

def waylandSock (jailId : String) : String := "/jails/apps/" ++ jailId ++ "/tmp/wayland-0"

def tmpDataset (jailId : String) : String := "bsdos/apps/" ++ jailId ++ "/tmp"

/-- Step 2 of a kill: the Wayland socket goes, a failure is only logged. -/
def removeWaylandSock (jailId : String) : Fallible Unit := do
  if ← pathExists (waylandSock jailId) then
    let _ ← attempt (tryCall (.removeFile (waylandSock jailId)) rfl)

/-- Step 3 of a kill: where /tmp has a dataset of its own it is destroyed and created anew. -/
def recycleTmp (jailId : String) : Fallible Unit := do
  let hasTmpDataset := (← attempt (run "zfs" ["list", tmpDataset jailId])).isOk
  if hasTmpDataset then
    let _ ← attempt (run "zfs" ["destroy", "-f", tmpDataset jailId])
    let _ ← attempt (run "zfs" ["create", tmpDataset jailId])

def killBody (jailId : String) : Fallible String := do
  let n := (← attempt (signalJail jailId "-KILL")).toOption.getD 0
  removeWaylandSock jailId
  recycleTmp jailId
  statesInsert jailId .dead
  return "killed jail=" ++ jailId ++ " procs=" ++ toString n ++ " cleanup=done"

def killApplication (jailId : String) : Fallible String := operation (.kill jailId) killBody

/-- The live jid and PIDs of a jail beside its tracked state; an untracked jail
reads as running, a jail the kernel does not know as jid -1 without PIDs. -/
def jailSnapshot (jailId : String) : Task (Int × AppState × List Int) := do
  let state := (← statesGet jailId).getD .running
  match ← (tryCall (.jidByName jailId) rfl).run with
  | .ok jid =>
    let pids ← (tryCall (.jailPids jid) rfl).run
    return (jid, state, pids.toOption.getD [])
  | .error _ => return (-1, state, [])

def statusApplication (jailId : String) : Fallible String := do
  let jailId ← validateJailId jailId
  let (jid, state, pids) ← jailSnapshot jailId
  return "jail=" ++ jailId ++ " jid=" ++ toString jid ++ " state=" ++ state.debug ++
    " procs=" ++ toString pids.length

def listJailLines : List JailInfo → Task (List String)
  | [] => return []
  | j :: jails => do
    let pidCount := (← (tryCall (.jailPids j.jid) rfl).run).toOption.elim 0 List.length
    let rest ← listJailLines jails
    return ("jid=" ++ toString j.jid ++ " name=" ++ j.name ++ " pids=" ++ toString pidCount) :: rest

def listJailsText : Fallible String := do
  let jails ← tryCall .listJails rfl
  if jails.isEmpty then return "no live jails"
  else return "\n".intercalate (← listJailLines jails)

end Bsdos.Lifecycle
