import Bsdos.Lifecycle.Monitor

namespace Bsdos.Lifecycle
open Effects

def toResult : Except String String → Bool × String
  | .ok s => (true, s)
  | .error e => (false, e)

/-- One decimal place, as `{:.1}` prints it, without the rounding of `f32`. -/
def oneDecimal (q : ℚ) : String :=
  let tenths := ⌊q * 10 + 1 / 2⌋.toNat
  toString (tenths / 10) ++ "." ++ toString (tenths % 10)

def memStatus (s : MemStats) : String :=
  "free=" ++ oneDecimal s.freePct ++ "% free_pages=" ++ toString s.freePages ++
    " total_pages=" ++ toString s.totalPages ++ " inactive=" ++ toString s.inactivePages

def help : String :=
  "FREEZE|THAW|HIBERNATE|RESTORE|KILL|STATUS <jail_id>\n" ++
  "LIST                           (enumerate live jails: jid name pids)\n" ++
  "SET_PRIORITY <jail_id> <0-255>  (0=fg, 255=bg)\n" ++
  "MEM_STATUS\n" ++
  "MEM_GUARD on|off               (enable/disable memory monitor kills)"

def setPriority (id : String) (level : Option String) : Task (Bool × String) := do
  let prio := (level.bind Text.parseU8).getD 128
  call (.prioritiesInsert id ⟨id, prio, ← unixTimestamp⟩)
  return (true, "jail=" ++ id ++ " priority=" ++ toString prio)

def dispatchCmd (line : String) : Task (Bool × String) :=
  let parts := Text.splitWhitespace line
  match parts[0]?, parts[1]? with
  | some "FREEZE", some id => toResult <$> (freezeApplication id).run
  | some "THAW", some id => toResult <$> (thawApplication id).run
  | some "HIBERNATE", some id => toResult <$> (hibernateApplication id).run
  | some "RESTORE", some id => toResult <$> (restoreApplication id).run
  | some "KILL", some id => toResult <$> (killApplication id).run
  | some "STATUS", some id => toResult <$> (statusApplication id).run
  | some "LIST", _ => toResult <$> listJailsText.run
  | some "SET_PRIORITY", some id => setPriority id parts[2]?
  | some "MEM_STATUS", _ => (fun r => toResult (r.map memStatus)) <$> readMemStats.run
  | some "MEM_GUARD", some "on" => do
    call (.guardStore false)
    return (true, "MEM_GUARD enabled")
  | some "MEM_GUARD", some "off" => do
    call (.guardStore true)
    call .spawnGuardTimer
    return (true, "MEM_GUARD disabled for 5 minutes")
  | some "HELP", _ => return (true, help)
  | _, _ => return (false, "unknown: " ++ line)

/-- One line of a Unix socket connection; a connection carries one command. -/
def handleConn (line : String) : Task Unit := do
  let line := Text.trim line
  if line.isEmpty then return
  let (ok, msg) ← dispatchCmd line
  call (.reply (if ok then "+OK " ++ msg ++ "\n" else "-ERR " ++ msg ++ "\n"))

/-- The JSON answers of the Zenoh bridge, field by field. -/
inductive ZenohResponse
  | done (cmd appId msg : String)
  | failed (cmd appId err : String)
  | status (jails : List (String × Int × String × List Int))
  | unknown (cmd : String)
  deriving DecidableEq

def AppState.tag : AppState → String
  | .running => "running"
  | .frozen => "frozen"
  | .hibernated => "hibernated"
  | .dead => "dead"

def statusEntries : List (String × AppState) → Task (List (String × Int × String × List Int))
  | [] => return []
  | (appId, state) :: jails => do
    let (jid, pids) ← match ← (tryCall (.jidByName appId) rfl).run with
      | .ok jid => do
        let pids ← (tryCall (.jailPids jid) rfl).run
        pure (jid, pids.toOption.getD [])
      | .error _ => pure ((-1 : Int), ([] : List Int))
    let rest ← statusEntries jails
    return (appId, jid, state.tag, pids) :: rest

def collectStatus : Task (List (String × Int × String × List Int)) := do
  let snapshot : List (String × AppState) ← call .statesEntries
  statusEntries snapshot

def zenohResult (cmd appId : String) : Except String String → ZenohResponse
  | .ok msg => .done cmd appId msg
  | .error e => .failed cmd appId e

def dispatchZenohCmd (line : String) : Task ZenohResponse :=
  let parts := Text.splitn 3 ' ' line
  let appId := parts[1]?.getD ""
  match parts[0]?.getD "" with
  | "FREEZE" => zenohResult "FREEZE" appId <$> (freezeApplication appId).run
  | "THAW" => zenohResult "THAW" appId <$> (thawApplication appId).run
  | "STATUS" => .status <$> collectStatus
  | other => return .unknown other

/-- One sample of the bridge's subscription. -/
def zenohSample (payload : String) : Task Unit := do
  let line := Text.trim payload
  if line.isEmpty then return
  let _ ← dispatchZenohCmd line

end Bsdos.Lifecycle
