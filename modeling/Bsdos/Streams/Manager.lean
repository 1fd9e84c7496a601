import Bsdos.Streams.Basic

namespace Bsdos.Streams
open Effects

abbrev Task := Prog Host

/-- A task that can end early with a stream error. -/
abbrev Fallible := ExceptT StreamError Task

def call (op : Op) : Task op.Ret := Prog.perform (E := Host) op

/-- A call whose failure is turned into a stream error. -/
def tryCall (op : Op) (wrap : String → StreamError) {α : Type} (answers : op.Ret = Except String α) : Fallible α :=
  ExceptT.mk (answers ▸ call op >>= fun r => pure (r.mapError wrap))

def log (note : Note) : Task Unit := call (.note note)

def lock : Task Unit := call .lock

def unlock : Task Unit := call .unlock

def pathExists (path : String) : Task Bool := call (.pathExists path)

def sleep (millis : Nat) : Task Unit := call (.sleep millis)

/-- `kill` and `wait` on a child, each with its result ignored. -/
def killChild (child : Child) : Task Unit := do
  let _ ← call (.kill child)

def waitChild (child : Child) : Task Unit := do
  let _ ← call (.wait child)

def killAndWait (child : Child) : Task Unit := do
  killChild child
  waitChild child

def rundirFor (appId : String) : String := "/tmp/bsdos/streams/" ++ appId

/-- The loop that waits for a socket file: one look, then a look after each of `polls`
sleeps of half a second; `giveUp` cleans up when the last look fails. -/
def awaitSocket (path : String) (giveUp : Task Unit) (error : StreamError) : Nat → Fallible Unit
  | 0 => do
    if ← pathExists path then return
    giveUp
    throw error
  | polls + 1 => do
    if ← pathExists path then return
    sleep 500
    awaitSocket path giveUp error polls

def spawn (appId : String) (role : Role) (command : Command) (failed : String) : Fallible Child :=
  tryCall (.spawn appId role command) (fun e => .spawnFailed (failed ++ e)) rfl

def cageCommand (rundir : String) : Command where
  program := "/usr/local/bin/cage"
  env := [("XDG_RUNTIME_DIR", rundir), ("WLR_BACKENDS", "headless"), ("WLR_RENDERER", "pixman"),
    ("WLR_HEADLESS_OUTPUTS", "1"), ("LIBSEAT_BACKEND", "noop")]
  args := ["--", "/usr/local/bin/wl-keepalive"]

def tunnelCommand (rundir : String) : Command where
  program := "/usr/local/bin/wayland-tunnel"
  env := [("XDG_RUNTIME_DIR", rundir), ("WLSTREAM_COMPOSITOR_SOCK", rundir ++ "/wayland-0"),
    ("WLSTREAM_WAYLAND_SOCK", rundir ++ "/wayland-ghost-0"),
    ("WLSTREAM_STREAM_SOCK", rundir ++ "/wayland-stream.sock"), ("WLSTREAM_INPUT_SOCK", rundir ++ "/input.sock")]
  args := []

/-- The shell line with which most apps are run as the stream's user. -/
def suCommand (cfg : StreamConfig) (rundir rest : String) : Command where
  program := "su"
  env := []
  args := ["-m", cfg.user, "-c",
    "exec env XDG_RUNTIME_DIR='" ++ rundir ++ "' WAYLAND_DISPLAY=wayland-ghost-0 " ++ rest]

def footCommand (rundir : String) : Command where
  program := "env"
  env := [("XDG_RUNTIME_DIR", rundir), ("WAYLAND_DISPLAY", "wayland-ghost-0")]
  args := ["/usr/local/bin/foot", "sh", "-c", "while true; do date; uptime; sleep 1; done"]

def electrons : List String :=
  ["/usr/local/bin/electron42", "/usr/local/bin/electron39", "/usr/local/bin/electron37"]

/-- The first of the paths that exists. -/
def firstExisting : List String → Task (Option String)
  | [] => return none
  | path :: paths => do
    if ← pathExists path then return some path
    firstExisting paths

def isChrome (cfg : StreamConfig) : Bool := cfg.app = "chrome" || cfg.app = "chromium"

def spawnApp (cfg : StreamConfig) (rundir : String) : Fallible Child := do
  match cfg.app with
  | "firefox" =>
    spawn cfg.appId .app (suCommand cfg rundir ("MOZ_ENABLE_WAYLAND=1 HOME=/home/" ++ cfg.user ++
      " /usr/local/bin/firefox --new-instance --no-remote '" ++ cfg.url ++ "'")) "app spawn: "
  | "foot" => spawn cfg.appId .app (footCommand rundir) "app spawn: "
  | "chrome" | "chromium" =>
    spawn cfg.appId .app (suCommand cfg rundir ("HOME=/home/" ++ cfg.user ++
      " LIBGL_ALWAYS_SOFTWARE=true MESA_GL_VERSION_OVERRIDE=3.3 /usr/local/bin/chrome --ozone-platform=wayland" ++
      " --no-sandbox --no-first-run --no-default-browser-check --user-data-dir=/home/" ++ cfg.user ++
      "/.bsdos-chrome --force-device-scale-factor=2 --new-window '" ++ cfg.url ++ "'")) "app spawn: "
  | "cowork" | "claude-desktop" =>
    let appDir := if cfg.url.isEmpty || cfg.url = "about:blank" then "/opt/claude-cowork" else cfg.url
    let electron := (← firstExisting electrons).getD "/usr/local/bin/electron42"
    spawn cfg.appId .app (suCommand cfg rundir ("HOME=/home/" ++ cfg.user ++
      " COWORK_VM_BACKEND=host GIO_USE_VFS=local GSETTINGS_BACKEND=memory LIBGL_ALWAYS_SOFTWARE=true" ++
      " MESA_GL_VERSION_OVERRIDE=3.3 " ++ electron ++
      " --no-sandbox --ozone-platform=wayland --force-device-scale-factor=2 " ++ appDir)) "app spawn: "
  | "wpewebkit-fdo" | "phantom-browser" | "cog" =>
    let url := if cfg.url.isEmpty || cfg.url = "about:blank" then "about:blank" else cfg.url
    spawn cfg.appId .app (suCommand cfg rundir ("HOME=/home/" ++ cfg.user ++
      " /usr/local/bin/cog --platform=fdo '" ++ url ++ "'")) "app spawn: "
  | other => throw (.spawnFailed ("unknown app: " ++ other))

/-- The cage and tunnel of a failed start are killed and reaped. -/
def killBoth (cage tunnel : Child) : Task Unit := do
  killAndWait cage
  killAndWait tunnel

/-- What follows a failure before it is passed on. -/
def onError {α : Type} (task : Fallible α) (cleanup : Task Unit) : Fallible α := do
  match ← attempt task with
  | .ok value => return value
  | .error e =>
    cleanup
    throw e

structure SpawnedProcesses where
  cage : Child
  tunnel : Child
  app : Child

def spawnProcesses (cfg : StreamConfig) (rundir : String) : Fallible SpawnedProcesses := do
  tryCall (.createDirAll rundir) (fun e => .spawnFailed ("mkdir " ++ rundir ++ ": " ++ e)) rfl
  tryCall (.setPermissions rundir 0o777) (fun e => .spawnFailed ("chmod " ++ rundir ++ ": " ++ e)) rfl
  let cage ← spawn cfg.appId .cage (cageCommand rundir) "cage spawn: "
  let wlSock := rundir ++ "/wayland-0"
  awaitSocket wlSock (killAndWait cage) (.socketTimeout (cfg.appId ++ " cage socket timeout")) 20
  let _ ← (call (.setPermissions wlSock 0o777) : Task (Except String Unit))
  let tunnel ← onError (spawn cfg.appId .tunnel (tunnelCommand rundir) "tunnel spawn: ") (killChild cage)
  awaitSocket (rundir ++ "/wayland-stream.sock") (killBoth cage tunnel)
    (.socketTimeout (cfg.appId ++ " tunnel socket timeout")) 20
  let app ← onError (spawnApp cfg rundir) (killBoth cage tunnel)
  return ⟨cage, tunnel, app⟩

def loadRegistryVec : Fallible (List StreamConfig) := tryCall .registryLoad .registry rfl

def saveRegistryVec (configs : List StreamConfig) : Fallible Unit := do
  tryCall .registryMkdir (fun e => .registry ("mkdir registry dir: " ++ e)) rfl
  tryCall (.registryWriteTmp configs) .registry rfl
  tryCall .registryRename (fun e => .registry ("rename: " ++ e)) rfl

/-- The registry with an entry upserted. -/
def upserted (cfg : StreamConfig) (configs : List StreamConfig) : List StreamConfig :=
  configs.filter (fun c => c.appId ≠ cfg.appId) ++ [cfg]

/-- The registry without the entries of an app. -/
def removed (appId : String) (configs : List StreamConfig) : List StreamConfig :=
  configs.filter fun c => c.appId ≠ appId

def addToRegistry (cfg : StreamConfig) : Fallible Unit := do
  let configs ← loadRegistryVec
  saveRegistryVec (upserted cfg configs)

def removeFromRegistry (appId : String) : Fallible Unit := do
  let configs ← loadRegistryVec
  if (removed appId configs).length = configs.length then
    throw (.notFound ("stream " ++ appId ++ " not in registry"))
  saveRegistryVec (removed appId configs)

def listRegistry : Fallible (List StreamConfig) := loadRegistryVec

/-- A call with its entry and its return marked. -/
def recorded (c : Call) (body : Fallible Unit) : Fallible Unit := ExceptT.mk do
  log (.invoked c)
  let r ← body.run
  log (.returned c r.isOk)
  return r

/-- The membership check, under the lock. -/
def checkMembership (appId : String) : Fallible Unit := do
  lock
  let known : Bool ← call (.streamsContains appId)
  unlock
  if known then throw (.alreadyRunning appId)

/-- The end of a start: three tasks, then the instance goes into the map and its
configuration into the registry, under the lock. -/
def register (cfg : StreamConfig) (rundir : String) (procs : SpawnedProcesses) : Task Unit := do
  let forwarder : TaskHandle ← call (.spawnTask .forwarder cfg.appId (rundir ++ "/wayland-stream.sock"))
  let input : TaskHandle ← call (.spawnTask .input cfg.appId rundir)
  let resize : TaskHandle ← call (.spawnTask .resize cfg.appId rundir)
  lock
  call (.streamsInsert cfg.appId ⟨cfg.appId, cfg, procs.cage, procs.tunnel, procs.app, rundir, forwarder, input, resize⟩)
  let _ ← (addToRegistry cfg).run
  unlock

def startBody (cfg : StreamConfig) : Fallible Unit := do
  let rundir := rundirFor cfg.appId
  checkMembership cfg.appId
  let procs ← spawnProcesses cfg rundir
  register cfg rundir procs

def startStream (cfg : StreamConfig) : Fallible Unit := recorded (.start cfg) (startBody cfg)

/-- What becomes of an instance taken out of the map. -/
def tearDown (inst : StreamInstance) : Task Unit := do
  killChild inst.cage
  killChild inst.tunnel
  killChild inst.app
  if isChrome inst.cfg then
    let _ ← call (.status "pkill" ["-U", inst.cfg.user, "-f", "chrome.*bsdos-chrome"])
  waitChild inst.cage
  waitChild inst.tunnel
  waitChild inst.app
  call (.abort inst.forwarderHandle)
  call (.abort inst.inputHandle)
  call (.abort inst.resizeHandle)
  let _ ← call (.removeDirAll inst.rundir)

def stopBody (appId : String) : Fallible Unit := do
  lock
  let found : Option StreamInstance ← call (.streamsRemove appId)
  unlock
  match found with
  | none => throw (.notFound appId)
  | some inst =>
    tearDown inst
    let _ ← attempt (removeFromRegistry appId)

def stopStream (appId : String) : Fallible Unit := recorded (.stop appId) (stopBody appId)

def listStreams : Task (List String) := do
  lock
  let entries : List (String × StreamInstance) ← call .streamsEntries
  unlock
  return entries.map Prod.fst

def restoreStreams : Task Unit := do
  match ← listRegistry.run with
  | .ok configs => Prog.each (fun cfg => do let _ ← (startStream cfg).run) configs
  | .error _ => return

def isDead (child : Child) : Task Bool := do
  let r : Except String Bool ← call (.tryWait child)
  return r.toOption.getD false

/-- Chrome forks away from its launcher, so its processes are looked up by name. -/
def appDead (inst : StreamInstance) : Task Bool := do
  if isChrome inst.cfg then
    let r : Except String (Option Int) ← call (.status "pgrep" ["-U", inst.cfg.user, "-f", "chrome.*bsdos-chrome"])
    match r with
    | .ok code => return code ≠ some 0
    | .error _ => return false
  else isDead inst.app

/-- The streams with a dead process, and their configurations. -/
def collectDead : List (String × StreamInstance) → Task (List (String × StreamConfig))
  | [] => return []
  | (appId, inst) :: entries => do
    let cageDead ← isDead inst.cage
    let tunnelDead ← isDead inst.tunnel
    let appDead ← appDead inst
    if cageDead || tunnelDead || appDead then
      log (.died appId)
      let rest ← collectDead entries
      return (appId, inst.cfg) :: rest
    else collectDead entries

def findDead : Task (List (String × StreamConfig)) := do
  lock
  let entries : List (String × StreamInstance) ← call .streamsEntries
  let dead ← collectDead entries
  unlock
  return dead

def restartDead (dead : String × StreamConfig) : Task Unit := do
  let _ ← (stopStream dead.1).run
  log (.restarting dead.1)
  sleep 1000
  let _ ← (startStream dead.2).run

/-- One turn of `monitor_loop`. -/
def monitorTick : Task Unit := do
  call (.interval 10)
  let dead ← findDead
  Prog.each restartDead dead

end Bsdos.Streams
