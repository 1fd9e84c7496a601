import Bsdos.Text

namespace Bsdos.Core

/-- The variables that are set, to texts that can be read. -/
abbrev Env := String → Option String

structure ZenohConfig where
  transport : String
  listenIp : String
  listenPort : String
  obfsPsk : String
  multicast : Bool
  openTimeoutSecs : UInt64
  deriving DecidableEq, Repr

structure OutputSection where
  width : UInt32
  height : UInt32
  scale : Float32

structure Config where
  zenoh : ZenohConfig
  autostart : List String
  output : OutputSection

def ZenohConfig.default : ZenohConfig := ⟨"tcp", "", "7447", "", false, 10⟩

def OutputSection.default : OutputSection := ⟨1280, 720, 1.0⟩

def Config.default : Config := ⟨.default, [], .default⟩

/-- The keys that a `[zenoh]` table can have. -/
structure ZenohTable where
  transport : Option String
  listenIp : Option String
  listenPort : Option String
  obfsPsk : Option String
  multicast : Option Bool
  openTimeoutSecs : Option UInt64

structure OutputTable where
  width : Option UInt32
  height : Option UInt32
  scale : Option Float32

/-- A parsed configuration file. -/
structure Document where
  zenoh : Option ZenohTable
  autostart : Option (List String)
  output : Option OutputTable

def ZenohTable.config (t : ZenohTable) : ZenohConfig :=
  let d := ZenohConfig.default
  ⟨t.transport.getD d.transport, t.listenIp.getD d.listenIp, t.listenPort.getD d.listenPort, t.obfsPsk.getD d.obfsPsk,
    t.multicast.getD d.multicast, t.openTimeoutSecs.getD d.openTimeoutSecs⟩

def OutputTable.section (t : OutputTable) : OutputSection :=
  let d := OutputSection.default
  ⟨t.width.getD d.width, t.height.getD d.height, t.scale.getD d.scale⟩

def Document.config (d : Document) : Config :=
  ⟨(d.zenoh.map ZenohTable.config).getD .default, d.autostart.getD [], (d.output.map OutputTable.section).getD .default⟩

section load
variable (parseF32 : String → Option Float32)

/-- What an environment variable makes of a configuration, where it is set. -/
def overriding (v : Option String) (apply : String → Config → Config) (cfg : Config) : Config :=
  match v with
  | some v => apply v cfg
  | none => cfg

def applyEnvOverrides (cfg : Config) (getenv : Env) : Config :=
  let cfg := overriding (getenv "ZENOH_OBFS")
    (fun v cfg => if v = "1" then { cfg with zenoh.transport := "obfs" } else cfg) cfg
  let cfg := overriding (getenv "ZENOH_TLS")
    (fun v cfg => if v = "1" then { cfg with zenoh.transport := "tls" } else cfg) cfg
  let cfg := overriding (getenv "ZENOH_LISTEN_IP") (fun v cfg => { cfg with zenoh.listenIp := v }) cfg
  let cfg := overriding (getenv "ZENOH_LISTEN_PORT") (fun v cfg => { cfg with zenoh.listenPort := v }) cfg
  let cfg := overriding (getenv "BSDOS_OBFS_PSK") (fun v cfg => { cfg with zenoh.obfsPsk := v }) cfg
  let cfg := overriding (getenv "BSDOS_ZENOH_SCOUTING")
    (fun v cfg => { cfg with zenoh.multicast := decide (v = "1") }) cfg
  let cfg := overriding (getenv "BSDOS_AUTOSTREAM")
    (fun v cfg => if v.isEmpty then cfg
      else { cfg with autostart := ((Text.split ',' v).map Text.trim).filter fun s => !s.isEmpty }) cfg
  let cfg := overriding (getenv "BSDOS_OUTPUT_WIDTH")
    (fun v cfg => ((Text.parseBelow (2 ^ 32) v).map fun w => { cfg with output.width := .ofNat w }).getD cfg) cfg
  let cfg := overriding (getenv "BSDOS_OUTPUT_HEIGHT")
    (fun v cfg => ((Text.parseBelow (2 ^ 32) v).map fun h => { cfg with output.height := .ofNat h }).getD cfg) cfg
  overriding (getenv "BSDOS_OUTPUT_SCALE")
    (fun v cfg => ((parseF32 v).map fun s => { cfg with output.scale := s }).getD cfg) cfg

/-- The configuration that the daemon announces; a file that is missing or cannot be parsed
leaves the defaults. -/
def load (file : Except String Document) (getenv : Env) : Config :=
  applyEnvOverrides parseF32 (file.toOption.elim .default Document.config) getenv

end load

/-- The listen address, as it is announced. -/
def Config.address (cfg : Config) : String :=
  (if cfg.zenoh.listenIp.isEmpty then "0.0.0.0" else cfg.zenoh.listenIp) ++ ":" ++ cfg.zenoh.listenPort

end Bsdos.Core
