import Bsdos.Core.Config

namespace Bsdos.Core

/-- What has been inserted into a session configuration, newest first: keys and JSON5 texts. -/
abbrev Settings := List (String × String)

structure BuiltConfig where
  config : Settings
  openTimeout : UInt64
  deriving DecidableEq, Repr

/-- The library: the configuration in a file, and what it has against an insertion, if
anything. -/
structure Zenoh where
  fromFile : String → Except String Settings
  objection : Settings → String → String → Option String

def quoted (text : String) : String := "\"" ++ text ++ "\""

section build
variable (zenoh : Zenoh) (getenv : Env)

def Zenoh.insertJson5 (cfg : Settings) (key value : String) (wrap : String → String) : Except String Settings :=
  match zenoh.objection cfg key value with
  | some e => .error (wrap e)
  | none => .ok ((key, value) :: cfg)

/-- A variable that is set to more than nothing. -/
def env (name : String) : Option String := (getenv name).filter fun s => !s.isEmpty

def applyTlsConfig (cfg : Settings) (caPath : String) (certPath keyPath : Option String) : Except String Settings := do
  let cfg ← zenoh.insertJson5 cfg "transport/link/tls/root_ca_certificate" (quoted caPath) ("TLS CA config: " ++ ·)
  let cfg ← match certPath with
    | some cert => zenoh.insertJson5 cfg "transport/link/tls/listen_certificate" (quoted cert) ("TLS cert config: " ++ ·)
    | none => pure cfg
  let cfg ← match keyPath with
    | some key => zenoh.insertJson5 cfg "transport/link/tls/listen_private_key" (quoted key) ("TLS key config: " ++ ·)
    | none => pure cfg
  if certPath.isSome && keyPath.isSome then
    let cfg ← zenoh.insertJson5 cfg "transport/link/tls/enable_mtls" "true" ("TLS mtls config: " ++ ·)
    zenoh.insertJson5 cfg "transport/link/tls/verify_name_on_connect" "false" ("TLS verify_name config: " ++ ·)
  else pure cfg

def legacyTls : Bool := getenv "ZENOH_TLS" = some "1"

/-- A path, or where it is left out under `ZENOH_TLS=1` the default one. -/
def tlsPath (name default : String) : Option String :=
  (env getenv name).or (if legacyTls getenv then some default else none)

def tlsCa : Option String := tlsPath getenv "ZENOH_TLS_CA" "/etc/bsdos/ca.pem"

/-- The protocol of the endpoint, with what TLS needs added to the configuration. -/
def chooseProtocol (cfg : Settings) : Except String (String × Settings) :=
  if getenv "ZENOH_OBFS" = some "1" then pure ("obfs", cfg)
  else match tlsCa getenv with
    | some caPath => do
      let cfg ← applyTlsConfig zenoh cfg caPath (tlsPath getenv "ZENOH_TLS_CERT" "/etc/bsdos/server.pem")
        (tlsPath getenv "ZENOH_TLS_KEY" "/etc/bsdos/server.key")
      pure ("tls", cfg)
    | none => pure ("tcp", cfg)

def openTimeout (default : UInt64) : UInt64 :=
  (((env getenv "BSDOS_ZENOH_OPEN_TIMEOUT").bind (Text.parseBelow (2 ^ 64))).map UInt64.ofNat).getD default

/-- The endpoint to listen at: the full one, or one put together. -/
def listenEndpoint (protocol : String) : String :=
  let listenIp := (env getenv "ZENOH_LISTEN_IP").getD "0.0.0.0"
  let listenPort := (env getenv "ZENOH_LISTEN_PORT").getD "7447"
  (env getenv "ZENOH_LISTEN").getD (protocol ++ "/" ++ listenIp ++ ":" ++ listenPort)

def fromEnv : Except String BuiltConfig := do
  match env getenv "ZENOH_CONFIG" with
  | some path =>
    let config ← (zenoh.fromFile path).mapError ("Failed to load Zenoh config: " ++ ·)
    pure ⟨config, openTimeout getenv 30⟩
  | none =>
    let mode := (env getenv "ZENOH_MODE").getD "router"
    let cfg ← zenoh.insertJson5 [] "mode" (quoted mode) ("mode config: " ++ ·)
    let (protocol, cfg) ← chooseProtocol zenoh getenv cfg
    let listenEp := listenEndpoint getenv protocol
    let cfg ← zenoh.insertJson5 cfg "listen/endpoints" ("[" ++ quoted listenEp ++ "]") ("listen endpoint config: " ++ ·)
    let scouting : Bool := getenv "BSDOS_ZENOH_SCOUTING" = some "1"
    let cfg ← zenoh.insertJson5 cfg "scouting/multicast/enabled" (if scouting then "true" else "false") ("scouting config: " ++ ·)
    let cfg ← match env getenv "ZENOH_PEER" with
      | some peer => zenoh.insertJson5 cfg "connect/endpoints" ("[" ++ quoted peer ++ "]") ("connect endpoint config: " ++ ·)
      | none => pure cfg
    pure ⟨cfg, openTimeout getenv 10⟩

end build

end Bsdos.Core
