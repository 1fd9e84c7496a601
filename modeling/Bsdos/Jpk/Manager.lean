import Bsdos.Octets.Endian
import Bsdos.Pkgd.Install

namespace Bsdos.Jpk
open Effects

abbrev Bytes := List UInt8

structure Manifest where
  id : String
  name : String
  version : String
  entry : String
  network : Bool
  devices : List String
  devfsRuleset : UInt32
  deriving DecidableEq, Repr

/-- Only a-z, 0-9, dots and hyphens. -/
def Manifest.validateId (id : String) : Except String Unit :=
  if id.isEmpty ∨ id.utf8ByteSize > 128 then .error "invalid id length"
  else
    match id.toList.find? fun ch => !Pkgd.validAppIdChar ch with
    | some ch => .error ("invalid char in id: " ++ String.singleton ch)
    | none => .ok ()

def jailsDir : String := "/jails/apps"

def jailConfDir : String := "/etc/jail.conf.d"

def magic : Nat := 0x4A504B00

/-- How a child process ended, with what it wrote to its standard error. -/
structure Output where
  success : Bool
  status : String
  stderr : String
  deriving DecidableEq, Repr

/-- What the manager asks of the system. A file is opened and read at once. -/
inductive Op
  | print (line : String)
  | readFile (path : String)
  | createDirAll (path : String)
  | decompressTar (payload : Bytes) (dest : String)
  | writeFile (path contents : String)
  | run (program : String) (args : List String)
  | pathExists (path : String)
  | removeFile (path : String)
  | removeDirAll (path : String)
  deriving DecidableEq, Repr

/-- `zstd -d | tar -xf - -C dest` answers with the exit of each process. -/
def Op.Ret : Op → Type
  | .readFile _ => Except String Bytes
  | .createDirAll _ | .writeFile _ _ | .removeFile _ | .removeDirAll _ => Except String Unit
  | .decompressTar _ _ => Except String (Output × Output)
  | .run _ _ => Except String Output
  | .pathExists _ => Bool
  | .print _ => Unit

abbrev Root : Signature := ⟨Op, Op.Ret⟩

/-- Errors are boxed; what is left of them is their text. -/
abbrev Fallible := ExceptT String (Prog Root)

def call (op : Op) : Prog Root op.Ret := Prog.perform (E := Root) op

def print (line : String) : Fallible Unit := call (.print line)

/-- `PathBuf::from(dir).join(name)` for a name without a leading slash. -/
def joined (dir name : String) : String := Pkgd.join dir name

def jailRoot (id : String) : String := joined jailsDir id

def confPath (id : String) : String := joined jailConfDir (id ++ ".conf")

/-- `{:#010x}`. -/
def hex32 (n : Nat) : String :=
  "0x" ++ String.ofList ((List.range 8).reverse.map fun i => Text.hexDigit (n / 16 ^ i % 16))

/-- The manifest and the payload of a package; `decode` reads the manifest's JSON. -/
def parseJpk (decode : Bytes → Except String Manifest) (bytes : Bytes) : Except String (Manifest × Bytes) := do
  if bytes.length < 12 then throw "failed to fill whole buffer"
  let found := Octets.ofLe (bytes.take 4)
  if found ≠ magic then throw ("not a .jpk file (magic=" ++ hex32 found ++ ")")
  let manifestLen := Octets.ofLe ((bytes.drop 8).take 4)
  let body := bytes.drop 12
  if body.length < manifestLen then throw "failed to fill whole buffer"
  let manifest ← decode (body.take manifestLen)
  return (manifest, body.drop manifestLen)

/-- The text of a `jail.conf` for a package. -/
def generateJailConf (manifest : Manifest) (jailRoot : String) : String :=
  let networkSection :=
    if manifest.network then "    ip4 = inherit;\n" else "    ip4 = disable;\n    ip6 = disable;\n"
  "# Сгенерировано bsdos-pkgd для " ++ manifest.id ++ " v" ++ manifest.version ++ "\n" ++
    manifest.id ++ " \x7b\n" ++
    "    path = \"" ++ jailRoot ++ "\";\n" ++
    "    host.hostname = \"" ++ manifest.id ++ "\";\n" ++
    "    persist;\n" ++
    "    mount.devfs;\n" ++
    "    devfs_ruleset = " ++ toString manifest.devfsRuleset.toNat ++ ";\n" ++
    "    exec.start = \"" ++ manifest.entry ++ "\";\n" ++
    "    exec.stop = \"/bin/sh /etc/rc.shutdown\";\n" ++
    networkSection ++ "\x7d\n"

def unpackPayload (payload : Bytes) (jailRoot : String) : Fallible Unit := do
  print ("[pkgd] unpacking " ++ toString payload.length ++ " bytes of payload to " ++ jailRoot)
  let ended : Except String (Output × Output) ← call (.decompressTar payload jailRoot)
  let (zstdStatus, tarStatus) ← liftM ended
  if !zstdStatus.success then throw ("zstd failed: " ++ zstdStatus.status)
  if !tarStatus.success then throw ("tar failed: " ++ tarStatus.status)

def badId (checked : Except String Unit) : Except String Unit :=
  match checked with
  | .ok () => .ok ()
  | .error e => .error ("bad app id: " ++ e)

def installPackage (decode : Bytes → Except String Manifest) (jpkPath : String) : Fallible Unit := do
  print ("[pkgd] installing: " ++ jpkPath)
  let file : Except String Bytes ← call (.readFile jpkPath)
  let bytes ← liftM file
  let (manifest, payload) ← liftM (parseJpk decode bytes)
  liftM (badId (Manifest.validateId manifest.id))
  let jailRoot := jailRoot manifest.id
  let created : Except String Unit ← call (.createDirAll jailRoot)
  liftM created
  print ("[pkgd] jail root: " ++ jailRoot)
  unpackPayload payload jailRoot
  let written : Except String Unit ← call (.writeFile (confPath manifest.id) (generateJailConf manifest jailRoot))
  liftM written
  print ("[pkgd] wrote jail conf: " ++ confPath manifest.id)
  print ("[pkgd] installed " ++ manifest.name ++ " v" ++ manifest.version)

def uninstallPackage (appId : String) : Fallible Unit := do
  liftM (badId (Manifest.validateId appId))
  print ("[pkgd] uninstalling: " ++ appId)
  let _ : Except String Output ← call (.run "jail" ["-r", appId])
  let _ : Except String Output ← call (.run "umount" [jailsDir ++ "/" ++ appId ++ "/dev"])
  let dataset := "bsdos/apps/" ++ appId
  print ("[pkgd] destroying zfs dataset: " ++ dataset)
  let destroyed : Except String Output ← call (.run "zfs" ["destroy", "-r", dataset])
  let out ← liftM destroyed
  if !out.success then print ("[pkgd] zfs destroy warning: " ++ out.stderr)
  let confExists : Bool ← call (.pathExists (confPath appId))
  if confExists then
    let removed : Except String Unit ← call (.removeFile (confPath appId))
    liftM removed
  let rootExists : Bool ← call (.pathExists (jailRoot appId))
  if rootExists then
    let removed : Except String Unit ← call (.removeDirAll (jailRoot appId))
    liftM removed
  print ("[pkgd] uninstalled " ++ appId)

/-- The manager on a host where a call can get any answer. -/
def host : System Root Unit Unit where
  Request := Empty
  Env := Empty
  may := fun _ _ _ _ => true
  effect := fun _ w _ _ => w
  serve := fun _ request => nomatch request
  droppable := fun _ _ => false
  surroundings := fun _ change => nomatch change

end Bsdos.Jpk
