import Bsdos.Pkgd.Basic

namespace Bsdos.Pkgd
open Effects

/-- `e` as a `DescriptorError::Validation`, under the field it is about. -/
def invalid (msg : String) : Except DescriptorError Unit := .error (.validation msg)

def validAppIdChar (ch : Char) : Bool := ('a' ≤ ch ∧ ch ≤ 'z') ∨ ('0' ≤ ch ∧ ch ≤ '9') ∨ ch = '.' ∨ ch = '-'

def validateAppId (id : String) : Except String Unit :=
  if id.isEmpty ∨ id.utf8ByteSize > 128 then
    .error ("length " ++ toString id.utf8ByteSize ++ " is out of valid range 1..=128")
  else
    match id.toList.find? fun ch => !validAppIdChar ch with
    | some ch => .error ("invalid character '" ++ String.singleton ch ++ "' — only lowercase a-z, 0-9, '.', '-' are allowed")
    | none =>
      if id.toList.contains '.' then .ok () else .error "must use reverse-DNS notation (e.g. 'org.bsdos.foot')"

def validateSemver (v : String) : Except String Unit :=
  let parts := Text.split '.' v
  if parts.length < 2 ∨ parts.length > 3 then
    .error ("'" ++ v ++ "' is not a valid semver (expected MAJOR.MINOR or MAJOR.MINOR.PATCH)")
  else
    match parts.find? fun part => !Text.isU64 part with
    | some part => .error ("'" ++ part ++ "' in version '" ++ v ++ "' is not a non-negative integer")
    | none => .ok ()

/-- The check of a field against the values it may have. -/
def oneOf (field value : String) (valid : List String) : Except DescriptorError Unit :=
  if valid.contains value then .ok ()
  else invalid (field ++ " '" ++ value ++ "' must be one of: " ++ ", ".intercalate valid)

def under (field : String) : Except String Unit → Except DescriptorError Unit
  | .ok () => .ok ()
  | .error e => invalid (field ++ ": " ++ e)

def JpkDescriptor.validate (d : JpkDescriptor) : Except DescriptorError Unit := do
  if d.header.schemaVersion ≠ "1.0" then
    invalid ("unsupported schema_version '" ++ d.header.schemaVersion ++ "', expected '1.0'")
  under "meta.id" (validateAppId d.header.id)
  under "meta.version" (validateSemver d.header.version)
  if d.compatibility.arch.isEmpty then invalid "compatibility.arch must not be empty"
  if d.runtime.runtimeType ≠ "jail" then
    invalid ("runtime.type '" ++ d.runtime.runtimeType ++ "' not supported in schema v1.0 (only 'jail')")
  if d.runtime.entrypoint.isEmpty then invalid "runtime.entrypoint must not be empty"
  oneOf "permissions.network" d.permissions.network ["none", "inet", "inet6", "unix-only"]
  oneOf "permissions.filesystem" d.permissions.filesystem ["ro", "rw", "private-tmpfs"]

/-- The members read so far, and the next ones. -/
def readEntries (fileBytes : FileBytes) : List (Except String TarEntry) → Except PkgdError FileBytes
  | [] => .ok fileBytes
  | .error e :: _ => .error (.archive ("tar entry: " ++ e))
  | .ok entry :: entries =>
    match entry.path with
    | .error e => .error (.archive ("entry path: " ++ e))
    | .ok name =>
      match entry.bytes with
      | .error e => .error (.io ("read " ++ name ++ ": " ++ e))
      | .ok buf => readEntries (fileBytes.insert name buf) entries

section tool
variable (k : Codecs)

/-- What the bytes of a package decode to. -/
def members (bytes : Bytes) : Except PkgdError FileBytes :=
  match k.entries bytes with
  | .error e => .error (.archive ("tar entries: " ++ e))
  | .ok entries => readEntries ∅ entries

/-- Opening a package and reading all its members; both passes do this. -/
def readArchive (path : String) : Fallible FileBytes := do
  let opened : Except String Bytes ← call (.openFile path)
  let bytes ← mapErr (fun e => .io ("cannot open " ++ path ++ ": " ++ e)) opened
  match members k bytes with
  | .error e => throw (.failed e)
  | .ok fileBytes => return fileBytes

def sha256Hex (data : Bytes) : String := Text.hexEncode (k.sha256 data).toList

/-- `&s[..12]`, which panics where the text has no such prefix. -/
def firstTwelve (s : String) : Fallible String :=
  match Text.bytePrefix 12 s with
  | some p => return p
  | none => throw .panicked

/-- The check of one tracked file: whether it is there as listed. -/
def verifyEntry (fileBytes : FileBytes) (entry : FileEntry) : Fallible Bool :=
  match fileBytes.lookup entry.name with
  | none => do
    eprint ("  MISSING  " ++ entry.name)
    return false
  | some data => do
    let computed := sha256Hex k data
    let listed ← firstTwelve entry.sha256
    if computed = entry.sha256 then
      print ("  OK       " ++ entry.name ++ " (" ++ listed ++ ")")
      return true
    else
      eprint ("  MISMATCH " ++ entry.name ++ " expected=" ++ listed ++ " got=" ++ (← firstTwelve computed))
      return false

def verifyEntries (fileBytes : FileBytes) : List FileEntry → Bool → Fallible Bool
  | [], allOk => return allOk
  | entry :: entries, allOk => do
    let ok ← verifyEntry k fileBytes entry
    verifyEntries fileBytes entries (allOk && ok)

/-- The signature stub: its presence is reported, it is not checked. -/
def signatureLine (fileBytes : FileBytes) : String :=
  if "signature.ed25519" ∈ fileBytes ∧ "cert.pem" ∈ fileBytes then
    "  SIGN     signature.ed25519 present (Ed25519 verify: TODO)"
  else "  SIGN     unsigned package (no signature.ed25519)"

def conclude (path : String) (allOk : Bool) : Fallible Unit :=
  if allOk then print ("Verify OK: " ++ path)
  else throw (.failed (.verify ("one or more hash mismatches in " ++ path)))

def runVerify (path : String) : Fallible Unit := do
  let fileBytes ← readArchive k path
  let manifestBytes ← okOr (.verify "manifest.json not found in archive") (fileBytes.lookup "manifest.json")
  let manifest ← mapErr (fun e => .json ("parse manifest.json: " ++ e)) (k.manifest manifestBytes)
  let allOk ← verifyEntries k fileBytes manifest.files true
  print (signatureLine fileBytes)
  conclude path allOk

/-- `root.join(id)` for an id without a leading slash. -/
def join (root id : String) : String :=
  if root.isEmpty ∨ root.toList.getLast? = some '/' then root ++ id else root ++ "/" ++ id

/-- The descriptor of a package, parsed and validated. -/
def parseDescriptor (tomlBytes : Bytes) : Fallible JpkDescriptor := do
  let tomlStr ← mapErr (fun e => .io ("jpk.toml is not valid UTF-8: " ++ e)) (k.utf8 tomlBytes)
  let descriptor ← mapErr (fun e => .descriptor (.tomlParse e)) (k.toml tomlStr)
  match descriptor.validate with
  | .error e => throw (.failed (.descriptor e))
  | .ok () => return descriptor

def runInstall (path root : String) : Fallible Unit := do
  print ("Verifying " ++ path ++ "...")
  runVerify k path
  let fileBytes ← readArchive k path
  let tomlBytes ← okOr (.archive "jpk.toml not found in archive") (fileBytes.lookup "jpk.toml")
  let descriptor ← parseDescriptor k tomlBytes
  let appId := descriptor.header.id
  let dest := join root appId
  let created : Except String Unit ← call (.createDirAll dest)
  mapErr (fun e => .install ("create dir " ++ dest ++ ": " ++ e)) created
  let payloadBytes ← okOr (.archive "payload.tar not found in archive") (fileBytes.lookup "payload.tar")
  let unpacked : Except String Unit ← call (.unpack payloadBytes dest)
  mapErr (fun e => .install ("unpack payload into " ++ dest ++ ": " ++ e)) unpacked
  print ("Installed " ++ appId ++ " v" ++ descriptor.header.version ++ " -> " ++ dest)

end tool

end Bsdos.Pkgd
