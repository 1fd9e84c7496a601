import Bsdos.Effects.Replay
import Bsdos.Text
import Mathlib.Data.Finmap

namespace Bsdos.Pkgd
open Effects

abbrev Bytes := List UInt8

def bytesOf (s : String) : Bytes := s.toUTF8.toList

inductive DescriptorError
  | tomlParse (msg : String)
  | validation (msg : String)
  deriving DecidableEq, Repr

inductive PkgdError
  | io (msg : String)
  | descriptor (e : DescriptorError)
  | json (msg : String)
  | archive (msg : String)
  | verify (msg : String)
  | install (msg : String)
  deriving DecidableEq, Repr

/-- How a run of the tool ends early: with an error, or with a panic. -/
inductive Stop
  | failed (e : PkgdError)
  | panicked
  deriving DecidableEq, Repr

/-- Single file entry in manifest.json. -/
structure FileEntry where
  name : String
  sha256 : String
  deriving DecidableEq, Repr

/-- manifest.json root. -/
structure ManifestJson where
  files : List FileEntry
  deriving DecidableEq, Repr

structure JpkMeta where
  schemaVersion : String
  id : String
  version : String
  deriving DecidableEq, Repr

structure JpkCompatibility where
  bsdosCodenameMin : String
  arch : List String
  deriving DecidableEq, Repr

structure JpkRuntime where
  runtimeType : String
  entrypoint : String
  deriving DecidableEq, Repr

structure JpkPermissions where
  network : String
  filesystem : String
  deriving DecidableEq, Repr

/-- jpk.toml, as far as it is validated, built and installed by. -/
structure JpkDescriptor where
  header : JpkMeta
  compatibility : JpkCompatibility
  runtime : JpkRuntime
  permissions : JpkPermissions
  deriving DecidableEq, Repr

/-- One member of a tar archive, as its iterator hands it out. -/
structure TarEntry where
  path : Except String String
  bytes : Except String Bytes

/-- The decoders and the hash the tool is linked with. -/
structure Codecs where
  entries : Bytes → Except String (List (Except String TarEntry))
  manifest : Bytes → Except String ManifestJson
  utf8 : Bytes → Except String String
  toml : String → Except String JpkDescriptor
  sha256 : Bytes → Vector UInt8 32

/-- The members of an archive by name: of members with one name the last. -/
abbrev FileBytes := Finmap fun _ : String => Bytes

inductive Op
  | openFile (path : String)
  | createDirAll (path : String)
  | unpack (payload : Bytes) (dest : String)
  | print (line : String)
  | eprint (line : String)
  deriving DecidableEq, Repr

def Op.Ret : Op → Type
  | .openFile _ => Except String Bytes
  | .createDirAll _ | .unpack _ _ => Except String Unit
  | _ => Unit

abbrev Tool : Signature := ⟨Op, Op.Ret⟩

abbrev Fallible := ExceptT Stop (Prog Tool)

def call (op : Op) : Prog Tool op.Ret := Prog.perform (E := Tool) op

def print (line : String) : Fallible Unit := call (.print line)

def eprint (line : String) : Fallible Unit := call (.eprint line)

/-- A result whose error is wrapped. -/
def mapErr {α : Type} (wrap : String → PkgdError) : Except String α → Fallible α
  | .ok a => return a
  | .error e => throw (.failed (wrap e))

def okOr {α : Type} (e : PkgdError) : Option α → Fallible α
  | some a => return a
  | none => throw (.failed e)

/-- The files the tool finds. -/
structure Disk where
  files : String → Option Bytes

/-- A file that opens is the file on the disk; anything can fail. -/
def Disk.may (d : Disk) : (op : Op) → op.Ret → Bool
  | .openFile path, .ok bytes => d.files path = some bytes
  | _, _ => true

/-- The tool, alone with a disk on which the archive does not change. -/
def tool : System Tool Unit Disk where
  Request := Empty
  Env := Empty
  may := fun _ => Disk.may
  effect := fun _ d _ _ => d
  serve := fun _ request => nomatch request
  droppable := fun _ _ => false
  surroundings := fun _ change => nomatch change

end Bsdos.Pkgd
