import Bsdos.Lifecycle.System
import Bsdos.Toml.Value

namespace Bsdos.Lifecycle
open Toml

/-- The part of `[runtime]` that lifecycle management needs. -/
structure JpkRuntime where
  runtimeType : String
  jailName : String
  needsWayland : Bool
  needsInput : Bool
  needsGpu : Bool
  deriving DecidableEq

structure JpkPermissions where
  maxMemoryMb : UInt64
  maxCpuPercent : UInt8
  maxDiskMb : UInt64
  deriving DecidableEq

structure JpkMeta where
  id : String
  version : String
  name : String
  deriving DecidableEq

structure JpkDescriptor where
  header : JpkMeta
  runtime : JpkRuntime
  permissions : JpkPermissions
  deriving DecidableEq

def readRuntime (v : Value) : Option JpkRuntime := do
  let f ← v.fields?
  let runtimeType ← f.required Value.string? 0 "type"
  let jailName ← f.required Value.string? 1 "jail_name"
  let needsWayland ← f.required Value.boolean? 2 "needs_wayland"
  let needsInput ← f.required Value.boolean? 3 "needs_input"
  let needsGpu ← f.required Value.boolean? 4 "needs_gpu"
  return { runtimeType, jailName, needsWayland, needsInput, needsGpu }

def readPermissions (v : Value) : Option JpkPermissions := do
  let f ← v.fields?
  let maxMemoryMb ← f.required Value.u64? 0 "max_memory_mb"
  let maxCpuPercent ← f.required Value.u8? 1 "max_cpu_percent"
  let maxDiskMb ← f.required Value.u64? 2 "max_disk_mb"
  return { maxMemoryMb, maxCpuPercent, maxDiskMb }

def readMeta (v : Value) : Option JpkMeta := do
  let f ← v.fields?
  let id ← f.required Value.string? 0 "id"
  let version ← f.required Value.string? 1 "version"
  let name ← f.required Value.string? 2 "name"
  return { id, version, name }

def readDescriptor (doc : Table) : Option JpkDescriptor := do
  let f := Fields.named doc
  let header ← f.required readMeta 0 "meta"
  let runtime ← f.required readRuntime 1 "runtime"
  let permissions ← f.required readPermissions 2 "permissions"
  return { header, runtime, permissions }

/-- One descriptor file, from what reading it gives. -/
def parseDescriptor (toml : Library) (path : String) (content : Except String String) : Except String JpkDescriptor := do
  let content ← content.mapError fun e => "read " ++ path ++ ": " ++ e
  (toml.read readDescriptor content).mapError fun e => "parse " ++ path ++ ": " ++ e

/-- Apps that need the GPU are kept longer than those that do not. -/
def JpkDescriptor.config (desc : JpkDescriptor) : AppLifecycleConfig where
  appId := desc.runtime.jailName
  jailName := desc.runtime.jailName
  maxMemoryMb := desc.permissions.maxMemoryMb.toNat
  maxCpuPercent := desc.permissions.maxCpuPercent
  priority := if desc.runtime.needsGpu then 50 else 200
  needsGpu := desc.runtime.needsGpu

end Bsdos.Lifecycle
