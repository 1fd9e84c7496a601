import Bsdos.Pkgd.Install
import Bsdos.Toml.Value

namespace Bsdos.Pkgd.Schema
open Toml

/-- `[meta]`, with what is not validated. -/
structure JpkMeta extends Pkgd.JpkMeta where
  name : String
  description : String
  homepage : String
  license : String
  authors : List String
  maintainer : String
  deriving DecidableEq

structure JpkCompatibility extends Pkgd.JpkCompatibility where
  bsdosCodenameMax : String
  freebsdMin : String
  freebsdMax : String
  deriving DecidableEq

structure JpkRuntime extends Pkgd.JpkRuntime where
  jailName : String
  needsWayland : Bool
  needsInput : Bool
  needsGpu : Bool
  needsAudio : Bool
  needsModem : Bool
  deriving DecidableEq

structure JpkPermissions extends Pkgd.JpkPermissions where
  capabilities : List String
  maxOpenFiles : Option UInt32
  maxMemoryMb : Option UInt32
  maxCpuPercent : Option UInt32
  maxDiskMb : Option UInt32
  networkIngress : Bool
  networkEgress : Bool
  deriving DecidableEq

structure JpkBuild where
  sourceUrl : String
  sourceCommit : String
  buildHost : String
  buildTimestamp : String
  buildUser : String
  freebsdVersion : String
  reproducible : Bool
  deriving DecidableEq

structure JpkUpdate where
  channel : String
  autoUpdate : Bool
  deprecates : List String
  deriving DecidableEq

structure JpkDiscovery where
  keywords : List String
  category : String
  screenshot : String
  icon : String
  deriving DecidableEq

structure JpkDescriptor where
  header : JpkMeta
  compatibility : JpkCompatibility
  runtime : JpkRuntime
  permissions : JpkPermissions
  build : Option JpkBuild
  update : Option JpkUpdate
  discovery : Option JpkDiscovery
  deriving DecidableEq

def readMeta (v : Value) : Option JpkMeta := do
  let f ← v.fields?
  let schemaVersion ← f.required Value.string? 0 "schema_version"
  let id ← f.required Value.string? 1 "id"
  let version ← f.required Value.string? 2 "version"
  let name ← f.required Value.string? 3 "name"
  let description ← f.defaulted "" Value.string? 4 "description"
  let homepage ← f.defaulted "" Value.string? 5 "homepage"
  let license ← f.defaulted "" Value.string? 6 "license"
  let authors ← f.defaulted [] Value.strings? 7 "authors"
  let maintainer ← f.defaulted "" Value.string? 8 "maintainer"
  return { schemaVersion, id, version, name, description, homepage, license, authors, maintainer }

def readCompatibility (v : Value) : Option JpkCompatibility := do
  let f ← v.fields?
  let bsdosCodenameMin ← f.required Value.string? 0 "bsdos_codename_min"
  let bsdosCodenameMax ← f.defaulted "" Value.string? 1 "bsdos_codename_max"
  let freebsdMin ← f.required Value.string? 2 "freebsd_min"
  let freebsdMax ← f.defaulted "" Value.string? 3 "freebsd_max"
  let arch ← f.required Value.strings? 4 "arch"
  return { bsdosCodenameMin, bsdosCodenameMax, freebsdMin, freebsdMax, arch }

def readRuntime (v : Value) : Option JpkRuntime := do
  let f ← v.fields?
  let runtimeType ← f.required Value.string? 0 "type"
  let jailName ← f.defaulted "" Value.string? 1 "jail_name"
  let entrypoint ← f.required Value.string? 2 "entrypoint"
  let needsWayland ← f.defaulted false Value.boolean? 3 "needs_wayland"
  let needsInput ← f.defaulted false Value.boolean? 4 "needs_input"
  let needsGpu ← f.defaulted false Value.boolean? 5 "needs_gpu"
  let needsAudio ← f.defaulted false Value.boolean? 6 "needs_audio"
  let needsModem ← f.defaulted false Value.boolean? 7 "needs_modem"
  return { runtimeType, jailName, entrypoint, needsWayland, needsInput, needsGpu, needsAudio, needsModem }

def readPermissions (v : Value) : Option JpkPermissions := do
  let f ← v.fields?
  let capabilities ← f.defaulted [] Value.strings? 0 "capabilities"
  let network ← f.defaulted "none" Value.string? 1 "network"
  let filesystem ← f.defaulted "ro" Value.string? 2 "filesystem"
  let maxOpenFiles ← f.optional Value.u32? 3 "max_open_files"
  let maxMemoryMb ← f.optional Value.u32? 4 "max_memory_mb"
  let maxCpuPercent ← f.optional Value.u32? 5 "max_cpu_percent"
  let maxDiskMb ← f.optional Value.u32? 6 "max_disk_mb"
  let networkIngress ← f.defaulted false Value.boolean? 7 "network_ingress"
  let networkEgress ← f.defaulted false Value.boolean? 8 "network_egress"
  return { capabilities, network, filesystem, maxOpenFiles, maxMemoryMb, maxCpuPercent, maxDiskMb, networkIngress,
           networkEgress }

def readBuild (v : Value) : Option JpkBuild := do
  let f ← v.fields?
  let sourceUrl ← f.defaulted "" Value.string? 0 "source_url"
  let sourceCommit ← f.defaulted "" Value.string? 1 "source_commit"
  let buildHost ← f.defaulted "" Value.string? 2 "build_host"
  let buildTimestamp ← f.defaulted "" Value.string? 3 "build_timestamp"
  let buildUser ← f.defaulted "" Value.string? 4 "build_user"
  let freebsdVersion ← f.defaulted "" Value.string? 5 "freebsd_version"
  let reproducible ← f.defaulted false Value.boolean? 6 "reproducible"
  return { sourceUrl, sourceCommit, buildHost, buildTimestamp, buildUser, freebsdVersion, reproducible }

def readUpdate (v : Value) : Option JpkUpdate := do
  let f ← v.fields?
  let channel ← f.defaulted "stable" Value.string? 0 "channel"
  let autoUpdate ← f.defaulted false Value.boolean? 1 "auto_update"
  let deprecates ← f.defaulted [] Value.strings? 2 "deprecates"
  return { channel, autoUpdate, deprecates }

def readDiscovery (v : Value) : Option JpkDiscovery := do
  let f ← v.fields?
  let keywords ← f.defaulted [] Value.strings? 0 "keywords"
  let category ← f.defaulted "" Value.string? 1 "category"
  let screenshot ← f.defaulted "" Value.string? 2 "screenshot"
  let icon ← f.defaulted "" Value.string? 3 "icon"
  return { keywords, category, screenshot, icon }

def readDescriptor (doc : Table) : Option JpkDescriptor := do
  let f := Fields.named doc
  let header ← f.required readMeta 0 "meta"
  let compatibility ← f.required readCompatibility 1 "compatibility"
  let runtime ← f.required readRuntime 2 "runtime"
  let permissions ← f.required readPermissions 3 "permissions"
  let build ← f.optional readBuild 4 "build"
  let update ← f.optional readUpdate 5 "update"
  let discovery ← f.optional readDiscovery 6 "discovery"
  return { header, compatibility, runtime, permissions, build, update, discovery }

def fromTomlStr (toml : Library) (s : String) : Except DescriptorError JpkDescriptor :=
  (toml.read readDescriptor s).mapError .tomlParse

/-- The part that is validated, built and installed by. -/
def JpkDescriptor.checked (d : JpkDescriptor) : Pkgd.JpkDescriptor :=
  ⟨d.header.toJpkMeta, d.compatibility.toJpkCompatibility, d.runtime.toJpkRuntime, d.permissions.toJpkPermissions⟩

def JpkDescriptor.validate (d : JpkDescriptor) : Except DescriptorError Unit := d.checked.validate

end Bsdos.Pkgd.Schema
