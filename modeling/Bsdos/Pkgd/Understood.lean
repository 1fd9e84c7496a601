import Bsdos.Effects.Results
import Bsdos.Lifecycle.JpkConfig
import Bsdos.Pkgd.Descriptor
import Bsdos.Toml.Text

namespace Bsdos.Pkgd.Schema
open Toml

/-- What the two readers of a descriptor have in common is the same. -/
structure Agree (d : JpkDescriptor) (l : Lifecycle.JpkDescriptor) : Prop where
  id : l.header.id = d.header.id
  version : l.header.version = d.header.version
  name : l.header.name = d.header.name
  runtimeType : l.runtime.runtimeType = d.runtime.runtimeType
  jailName : l.runtime.jailName = d.runtime.jailName
  needsWayland : l.runtime.needsWayland = d.runtime.needsWayland
  needsInput : l.runtime.needsInput = d.runtime.needsInput
  needsGpu : l.runtime.needsGpu = d.runtime.needsGpu
  maxMemoryMb : ∀ n, d.permissions.maxMemoryMb = some n → l.permissions.maxMemoryMb.toNat = n.toNat
  maxCpuPercent : ∀ n, d.permissions.maxCpuPercent = some n → l.permissions.maxCpuPercent.toNat = n.toNat
  maxDiskMb : ∀ n, d.permissions.maxDiskMb = some n → l.permissions.maxDiskMb.toNat = n.toNat

/-- What a valid descriptor has to say for the lifecycle daemon to understand it: the sections
for the runtime and the permissions are tables with all that the daemon reads, and `[meta]` is
a table as well, or an array that makes no difference between its items. -/
structure Complete (doc : Table) : Prop where
  header : ∀ items, doc.lookup "meta" = some (.array items) → ∀ i < 4, items[i]? = some (.string "1.0")
  runtime : ∃ entries, doc.lookup "runtime" = some (.table entries) ∧
    ∀ name ∈ ["jail_name", "needs_wayland", "needs_input", "needs_gpu"], (entries.lookup name).isSome
  permissions : ∃ entries, doc.lookup "permissions" = some (.table entries) ∧
    (∀ name ∈ ["max_memory_mb", "max_cpu_percent", "max_disk_mb"], (entries.lookup name).isSome) ∧
    ∀ n, entries.lookup "max_cpu_percent" = some (.integer n) → n < 256

variable {v : Value} {doc : Table}

theorem readMeta_reads {m : JpkMeta} (read : readMeta v = some m) : ∃ f, v.fields? = some f ∧
    f.required Value.string? 0 "schema_version" = some m.schemaVersion ∧
    f.required Value.string? 1 "id" = some m.id ∧ f.required Value.string? 2 "version" = some m.version ∧
    f.required Value.string? 3 "name" = some m.name := by
  simp only [readMeta, bind, Option.bind_eq_some_iff] at read
  obtain ⟨f, fields, _, schema, _, id, _, version, _, name, _, _, _, _, _, _, _, _, _, _, same⟩ := read
  cases same
  exact ⟨f, fields, schema, id, version, name⟩

theorem readRuntime_reads {r : JpkRuntime} (read : readRuntime v = some r) : ∃ f, v.fields? = some f ∧
    f.required Value.string? 0 "type" = some r.runtimeType ∧
    f.defaulted "" Value.string? 1 "jail_name" = some r.jailName ∧
    f.required Value.string? 2 "entrypoint" = some r.entrypoint ∧
    f.defaulted false Value.boolean? 3 "needs_wayland" = some r.needsWayland ∧
    f.defaulted false Value.boolean? 4 "needs_input" = some r.needsInput ∧
    f.defaulted false Value.boolean? 5 "needs_gpu" = some r.needsGpu := by
  simp only [readRuntime, bind, Option.bind_eq_some_iff] at read
  obtain ⟨f, fields, _, type, _, jail, _, entry, _, wayland, _, input, _, gpu, _, _, _, _, same⟩ := read
  cases same
  exact ⟨f, fields, type, jail, entry, wayland, input, gpu⟩

theorem readPermissions_reads {p : JpkPermissions} (read : readPermissions v = some p) : ∃ f, v.fields? = some f ∧
    (∃ capabilities, f.defaulted [] Value.strings? 0 "capabilities" = some capabilities) ∧
    f.optional Value.u32? 4 "max_memory_mb" = some p.maxMemoryMb ∧
    f.optional Value.u32? 5 "max_cpu_percent" = some p.maxCpuPercent ∧
    f.optional Value.u32? 6 "max_disk_mb" = some p.maxDiskMb := by
  simp only [readPermissions, bind, Option.bind_eq_some_iff] at read
  obtain ⟨f, fields, _, capabilities, _, _, _, _, _, _, _, memory, _, cpu, _, disk, _, _, _, _, same⟩ := read
  cases same
  exact ⟨f, fields, ⟨_, capabilities⟩, memory, cpu, disk⟩

theorem readDescriptor_reads {d : JpkDescriptor} (read : readDescriptor doc = some d) :
    (Fields.named doc).required readMeta 0 "meta" = some d.header ∧
    (Fields.named doc).required readRuntime 2 "runtime" = some d.runtime ∧
    (Fields.named doc).required readPermissions 3 "permissions" = some d.permissions := by
  simp only [readDescriptor, bind, Option.bind_eq_some_iff] at read
  obtain ⟨_, header, _, _, _, runtime, _, permissions, _, _, _, _, _, _, same⟩ := read
  cases same
  exact ⟨header, runtime, permissions⟩

theorem lifecycle_readMeta_iff {m : Lifecycle.JpkMeta} : Lifecycle.readMeta v = some m ↔ ∃ f, v.fields? = some f ∧
    f.required Value.string? 0 "id" = some m.id ∧ f.required Value.string? 1 "version" = some m.version ∧
    f.required Value.string? 2 "name" = some m.name := by
  simp only [Lifecycle.readMeta, bind, Option.bind_eq_some_iff]
  constructor
  · rintro ⟨f, fields, _, id, _, version, _, name, same⟩
    cases same
    exact ⟨f, fields, id, version, name⟩
  · rintro ⟨f, fields, id, version, name⟩
    exact ⟨f, fields, _, id, _, version, _, name, rfl⟩

theorem lifecycle_readRuntime_iff {r : Lifecycle.JpkRuntime} :
    Lifecycle.readRuntime v = some r ↔ ∃ f, v.fields? = some f ∧
    f.required Value.string? 0 "type" = some r.runtimeType ∧ f.required Value.string? 1 "jail_name" = some r.jailName ∧
    f.required Value.boolean? 2 "needs_wayland" = some r.needsWayland ∧
    f.required Value.boolean? 3 "needs_input" = some r.needsInput ∧
    f.required Value.boolean? 4 "needs_gpu" = some r.needsGpu := by
  simp only [Lifecycle.readRuntime, bind, Option.bind_eq_some_iff]
  constructor
  · rintro ⟨f, fields, _, type, _, jail, _, wayland, _, input, _, gpu, same⟩
    cases same
    exact ⟨f, fields, type, jail, wayland, input, gpu⟩
  · rintro ⟨f, fields, type, jail, wayland, input, gpu⟩
    exact ⟨f, fields, _, type, _, jail, _, wayland, _, input, _, gpu, rfl⟩

theorem lifecycle_readPermissions_iff {p : Lifecycle.JpkPermissions} :
    Lifecycle.readPermissions v = some p ↔ ∃ f, v.fields? = some f ∧
    f.required Value.u64? 0 "max_memory_mb" = some p.maxMemoryMb ∧
    f.required Value.u8? 1 "max_cpu_percent" = some p.maxCpuPercent ∧
    f.required Value.u64? 2 "max_disk_mb" = some p.maxDiskMb := by
  simp only [Lifecycle.readPermissions, bind, Option.bind_eq_some_iff]
  constructor
  · rintro ⟨f, fields, _, memory, _, cpu, _, disk, same⟩
    cases same
    exact ⟨f, fields, memory, cpu, disk⟩
  · rintro ⟨f, fields, memory, cpu, disk⟩
    exact ⟨f, fields, _, memory, _, cpu, _, disk, rfl⟩

theorem lifecycle_readDescriptor_iff {l : Lifecycle.JpkDescriptor} : Lifecycle.readDescriptor doc = some l ↔
    (Fields.named doc).required Lifecycle.readMeta 0 "meta" = some l.header ∧
    (Fields.named doc).required Lifecycle.readRuntime 1 "runtime" = some l.runtime ∧
    (Fields.named doc).required Lifecycle.readPermissions 2 "permissions" = some l.permissions := by
  simp only [Lifecycle.readDescriptor, bind, Option.bind_eq_some_iff]
  constructor
  · rintro ⟨_, header, _, runtime, _, permissions, same⟩
    cases same
    exact ⟨header, runtime, permissions⟩
  · rintro ⟨header, runtime, permissions⟩
    exact ⟨_, header, _, runtime, _, permissions, rfl⟩

/-- A table has nothing but its fields; of an array the items count, which the two readers
number differently. -/
theorem header_agrees {m : JpkMeta} (read : readMeta v = some m) (schema : m.schemaVersion = "1.0") :
    (∃ m', Lifecycle.readMeta v = some m' ∧ m'.id = m.id ∧ m'.version = m.version ∧ m'.name = m.name) ↔
      ∀ items, v = .array items → ∀ i < 4, items[i]? = some (.string "1.0") := by
  obtain ⟨f, fields, schemaVersion, id, version, name⟩ := readMeta_reads read
  simp only [lifecycle_readMeta_iff, fields, Option.some.injEq, exists_eq_left']
  cases v with
  | table entries =>
    cases fields
    exact ⟨fun _ _ => nofun, fun _ => ⟨⟨m.id, m.version, m.name⟩, ⟨id, version, name⟩, rfl, rfl, rfl⟩⟩
  | array items =>
    cases fields
    simp only [Fields.required_iff, Value.string?_iff, Fields.get?, exists_eq_right] at schemaVersion id version name ⊢
    rw [schema] at schemaVersion
    constructor
    · rintro ⟨m', ⟨id', version', name'⟩, sameId, sameVersion, sameName⟩ _ ⟨⟩ i below
      have first : m'.id = "1.0" := by simpa [schemaVersion] using id'.symm
      have second : m'.version = m.id := by simpa [id] using version'.symm
      have third : m'.name = m.version := by simpa [version] using name'.symm
      rw [← sameId, first] at id second
      rw [← sameVersion, second] at version third
      rw [← sameName, third] at name
      obtain rfl | rfl | rfl | rfl : i = 0 ∨ i = 1 ∨ i = 2 ∨ i = 3 := by omega
      · exact schemaVersion
      · exact id
      · exact version
      · exact name
    · intro same
      have all := same items rfl
      refine ⟨⟨"1.0", "1.0", "1.0"⟩, ⟨all 0 (by decide), all 1 (by decide), all 2 (by decide)⟩, ?_, ?_, ?_⟩
      · simpa [all 1 (by decide)] using id
      · simpa [all 2 (by decide)] using version
      · simpa [all 3 (by decide)] using name
  | datetime text =>
    cases fields
    exact absurd schemaVersion nofun
  | string _ | integer _ | float _ | boolean _ => exact absurd fields nofun

/-- A field that is there is read alike, with a default or without. -/
theorem required_of_defaulted {α : Type} {f : Fields} {default a : α} {read : Value → Option α} {place : Nat} {name : String}
    (there : (f.get? place name).isSome) (defaulted : f.defaulted default read place name = some a) :
    f.required read place name = some a := by
  rcases Fields.defaulted_iff.mp defaulted with required | ⟨absent, _⟩
  · exact required
  · rw [absent] at there
    exact absurd there nofun

theorem isSome_of_required {α : Type} {f : Fields} {a : α} {read : Value → Option α} {place : Nat} {name : String}
    (required : f.required read place name = some a) : (f.get? place name).isSome := by
  obtain ⟨v, found, -⟩ := Fields.required_iff.mp required
  exact found ▸ rfl

theorem runtime_agrees {r : JpkRuntime} (read : readRuntime v = some r) :
    (∃ r', Lifecycle.readRuntime v = some r' ∧ r'.runtimeType = r.runtimeType ∧ r'.jailName = r.jailName ∧
        r'.needsWayland = r.needsWayland ∧ r'.needsInput = r.needsInput ∧ r'.needsGpu = r.needsGpu) ↔
      ∃ entries, v = .table entries ∧
        ∀ name ∈ ["jail_name", "needs_wayland", "needs_input", "needs_gpu"], (entries.lookup name).isSome := by
  obtain ⟨f, fields, type, jail, entrypoint, wayland, input, gpu⟩ := readRuntime_reads read
  simp only [lifecycle_readRuntime_iff, fields, Option.some.injEq, exists_eq_left']
  cases v with
  | table entries =>
    cases fields
    simp only [Value.table.injEq, exists_eq_left', List.forall_mem_cons, List.not_mem_nil, false_imp_iff, forall_const,
      and_true]
    constructor
    · rintro ⟨r', ⟨-, jail, wayland, input, gpu⟩, -⟩
      exact ⟨isSome_of_required jail, isSome_of_required wayland, isSome_of_required input, isSome_of_required gpu⟩
    · rintro ⟨hasJail, hasWayland, hasInput, hasGpu⟩
      exact ⟨⟨r.runtimeType, r.jailName, r.needsWayland, r.needsInput, r.needsGpu⟩,
        ⟨type, required_of_defaulted hasJail jail, required_of_defaulted hasWayland wayland,
          required_of_defaulted hasInput input, required_of_defaulted hasGpu gpu⟩, rfl, rfl, rfl, rfl, rfl⟩
  | array items =>
    -- the third item is the entrypoint of the one and a flag of the other
    cases fields
    obtain ⟨third, found, text⟩ := Fields.required_iff.mp entrypoint
    refine ⟨?_, fun ⟨_, same, _⟩ => nomatch same⟩
    rintro ⟨r', ⟨-, -, flag, -⟩, -⟩
    obtain ⟨third', found', boolean⟩ := Fields.required_iff.mp flag
    cases Option.some.inj (found.symm.trans found')
    rw [Value.string?_iff.mp text] at boolean
    exact absurd boolean nofun
  | datetime text =>
    cases fields
    exact absurd type nofun
  | string _ | integer _ | float _ | boolean _ => exact absurd fields nofun

theorem optional_there {α : Type} {f : Fields} {a : Option α} {read : Value → Option α} {place : Nat} {name : String}
    (optional : f.optional read place name = some a) (there : (f.get? place name).isSome) :
    ∃ x, a = some x ∧ f.required read place name = some x := by
  rcases Fields.optional_iff.mp optional with present | ⟨absent, _⟩
  · exact present
  · rw [absent] at there
    exact absurd there nofun

/-- What there is under a name in a table, whatever the type it is read at. -/
theorem required_u32 {entries : Table} {n : UInt32} {place : Nat} {name : String} :
    (Fields.named entries).required Value.u32? place name = some n ↔
      entries.lookup name = some (.integer n.toNat) := by
  simp only [Fields.required_iff, Value.u32?_iff, exists_eq_right, Fields.get?]

theorem required_u64 {entries : Table} {n : UInt64} {place : Nat} {name : String} :
    (Fields.named entries).required Value.u64? place name = some n ↔
      entries.lookup name = some (.integer n.toNat) := by
  simp only [Fields.required_iff, Value.u64?_iff, exists_eq_right, Fields.get?]

theorem required_u8 {entries : Table} {n : UInt8} {place : Nat} {name : String} :
    (Fields.named entries).required Value.u8? place name = some n ↔
      entries.lookup name = some (.integer n.toNat) := by
  simp only [Fields.required_iff, Value.u8?_iff, exists_eq_right, Fields.get?]

theorem permissions_agree {p : JpkPermissions} (read : readPermissions v = some p) :
    (∃ p', Lifecycle.readPermissions v = some p' ∧
        (∀ n, p.maxMemoryMb = some n → p'.maxMemoryMb.toNat = n.toNat) ∧
        (∀ n, p.maxCpuPercent = some n → p'.maxCpuPercent.toNat = n.toNat) ∧
        ∀ n, p.maxDiskMb = some n → p'.maxDiskMb.toNat = n.toNat) ↔
      ∃ entries, v = .table entries ∧
        (∀ name ∈ ["max_memory_mb", "max_cpu_percent", "max_disk_mb"], (entries.lookup name).isSome) ∧
        ∀ n, entries.lookup "max_cpu_percent" = some (.integer n) → n < 256 := by
  obtain ⟨f, fields, ⟨capabilities, listed⟩, memory, cpu, disk⟩ := readPermissions_reads read
  simp only [lifecycle_readPermissions_iff, fields, Option.some.injEq, exists_eq_left']
  cases v with
  | table entries =>
    cases fields
    simp only [Value.table.injEq, exists_eq_left', List.forall_mem_cons, List.not_mem_nil, false_imp_iff, forall_const,
      and_true]
    constructor
    · rintro ⟨p', ⟨memory', cpu', disk'⟩, -⟩
      refine ⟨⟨isSome_of_required memory', isSome_of_required cpu', isSome_of_required disk'⟩, fun n found => ?_⟩
      rw [required_u8.mp cpu', Option.some.injEq, Value.integer.injEq] at found
      have below := p'.maxCpuPercent.toNat_lt
      omega
    · rintro ⟨⟨hasMemory, hasCpu, hasDisk⟩, below⟩
      obtain ⟨m, isMemory, memory⟩ := optional_there memory hasMemory
      obtain ⟨c, isCpu, cpu⟩ := optional_there cpu hasCpu
      obtain ⟨d, isDisk, disk⟩ := optional_there disk hasDisk
      have small : c.toNat < 2 ^ 8 := by
        have bound := below c.toNat (required_u32.mp cpu)
        omega
      have wide (n : UInt32) : (UInt64.ofNat n.toNat).toNat = n.toNat :=
        UInt64.toNat_ofNat_of_lt' (Nat.lt_trans n.toNat_lt (by decide))
      refine ⟨⟨.ofNat m.toNat, .ofNat c.toNat, .ofNat d.toNat⟩, ⟨?_, ?_, ?_⟩, ?_, ?_, ?_⟩
      · rw [required_u64, wide]
        exact required_u32.mp memory
      · rw [required_u8, UInt8.toNat_ofNat_of_lt' small]
        exact required_u32.mp cpu
      · rw [required_u64, wide]
        exact required_u32.mp disk
      · intro n same
        cases isMemory.symm.trans same
        exact wide m
      · intro n same
        cases isCpu.symm.trans same
        exact UInt8.toNat_ofNat_of_lt' small
      · intro n same
        cases isDisk.symm.trans same
        exact wide d
  | array items =>
    -- the first item is a list of the one and a number of the other
    cases fields
    refine ⟨?_, fun ⟨_, same, _⟩ => nomatch same⟩
    rintro ⟨p', ⟨first, -⟩, -⟩
    obtain ⟨w, found, text⟩ := Fields.required_iff.mp (required_of_defaulted (isSome_of_required first) listed)
    obtain ⟨w', found', number⟩ := Fields.required_iff.mp first
    cases Option.some.inj (found.symm.trans found')
    rw [Value.u64?_iff.mp number] at text
    exact absurd text nofun
  | datetime text =>
    cases fields
    refine ⟨?_, fun ⟨_, same, _⟩ => nomatch same⟩
    rintro ⟨p', ⟨first, -⟩, -⟩
    exact absurd first nofun
  | string _ | integer _ | float _ | boolean _ => exact absurd fields nofun

theorem validate_schema {d : JpkDescriptor} (valid : d.validate = .ok ()) : d.header.schemaVersion = "1.0" := by
  by_contra other
  have refused : d.checked.header.schemaVersion ≠ "1.0" := other
  rw [JpkDescriptor.validate, Pkgd.JpkDescriptor.validate, if_pos refused] at valid
  exact absurd valid nofun

variable {toml : Library} {s path : String} {d : JpkDescriptor}

theorem parseDescriptor_iff {l : Lifecycle.JpkDescriptor} : Lifecycle.parseDescriptor toml path (.ok s) = .ok l ↔
    ∃ doc, toml.parse s = some doc ∧ Lifecycle.readDescriptor doc = some l :=
  Results.mapError_ok.trans Library.read_iff

/-- A descriptor that can be installed is understood by the lifecycle daemon just where it is complete. -/
theorem descriptor_understood_iff (read : fromTomlStr toml s = .ok d) (valid : d.validate = .ok ()) :
    (∃ l, Lifecycle.parseDescriptor toml path (.ok s) = .ok l ∧ Agree d l) ↔
      ∃ doc, toml.parse s = some doc ∧ Complete doc := by
  obtain ⟨doc, parsed, decoded⟩ := Library.read_iff.mp (Results.mapError_ok.mp read)
  simp only [parseDescriptor_iff, parsed, Option.some.injEq, exists_eq_left']
  obtain ⟨header, runtime, permissions⟩ := readDescriptor_reads decoded
  obtain ⟨h, atHeader, header⟩ := Fields.required_iff.mp header
  obtain ⟨r, atRuntime, runtime⟩ := Fields.required_iff.mp runtime
  obtain ⟨p, atPermissions, permissions⟩ := Fields.required_iff.mp permissions
  have header_iff := header_agrees header (validate_schema valid)
  have runtime_iff := runtime_agrees runtime
  have permissions_iff := permissions_agree permissions
  simp only [Fields.get?] at atHeader atRuntime atPermissions
  simp only [lifecycle_readDescriptor_iff, Fields.required_iff, Fields.get?, atHeader, atRuntime, atPermissions,
    Option.some.injEq, exists_eq_left']
  constructor
  · rintro ⟨l, ⟨readHeader, readRuntime, readPermissions⟩, agree⟩
    refine ⟨fun items same => ?_, ?_, ?_⟩
    · rw [atHeader, Option.some.injEq] at same
      exact header_iff.mp ⟨l.header, readHeader, agree.id, agree.version, agree.name⟩ items same
    · rw [atRuntime]
      simpa only [Option.some.injEq] using runtime_iff.mp ⟨l.runtime, readRuntime, agree.runtimeType, agree.jailName,
        agree.needsWayland, agree.needsInput, agree.needsGpu⟩
    · rw [atPermissions]
      simpa only [Option.some.injEq] using permissions_iff.mp ⟨l.permissions, readPermissions, agree.maxMemoryMb,
        agree.maxCpuPercent, agree.maxDiskMb⟩
  · rintro ⟨hasHeader, hasRuntime, hasPermissions⟩
    rw [atRuntime] at hasRuntime
    rw [atPermissions] at hasPermissions
    simp only [Option.some.injEq] at hasRuntime hasPermissions
    obtain ⟨h', readHeader, id, version, name⟩ := header_iff.mpr fun items same =>
      hasHeader items (same ▸ atHeader)
    obtain ⟨r', readRuntime, type, jail, wayland, input, gpu⟩ := runtime_iff.mpr hasRuntime
    obtain ⟨p', readPermissions, memory, cpu, disk⟩ := permissions_iff.mpr hasPermissions
    exact ⟨⟨h', r', p'⟩, ⟨readHeader, readRuntime, readPermissions⟩,
      ⟨id, version, name, type, jail, wayland, input, gpu, memory, cpu, disk⟩⟩

theorem descriptor_understood_foot :
    let sections : List Section :=
      [("meta", [("schema_version", .string "1.0"), ("id", .string "org.bsdos.foot"), ("version", .string "0.2.0"),
          ("name", .string "foot")]),
        ("compatibility", [("bsdos_codename_min", .string "Squirrel"), ("freebsd_min", .string "15.1"),
          ("arch", .strings ["amd64", "aarch64"])]),
        ("runtime", [("type", .string "jail"), ("jail_name", .string "appTerminal"),
          ("entrypoint", .string "/opt/bsdos/bin/launch"), ("needs_wayland", .boolean true), ("needs_input", .boolean true),
          ("needs_gpu", .boolean false)]),
        ("permissions", [("network", .string "unix-only"), ("max_memory_mb", .integer 32),
          ("max_cpu_percent", .integer 5), ("max_disk_mb", .integer 16)])]
    let s := documentText [] sections
    let toml := Library.only s (document sections)
    ∃ d l, fromTomlStr toml s = .ok d ∧
      Lifecycle.parseDescriptor toml "/opt/bsdos/share/jpk/foot/0.2.0/jpk.toml" (.ok s) = .ok l ∧ Agree d l := by
  intro sections s toml
  have parsed : toml.parse s = some (document sections) := Library.only_parse
  have accepted : (readDescriptor (document sections)).map (fun d => d.validate) = some (.ok ()) := by decide +kernel
  obtain ⟨d, decoded, valid⟩ := Option.map_eq_some_iff.mp accepted
  have read : fromTomlStr toml s = .ok d := Results.mapError_ok.mpr (Library.read_iff.mpr ⟨_, parsed, decoded⟩)
  have complete : Complete (document sections) := {
    header := fun items found => nomatch found
    runtime := ⟨_, rfl, by decide⟩
    permissions := ⟨_, rfl, by decide, fun n found => by cases found; decide⟩ }
  obtain ⟨l, understood, agree⟩ := (descriptor_understood_iff read valid).mpr ⟨_, parsed, complete⟩
  exact ⟨d, l, read, understood, agree⟩

end Bsdos.Pkgd.Schema
