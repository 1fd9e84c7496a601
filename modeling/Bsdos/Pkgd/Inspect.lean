import Bsdos.Pkgd.Verified
import Bsdos.Pkgd.Descriptor
import Bsdos.Effects.Results

namespace Bsdos.Pkgd
open Effects

/-- The tool as it is built, with one reader of TOML under all its subcommands. -/
def Codecs.linked (k : Codecs) (toml : Toml.Library) : Codecs :=
  { k with toml := fun s => (toml.read Schema.readDescriptor s).map Schema.JpkDescriptor.checked }

section tool
variable (k : Codecs) (toml : Toml.Library)

/-- The members seen so far and the next ones: the text of the descriptor, of several the last, and the names. -/
def inspectEntries (tomlContent : Option String) (memberNames : List String) :
    List (Except String TarEntry) → Except PkgdError (Option String × List String)
  | [] => .ok (tomlContent, memberNames)
  | .error e :: _ => .error (.archive ("tar entry error: " ++ e))
  | .ok entry :: entries =>
    match entry.path with
    | .error e => .error (.archive ("entry path error: " ++ e))
    | .ok entryPath =>
      if entryPath = "jpk.toml" then
        match entry.bytes with
        | .error e => .error (.io ("read jpk.toml: " ++ e))
        | .ok buf =>
          match k.utf8 buf with
          | .error _ => .error (.io "read jpk.toml: stream did not contain valid UTF-8")
          | .ok content => inspectEntries (some content) (memberNames ++ [entryPath]) entries
      else inspectEntries tomlContent (memberNames ++ [entryPath]) entries

def readJpkMembers (path : String) : Fallible (Schema.JpkDescriptor × List String) := do
  let opened : Except String Bytes ← call (.openFile path)
  let bytes ← mapErr (fun e => .io ("cannot open " ++ path ++ ": " ++ e)) opened
  let entries ← mapErr (fun e => .archive ("tar entries error: " ++ e)) (k.entries bytes)
  match inspectEntries k none [] entries with
  | .error e => throw (.failed e)
  | .ok (tomlContent, memberNames) => do
    let tomlStr ← okOr (.archive "jpk.toml not found in archive") tomlContent
    match Schema.fromTomlStr toml tomlStr with
    | .error e => throw (.failed (.descriptor e))
    | .ok descriptor => return (descriptor, memberNames)

def present (b : Bool) : String := if b then "YES" else "NO"

/-- What is printed of a package. -/
def inspection (path : String) (descriptor : Schema.JpkDescriptor) (memberNames : List String) : List String :=
  let hasSignature := memberNames.contains "signature.ed25519"
  let hasCert := memberNames.contains "cert.pem"
  let hasManifest := memberNames.contains "manifest.json"
  let hasPayload := memberNames.contains "payload.tar"
  ["=== " ++ path ++ " ===",
    "[meta]",
    "  schema_version = " ++ descriptor.header.schemaVersion,
    "  id             = " ++ descriptor.header.id,
    "  name           = " ++ descriptor.header.name,
    "  version        = " ++ descriptor.header.version,
    "  description    = " ++ descriptor.header.description,
    "  license        = " ++ descriptor.header.license] ++
  (if descriptor.header.authors.isEmpty then [] else
    ["  authors        = " ++ ", ".intercalate descriptor.header.authors]) ++
  ["",
    "[compatibility]",
    "  bsdos_codename_min = " ++ descriptor.compatibility.bsdosCodenameMin] ++
  (if descriptor.compatibility.bsdosCodenameMax.isEmpty then [] else
    ["  bsdos_codename_max = " ++ descriptor.compatibility.bsdosCodenameMax]) ++
  ["  freebsd_min    = " ++ descriptor.compatibility.freebsdMin,
    "  arch           = " ++ ", ".intercalate descriptor.compatibility.arch,
    "",
    "[runtime]",
    "  type           = " ++ descriptor.runtime.runtimeType,
    "  entrypoint     = " ++ descriptor.runtime.entrypoint,
    "  needs_wayland  = " ++ toString descriptor.runtime.needsWayland,
    "  needs_gpu      = " ++ toString descriptor.runtime.needsGpu,
    "  needs_audio    = " ++ toString descriptor.runtime.needsAudio,
    "",
    "[permissions]",
    "  network        = " ++ descriptor.permissions.network,
    "  filesystem     = " ++ descriptor.permissions.filesystem] ++
  (match descriptor.permissions.maxMemoryMb with
  | some mem => ["  max_memory_mb  = " ++ toString mem]
  | none => []) ++
  (match descriptor.permissions.maxCpuPercent with
  | some cpu => ["  max_cpu_percent = " ++ toString cpu]
  | none => []) ++
  ["",
    "[archive members]",
    "  payload.tar    : " ++ present hasPayload,
    "  manifest.json  : " ++ present hasManifest,
    "  signature.ed25519 : " ++ present hasSignature,
    "  cert.pem       : " ++ present hasCert,
    "",
    if hasSignature && hasCert then "[signature] PRESENT (use 'verify' to check hashes)"
    else "[signature] NOT PRESENT (unsigned package)"]

def printAll : List String → Fallible Unit
  | [] => return
  | line :: lines => do
    print line
    printAll lines

def runInspect (path : String) : Fallible Unit := do
  let (descriptor, members) ← readJpkMembers k toml path
  printAll (inspection path descriptor members)

end tool

variable {k : Codecs} {toml : Toml.Library} {path root : String} {d d' d₁ d₂ : Disk} {moments first : List (Moment Tool Disk)}

/-- What the lines of a run were. -/
def printed (moments : List (Moment Tool Disk)) : List String := moments.filterMap fun m =>
  match m.op with
  | .print line => some line
  | _ => none

theorem exec_printAll {lines : List String} {r : Except Stop Unit} (exec : Exec tool () (printAll lines).run d moments r d') :
    printed moments = lines := by
  induction lines generalizing d moments with
  | nil =>
    obtain ⟨rfl, -, -⟩ := exec
    rfl
  | cons line lines ih =>
    obtain ⟨_, rest, -, rfl, exec⟩ := exec
    rw [← ih exec]
    rfl

/-- What has been seen of an archive is what the other readers have of it. -/
structure Seen (k : Codecs) (fileBytes : FileBytes) (tomlContent : Option String) (memberNames : List String) : Prop where
  toml : ∀ text, tomlContent = some text ↔ ∃ buf, fileBytes.lookup "jpk.toml" = some buf ∧ k.utf8 buf = .ok text
  names : ∀ name, name ∈ memberNames ↔ name ∈ fileBytes

theorem Seen.start : Seen k ∅ none [] where
  toml text := by simp
  names name := iff_of_false List.not_mem_nil Finmap.notMem_empty

theorem Seen.other {fileBytes : FileBytes} {tomlContent : Option String} {memberNames : List String}
    (seen : Seen k fileBytes tomlContent memberNames) {name : String} (other : name ≠ "jpk.toml") (buf : Bytes) :
    Seen k (fileBytes.insert name buf) tomlContent (memberNames ++ [name]) where
  toml text := by
    rw [Finmap.lookup_insert_of_ne _ (Ne.symm other)]
    exact seen.toml text
  names name' := by
    rw [List.mem_append, List.mem_singleton, Finmap.mem_insert, seen.names, or_comm]

theorem Seen.descriptor {fileBytes : FileBytes} {tomlContent : Option String} {memberNames : List String}
    (seen : Seen k fileBytes tomlContent memberNames) {buf : Bytes} {content : String} (read : k.utf8 buf = .ok content) :
    Seen k (fileBytes.insert "jpk.toml" buf) (some content) (memberNames ++ ["jpk.toml"]) where
  toml text := by
    rw [Finmap.lookup_insert, Option.some.injEq]
    constructor
    · rintro rfl
      exact ⟨buf, rfl, read⟩
    · rintro ⟨buf', same, read'⟩
      cases same
      exact Except.ok.inj (read.symm.trans read')
  names name' := by
    rw [List.mem_append, List.mem_singleton, Finmap.mem_insert, seen.names, or_comm]

theorem inspectEntries_seen {entries : List (Except String TarEntry)} {fileBytes fileBytes' : FileBytes}
    {tomlContent tomlContent' : Option String} {memberNames memberNames' : List String}
    (seen : Seen k fileBytes tomlContent memberNames) (read : readEntries fileBytes entries = .ok fileBytes')
    (inspected : inspectEntries k tomlContent memberNames entries = .ok (tomlContent', memberNames')) :
    Seen k fileBytes' tomlContent' memberNames' := by
  induction entries generalizing fileBytes tomlContent memberNames with
  | nil =>
    cases read
    cases inspected
    exact seen
  | cons entry entries ih =>
    cases entry with
    | error e => cases read
    | ok entry =>
      rw [readEntries] at read
      rw [inspectEntries] at inspected
      cases named : entry.path with
      | error e =>
        rw [named] at read
        cases read
      | ok name =>
        cases content : entry.bytes with
        | error e =>
          rw [named, content] at read
          cases read
        | ok buf =>
          simp only [named, content] at read inspected
          split at inspected
          · rename_i toml
            subst toml
            cases decoded : k.utf8 buf with
            | error e =>
              rw [decoded] at inspected
              cases inspected
            | ok text =>
              rw [decoded] at inspected
              exact ih (seen.descriptor decoded) read inspected
          · rename_i other
            exact ih (seen.other other buf) read inspected

theorem printed_append {rest : List (Moment Tool Disk)} : printed (moments ++ rest) = printed moments ++ printed rest :=
  List.filterMap_append

theorem exec_mapErr_silent {α : Type} {wrap : String → PkgdError} {r : Except String α} {value : α}
    (exec : Exec tool () (mapErr wrap r).run d moments (.ok value) d') : r = .ok value ∧ moments = [] := by
  refine ⟨exec_mapErr exec, ?_⟩
  cases r with
  | ok a => exact exec.1
  | error e => cases exec.2.1

theorem exec_okOr_silent {α : Type} {e : PkgdError} {found : Option α} {value : α}
    (exec : Exec tool () (okOr e found).run d moments (.ok value) d') : found = some value ∧ moments = [] := by
  refine ⟨exec_okOr exec, ?_⟩
  cases found with
  | some a => exact exec.1
  | none => cases exec.2.1

/-- An inspection that gets through has read the file on the disk, and has printed nothing on the way. -/
theorem exec_readJpkMembers {descriptor : Schema.JpkDescriptor} {names : List String}
    (exec : Exec tool () (readJpkMembers k toml path).run d moments (.ok (descriptor, names)) d') :
    printed moments = [] ∧ ∃ bytes entries text, d.files path = some bytes ∧ k.entries bytes = .ok entries ∧
      inspectEntries k none [] entries = .ok (some text, names) ∧ Schema.fromTomlStr toml text = .ok descriptor := by
  obtain ⟨_, opened, u, _, front, opens, rfl⟩ := exec_tryBind_ok exec
  obtain ⟨_, bytes, u', _, checked, reads, rfl⟩ := exec_tryBind_ok opens
  obtain ⟨_, entries, u'', _, listed, ends, rfl⟩ := exec_tryBind_ok reads
  obtain ⟨rfl, rfl⟩ := exec_mapErr_silent checked
  obtain ⟨decoded, rfl⟩ := exec_mapErr_silent listed
  obtain ⟨answer, _, may, rfl, rfl, same, _⟩ := front
  have there : d.files path = some bytes := by
    cases same
    exact of_decide_eq_true may
  cases read : inspectEntries k none [] entries with
  | error e =>
    simp only [read] at ends
    cases ends.2.1
  | ok seen =>
    simp only [read] at ends
    obtain ⟨_, text, _, _, found, parses, rfl⟩ := exec_tryBind_ok ends
    obtain ⟨toml', rfl⟩ := exec_okOr_silent found
    cases parsed : Schema.fromTomlStr toml text with
    | error e =>
      simp only [parsed] at parses
      cases parses.2.1
    | ok descriptor' =>
      simp only [parsed] at parses
      obtain ⟨rfl, same, _⟩ := parses
      cases same
      exact ⟨rfl, bytes, entries, text, there, decoded, by rw [read, ← toml'], parsed⟩

/-- An inspection that gets through prints what it has read. -/
theorem exec_runInspect (exec : Exec tool () (runInspect k toml path).run d moments (.ok ()) d') :
    ∃ descriptor names bytes entries text, printed moments = inspection path descriptor names ∧
      d.files path = some bytes ∧ k.entries bytes = .ok entries ∧
      inspectEntries k none [] entries = .ok (some text, names) ∧ Schema.fromTomlStr toml text = .ok descriptor := by
  obtain ⟨_, ⟨descriptor, names⟩, u, _, read, prints, rfl⟩ := exec_tryBind_ok exec
  obtain ⟨silent, bytes, entries, text, found⟩ := exec_readJpkMembers read
  refine ⟨descriptor, names, bytes, entries, text, ?_, found⟩
  rw [printed_append, silent, exec_printAll prints, List.nil_append]

theorem exec_print {line : String} {r : Except Stop Unit} (exec : Exec tool () (print line).run d moments r d') :
    printed moments = [line] := by
  obtain ⟨_, _, _, rfl, rfl, _⟩ := exec
  rfl

/-- A verification that goes through says whether there is a signature. -/
theorem exec_runVerify_signature (exec : Exec tool () (runVerify k path).run d moments (.ok ()) d') :
    ∃ bytes fileBytes, d.files path = some bytes ∧ members k bytes = .ok fileBytes ∧
      signatureLine fileBytes ∈ printed moments := by
  obtain ⟨_, fileBytes, _, _, read, finds, rfl⟩ := exec_tryBind_ok exec
  obtain ⟨_, _, _, _, _, parses, rfl⟩ := exec_tryBind_ok finds
  obtain ⟨_, manifest, _, _, _, checks, rfl⟩ := exec_tryBind_ok parses
  obtain ⟨_, allOk, _, _, _, reports, rfl⟩ := exec_tryBind_ok checks
  obtain ⟨_, _, _, _, signs, _, rfl⟩ := exec_tryBind_ok reports
  obtain ⟨bytes, there, decoded⟩ := exec_readArchive read
  refine ⟨bytes, fileBytes, there, decoded, ?_⟩
  simp only [printed_append, exec_print signs, List.mem_append, List.mem_singleton, true_or, or_true]

/-- An installation that comes to unpack a payload has said whether there is a signature. -/
theorem exec_runInstall_signature {r : Except Stop Unit} {m : Moment Tool Disk} {payload : Bytes} {dest : String}
    (exec : Exec tool () (runInstall k path root).run d moments r d') (member : m ∈ moments)
    (unpacks : m.op = .unpack payload dest) :
    ∃ bytes fileBytes, d.files path = some bytes ∧ members k bytes = .ok fileBytes ∧
      signatureLine fileBytes ∈ printed moments := by
  have other : ¬ Op.Looks m.op := by
    rw [unpacks]
    exact not_false
  rcases exec_tryBind.mp exec with ⟨_, _, u, _, started, exec, rfl⟩ | ⟨_, front, _⟩
  · have member := (List.mem_append.mp member).resolve_left fun early => other (started.only (print_only _) m early)
    cases exec_disk started
    rcases exec_tryBind.mp exec with ⟨_, _, _, _, verified, _, rfl⟩ | ⟨_, front, _⟩
    · obtain ⟨bytes, fileBytes, there, decoded, signs⟩ := exec_runVerify_signature verified
      refine ⟨bytes, fileBytes, there, decoded, ?_⟩
      rw [printed_append, printed_append]
      exact List.mem_append_right _ (List.mem_append_left _ signs)
    · exact absurd (front.only runVerify_only m member) other
  · exact absurd (front.only (print_only _) m member) other

theorem printAll_possible (lines : List String) : ∃ moments, Exec tool () (printAll lines).run d moments (.ok ()) d := by
  induction lines with
  | nil => exact ⟨[], rfl, rfl, rfl⟩
  | cons line lines ih =>
    obtain ⟨one, prints⟩ := print_possible (d := d) line
    obtain ⟨rest, later⟩ := ih
    exact ⟨one ++ rest, exec_through prints later⟩

/-- A package whose members can be read and whose descriptor can be parsed can be inspected. -/
theorem runInspect_possible {bytes : Bytes} {entries : List (Except String TarEntry)} {text : String}
    {names : List String} {descriptor : Schema.JpkDescriptor} (there : d.files path = some bytes)
    (decoded : k.entries bytes = .ok entries) (inspected : inspectEntries k none [] entries = .ok (some text, names))
    (parsed : Schema.fromTomlStr toml text = .ok descriptor) :
    ∃ moments, Exec tool () (runInspect k toml path).run d moments (.ok ()) d := by
  have opened : Exec tool () (liftM (call (.openFile path)) : Fallible (Except String Bytes)).run d
      [⟨d, .openFile path, Except.ok bytes⟩] (.ok (.ok bytes)) d :=
    ⟨.ok bytes, [], decide_eq_true there, rfl, rfl, rfl, rfl⟩
  have read : Exec tool () (readJpkMembers k toml path).run d
      ([⟨d, .openFile path, Except.ok bytes⟩] ++ ([] ++ ([] ++ ([] ++ [])))) (.ok (descriptor, names)) d := by
    refine exec_through opened (exec_through (mapErr_possible rfl) (exec_through (mapErr_possible decoded) ?_))
    simp only [inspected]
    refine exec_through (okOr_possible rfl) ?_
    simp only [parsed]
    exact ⟨rfl, rfl, rfl⟩
  obtain ⟨prints, printed⟩ := printAll_possible (d := d) (inspection path descriptor names)
  exact ⟨_, exec_through read printed⟩

def footTable : Toml.Table :=
  [("meta", .table [("schema_version", .string "1.0"), ("id", .string "org.bsdos.foot"), ("version", .string "1.0.0"),
      ("name", .string "foot")]),
    ("compatibility", .table [("bsdos_codename_min", .string "Squirrel"), ("freebsd_min", .string "15.1"),
      ("arch", .array [.string "any"])]),
    ("runtime", .table [("type", .string "jail"), ("entrypoint", .string "/usr/local/bin/foot")]),
    ("permissions", .table [])]

/-- A reader of TOML that knows the descriptor of that package. -/
def footLibrary : Toml.Library where
  parse s := if s = footToml then some footTable else none
  complaint _ := "TOML parse error at line 1, column 1"

def footSchema : Schema.JpkDescriptor where
  header := ⟨footDescriptor.header, "foot", "", "", "", [], ""⟩
  compatibility := ⟨footDescriptor.compatibility, "", "15.1", ""⟩
  runtime := ⟨footDescriptor.runtime, "", false, false, false, false, false⟩
  permissions := ⟨footDescriptor.permissions, [], none, none, none, none, false, false⟩
  build := none
  update := none
  discovery := none

theorem footTable_read : footLibrary.read Schema.readDescriptor footToml = .ok footSchema := by
  refine Toml.Library.read_iff.mpr ⟨footTable, by simp only [footLibrary, if_true], ?_⟩
  decide +kernel

end Bsdos.Pkgd
