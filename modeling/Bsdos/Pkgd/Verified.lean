import Bsdos.Pkgd.Install

namespace Bsdos.Pkgd
open Effects

variable {k : Codecs} {d d' : Disk} {path root : String} {moments : List (Moment Tool Disk)}

/-- Nothing the tool does changes the files it has read. -/
theorem exec_disk {α : Type} {p : Prog Tool α} {value : α} (exec : Exec tool () p d moments value d') : d' = d := by
  induction p generalizing d moments with
  | ret => exact exec.2.2
  | call op next ih =>
    obtain ⟨r, rest, _, _, exec⟩ := exec
    exact ih r exec

/-- Any call but the unpacking of a payload. -/
def Op.UnpacksNone (op : Op) : Prop := ∀ payload dest, op ≠ .unpack payload dest

/-- The calls that only read and print. -/
def Op.Looks : Op → Prop
  | .openFile _ | .print _ | .eprint _ => True
  | _ => False

theorem mapErr_only {α : Type} {wrap : String → PkgdError} (r : Except String α) :
    (mapErr wrap r).run.Only Op.Looks := by
  cases r <;> trivial

theorem okOr_only {α : Type} {e : PkgdError} (found : Option α) : (okOr e found).run.Only Op.Looks := by
  cases found <;> trivial

theorem print_only (line : String) : (print line).run.Only Op.Looks :=
  ⟨trivial, fun _ => trivial⟩

theorem firstTwelve_only (s : String) : (firstTwelve s).run.Only Op.Looks := by
  unfold firstTwelve
  split <;> trivial

theorem readArchive_only : (readArchive k path).run.Only Op.Looks := by
  refine Prog.Only.tryBind ⟨trivial, fun _ => trivial⟩ fun opened => ?_
  refine Prog.Only.tryBind (mapErr_only opened) fun bytes => ?_
  cases members k bytes <;> trivial

theorem verifyEntry_only (fileBytes : FileBytes) (entry : FileEntry) :
    (verifyEntry k fileBytes entry).run.Only Op.Looks := by
  unfold verifyEntry
  split
  · exact Prog.Only.tryBind ⟨trivial, fun _ => trivial⟩ fun _ => trivial
  · refine Prog.Only.tryBind (firstTwelve_only _) fun listed => ?_
    split
    · exact Prog.Only.tryBind (print_only _) fun _ => trivial
    · refine Prog.Only.tryBind (firstTwelve_only _) fun got => ?_
      exact Prog.Only.tryBind ⟨trivial, fun _ => trivial⟩ fun _ => trivial

theorem verifyEntries_only (fileBytes : FileBytes) (entries : List FileEntry) (allOk : Bool) :
    (verifyEntries k fileBytes entries allOk).run.Only Op.Looks := by
  induction entries generalizing allOk with
  | nil => trivial
  | cons entry entries ih => exact Prog.Only.tryBind (verifyEntry_only fileBytes entry) fun ok => ih _

theorem runVerify_only : (runVerify k path).run.Only Op.Looks := by
  refine Prog.Only.tryBind readArchive_only fun fileBytes => ?_
  refine Prog.Only.tryBind (okOr_only _) fun manifestBytes => ?_
  refine Prog.Only.tryBind (mapErr_only _) fun manifest => ?_
  refine Prog.Only.tryBind (verifyEntries_only fileBytes manifest.files true) fun allOk => ?_
  refine Prog.Only.tryBind (print_only _) fun _ => ?_
  cases allOk with
  | true => exact print_only _
  | false => trivial

theorem parseDescriptor_only (tomlBytes : Bytes) : (parseDescriptor k tomlBytes).run.Only Op.Looks := by
  refine Prog.Only.tryBind (mapErr_only _) fun tomlStr => ?_
  refine Prog.Only.tryBind (mapErr_only _) fun descriptor => ?_
  split <;> trivial

theorem exec_mapErr {α : Type} {wrap : String → PkgdError} {r : Except String α} {value : α}
    (exec : Exec tool () (mapErr wrap r).run d moments (.ok value) d') : r = .ok value := by
  cases r with
  | ok a => cases exec.2.1; rfl
  | error e => cases exec.2.1

theorem exec_okOr {α : Type} {e : PkgdError} {found : Option α} {value : α}
    (exec : Exec tool () (okOr e found).run d moments (.ok value) d') : found = some value := by
  cases found with
  | some a => cases exec.2.1; rfl
  | none => cases exec.2.1

/-- A pass that gets through has read the members of the file on the disk. -/
theorem exec_readArchive {fileBytes : FileBytes} (exec : Exec tool () (readArchive k path).run d moments (.ok fileBytes) d') :
    ∃ bytes, d.files path = some bytes ∧ members k bytes = .ok fileBytes := by
  obtain ⟨_, opened, u, _, front, exec, _⟩ := exec_tryBind_ok exec
  obtain ⟨_, bytes, u', _, checked, decoded, _⟩ := exec_tryBind_ok exec
  cases exec_mapErr checked
  obtain ⟨r, _, may, _, ⟨_, same, _⟩⟩ := front
  have there : d.files path = some bytes := by
    cases same
    exact of_decide_eq_true may
  refine ⟨bytes, there, ?_⟩
  cases result : members k bytes with
  | error e =>
    rw [result] at decoded
    cases decoded.2.1
  | ok contents =>
    rw [result] at decoded
    cases decoded.2.1
    rfl

/-- The file is there as listed. -/
def Listed (k : Codecs) (fileBytes : FileBytes) (entry : FileEntry) : Prop :=
  ∃ data, fileBytes.lookup entry.name = some data ∧ sha256Hex k data = entry.sha256

theorem exec_verifyEntry {fileBytes : FileBytes} {entry : FileEntry}
    (exec : Exec tool () (verifyEntry k fileBytes entry).run d moments (.ok true) d') : Listed k fileBytes entry := by
  unfold verifyEntry at exec
  split at exec
  · obtain ⟨_, _, _, _, _, missing, _⟩ := exec_tryBind_ok exec
    cases missing.2.1
  · rename_i data there
    obtain ⟨_, listed, _, _, _, compared, _⟩ := exec_tryBind_ok exec
    by_cases same : sha256Hex k data = entry.sha256
    · exact ⟨data, there, same⟩
    · simp only [same, if_false] at compared
      obtain ⟨_, _, _, _, _, reported, _⟩ := exec_tryBind_ok compared
      obtain ⟨_, _, _, _, _, mismatch, _⟩ := exec_tryBind_ok reported
      cases mismatch.2.1

theorem exec_verifyEntries {fileBytes : FileBytes} {entries : List FileEntry} {allOk : Bool}
    (exec : Exec tool () (verifyEntries k fileBytes entries allOk).run d moments (.ok true) d') :
    allOk = true ∧ ∀ entry ∈ entries, Listed k fileBytes entry := by
  induction entries generalizing allOk d moments with
  | nil =>
    cases exec.2.1
    exact ⟨rfl, by simp⟩
  | cons entry entries ih =>
    obtain ⟨_, ok, u, _, front, back, _⟩ := exec_tryBind_ok exec
    obtain ⟨both, rest⟩ := ih back
    obtain ⟨before, rfl⟩ := Bool.and_eq_true_iff.mp both
    exact ⟨before, List.forall_mem_cons.mpr ⟨exec_verifyEntry front, rest⟩⟩

/-- What a package on the disk holds: its members, and the files its manifest lists. -/
def Holds (k : Codecs) (d : Disk) (path : String) (fileBytes : FileBytes) (manifest : ManifestJson) : Prop :=
  ∃ bytes manifestBytes, d.files path = some bytes ∧ members k bytes = .ok fileBytes ∧
    fileBytes.lookup "manifest.json" = some manifestBytes ∧ k.manifest manifestBytes = .ok manifest

/-- A verification that goes through has found every listed file as listed. -/
theorem exec_runVerify (exec : Exec tool () (runVerify k path).run d moments (.ok ()) d') :
    ∃ fileBytes manifest, Holds k d path fileBytes manifest ∧ ∀ entry ∈ manifest.files, Listed k fileBytes entry := by
  obtain ⟨_, fileBytes, _, _, read, exec, _⟩ := exec_tryBind_ok exec
  obtain ⟨_, manifestBytes, _, _, found, exec, _⟩ := exec_tryBind_ok exec
  obtain ⟨_, manifest, _, _, parsed, exec, _⟩ := exec_tryBind_ok exec
  obtain ⟨_, allOk, _, _, checked, exec, _⟩ := exec_tryBind_ok exec
  obtain ⟨_, _, _, _, _, concluded, _⟩ := exec_tryBind_ok exec
  obtain ⟨bytes, there, decoded⟩ := exec_readArchive read
  cases allOk with
  | false => cases concluded.2.1
  | true =>
    exact ⟨fileBytes, manifest, ⟨bytes, manifestBytes, there, decoded, exec_okOr found, exec_mapErr parsed⟩,
      (exec_verifyEntries checked).2⟩

/-- The descriptor that was parsed from these bytes. -/
def Describes (k : Codecs) (tomlBytes : Bytes) (descriptor : JpkDescriptor) : Prop :=
  ∃ text, k.utf8 tomlBytes = .ok text ∧ k.toml text = .ok descriptor

theorem exec_parseDescriptor {tomlBytes : Bytes} {descriptor : JpkDescriptor}
    (exec : Exec tool () (parseDescriptor k tomlBytes).run d moments (.ok descriptor) d') :
    Describes k tomlBytes descriptor := by
  obtain ⟨_, text, _, _, read, exec, _⟩ := exec_tryBind_ok exec
  obtain ⟨_, parsed, _, _, decoded, exec, _⟩ := exec_tryBind_ok exec
  refine ⟨text, exec_mapErr read, ?_⟩
  cases valid : parsed.validate with
  | error e =>
    rw [valid] at exec
    cases exec.2.1
  | ok u =>
    rw [valid] at exec
    cases exec.2.1
    exact exec_mapErr decoded

/-- An installation that comes to unpack a payload has verified the package, and takes
both the descriptor and the payload from what it verified. -/
theorem exec_runInstall {r : Except Stop Unit} {m : Moment Tool Disk} {payload : Bytes} {dest : String}
    (exec : Exec tool () (runInstall k path root).run d moments r d') (member : m ∈ moments)
    (unpacks : m.op = .unpack payload dest) :
    ∃ fileBytes manifest tomlBytes descriptor, Holds k d path fileBytes manifest ∧
      (∀ entry ∈ manifest.files, Listed k fileBytes entry) ∧
      fileBytes.lookup "jpk.toml" = some tomlBytes ∧ Describes k tomlBytes descriptor ∧
      dest = join root descriptor.header.id ∧ fileBytes.lookup "payload.tar" = some payload := by
  have other : ¬ Op.Looks m.op := by
    rw [unpacks]
    exact not_false
  have unpack : ¬ Op.UnpacksNone m.op := fun none => none payload dest unpacks
  obtain ⟨_, _, u, _, started, exec, member⟩ := exec_tryBind_later exec (print_only _) member other
  cases exec_disk started
  obtain ⟨_, _, u, _, verified, exec, member⟩ := exec_tryBind_later exec runVerify_only member other
  cases exec_disk verified
  obtain ⟨_, fileBytes, u, _, read, exec, member⟩ := exec_tryBind_later exec readArchive_only member other
  cases exec_disk read
  obtain ⟨_, tomlBytes, u, _, toml, exec, member⟩ := exec_tryBind_later exec (okOr_only _) member other
  obtain ⟨_, descriptor, u, _, parsed, exec, member⟩ := exec_tryBind_later exec (parseDescriptor_only _) member other
  obtain ⟨_, created, u, _, _, exec, member⟩ :=
    exec_tryBind_later exec ⟨by simp [Op.UnpacksNone], fun _ => trivial⟩ member unpack
  obtain ⟨_, _, u, _, _, exec, member⟩ := exec_tryBind_later exec (mapErr_only _) member other
  obtain ⟨_, payloadBytes, u, _, found, exec, member⟩ := exec_tryBind_later exec (okOr_only _) member other
  obtain ⟨checked, manifest, ⟨bytes, manifestBytes, there, decoded, listing⟩, listed⟩ := exec_runVerify verified
  obtain ⟨bytes', there', decoded'⟩ := exec_readArchive read
  cases there.symm.trans there'
  cases decoded.symm.trans decoded'
  refine ⟨fileBytes, manifest, tomlBytes, descriptor, ⟨bytes, manifestBytes, there, decoded, listing⟩, listed,
    exec_okOr toml, exec_parseDescriptor parsed, ?_⟩
  obtain ⟨result, rest, _, rfl, after⟩ := exec
  rcases List.mem_cons.mp member with rfl | later
  · cases unpacks
    exact ⟨rfl, exec_okOr found⟩
  · refine absurd (after.only (Prog.Only.bind trivial fun answered => ?_) m later) other
    cases answered with
    | ok unpacked => exact Prog.Only.tryBind (mapErr_only unpacked) fun _ => print_only _
    | error e => trivial

theorem print_possible (line : String) : ∃ moments, Exec tool () (print line).run d moments (.ok ()) d :=
  ⟨_, (), [], rfl, rfl, rfl, rfl, rfl⟩

theorem mapErr_possible {α : Type} {wrap : String → PkgdError} {r : Except String α} {value : α} (ok : r = .ok value) :
    Exec tool () (mapErr wrap r).run d [] (.ok value) d := by
  subst ok
  exact ⟨rfl, rfl, rfl⟩

theorem okOr_possible {α : Type} {e : PkgdError} {found : Option α} {value : α} (there : found = some value) :
    Exec tool () (okOr e found).run d [] (.ok value) d := by
  subst there
  exact ⟨rfl, rfl, rfl⟩

/-- The digest can be cut for its report. -/
def Cut (entry : FileEntry) : Prop := ∃ listed, Text.bytePrefix 12 entry.sha256 = some listed

theorem readArchive_possible {bytes : Bytes} {fileBytes : FileBytes} (there : d.files path = some bytes)
    (decodes : members k bytes = .ok fileBytes) :
    ∃ moments, Exec tool () (readArchive k path).run d moments (.ok fileBytes) d := by
  have opened : Exec tool () (liftM (call (.openFile path)) : Fallible (Except String Bytes)).run d
      [⟨d, .openFile path, Except.ok bytes⟩] (.ok (.ok bytes)) d :=
    ⟨.ok bytes, [], decide_eq_true there, rfl, rfl, rfl, rfl⟩
  refine ⟨_ ++ ([] ++ []), exec_through opened (exec_through (mapErr_possible rfl) ?_)⟩
  rw [decodes]
  exact ⟨rfl, rfl, rfl⟩

theorem verifyEntry_possible {fileBytes : FileBytes} {entry : FileEntry} (listed : Listed k fileBytes entry)
    (cut : Cut entry) : ∃ moments, Exec tool () (verifyEntry k fileBytes entry).run d moments (.ok true) d := by
  obtain ⟨data, found, same⟩ := listed
  obtain ⟨front, cut⟩ := cut
  obtain ⟨shown, prints⟩ := print_possible (d := d) ("  OK       " ++ entry.name ++ " (" ++ front ++ ")")
  have sliced : Exec tool () (firstTwelve entry.sha256).run d [] (.ok front) d := by
    rw [firstTwelve, cut]
    exact ⟨rfl, rfl, rfl⟩
  unfold verifyEntry
  rw [found]
  refine ⟨[] ++ (shown ++ []), exec_through sliced ?_⟩
  simp only [same, if_true]
  exact exec_through prints ⟨rfl, rfl, rfl⟩

theorem verifyEntries_possible {fileBytes : FileBytes} {entries : List FileEntry}
    (listed : ∀ entry ∈ entries, Listed k fileBytes entry ∧ Cut entry) :
    ∃ moments, Exec tool () (verifyEntries k fileBytes entries true).run d moments (.ok true) d := by
  induction entries with
  | nil => exact ⟨[], rfl, rfl, rfl⟩
  | cons entry entries ih =>
    obtain ⟨head, cut⟩ := listed entry (List.mem_cons_self ..)
    obtain ⟨first, checks⟩ := verifyEntry_possible (d := d) head cut
    obtain ⟨rest, later⟩ := ih fun e member => listed e (List.mem_cons_of_mem _ member)
    exact ⟨first ++ rest, exec_through checks later⟩

/-- A package whose files are as listed can be verified. -/
theorem runVerify_possible {fileBytes : FileBytes} {manifest : ManifestJson} (holds : Holds k d path fileBytes manifest)
    (listed : ∀ entry ∈ manifest.files, Listed k fileBytes entry ∧ Cut entry) :
    ∃ moments, Exec tool () (runVerify k path).run d moments (.ok ()) d := by
  obtain ⟨bytes, manifestBytes, there, decodes, listing, parsed⟩ := holds
  obtain ⟨reading, read⟩ := readArchive_possible there decodes
  obtain ⟨checking, checks⟩ := verifyEntries_possible (d := d) listed
  obtain ⟨signing, signed⟩ := print_possible (d := d) (signatureLine fileBytes)
  obtain ⟨ending, ends⟩ := print_possible (d := d) ("Verify OK: " ++ path)
  exact ⟨_, exec_through read (exec_through (okOr_possible listing) (exec_through (mapErr_possible parsed)
    (exec_through checks (exec_through signed ends))))⟩

/-- A package that verifies can be unpacked into the jail of its descriptor. -/
theorem runInstall_possible (root : String) {fileBytes : FileBytes} {manifest : ManifestJson}
    {tomlBytes payload : Bytes} {descriptor : JpkDescriptor} (holds : Holds k d path fileBytes manifest)
    (listed : ∀ entry ∈ manifest.files, Listed k fileBytes entry ∧ Cut entry)
    (toml : fileBytes.lookup "jpk.toml" = some tomlBytes) (describes : Describes k tomlBytes descriptor)
    (valid : descriptor.validate = .ok ()) (found : fileBytes.lookup "payload.tar" = some payload) :
    ∃ moments r d', Exec tool () (runInstall k path root).run d moments r d' ∧
      ∃ m ∈ moments, m.op = .unpack payload (join root descriptor.header.id) := by
  obtain ⟨bytes, manifestBytes, there, decodes, _⟩ := id holds
  obtain ⟨starting, starts⟩ := print_possible (d := d) ("Verifying " ++ path ++ "...")
  obtain ⟨verifying, verifies⟩ := runVerify_possible holds listed
  obtain ⟨reading, read⟩ := readArchive_possible there decodes
  obtain ⟨text, utf8, decoded⟩ := describes
  have parses : Exec tool () (parseDescriptor k tomlBytes).run d ([] ++ ([] ++ [])) (.ok descriptor) d := by
    refine exec_through (mapErr_possible utf8) (exec_through (mapErr_possible decoded) ?_)
    rw [valid]
    exact ⟨rfl, rfl, rfl⟩
  obtain ⟨ending, ends⟩ := print_possible (d := d) ("Installed " ++ descriptor.header.id ++ " v" ++
    descriptor.header.version ++ " -> " ++ join root descriptor.header.id)
  have created : Exec tool () (liftM (call (.createDirAll (join root descriptor.header.id))) :
      Fallible (Except String Unit)).run d [⟨d, .createDirAll (join root descriptor.header.id), Except.ok ()⟩]
      (.ok (.ok ())) d :=
    ⟨.ok (), [], rfl, rfl, rfl, rfl, rfl⟩
  have unpacked : Exec tool () (liftM (call (.unpack payload (join root descriptor.header.id))) :
      Fallible (Except String Unit)).run d [⟨d, .unpack payload (join root descriptor.header.id), Except.ok ()⟩]
      (.ok (.ok ())) d :=
    ⟨.ok (), [], rfl, rfl, rfl, rfl, rfl⟩
  have whole : Exec tool () (runInstall k path root).run d _ (.ok ()) d :=
    exec_through starts (exec_through verifies (exec_through read (exec_through (okOr_possible toml)
      (exec_through parses (exec_through created (exec_through (mapErr_possible rfl)
        (exec_through (okOr_possible found) (exec_through unpacked (exec_through (mapErr_possible rfl) ends)))))))))
  exact ⟨_, _, _, whole, ⟨d, .unpack payload (join root descriptor.header.id), Except.ok ()⟩, by simp, rfl⟩

/-- The manifest lists these bytes under the name, with their digest. -/
def Lists (k : Codecs) (manifest : ManifestJson) (name : String) (bytes : Bytes) : Prop :=
  ∃ entry ∈ manifest.files, entry.name = name ∧ entry.sha256 = sha256Hex k bytes

/-- The manifest has an entry of that name. -/
def Mentions (manifest : ManifestJson) (name : String) : Prop := ∃ entry ∈ manifest.files, entry.name = name

theorem lists_iff_mentions {fileBytes : FileBytes} {manifest : ManifestJson} {name : String} {bytes : Bytes}
    (listed : ∀ entry ∈ manifest.files, Listed k fileBytes entry) (there : fileBytes.lookup name = some bytes) :
    Lists k manifest name bytes ↔ Mentions manifest name := by
  constructor
  · rintro ⟨entry, member, same, _⟩
    exact ⟨entry, member, same⟩
  · rintro ⟨entry, member, rfl⟩
    obtain ⟨data, found, digest⟩ := listed entry member
    cases found.symm.trans there
    exact ⟨entry, member, rfl, digest.symm⟩

/-- The bytes that reach a jail, those the descriptor is parsed from and those that are
unpacked, are listed with their digests exactly where the manifest mentions both members. -/
theorem installed_bytes_listed_iff {r : Except Stop Unit} {m : Moment Tool Disk} {payload : Bytes} {dest : String}
    (exec : Exec tool () (runInstall k path root).run d moments r d') (member : m ∈ moments)
    (unpacks : m.op = .unpack payload dest) :
    ∃ fileBytes manifest tomlBytes descriptor, Holds k d path fileBytes manifest ∧
      fileBytes.lookup "jpk.toml" = some tomlBytes ∧ Describes k tomlBytes descriptor ∧
      dest = join root descriptor.header.id ∧
      (Lists k manifest "jpk.toml" tomlBytes ∧ Lists k manifest "payload.tar" payload ↔
        Mentions manifest "jpk.toml" ∧ Mentions manifest "payload.tar") := by
  obtain ⟨fileBytes, manifest, tomlBytes, descriptor, holds, listed, toml, describes, target, found⟩ :=
    exec_runInstall exec member unpacks
  exact ⟨fileBytes, manifest, tomlBytes, descriptor, holds, toml, describes, target,
    and_congr (lists_iff_mentions listed toml) (lists_iff_mentions listed found)⟩

/-- A jpk.toml with the required fields only. -/
def footToml : String :=
  "[meta]\nschema_version = \"1.0\"\nid = \"org.bsdos.foot\"\nversion = \"1.0.0\"\nname = \"foot\"\n" ++
  "[compatibility]\nbsdos_codename_min = \"Squirrel\"\nfreebsd_min = \"15.1\"\narch = [\"any\"]\n" ++
  "[runtime]\ntype = \"jail\"\nentrypoint = \"/usr/local/bin/foot\"\n[permissions]\n"

def footDescriptor : JpkDescriptor :=
  ⟨⟨"1.0", "org.bsdos.foot", "1.0.0"⟩, ⟨"Squirrel", ["any"]⟩, ⟨"jail", "/usr/local/bin/foot"⟩, ⟨"none", "ro"⟩⟩

def footDigest : String := "dbef48f495d0d9b82743caaaa3fbb1ef5ca752e02eec42a4360326ae43f24097"

/-- The same as bytes. -/
def footSha : Vector UInt8 32 :=
  #v[219, 239, 72, 244, 149, 208, 217, 184, 39, 67, 202, 170, 163, 251, 177, 239, 92, 167, 82, 224, 46, 236, 66,
    164, 54, 3, 38, 174, 67, 242, 64, 151]

def emptyDigest : String := "e3b0c44298fc1c149afbf4c8996fb92427ae41e4649b934ca495991b7852b855"

/-- A manifest.json that lists both members, and one that lists nothing. -/
def footManifest : String :=
  "\x7b\"files\":[\x7b\"name\":\"jpk.toml\",\"sha256\":\"" ++ footDigest ++ "\"\x7d," ++
  "\x7b\"name\":\"payload.tar\",\"sha256\":\"" ++ emptyDigest ++ "\"\x7d]\x7d"

def emptyManifest : String := "\x7b\"files\":[]\x7d"

/-- The gzipped archive of a manifest, that descriptor and an empty payload. -/
def footPackage : Bytes :=
  [31, 139, 8, 0, 0, 0, 0, 0, 2, 255, 237, 148, 205, 142, 219, 32, 16, 199, 115, 246, 83, 68, 156, 87, 14, 224, 241,
   7, 43, 245, 41, 246, 104, 89, 17, 224, 161, 33, 181, 141, 11, 100, 165, 104, 149, 119, 47, 78, 187, 171, 77, 123,
   168, 122, 200, 238, 161, 254, 93, 24, 134, 249, 18, 232, 207, 40, 39, 107, 48, 196, 252, 24, 220, 180, 185, 15,
   52, 81, 1, 92, 215, 196, 239, 43, 45, 88, 245, 102, 95, 253, 140, 2, 84, 155, 45, 221, 124, 0, 167, 16, 165, 79,
   237, 55, 255, 39, 47, 196, 216, 1, 3, 121, 108, 95, 200, 36, 71, 36, 143, 228, 56, 127, 203, 163, 27, 7, 242, 64,
   194, 65, 242, 178, 74, 190, 94, 161, 129, 198, 128, 40, 123, 218, 11, 213, 240, 26, 10, 45, 19, 133, 81, 138,
   161, 41, 181, 172, 75, 142, 148, 35, 106, 224, 18, 138, 138, 22, 188, 146, 8, 133, 225, 64, 69, 77, 46, 15, 111,
   245, 103, 121, 30, 156, 236, 243, 116, 239, 239, 91, 96, 161, 168, 6, 224, 162, 49, 154, 105, 6, 66, 26, 101, 64,
   55, 66, 84, 70, 9, 14, 188, 78, 229, 24, 66, 5, 66, 137, 2, 180, 76, 195, 8, 193, 84, 221, 148, 92, 53, 101, 73,
   46, 221, 101, 179, 242, 143, 188, 62, 246, 61, 123, 252, 85, 255, 21, 187, 213, 63, 173, 129, 175, 250, 255, 16,
   218, 17, 163, 236, 178, 160, 15, 56, 202, 253, 51, 250, 96, 221, 180, 253, 178, 37, 44, 167, 36, 179, 253, 98,
   58, 255, 53, 87, 161, 119, 33, 55, 206, 69, 146, 221, 70, 45, 113, 139, 178, 151, 237, 207, 243, 86, 187, 113,
   150, 209, 42, 59, 216, 120, 238, 178, 107, 238, 94, 187, 30, 151, 184, 253, 104, 175, 169, 79, 223, 79, 214, 123,
   28, 72, 102, 60, 98, 138, 121, 61, 96, 101, 206, 72, 38, 189, 62, 164, 93, 75, 228, 116, 38, 93, 214, 250, 211,
   20, 237, 136, 93, 22, 207, 243, 181, 215, 81, 218, 148, 139, 83, 244, 231, 217, 217, 41, 46, 190, 221, 41, 248,
   221, 224, 180, 28, 118, 202, 78, 187, 95, 227, 204, 232, 71, 27, 150, 145, 67, 151, 173, 146, 191, 225, 221, 103,
   252, 105, 250, 255, 195, 102, 203, 15, 176, 234, 127, 101, 101, 101, 229, 158, 252, 0, 70, 180, 43, 225, 0, 14,
   0, 0]

def unlistedPackage : Bytes :=
  [31, 139, 8, 0, 0, 0, 0, 0, 2, 255, 237, 148, 203, 78, 133, 48, 16, 134, 89, 247, 41, 78, 250, 0, 165, 85, 196,
   196, 196, 167, 112, 73, 8, 41, 48, 120, 6, 123, 193, 182, 152, 16, 227, 187, 75, 81, 99, 208, 133, 171, 115, 92,
   156, 126, 155, 185, 244, 159, 204, 108, 254, 106, 105, 112, 0, 31, 216, 232, 173, 201, 78, 3, 95, 41, 139, 98,
   139, 43, 63, 35, 231, 162, 248, 206, 99, 95, 240, 162, 16, 217, 129, 103, 103, 96, 246, 65, 186, 117, 125, 118,
   153, 188, 210, 1, 21, 120, 122, 87, 213, 111, 89, 226, 226, 24, 167, 39, 22, 172, 86, 167, 220, 241, 151, 255,
   175, 75, 177, 247, 63, 191, 45, 174, 202, 228, 255, 115, 80, 105, 8, 178, 38, 190, 59, 130, 150, 205, 11, 56,
   143, 214, 28, 238, 15, 84, 48, 78, 9, 246, 49, 181, 238, 145, 181, 190, 183, 158, 13, 214, 6, 74, 246, 170, 168,
   51, 82, 67, 44, 63, 222, 171, 206, 234, 73, 6, 108, 81, 97, 88, 106, 178, 205, 54, 157, 237, 33, 234, 26, 141,
   219, 232, 195, 243, 140, 206, 129, 162, 100, 112, 0, 171, 230, 235, 65, 220, 48, 65, 137, 116, 221, 113, 173, 42,
   42, 205, 66, 107, 82, 185, 217, 4, 212, 80, 147, 176, 76, 219, 174, 81, 226, 58, 11, 38, 184, 101, 178, 104, 66,
   236, 229, 179, 119, 185, 178, 157, 84, 121, 139, 38, 255, 60, 103, 2, 167, 209, 199, 147, 125, 77, 146, 229, 119,
   76, 114, 81, 86, 246, 44, 154, 224, 191, 252, 255, 43, 23, 241, 7, 72, 254, 79, 36, 18, 137, 83, 242, 14, 48, 14,
   130, 153, 0, 14, 0, 0]

def archived (manifest : String) : List (Except String TarEntry) :=
  [.ok ⟨.ok "manifest.json", .ok (bytesOf manifest)⟩, .ok ⟨.ok "jpk.toml", .ok (bytesOf footToml)⟩,
    .ok ⟨.ok "payload.tar", .ok []⟩]

/-- What the decoders and the hash make of these packages. -/
def footCodecs : Codecs where
  entries b :=
    if b = footPackage then .ok (archived footManifest)
    else if b = unlistedPackage then .ok (archived emptyManifest)
    else .error "invalid gzip header"
  manifest b :=
    if b = bytesOf footManifest then .ok ⟨[⟨"jpk.toml", footDigest⟩, ⟨"payload.tar", emptyDigest⟩]⟩
    else if b = bytesOf emptyManifest then .ok ⟨[]⟩
    else .error "expected value at line 1 column 1"
  utf8 b := if b = bytesOf footToml then .ok footToml else .error "invalid utf-8 sequence"
  toml s := if s = footToml then .ok footDescriptor else .error "TOML parse error"
  sha256 b :=
    if b = bytesOf footToml then footSha
    else
      #v[227, 176, 196, 66, 152, 252, 28, 20, 154, 251, 244, 200, 153, 111, 185, 36, 39, 174, 65, 228, 100, 155, 147,
        76, 164, 149, 153, 27, 120, 82, 184, 85]

def footDisk : Disk where
  files path :=
    if path = "foot.jpk" then some footPackage
    else if path = "unlisted.jpk" then some unlistedPackage
    else none

theorem foot_digests : sha256Hex footCodecs (bytesOf footToml) = footDigest ∧ sha256Hex footCodecs [] = emptyDigest := by
  have filled : ([] : Bytes) ≠ bytesOf footToml := by decide +kernel
  refine ⟨String.toList_inj.mp ?_, String.toList_inj.mp ?_⟩
  · rw [sha256Hex, Text.hexEncode, footDigest, String.toList_ofList, String.toList_ofList]
    simp only [footCodecs, if_true]
    rfl
  · rw [sha256Hex, Text.hexEncode, emptyDigest, String.toList_ofList, String.toList_ofList]
    simp only [footCodecs, if_neg filled]
    rfl

/-- The members of the packages. -/
def footBytes (manifest : String) : FileBytes :=
  (((∅ : FileBytes).insert "manifest.json" (bytesOf manifest)).insert "jpk.toml" (bytesOf footToml)).insert
    "payload.tar" []

theorem footBytes_lookups (manifest : String) :
    (footBytes manifest).lookup "manifest.json" = some (bytesOf manifest) ∧
    (footBytes manifest).lookup "jpk.toml" = some (bytesOf footToml) ∧
    (footBytes manifest).lookup "payload.tar" = some [] := by
  refine ⟨?_, ?_, Finmap.lookup_insert _⟩
  · rw [footBytes, Finmap.lookup_insert_of_ne _ (by decide), Finmap.lookup_insert_of_ne _ (by decide)]
    exact Finmap.lookup_insert _
  · rw [footBytes, Finmap.lookup_insert_of_ne _ (by decide)]
    exact Finmap.lookup_insert _

theorem foot_described : Describes footCodecs (bytesOf footToml) footDescriptor ∧
    footDescriptor.validate = .ok () ∧
    join "/opt/bsdos/jails" footDescriptor.header.id = "/opt/bsdos/jails/org.bsdos.foot" := by
  refine ⟨⟨footToml, ?_, ?_⟩, by decide +kernel, by decide +kernel⟩
  · simp only [footCodecs, if_true]
  · simp only [footCodecs, if_true]

theorem foot_holds : Holds footCodecs footDisk "foot.jpk" (footBytes footManifest)
    ⟨[⟨"jpk.toml", footDigest⟩, ⟨"payload.tar", emptyDigest⟩]⟩ := by
  refine ⟨footPackage, bytesOf footManifest, ?_, ?_, (footBytes_lookups footManifest).1, ?_⟩
  · simp only [footDisk, if_true]
  · simp only [members, footCodecs, if_true]
    rfl
  · simp only [footCodecs, if_true]

theorem foot_listed : ∀ entry ∈ [FileEntry.mk "jpk.toml" footDigest, ⟨"payload.tar", emptyDigest⟩],
    Listed footCodecs (footBytes footManifest) entry ∧ Cut entry := by
  obtain ⟨toml, empty⟩ := foot_digests
  obtain ⟨_, found, payload⟩ := footBytes_lookups footManifest
  have cut : Cut ⟨"jpk.toml", footDigest⟩ ∧ Cut ⟨"payload.tar", emptyDigest⟩ := by
    unfold Cut Text.bytePrefix footDigest emptyDigest
    repeat rw [String.toList_ofList]
    exact ⟨⟨_, rfl⟩, ⟨_, rfl⟩⟩
  exact List.forall_mem_cons.mpr ⟨⟨⟨_, found, toml⟩, cut.1⟩, List.forall_mem_singleton.mpr ⟨⟨_, payload, empty⟩, cut.2⟩⟩

/-- A package whose manifest lists what it holds is installed from listed bytes. -/
theorem installed_bytes_listed_foot : ∃ fileBytes manifest tomlBytes descriptor,
    Holds footCodecs footDisk "foot.jpk" fileBytes manifest ∧
      fileBytes.lookup "jpk.toml" = some tomlBytes ∧ Describes footCodecs tomlBytes descriptor ∧
      "/opt/bsdos/jails/org.bsdos.foot" = join "/opt/bsdos/jails" descriptor.header.id ∧
      (Lists footCodecs manifest "jpk.toml" tomlBytes ∧ Lists footCodecs manifest "payload.tar" [] ↔
        Mentions manifest "jpk.toml" ∧ Mentions manifest "payload.tar") := by
  obtain ⟨describes, valid, dest⟩ := foot_described
  obtain ⟨_, toml, payload⟩ := footBytes_lookups footManifest
  obtain ⟨moments, r, d', exec, m, member, unpacks⟩ :=
    runInstall_possible "/opt/bsdos/jails" foot_holds foot_listed toml describes valid payload
  rw [dest] at unpacks
  exact installed_bytes_listed_iff exec member unpacks

/-- The members of the package whose manifest lists nothing. -/
def unlistedBytes : FileBytes :=
  (((∅ : FileBytes).insert "manifest.json" (bytesOf emptyManifest)).insert "jpk.toml" (bytesOf footToml)).insert
    "payload.tar" []

theorem unlisted_holds : Holds footCodecs footDisk "unlisted.jpk" unlistedBytes ⟨[]⟩ := by
  refine ⟨unlistedPackage, bytesOf emptyManifest, by decide +kernel, ?_, by decide +kernel, ?_⟩
  · have other : unlistedPackage ≠ footPackage := by decide
    simp only [members, footCodecs, if_neg other, if_true]
    rfl
  · have other : bytesOf emptyManifest ≠ bytesOf footManifest := by decide +kernel
    simp only [footCodecs, if_neg other, if_true]

/-- A package whose manifest lists nothing is verified, and its payload unpacked. -/
theorem unlisted_payload_unpacked : Holds footCodecs footDisk "unlisted.jpk" unlistedBytes ⟨[]⟩ ∧
    ∃ moments r d', Exec tool () (runInstall footCodecs "unlisted.jpk" "/opt/bsdos/jails").run footDisk moments r d' ∧
      (∃ m ∈ moments, m.op = .unpack [] "/opt/bsdos/jails/org.bsdos.foot") ∧
      ¬ Lists footCodecs ⟨[]⟩ "jpk.toml" (bytesOf footToml) ∧ ¬ Lists footCodecs ⟨[]⟩ "payload.tar" [] := by
  refine ⟨unlisted_holds, ?_⟩
  obtain ⟨describes, valid, dest⟩ := foot_described
  obtain ⟨_, toml, payload⟩ := footBytes_lookups emptyManifest
  obtain ⟨moments, r, d', exec, unpacks⟩ := runInstall_possible "/opt/bsdos/jails" unlisted_holds
    (fun _ none => absurd none List.not_mem_nil) toml describes valid payload
  rw [dest] at unpacks
  exact ⟨moments, r, d', exec, unpacks, by simp [Lists], by simp [Lists]⟩

end Bsdos.Pkgd
