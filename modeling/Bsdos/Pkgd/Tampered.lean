import Bsdos.Pkgd.Build
import Bsdos.Pkgd.Verdict

namespace Bsdos.Pkgd
open Effects Files

variable {k : Codecs} {lib : Libraries Nodes} {m m' : Machine} {d : Disk} {dir output path : String}

/-- Members as the iterator over their archive hands them out. -/
def asEntries (written : List (String × Bytes)) : List (Except String TarEntry) :=
  written.map fun member => .ok ⟨.ok member.1, .ok member.2⟩

/-- What members written one after the other amount to. -/
def contentsOf (written : List (String × Bytes)) : FileBytes :=
  written.foldl (fun contents member => contents.insert member.1 member.2) ∅

theorem readEntries_asEntries (fileBytes : FileBytes) (written : List (String × Bytes)) :
    readEntries fileBytes (asEntries written) =
      .ok (written.foldl (fun contents member => contents.insert member.1 member.2) fileBytes) := by
  induction written generalizing fileBytes with
  | nil => rfl
  | cons member written ih => exact ih _

theorem members_asEntries {archive : Bytes} {written : List (String × Bytes)}
    (packed : k.entries archive = .ok (asEntries written)) : members k archive = .ok (contentsOf written) := by
  unfold members
  rw [packed]
  exact readEntries_asEntries ∅ written

section packaged
variable {tomlStr info name : String} {jpkJson jpkJson' payloadTar manifestJson : Bytes}

theorem lookup_skip {contents : FileBytes} {name' : String} {data : Bytes} (other : name ≠ name') :
    (contents.insert name' data).lookup name = contents.lookup name :=
  Finmap.lookup_insert_of_ne contents other

/-- The members of a package that was built are those that were packaged. -/
theorem lookup_packaged (written : List (String × Bytes))
    (members : written = packaged tomlStr jpkJson payloadTar manifestJson info) :
    (contentsOf written).lookup "jpk.toml" = some (bytesOf tomlStr) ∧
      (contentsOf written).lookup "jpk.json" = some jpkJson ∧
      (contentsOf written).lookup "payload.tar" = some payloadTar ∧
      (contentsOf written).lookup "manifest.json" = some manifestJson ∧
      (contentsOf written).lookup "build-info.txt" = some (bytesOf info) := by
  subst members
  simp only [contentsOf, packaged, List.foldl_cons, List.foldl_nil]
  refine ⟨?_, ?_, ?_, ?_, Finmap.lookup_insert _⟩
  · rw [lookup_skip (by decide), lookup_skip (by decide), lookup_skip (by decide), lookup_skip (by decide)]
    exact Finmap.lookup_insert _
  · rw [lookup_skip (by decide), lookup_skip (by decide), lookup_skip (by decide)]
    exact Finmap.lookup_insert _
  · rw [lookup_skip (by decide), lookup_skip (by decide)]
    exact Finmap.lookup_insert _
  · rw [lookup_skip (by decide)]
    exact Finmap.lookup_insert _

/-- Packages that differ in jpk.json agree on every other member. -/
theorem lookup_packaged_other (other : name ≠ "jpk.json") :
    (contentsOf (packaged tomlStr jpkJson payloadTar manifestJson info)).lookup name =
      (contentsOf (packaged tomlStr jpkJson' payloadTar manifestJson info)).lookup name := by
  simp only [contentsOf, packaged, List.foldl_cons, List.foldl_nil]
  have peel {contents contents' : FileBytes} (name' : String) (data : Bytes)
      (rest : contents.lookup name = contents'.lookup name) :
      (contents.insert name' data).lookup name = (contents'.insert name' data).lookup name := by
    by_cases same : name = name'
    · subst same
      rw [Finmap.lookup_insert, Finmap.lookup_insert]
    · rw [lookup_skip same, lookup_skip same, rest]
  refine peel _ _ (peel _ _ (peel _ _ ?_))
  rw [lookup_skip other, lookup_skip other]

end packaged

/-- A package with the same manifest.json but another content of some member, signatures
apart. -/
def Tampered (contents contents' : FileBytes) : Prop :=
  contents'.lookup "manifest.json" = contents.lookup "manifest.json" ∧
    ∃ name ∉ ["manifest.json", "signature.ed25519", "cert.pem"], contents'.lookup name ≠ contents.lookup name

/-- SHA-256 has no collisions between the members of one name. -/
def NoCollision (k : Codecs) (contents contents' : FileBytes) : Prop :=
  ∀ name data data', contents.lookup name = some data → contents'.lookup name = some data' →
    k.sha256 data = k.sha256 data' → data = data'

theorem matched_iff {contents contents' : FileBytes} {name : String} {data : Bytes}
    (distinct : NoCollision k contents contents') (origin : contents.lookup name = some data) :
    matched k contents' ⟨name, sha256Hex k data⟩ = true ↔ contents'.lookup name = contents.lookup name := by
  unfold matched
  rw [origin]
  cases found : contents'.lookup name with
  | none => simp only [Option.any_none, Bool.false_eq_true, reduceCtorEq]
  | some data' =>
    simp only [Option.any_some, decide_eq_true_eq, Option.some.injEq]
    constructor
    · intro same
      exact (distinct name data data' origin found (sha256Hex_inj same.symm)).symm
    · rintro rfl
      rfl

/-- An answer other than that a file which is there cannot be opened. -/
def opened (d : Disk) : (op : Op) → op.Ret → Bool
  | .openFile path, .error _ => (d.files path).isNone
  | _, _ => true

/-- The tool, on a disk from which every file can be read. -/
def attentive : System Tool Unit Disk where
  Request := Empty
  Env := Empty
  may := fun _ d op r => d.may op r && opened d op r
  effect := tool.effect
  serve := fun _ request => nomatch request
  droppable := fun _ _ => false
  surroundings := fun _ change => nomatch change

theorem tool_quiet (u : Disk) (op : Op) (r : op.Ret) (_ : Op.Looks op) : tool.effect () u op r = u := rfl

/-- What a file on the disk is opened to. -/
theorem tool_opens {bytes : Bytes} (there : d.files path = some bytes) (r : Except String Bytes)
    (may : d.may (.openFile path) r = true) : r = .ok bytes ∨ ∃ e, r = .error e := by
  cases r with
  | error e => exact Or.inr ⟨e, rfl⟩
  | ok read =>
    have same : d.files path = some read := of_decide_eq_true may
    rw [there] at same
    cases same
    exact Or.inl rfl

theorem attentive_answers (u : Disk) (op : Op) (looks : Op.Looks op) : ∃ r, attentive.may () u op r = true := by
  cases op with
  | openFile path =>
    cases there : u.files path with
    | some bytes =>
      have answer : attentive.may () u (.openFile path) (.ok bytes) = (decide (u.files path = some bytes) && true) := rfl
      exact ⟨.ok bytes, by rw [answer, there]; simp⟩
    | none =>
      have answer : attentive.may () u (.openFile path) (.error "") = (true && (u.files path).isNone) := rfl
      exact ⟨.error "", by rw [answer, there]; rfl⟩
  | print line | eprint line => exact ⟨(), rfl⟩
  | createDirAll path' | unpack payload dest => exact looks.elim

theorem buildManifest_hashed (tomlStr : String) (payloadTar : Bytes) (info : String) :
    ∀ entry ∈ (buildManifest k tomlStr payloadTar info).files, ∃ data, entry.sha256 = sha256Hex k data := by
  intro entry member
  simp only [buildManifest, List.mem_cons, List.not_mem_nil, or_false] at member
  rcases member with rfl | rfl | rfl <;> exact ⟨_, rfl⟩

/-- A package all of whose listed members match can be verified. -/
theorem verify_accepts {bytes manifestBytes : Bytes} {contents : FileBytes} {manifest : ManifestJson}
    (there : d.files path = some bytes) (decodes : members k bytes = .ok contents)
    (listing : contents.lookup "manifest.json" = some manifestBytes) (parsed : k.manifest manifestBytes = .ok manifest)
    (hashed : ∀ entry ∈ manifest.files, ∃ data, entry.sha256 = sha256Hex k data)
    (accepted : manifest.files.all (matched k contents) = true) :
    ∃ moments d', Exec tool () (runVerify k path).run d moments (.ok ()) d' := by
  obtain ⟨moments, r, d', exec⟩ := Exec.possible (S := attentive) (a := ()) (runVerify k path).run runVerify_only
    attentive_answers d
  have opens (r : Except String Bytes) (may : attentive.may () d (.openFile path) r = true) :=
    tool_opens there r (Bool.and_eq_true_iff.mp may).1
  obtain ⟨_, ⟨e, may, _⟩ | ends⟩ :=
    ensures_runVerify (S := attentive) (fun _ _ _ _ => rfl) opens decodes listing parsed hashed moments r d' exec
  · have absent : (true && (d.files path).isNone) = true := may
    rw [there] at absent
    cases absent
  · rw [verdict, accepted] at ends
    subst ends
    exact ⟨moments, d', exec.widen (fun _ _ _ => rfl) fun u op r may => (Bool.and_eq_true_iff.mp may).1⟩

/-- A package whose members were changed under its manifest is rejected by every
verification exactly if one of the three members that the manifest lists was changed. -/
theorem tampering_rejected_iff {moments : List (Moment Builder Machine)} {archive archive' : Bytes}
    {contents contents' : FileBytes}
    (build : Exec (builder lib) () (runBuild k lib dir output).run m moments (.ok ()) m')
    (packed : k.entries (lib.archive m'.written) = .ok (asEntries m'.written))
    (json : ∀ manifest bytes, lib.manifestJson manifest = .ok bytes → k.manifest bytes = .ok manifest)
    (built : m'.node output = some (.file archive)) (decodes : members k archive = .ok contents)
    (there : d.files path = some archive') (decodes' : members k archive' = .ok contents')
    (tampered : Tampered contents contents') (distinct : NoCollision k contents contents') :
    (∀ moments r d', Exec tool () (runVerify k path).run d moments r d' → ∃ e, r = .error (.failed e)) ↔
      ∃ name ∈ ["jpk.toml", "payload.tar", "build-info.txt"], contents'.lookup name ≠ contents.lookup name := by
  obtain ⟨tomlStr, descriptor, payloadTar, jpkJson, manifestJson, info, made⟩ := exec_runBuild build
  have stored : lib.archive m'.written = archive := by
    have same := made.stored.symm.trans built
    simpa using same
  rw [stored] at packed
  have same : contentsOf m'.written = contents := Except.ok.inj ((members_asEntries packed).symm.trans decodes)
  obtain ⟨toml, _, payload, listing, facts⟩ := lookup_packaged _ made.written
  rw [same] at toml payload listing facts
  have parsed := json _ _ made.manifest
  rw [← tampered.1] at listing
  have accepts : (buildManifest k tomlStr payloadTar info).files.all (matched k contents') = true ↔
      ∀ name ∈ ["jpk.toml", "payload.tar", "build-info.txt"], contents'.lookup name = contents.lookup name := by
    simp only [buildManifest, List.all_cons, List.all_nil, Bool.and_true, Bool.and_eq_true,
      matched_iff distinct toml, matched_iff distinct payload, matched_iff distinct facts, List.forall_mem_cons,
      List.not_mem_nil, false_imp_iff, implies_true, and_true]
  constructor
  · intro rejected
    by_contra unchanged
    have same : ∀ name ∈ ["jpk.toml", "payload.tar", "build-info.txt"], contents'.lookup name = contents.lookup name := by
      intro name member
      by_contra differs
      exact unchanged ⟨name, member, differs⟩
    obtain ⟨moments, d', exec⟩ := verify_accepts there decodes' listing parsed (buildManifest_hashed _ _ _)
      (accepts.mpr same)
    obtain ⟨e, wrong⟩ := rejected moments _ d' exec
    cases wrong
  · rintro ⟨name, member, differs⟩ moments r d' exec
    obtain ⟨_, ⟨e, _, failed⟩ | ends⟩ :=
      ensures_runVerify tool_quiet (tool_opens there) decodes' listing parsed (buildManifest_hashed _ _ _) moments r d' exec
    · exact ⟨_, failed⟩
    · have fails : (buildManifest k tomlStr payloadTar info).files.all (matched k contents') = false := by
        rw [Bool.eq_false_iff]
        exact fun all => differs (accepts.mp all name member)
      rw [verdict, fails] at ends
      exact ⟨_, ends⟩

/-- One field of a tar header, filled with zeros. -/
def field (width : Nat) (text : String) : Bytes := bytesOf text ++ List.replicate (width - (bytesOf text).length) 0

/-- The header of an entry, as `Header::new_gnu` and `set_metadata` fill it. -/
def gnuHeader (name mode size cksum kind : String) : Bytes :=
  field 100 name ++ field 8 mode ++ field 8 "0000000" ++ field 8 "0000000" ++ field 12 size ++ field 12 "14735102600" ++
    field 8 cksum ++ field 101 kind ++ field 72 "ustar  " ++ field 8 "0000000" ++ field 175 "0000000"

def packedEntries : List RawEntry :=
  [⟨["bin"], ⟨true, false, 3, 16877, 0, 0, 1735689600⟩, []⟩,
    ⟨["bin", "foot"], ⟨false, true, 10, 33261, 0, 0, 1735689600⟩, bytesOf "#!/bin/sh\n"⟩]

/-- The payload of a package with one script. -/
def packedPayload : Bytes :=
  gnuHeader "bin" "0040755" "00000000000" "0007677" "5" ++ gnuHeader "bin/foot" "0100755" "00000000012" "0010641" "0" ++
    field 512 "#!/bin/sh\n" ++ List.replicate 1024 0

def packedJson : String :=
  "\x7b\n  \"meta\": \x7b\n    \"schema_version\": \"1.0\",\n    \"id\": \"org.bsdos.foot\",\n" ++
  "    \"version\": \"1.0.0\",\n    \"name\": \"foot\",\n    \"description\": \"\",\n    \"homepage\": \"\",\n" ++
  "    \"license\": \"\",\n    \"authors\": [],\n    \"maintainer\": \"\"\n  \x7d,\n  \"compatibility\": \x7b\n" ++
  "    \"bsdos_codename_min\": \"Squirrel\",\n    \"bsdos_codename_max\": \"\",\n" ++
  "    \"freebsd_min\": \"15.1\",\n    \"freebsd_max\": \"\",\n    \"arch\": [\n      \"any\"\n    ]\n  \x7d,\n" ++
  "  \"runtime\": \x7b\n    \"type\": \"jail\",\n    \"jail_name\": \"\",\n" ++
  "    \"entrypoint\": \"/usr/local/bin/foot\",\n    \"needs_wayland\": false,\n    \"needs_input\": false,\n" ++
  "    \"needs_gpu\": false,\n    \"needs_audio\": false,\n    \"needs_modem\": false\n  \x7d,\n" ++
  "  \"permissions\": \x7b\n    \"capabilities\": [],\n    \"network\": \"none\",\n" ++
  "    \"filesystem\": \"ro\",\n    \"max_open_files\": null,\n    \"max_memory_mb\": null,\n" ++
  "    \"max_cpu_percent\": null,\n    \"max_disk_mb\": null,\n    \"network_ingress\": false,\n" ++
  "    \"network_egress\": false\n  \x7d,\n  \"build\": null,\n  \"update\": null,\n  \"discovery\": null\n\x7d"

def packedInfo : String := buildInfo footDescriptor "2025-01-01T00:00:00+00:00"

/-- The SHA-256 digests of jpk.toml, the payload, build-info.txt, jpk.json and an empty object. -/
def tomlSha : Vector UInt8 32 := footSha

def payloadSha : Vector UInt8 32 :=
  #v[143, 35, 197, 129, 98, 136, 141, 88, 161, 224, 144, 191, 190, 163, 253, 204, 55, 144, 131, 34, 5, 13, 115, 19,
    80, 249, 206, 102, 94, 44, 120, 157]

def infoSha : Vector UInt8 32 :=
  #v[96, 251, 27, 32, 17, 187, 246, 188, 15, 176, 153, 233, 205, 168, 102, 152, 17, 62, 233, 182, 176, 109, 23, 33,
    130, 133, 246, 119, 109, 53, 50, 30]

def jsonSha : Vector UInt8 32 :=
  #v[172, 194, 178, 57, 42, 123, 37, 156, 148, 168, 151, 63, 87, 148, 179, 166, 126, 222, 58, 37, 185, 225, 240, 210,
    184, 207, 136, 167, 202, 56, 225, 183]

def objectSha : Vector UInt8 32 :=
  #v[68, 19, 111, 163, 85, 179, 103, 138, 17, 70, 173, 22, 247, 232, 100, 158, 148, 251, 79, 194, 31, 231, 126, 131,
    16, 192, 96, 246, 28, 170, 255, 138]

def tomlDigest : String := Text.hexEncode tomlSha.toList

def payloadDigest : String := Text.hexEncode payloadSha.toList

def infoDigest : String := Text.hexEncode infoSha.toList

def packedManifest : ManifestJson :=
  ⟨[⟨"jpk.toml", tomlDigest⟩, ⟨"payload.tar", payloadDigest⟩, ⟨"build-info.txt", infoDigest⟩]⟩

def packedListing : String :=
  "\x7b\n  \"files\": [\n    \x7b\n      \"name\": \"jpk.toml\",\n      \"sha256\": \"" ++ tomlDigest ++
  "\"\n    \x7d,\n    \x7b\n      \"name\": \"payload.tar\",\n      \"sha256\": \"" ++ payloadDigest ++
  "\"\n    \x7d,\n    \x7b\n      \"name\": \"build-info.txt\",\n      \"sha256\": \"" ++ infoDigest ++
  "\"\n    \x7d\n  ]\n\x7d"

/-- The members of the package under a given jpk.json. -/
def packedMembers (jpkJson : String) : List (String × Bytes) :=
  packaged footToml (bytesOf jpkJson) packedPayload (bytesOf packedListing) packedInfo

/-- The gzipped archive of the package, and the one whose jpk.json was replaced by an empty object. -/
def packedArchive : Bytes :=
  [31, 139, 8, 0, 0, 0, 0, 0, 0, 255, 237, 89, 219, 146, 163, 54, 16, 245, 51, 95, 225, 144, 199, 204, 120, 36, 1, 2,
   182, 202, 95, 145, 188, 185, 92, 46, 129, 26, 91, 54, 72, 4, 137, 204, 184, 182, 230, 223, 35, 97, 108, 227, 75,
   54, 47, 25, 79, 166, 150, 83, 190, 72, 221, 18, 186, 52, 125, 80, 55, 219, 122, 55, 51, 170, 42, 39, 31, 8, 100,
   65, 195, 176, 251, 183, 184, 254, 71, 1, 197, 167, 114, 47, 143, 3, 74, 39, 104, 242, 0, 180, 218, 176, 102, 58,
   157, 252, 164, 88, 84, 96, 216, 210, 211, 249, 6, 42, 182, 250, 11, 26, 45, 148, 156, 206, 167, 62, 158, 33, 223,
   19, 220, 21, 85, 179, 158, 101, 154, 43, 61, 43, 148, 50, 190, 119, 217, 202, 181, 147, 172, 2, 87, 61, 232, 23,
   185, 170, 106, 102, 68, 38, 74, 97, 246, 75, 175, 235, 187, 202, 21, 7, 215, 110, 85, 137, 174, 235, 239, 127,
   182, 162, 105, 160, 244, 189, 162, 1, 176, 109, 142, 10, 28, 205, 176, 239, 177, 38, 223, 216, 218, 194, 103, 114,
   239, 47, 189, 69, 211, 74, 35, 42, 88, 122, 102, 95, 119, 99, 109, 153, 176, 125, 65, 154, 102, 95, 43, 33, 141,
   147, 189, 180, 186, 121, 41, 85, 206, 202, 151, 76, 200, 151, 126, 58, 53, 52, 149, 208, 110, 202, 122, 233, 77,
   70, 12, 177, 181, 254, 191, 213, 74, 126, 162, 255, 99, 74, 131, 91, 255, 143, 201, 232, 255, 15, 192, 119, 111,
   58, 245, 29, 7, 248, 223, 166, 174, 108, 107, 151, 92, 96, 229, 29, 23, 60, 29, 148, 130, 59, 193, 21, 35, 244,
   186, 203, 30, 231, 62, 206, 235, 157, 112, 216, 150, 131, 206, 27, 81, 155, 190, 253, 81, 188, 81, 21, 212, 108,
   13, 67, 89, 41, 114, 144, 250, 66, 196, 90, 179, 81, 141, 182, 162, 197, 178, 23, 85, 204, 114, 128, 253, 66, 211,
   53, 180, 194, 119, 167, 241, 47, 184, 232, 188, 200, 91, 78, 114, 221, 78, 156, 244, 116, 191, 21, 123, 27, 206,
   98, 192, 91, 221, 154, 29, 111, 93, 171, 46, 123, 56, 82, 115, 147, 238, 106, 174, 110, 185, 173, 43, 47, 79, 243,
   237, 121, 238, 60, 83, 199, 119, 238, 26, 29, 223, 245, 215, 113, 229, 213, 113, 91, 143, 194, 51, 21, 58, 233,
   61, 42, 60, 218, 3, 128, 235, 213, 43, 219, 151, 76, 58, 115, 22, 172, 212, 112, 161, 19, 178, 110, 205, 93, 205,
   186, 110, 239, 202, 89, 203, 133, 186, 171, 169, 236, 238, 85, 71, 205, 105, 153, 3, 78, 62, 47, 53, 103, 53, 235,
   12, 37, 224, 194, 182, 18, 204, 171, 106, 118, 110, 89, 82, 73, 56, 109, 178, 40, 65, 239, 181, 233, 46, 239, 55,
   202, 63, 221, 10, 111, 43, 85, 131, 92, 117, 13, 172, 78, 182, 101, 57, 208, 85, 80, 169, 102, 191, 170, 178, 91,
   85, 94, 183, 43, 59, 53, 123, 195, 153, 91, 37, 23, 122, 119, 211, 171, 159, 155, 221, 178, 117, 3, 90, 223, 108,
   193, 65, 11, 23, 202, 211, 46, 100, 173, 40, 249, 224, 122, 126, 91, 115, 102, 96, 40, 177, 131, 230, 202, 122,
   214, 190, 23, 122, 239, 255, 169, 255, 215, 246, 46, 80, 140, 207, 44, 9, 126, 22, 255, 71, 195, 179, 224, 161,
   140, 17, 10, 241, 200, 255, 15, 128, 229, 134, 15, 31, 195, 26, 19, 197, 81, 244, 143, 231, 127, 87, 198, 97, 28,
   68, 24, 17, 218, 63, 255, 105, 28, 79, 162, 175, 100, 255, 235, 197, 125, 29, 251, 119, 207, 134, 15, 181, 191,
   117, 231, 31, 218, 31, 147, 43, 251, 99, 203, 23, 95, 204, 255, 191, 168, 253, 127, 253, 165, 59, 30, 232, 205,
   24, 24, 141, 24, 49, 98, 196, 79, 133, 138, 73, 81, 128, 54, 31, 153, 4, 250, 183, 252, 47, 181, 207, 255, 235,
   243, 127, 136, 162, 241, 252, 255, 168, 252, 207, 49, 78, 62, 228, 37, 190, 31, 179, 19, 199, 4, 195, 182, 127,
   71, 208, 199, 215, 46, 69, 180, 97, 36, 162, 78, 199, 51, 40, 194, 164, 8, 211, 136, 35, 158, 102, 9, 137, 195,
   32, 103, 22, 65, 145, 101, 24, 138, 40, 103, 113, 68, 0, 17, 128, 60, 36, 44, 12, 40, 10, 8, 101, 16, 6, 5, 9, 81,
   26, 31, 210, 31, 239, 79, 247, 71, 30, 68, 167, 247, 6, 79, 10, 18, 228, 81, 130, 41, 73, 146, 132, 71, 9, 195,
   128, 82, 148, 21, 25, 216, 225, 121, 158, 7, 113, 138, 146, 128, 16, 27, 98, 242, 56, 192, 65, 132, 138, 52, 7,
   74, 35, 32, 121, 156, 164, 252, 199, 131, 119, 193, 249, 179, 144, 133, 154, 153, 55, 115, 111, 124, 138, 138, 12,
   103, 4, 97, 156, 101, 5, 205, 114, 91, 69, 105, 10, 105, 206, 89, 66, 105, 154, 96, 28, 0, 164, 25, 205, 16, 229,
   56, 38, 56, 33, 73, 84, 216, 200, 134, 242, 32, 10, 8, 134, 126, 124, 207, 229, 127, 222, 63, 199, 254, 151, 139,
   252, 28, 255, 199, 244, 54, 254, 183, 225, 192, 232, 255, 143, 178, 255, 106, 163, 180, 153, 119, 201, 206, 231,
   122, 183, 230, 167, 55, 50, 125, 70, 119, 222, 202, 157, 84, 175, 242, 234, 77, 206, 252, 152, 46, 245, 14, 87,
   113, 121, 75, 187, 155, 85, 61, 39, 136, 68, 207, 8, 219, 207, 31, 8, 125, 235, 62, 191, 117, 191, 99, 148, 49,
   98, 196, 136, 17, 255, 19, 252, 13, 154, 178, 232, 183, 0, 34, 0, 0]

def mirrorArchive : Bytes :=
  [31, 139, 8, 0, 0, 0, 0, 0, 0, 255, 237, 152, 91, 111, 155, 48, 20, 199, 121, 230, 83, 48, 246, 184, 150, 248, 130,
   13, 84, 202, 167, 216, 222, 162, 40, 242, 181, 113, 10, 152, 129, 179, 45, 170, 250, 221, 103, 104, 90, 181, 105,
   213, 61, 37, 89, 84, 255, 132, 140, 175, 28, 200, 209, 223, 241, 57, 155, 238, 46, 115, 182, 169, 163, 35, 2, 60,
   52, 207, 167, 187, 231, 240, 14, 48, 133, 207, 245, 125, 127, 129, 41, 141, 64, 116, 2, 182, 131, 99, 125, 146,
   68, 159, 148, 69, 163, 28, 91, 198, 131, 88, 171, 134, 173, 126, 169, 126, 48, 182, 77, 230, 73, 10, 51, 144, 198,
   70, 142, 85, 219, 223, 102, 124, 144, 118, 200, 180, 181, 46, 141, 95, 207, 26, 231, 181, 172, 81, 99, 243, 113,
   124, 33, 108, 211, 49, 103, 184, 169, 141, 219, 45, 227, 105, 237, 74, 88, 169, 198, 121, 171, 198, 76, 75, 191,
   255, 220, 154, 190, 87, 117, 26, 235, 94, 41, 63, 231, 105, 0, 146, 12, 166, 49, 235, 197, 218, 183, 22, 41, 107,
   119, 233, 50, 94, 244, 219, 214, 153, 70, 45, 99, 183, 235, 38, 91, 27, 102, 252, 90, 213, 186, 126, 215, 89, 211,
   186, 177, 111, 182, 29, 250, 89, 109, 5, 171, 103, 220, 180, 179, 253, 235, 116, 170, 111, 204, 48, 190, 242, 176,
   140, 163, 192, 75, 54, 94, 255, 155, 193, 182, 231, 212, 63, 0, 232, 173, 254, 73, 30, 244, 127, 2, 238, 31, 130,
   6, 62, 51, 29, 219, 213, 150, 201, 204, 139, 224, 92, 250, 39, 175, 247, 130, 177, 14, 1, 200, 97, 208, 255, 9,
   240, 127, 147, 71, 183, 225, 157, 9, 10, 66, 62, 216, 255, 65, 4, 115, 191, 229, 67, 128, 232, 126, 255, 167, 69,
   17, 145, 75, 242, 255, 225, 199, 93, 142, 255, 167, 99, 210, 81, 253, 239, 229, 252, 161, 255, 33, 58, 240, 63,
   244, 251, 197, 133, 233, 255, 66, 253, 255, 245, 203, 116, 82, 30, 214, 225, 96, 28, 8, 4, 2, 159, 138, 134, 181,
   70, 171, 193, 29, 51, 9, 240, 175, 248, 159, 66, 244, 230, 252, 159, 3, 18, 206, 255, 167, 136, 255, 227, 36, 73,
   181, 169, 213, 144, 222, 36, 11, 223, 72, 146, 251, 169, 244, 221, 99, 182, 206, 247, 166, 155, 125, 142, 56, 189,
   122, 26, 25, 214, 12, 17, 58, 142, 73, 174, 116, 94, 234, 188, 34, 18, 200, 138, 151, 168, 200, 177, 96, 30, 172,
   57, 135, 74, 19, 193, 10, 130, 20, 64, 74, 137, 28, 177, 28, 83, 128, 17, 101, 42, 199, 26, 229, 160, 42, 210,
   233, 145, 15, 87, 239, 91, 126, 17, 157, 190, 103, 188, 212, 8, 11, 82, 66, 138, 202, 178, 148, 164, 100, 80, 129,
   10, 112, 205, 149, 55, 47, 133, 192, 69, 5, 74, 140, 144, 15, 49, 101, 129, 33, 38, 64, 87, 66, 81, 74, 20, 18,
   69, 89, 201, 143, 141, 243, 173, 169, 229, 181, 105, 181, 205, 220, 31, 247, 158, 125, 10, 52, 135, 28, 1, 8, 57,
   215, 148, 11, 223, 4, 85, 165, 42, 33, 89, 73, 105, 85, 66, 136, 149, 170, 56, 229, 128, 74, 88, 32, 88, 162, 146,
   104, 31, 217, 80, 137, 9, 70, 80, 237, 237, 251, 114, 25, 159, 41, 15, 243, 250, 35, 207, 163, 127, 72, 223, 198,
   255, 62, 28, 8, 250, 63, 149, 255, 87, 107, 59, 184, 249, 148, 166, 191, 238, 238, 110, 229, 115, 70, 126, 159,
   233, 159, 111, 219, 187, 214, 254, 110, 15, 50, 249, 243, 167, 20, 126, 252, 248, 148, 49, 63, 239, 127, 205, 166,
   155, 35, 128, 200, 53, 128, 254, 250, 1, 192, 205, 116, 125, 155, 202, 16, 101, 4, 2, 129, 192, 127, 194, 95, 201,
   251, 89, 5, 0, 32, 0, 0]

/-- What the decoders and the hash make of these packages. -/
def packedCodecs : Codecs where
  entries b :=
    if b = packedArchive then .ok (asEntries (packedMembers packedJson))
    else if b = mirrorArchive then .ok (asEntries (packedMembers "\x7b\x7d"))
    else .error "invalid gzip header"
  manifest b := if b = bytesOf packedListing then .ok packedManifest else .error "expected value at line 1 column 1"
  utf8 := footCodecs.utf8
  toml := footCodecs.toml
  sha256 b :=
    if b = bytesOf footToml then tomlSha
    else if b = packedPayload then payloadSha
    else if b = bytesOf packedInfo then infoSha
    else if b = bytesOf packedJson then jsonSha
    else objectSha

def packedLibraries : Libraries Nodes where
  setPath rel := if (display rel).utf8ByteSize ≤ 100 then .ok () else .error "provided value is too long"
  payloadTar entries := if entries = packedEntries then packedPayload else []
  manifestJson manifest := if manifest = packedManifest then .ok (bytesOf packedListing) else .error "not the manifest"
  descriptorJson tomlStr := if tomlStr = footToml then .ok (bytesOf packedJson) else .error "not the descriptor"
  archive written := if written = packedMembers packedJson then packedArchive else []
  unpack bytes dest nodes :=
    if bytes = packedPayload then .ok (extract dest packedEntries nodes) else .error "failed to iterate over archive"

/-- The source directory of the package. -/
def packedMachine : Machine where
  cwd := []
  nodes := (((((∅ : Nodes).insert [] .dir).insert ["src"] .dir).insert ["src", "jpk.toml"]
    (.file (bytesOf footToml))).insert ["src", "payload"] .dir).insert ["src", "payload", "bin"] .dir |>.insert
    ["src", "payload", "bin", "foot"] (.file (bytesOf "#!/bin/sh\n"))
  written := []

/-- How the hashed contents begin tells them apart. -/
theorem packed_heads : (bytesOf footToml).take 2 = [91, 109] ∧ packedPayload.take 2 = [98, 105] ∧
    (bytesOf packedInfo).take 2 = [98, 117] ∧ (bytesOf packedJson).take 2 = [123, 10] ∧
    (bytesOf "\x7b\x7d").take 2 = [123, 125] := by
  refine ⟨?_, ?_, ?_, ?_, ?_⟩ <;> decide +kernel

theorem ne_of_heads {bytes bytes' head head' : Bytes} (begins : bytes.take 2 = head) (begins' : bytes'.take 2 = head')
    (differ : head ≠ head') : bytes ≠ bytes' := by
  rintro rfl
  exact differ (begins.symm.trans begins')

theorem packed_hashes : packedCodecs.sha256 (bytesOf footToml) = tomlSha ∧
    packedCodecs.sha256 packedPayload = payloadSha ∧ packedCodecs.sha256 (bytesOf packedInfo) = infoSha ∧
    packedCodecs.sha256 (bytesOf packedJson) = jsonSha ∧ packedCodecs.sha256 (bytesOf "\x7b\x7d") = objectSha := by
  obtain ⟨toml, payload, info, json, object⟩ := packed_heads
  refine ⟨if_pos rfl, ?_, ?_, ?_, ?_⟩
  · exact (if_neg (ne_of_heads payload toml (by decide))).trans (if_pos rfl)
  · exact (if_neg (ne_of_heads info toml (by decide))).trans
      ((if_neg (ne_of_heads info payload (by decide))).trans (if_pos rfl))
  · exact (if_neg (ne_of_heads json toml (by decide))).trans
      ((if_neg (ne_of_heads json payload (by decide))).trans
        ((if_neg (ne_of_heads json info (by decide))).trans (if_pos rfl)))
  · exact (if_neg (ne_of_heads object toml (by decide))).trans
      ((if_neg (ne_of_heads object payload (by decide))).trans
        ((if_neg (ne_of_heads object info (by decide))).trans (if_neg (ne_of_heads object json (by decide)))))

theorem packed_manifest : buildManifest packedCodecs footToml packedPayload packedInfo = packedManifest := by
  obtain ⟨toml, payload, info, _⟩ := packed_hashes
  simp only [buildManifest, sha256Hex, toml, payload, info]
  rfl

theorem packed_lookups : packedMachine.node "src/jpk.toml" = some (.file (bytesOf footToml)) ∧
    packedMachine.node "src/payload" = some .dir ∧ packedMachine.node "foot.jpk" = none := by
  have places : resolve [] "src/jpk.toml" = ["src", "jpk.toml"] ∧ resolve [] "src/payload" = ["src", "payload"] ∧
      resolve [] "foot.jpk" = ["foot.jpk"] := by decide +kernel
  obtain ⟨toml, payload, package⟩ := places
  refine ⟨?_, ?_, ?_⟩
  · rw [Machine.node_at toml]
    simp [packedMachine, Finmap.lookup_insert_of_ne]
  · rw [Machine.node_at payload]
    simp [packedMachine, Finmap.lookup_insert_of_ne]
  · rw [Machine.node_at package]
    simp [packedMachine, Finmap.lookup_insert_of_ne]

theorem packed_payload : Can (builder packedLibraries) () (buildPayloadTar packedLibraries (join "src" "payload")).run
    packedMachine fun r u => r = .ok packedPayload ∧ u = packedMachine := by
  refine Can.through (can_ask (.walkDir _) [Except.ok [], Except.ok ["bin"], Except.ok ["bin", "foot"]] ?_) ?_
  · decide +kernel
  · have packs : Can (builder packedLibraries) () (packEntries packedLibraries (join "src" "payload")
        [.ok [], .ok ["bin"], .ok ["bin", "foot"]]).run packedMachine fun r u => r = .ok packedEntries ∧ u = packedMachine := by
      obtain ⟨moments, r, m', exec, checked⟩ := play_check (S := builder packedLibraries) (a := ())
        (p := (packEntries packedLibraries (join "src" "payload") [.ok [], .ok ["bin"], .ok ["bin", "foot"]]).run)
        (w := packedMachine) [⟨.metadata "src/payload/bin", .ok ⟨true, false, 3, 16877, 0, 0, 1735689600⟩⟩,
          ⟨.metadata "src/payload/bin/foot", .ok ⟨false, true, 10, 33261, 0, 0, 1735689600⟩⟩,
          ⟨.openFile "src/payload/bin/foot", .ok ()⟩, ⟨.readFile "src/payload/bin/foot", .ok (bytesOf "#!/bin/sh\n")⟩]
        (fun out => decide (out.2.1.toOption = some packedEntries)) (by decide +kernel)
      refine ⟨moments, r, m', exec, ?_, (exec_looks exec (packEntries_only _ _)).symm⟩
      cases r with
      | error e => cases of_decide_eq_true checked
      | ok entries => exact congrArg Except.ok (Option.some.inj (of_decide_eq_true checked))
    refine packs.through (.ret ⟨congrArg Except.ok ?_, rfl⟩)
    simp only [packedLibraries, if_true]

/-- The package can be built. -/
theorem packed_builds : Can (builder packedLibraries) () (runBuild packedCodecs packedLibraries "src" "foot.jpk").run
    packedMachine fun r u => r = .ok () ∧ u.written = packedMembers packedJson ∧
      u.node "foot.jpk" = some (.file (packedLibraries.archive u.written)) := by
  obtain ⟨toml, payload, free⟩ := packed_lookups
  have paths : join "src" "jpk.toml" = "src/jpk.toml" ∧ join "src" "payload" = "src/payload" := by decide
  have descriptor : packedLibraries.descriptorJson footToml = .ok (bytesOf packedJson) := by
    simp only [packedLibraries, if_true]
  have manifest : packedLibraries.manifestJson (buildManifest packedCodecs footToml packedPayload packedInfo) =
      .ok (bytesOf packedListing) := by
    rw [packed_manifest]
    simp only [packedLibraries, if_true]
  have decoded : packedCodecs.toml footToml = .ok footDescriptor := by
    simp only [packedCodecs, footCodecs, if_true]
  refine @can_runBuild packedCodecs packedLibraries packedMachine "src" "foot.jpk" footToml "2025-01-01T00:00:00+00:00"
    footDescriptor packedPayload (bytesOf packedJson) (bytesOf packedListing) ?_ decoded ?_ ?_ packed_payload manifest
    descriptor ?_
  · rw [paths.1]
    exact Machine.shows_of toml (decide_eq_true rfl)
  · decide +kernel
  · rw [paths.2]
    exact Machine.shows_of payload rfl
  · rw [free]
    simp

/-- A disk with the package whose jpk.json was replaced. -/
def mirrorDisk : Disk where
  files path := if path = "mirror.jpk" then some mirrorArchive else none

theorem mirror_tampered :
    Tampered (contentsOf (packedMembers packedJson)) (contentsOf (packedMembers "\x7b\x7d")) ∧
      NoCollision packedCodecs (contentsOf (packedMembers packedJson)) (contentsOf (packedMembers "\x7b\x7d")) := by
  obtain ⟨_, json, _, listing, _⟩ := lookup_packaged (packedMembers packedJson) rfl
  obtain ⟨_, object, _, listing', _⟩ := lookup_packaged (packedMembers "\x7b\x7d") rfl
  obtain ⟨_, _, _, jsonHash, objectHash⟩ := packed_hashes
  have differ : jsonSha ≠ objectSha := by decide
  refine ⟨⟨listing'.trans listing.symm, "jpk.json", by decide, ?_⟩, ?_⟩
  · rw [json, object]
    intro same
    rw [Option.some.inj same, jsonHash] at objectHash
    exact differ objectHash
  · intro name data data' here here' same
    by_cases mirrored : name = "jpk.json"
    · subst mirrored
      cases json.symm.trans here
      cases object.symm.trans here'
      rw [jsonHash, objectHash] at same
      exact absurd same differ
    · have agree : (contentsOf (packedMembers packedJson)).lookup name =
          (contentsOf (packedMembers "\x7b\x7d")).lookup name := lookup_packaged_other mirrored
      exact Option.some.inj (here.symm.trans (agree.trans here'))

/-- What the decoders make of both packages. -/
theorem packed_decodes : packedCodecs.entries packedArchive = .ok (asEntries (packedMembers packedJson)) ∧
    packedCodecs.entries mirrorArchive = .ok (asEntries (packedMembers "\x7b\x7d")) := by
  have other : mirrorArchive ≠ packedArchive := by decide
  simp only [packedCodecs, if_true, if_neg other, and_self]

theorem packed_json (manifest : ManifestJson) (bytes : Bytes) (encoded : packedLibraries.manifestJson manifest = .ok bytes) :
    packedCodecs.manifest bytes = .ok manifest := by
  simp only [packedLibraries] at encoded
  split at encoded
  · rename_i same
    cases encoded
    subst same
    simp only [packedCodecs, if_true]
  · cases encoded

theorem tampering_rejected_mirror :
    (∀ moments r d', Exec tool () (runVerify packedCodecs "mirror.jpk").run mirrorDisk moments r d' →
      ∃ e, r = .error (.failed e)) ↔
      ∃ name ∈ ["jpk.toml", "payload.tar", "build-info.txt"],
        (contentsOf (packedMembers "\x7b\x7d")).lookup name ≠ (contentsOf (packedMembers packedJson)).lookup name := by
  obtain ⟨moments, r, m', exec, rfl, written, stored⟩ := packed_builds
  obtain ⟨tampered, distinct⟩ := mirror_tampered
  obtain ⟨entries, entries'⟩ := packed_decodes
  have archive : packedLibraries.archive m'.written = packedArchive := by
    rw [written]
    simp only [packedLibraries, if_true]
  refine tampering_rejected_iff exec ?_ packed_json stored ?_ ?_ (members_asEntries entries') tampered distinct
  · rw [archive, written]
    exact entries
  · rw [archive]
    exact members_asEntries entries
  · simp only [mirrorDisk, if_true]

/-- The package whose jpk.json was replaced is verified. -/
theorem mirror_unnoticed : ∃ moments m' archive,
    Exec (builder packedLibraries) () (runBuild packedCodecs packedLibraries "src" "foot.jpk").run packedMachine moments
      (.ok ()) m' ∧ m'.node "foot.jpk" = some (.file archive) ∧
    members packedCodecs archive = .ok (contentsOf (packedMembers packedJson)) ∧
    mirrorDisk.files "mirror.jpk" = some mirrorArchive ∧
    members packedCodecs mirrorArchive = .ok (contentsOf (packedMembers "\x7b\x7d")) ∧
    Tampered (contentsOf (packedMembers packedJson)) (contentsOf (packedMembers "\x7b\x7d")) ∧
    NoCollision packedCodecs (contentsOf (packedMembers packedJson)) (contentsOf (packedMembers "\x7b\x7d")) ∧
    ∃ seen d', Exec tool () (runVerify packedCodecs "mirror.jpk").run mirrorDisk seen (.ok ()) d' := by
  obtain ⟨moments, r, m', exec, rfl, written, stored⟩ := packed_builds
  obtain ⟨tampered, distinct⟩ := mirror_tampered
  obtain ⟨entries, entries'⟩ := packed_decodes
  have archive : packedLibraries.archive m'.written = packedArchive := by
    rw [written]
    simp only [packedLibraries, if_true]
  rw [archive] at stored
  have there : mirrorDisk.files "mirror.jpk" = some mirrorArchive := by simp only [mirrorDisk, if_true]
  have decodes := members_asEntries entries'
  obtain ⟨toml, _, payload, listing, info⟩ := lookup_packaged (packedMembers "\x7b\x7d") rfl
  have parsed : packedCodecs.manifest (bytesOf packedListing) =
      .ok (buildManifest packedCodecs footToml packedPayload packedInfo) := by
    rw [packed_manifest]
    simp only [packedCodecs, if_true]
  have accepted : (buildManifest packedCodecs footToml packedPayload packedInfo).files.all
      (matched packedCodecs (contentsOf (packedMembers "\x7b\x7d"))) = true := by
    simp only [buildManifest, List.all_cons, List.all_nil, matched_own toml, matched_own payload, matched_own info,
      Bool.and_self]
  exact ⟨moments, m', packedArchive, exec, stored, members_asEntries entries, there, decodes, tampered, distinct,
    verify_accepts there decodes listing parsed (buildManifest_hashed _ _ _) accepted⟩

end Bsdos.Pkgd
