import Bsdos.Run.Contained
import Bsdos.Run.Discover
import Bsdos.Run.Jpk

namespace Bsdos.Run
open Files Octets Plist Toml

/-- What stops a run: unpacking and looking around, or a property list. -/
inductive Halted
  | run (e : Run.RunError)
  | plist (e : Plist.RunError)

def readInfoPlist (t : Tree) (cwd : Place) (path : String) : Except Plist.RunError BundleInfo :=
  match t.lookup cwd path with
  | some (.file content _) => parseInfoPlistBytes content
  | _ => .error (.plist ("cannot read " ++ path))

def readMobileprovision (t : Tree) (cwd : Place) (path : String) : Except Plist.RunError Entitlements :=
  match t.lookup cwd path with
  | some (.file content _) => parseMobileprovision content
  | _ => .error (.plist ("cannot read " ++ path))

/-- The run of an extracted application that is asked for a descriptor: it ends with writing the file. -/
def runIpa (t : Tree) (cwd : Place) (extractDir : String) (readDir : String → List String) (outPath : String) :
    Except Halted Tree := do
  let (appDir, _) ← (findBinary t cwd extractDir (readDir (join extractDir "Payload"))).mapError .run
  let bundleInfo ← (readInfoPlist t cwd (join appDir "Info.plist")).mapError .plist
  let provisionPath := join appDir "embedded.mobileprovision"
  -- a profile that cannot be read is passed over
  let provision := if isFile t cwd provisionPath then (readMobileprovision t cwd provisionPath).toOption else none
  let policy := policyFromEntitlements bundleInfo provision
  let descriptor := ipaToJpkDescriptor bundleInfo policy
  match t.createFile (resolve cwd outPath) (utf8 descriptor.toList) 0o644 with
  | some t => return t
  | none => throw (.run (.ipa ("cannot write jpk descriptor to " ++ outPath)))

def entrypoint (doc : Table) : Option Value := (doc.lookup "runtime").bind fun runtime =>
  match runtime with
  | .table fields => fields.lookup "entrypoint"
  | _ => none

/-- The text is that of a descriptor with this entrypoint, which is what is read from it. -/
structure Writes (text entry : String) : Prop where
  written : ∃ comments sections, text = documentText comments sections ∧
    (sections.lookup "runtime").bind (·.lookup "entrypoint") = some (.string entry)
  read : ∀ toml : Library, toml.Conforming → ∀ doc, toml.parse text = some doc → entrypoint doc = some (.string entry)

theorem ipaToJpkDescriptor_writes (bundle : BundleInfo) (policy : JailPolicy) :
    Writes (ipaToJpkDescriptor bundle policy) bundle.bundleExecutable := by
  refine ⟨⟨_, _, ipaToJpkDescriptor_text bundle policy, rfl⟩, fun toml conforming doc parsed => ?_⟩
  cases produced_parse conforming parsed
  rfl

/-- The Info.plist of the application is a file that names its executable. -/
def NamesExecutable (t : Tree) (cwd : Place) (appDir : String) : Prop :=
  ∃ content mode name, t.lookup cwd (join appDir "Info.plist") = some (.file content mode) ∧ readBundleExecutable content = some name

/-- The two readers of Info.plist look for the executable in the same way, but have different defaults. -/
theorem parseInfoPlistBytes_executable {content : List UInt8} {bundle : BundleInfo} (read : parseInfoPlistBytes content = .ok bundle) :
    bundle.bundleExecutable = (readBundleExecutable content).getD "AppBinary" := by
  unfold parseInfoPlistBytes at read
  unfold readBundleExecutable
  split at read
  · rename_i binary
    obtain ⟨root, parsed, made⟩ := Results.bind_ok read
    cases Except.ok.inj made
    rw [if_pos binary, parsed]
    rfl
  · rename_i text
    cases Except.ok.inj read
    rw [if_neg text]
    rfl

theorem fileStem_default {payload name : String} (app : isAppName name = true) (free : '/' ∉ name.toList) :
    '/' ∉ (fileStem (join payload name)).toList ∧ (fileStem (join payload name) = "AppBinary" ↔ name = "AppBinary.app") := by
  obtain ⟨front, rfl⟩ := isAppName_shape app
  have free' : '/' ∉ front := fun inside => free (by rw [String.toList_ofList]; exact List.mem_append_left _ inside)
  by_cases filled : front = []
  · subst filled
    show '/' ∉ (fileStem (join payload ".app")).toList ∧ (fileStem (join payload ".app") = "AppBinary" ↔ ".app" = "AppBinary.app")
    rw [join_plain (show '/' ∉ ".app".toList by decide), fileStem_bare]
    decide
  · have whole : "AppBinary" = String.ofList ['A', 'p', 'p', 'B', 'i', 'n', 'a', 'r', 'y'] ∧
        "AppBinary.app" = String.ofList (['A', 'p', 'p', 'B', 'i', 'n', 'a', 'r', 'y'] ++ ['.', 'a', 'p', 'p']) := by decide
    rw [join_plain free, fileStem_app free' filled, String.toList_ofList, whole.1, whole.2, String.ofList_inj, String.ofList_inj,
      List.append_left_inj]
    exact ⟨free', Iff.rfl⟩

/-- The two readings of Info.plist name one file exactly if it names one, or the default is the directory's own name. -/
theorem executable_joined {t : Tree} {cwd : Place} {payload name : String} {readDir : String → List String} {bundle : BundleInfo}
    (listed : Lists t cwd readDir) (member : name ∈ (readDir payload).filter (isAppDir t cwd payload))
    (read : readInfoPlist t cwd (join (join payload name) "Info.plist") = .ok bundle) :
    join (join payload name) bundle.bundleExecutable = join (join payload name) (execName t cwd (join payload name)) ↔
      name = "AppBinary.app" ∨ NamesExecutable t cwd (join payload name) := by
  obtain ⟨inside, app⟩ := List.mem_filter.mp member
  simp only [isAppDir, Bool.and_eq_true] at app
  obtain ⟨free, default⟩ := @fileStem_default payload name app.2 (listed.plain _ name inside)
  unfold readInfoPlist at read
  split at read
  · rename_i content mode file
    rw [parseInfoPlistBytes_executable read, execName]
    simp only [file]
    cases named : readBundleExecutable content with
    | some executable => exact iff_of_true rfl (.inr ⟨content, mode, executable, file, named⟩)
    | none =>
      have unnamed : ¬ NamesExecutable t cwd (join payload name) := by
        rintro ⟨content', mode', executable, file', named'⟩
        cases Option.some.inj (file.symm.trans file')
        exact absurd (named.symm.trans named') (by simp)
      rw [or_iff_left unnamed, ← default]
      exact ⟨fun same => (join_plain_inj (by decide) free same).symm, fun same => by rw [Option.getD_none, Option.getD_none, same]⟩
  · cases read

/-- What a run that succeeds has found, read and written. -/
theorem runIpa_ok {t t' : Tree} {cwd : Place} {extractDir outPath : String} {readDir : String → List String}
    (ran : runIpa t cwd extractDir readDir outPath = .ok t') :
    ∃ appDir binary bundle policy, findBinary t cwd extractDir (readDir (join extractDir "Payload")) = .ok (appDir, binary) ∧
      readInfoPlist t cwd (join appDir "Info.plist") = .ok bundle ∧
      t'.node (resolve cwd outPath) = some (.file (utf8 (ipaToJpkDescriptor bundle policy).toList) 0o644) := by
  obtain ⟨⟨appDir, binary⟩, found, ran⟩ := Results.bind_ok ran
  obtain ⟨bundleInfo, read, ran⟩ := Results.bind_ok ran
  generalize policyFromEntitlements bundleInfo _ = policy at ran
  dsimp only at ran
  split at ran
  · rename_i after written
    cases Except.ok.inj ran
    obtain ⟨last, place, added⟩ := Option.bind_eq_some_iff.mp written
    have node := (Tree.add_node added).2.2 (resolve cwd outPath)
    have here : resolve cwd outPath = (resolve cwd outPath).dropLast ++ [last] := (List.dropLast_append_getLast? last place).symm
    rw [if_pos here] at node
    exact ⟨appDir, binary, bundleInfo, _, Results.mapError_ok.mp found, Results.mapError_ok.mp read, node⟩
  · cases ran

/-- The entrypoint that is written is the executable that was found exactly if Info.plist names one, or the
directory happens to have the name of the default. -/
theorem entrypoint_found_iff {t t' : Tree} {cwd : Place} {extractDir outPath name : String} {readDir : String → List String}
    (listed : Lists t cwd readDir)
    (first : ((readDir (join extractDir "Payload")).filter (isAppDir t cwd (join extractDir "Payload"))).head? = some name)
    (ran : runIpa t cwd extractDir readDir outPath = .ok t') :
    ∃ appDir binary text entry, appDir = join (join extractDir "Payload") name ∧
      findBinary t cwd extractDir (readDir (join extractDir "Payload")) = .ok (appDir, binary) ∧
      t'.node (resolve cwd outPath) = some (.file (utf8 text.toList) 0o644) ∧ Writes text entry ∧
      (join appDir entry = binary ↔ name = "AppBinary.app" ∨ NamesExecutable t cwd appDir) := by
  obtain ⟨appDir, binary, bundle, policy, found, read, node⟩ := runIpa_ok ran
  obtain ⟨head, rfl⟩ := findBinary_first found
  rw [appDirs, List.head?_map, first] at head
  cases Option.some.inj head
  exact ⟨_, _, _, _, rfl, found, node, ipaToJpkDescriptor_writes bundle policy,
    executable_joined listed (List.mem_of_head? first) read⟩

/-- An extracted application with this text in its Info.plist. -/
def bundled (plist : String) : List (Place × Node) :=
  [([], .dir), (["x"], .dir), (["x", "Payload"], .dir), (["x", "Payload", "App.app"], .dir),
    (["x", "Payload", "App.app", "App"], .file [] 0o755),
    (["x", "Payload", "App.app", "Info.plist"], .file (utf8 plist.toList) 0o644)]

theorem bundled_inventory (plist : String) : Inventory (bundled plist) := by
  constructor
  · have places : (bundled plist).map Prod.fst = (bundled "").map Prod.fst := rfl
    rw [places]
    decide
  · exact List.mem_cons_self
  · simp [bundled]
  · simp only [bundled, List.forall_mem_cons, List.not_mem_nil, false_imp_iff, implies_true, and_true]
    decide

def named : String := "<key>CFBundleExecutable</key>\n<string>App</string>\n"

theorem entrypoint_found_named : let t := treeOf (bundled named) (bundled_inventory named)
    ∃ (t' : Tree) (text entry : String), runIpa t [] "/x" (readDirOf t (bundled named)) "/x/jpk.toml" = .ok t' ∧
      t'.node (resolve [] "/x/jpk.toml") = some (.file (utf8 text.toList) 0o644) ∧ Writes text entry ∧
      findBinary t [] "/x" (readDirOf t (bundled named) "/x/Payload") = .ok (("/x/Payload/App.app", join "/x/Payload/App.app" entry)) := by
  intro t
  have runs : (runIpa t [] "/x" (readDirOf t (bundled named)) "/x/jpk.toml").toBool = true := by decide +kernel
  have payload : join "/x" "Payload" = "/x/Payload" ∧ join "/x/Payload" "App.app" = "/x/Payload/App.app" := by decide
  have first : ((readDirOf t (bundled named) (join "/x" "Payload")).filter (isAppDir t [] (join "/x" "Payload"))).head? =
      some "App.app" := by decide +kernel
  have names : NamesExecutable t [] "/x/Payload/App.app" :=
    ⟨utf8 named.toList, 0o644, "App", by decide +kernel, by decide +kernel⟩
  cases ran : runIpa t [] "/x" (readDirOf t (bundled named)) "/x/jpk.toml" with
  | error e =>
    rw [ran] at runs
    cases runs
  | ok t' =>
    obtain ⟨appDir, binary, text, entry, rfl, found, node, writes, same⟩ :=
      entrypoint_found_iff (readDirOf_lists (bundled_inventory named)) first ran
    rw [payload.1, payload.2] at found same
    exact ⟨t', text, entry, rfl, node, writes, by rw [found, same.mpr (.inr names)]⟩

/-- An application that is found by the name of its directory, since its Info.plist does not name an executable. -/
theorem entrypoint_elsewhere : let t := treeOf (bundled "<plist/>") (bundled_inventory "<plist/>")
    findBinary t [] "/x" (readDirOf t (bundled "<plist/>") "/x/Payload") =
      .ok ("/x/Payload/App.app", "/x/Payload/App.app/App") ∧
    ∃ (t' : Tree) (text : String), runIpa t [] "/x" (readDirOf t (bundled "<plist/>")) "/x/jpk.toml" = .ok t' ∧
      t'.node (resolve [] "/x/jpk.toml") = some (.file (utf8 text.toList) 0o644) ∧ Writes text "AppBinary" ∧
      join "/x/Payload/App.app" "AppBinary" ≠ "/x/Payload/App.app/App" := by
  intro t
  have runs : (runIpa t [] "/x" (readDirOf t (bundled "<plist/>")) "/x/jpk.toml").toBool = true := by decide +kernel
  have found : findBinary t [] "/x" (readDirOf t (bundled "<plist/>") "/x/Payload") =
      .ok ("/x/Payload/App.app", "/x/Payload/App.app/App") := by decide +kernel
  have paths : join "/x" "Payload" = "/x/Payload" ∧ join "/x/Payload/App.app" "AppBinary" ≠ "/x/Payload/App.app/App" := by decide
  cases ran : runIpa t [] "/x" (readDirOf t (bundled "<plist/>")) "/x/jpk.toml" with
  | error e =>
    rw [ran] at runs
    cases runs
  | ok t' =>
    obtain ⟨appDir, binary, bundle, policy, found', read, node⟩ := runIpa_ok ran
    rw [paths.1, found] at found'
    cases Except.ok.inj found'
    have default : (readInfoPlist t [] (join "/x/Payload/App.app" "Info.plist")).map (·.bundleExecutable) = .ok "AppBinary" := by
      decide +kernel
    rw [read] at default
    have name : bundle.bundleExecutable = "AppBinary" := Except.ok.inj default
    have writes := ipaToJpkDescriptor_writes bundle policy
    rw [name] at writes
    exact ⟨found, t', _, rfl, node, writes, paths.2⟩

end Bsdos.Run
